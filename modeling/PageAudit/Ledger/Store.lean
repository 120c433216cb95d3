import PageAudit.Files.Slot
import PageAudit.Json.Printer
import PageAudit.Json.Reader
import PageAudit.Ledger.Entry
import PageAudit.Text.Basic

/-!
# The ledger file

The file holds the entries in the order in which they were recorded, one for each process. A missing or blank
file holds none. A file that cannot be read is never written over.
-/

namespace PageAudit

open Document Files Text

/-- Why the ledger could not be read or written. -/
inductive LedgerError where
  | io (fault : FileFault)
  | format
  deriving DecidableEq, Repr

namespace Ledger

/-- Adds an entry in place of those of the same process. -/
def insert (entries : List LedgerEntry) (e : LedgerEntry) : List LedgerEntry :=
  entries.filter (·.pid != e.pid) ++ [e]

/-- Takes away the entries of a process. -/
def erase (entries : List LedgerEntry) (pid : Nat) : List LedgerEntry :=
  entries.filter (·.pid != pid)

/-- The text of a ledger. -/
def write (entries : List LedgerEntry) : String :=
  Json.indented (.list (entries.map LedgerEntry.data)) ++ "\n"

/-- The entries of a text. -/
def read? (s : String) : Option (List LedgerEntry) :=
  if isBlankText s then some []
  else Json.read? s >>= Data.list? LedgerEntry.ofData?

/-- The entries of the file. -/
def load (slot : Slot) : Except LedgerError (List LedgerEntry) :=
  match slot.content.read with
  | .error .notFound => .ok []
  | .error fault => .error (.io fault)
  | .ok s =>
    match read? s with
    | some entries => .ok entries
    | none => .error .format

/-- Replaces the file. -/
def save (slot : Slot) (entries : List LedgerEntry) : Except LedgerError Slot :=
  match slot.write (write entries) with
  | .ok slot => .ok slot
  | .error fault => .error (.io fault)

/-- Records a process. -/
def record (slot : Slot) (e : LedgerEntry) : Except LedgerError Slot := do
  save slot (insert (← load slot) e)

/-- Removes a process. A file without it stays as it is. -/
def remove (slot : Slot) (pid : Nat) : Except LedgerError Slot := do
  let entries ← load slot
  if entries.any (·.pid == pid) then save slot (erase entries pid) else return slot

/-- The name of the ledger file. -/
def fileName : String := "browser-processes.json"

end Ledger

end PageAudit
