import PageAudit.Ledger.Store

/-!
# The ledger and its draft

Saving writes a draft beside the ledger and then gives it the ledger's name. Every step of a call may fail; what stands at
the ledger's place changes in the last one only.
-/

namespace PageAudit

open Files

/-- A call that changes the ledger. -/
inductive LedgerCall where
  | record (e : LedgerEntry)
  | remove (pid : Nat)
  deriving DecidableEq, Repr

/-- The process that the call is about. -/
def LedgerCall.pid : LedgerCall → Nat
  | .record e => e.pid
  | .remove pid => pid

/-- What the call does to the entries. -/
def LedgerCall.apply (entries : List LedgerEntry) : LedgerCall → List LedgerEntry
  | .record e => Ledger.insert entries e
  | .remove pid => Ledger.erase entries pid

/-- The call on a slot, where saving is one step. -/
def LedgerCall.onSlot (slot : Slot) : LedgerCall → Except LedgerError Slot
  | .record e => Ledger.record slot e
  | .remove pid => Ledger.remove slot pid

/-- The steps of a call that fail. -/
structure LedgerFaults where
  /-- Reading the ledger. One that is there is never said to be missing. -/
  reading : Option { fault : FileFault // fault ≠ .notFound } := none
  /-- Making the directory of the ledger. -/
  directory : Option FileFault := none
  /-- Writing the draft, with what then stands in its place. -/
  draft : Option (FileFault × Content) := none
  /-- Giving the draft the ledger's name. -/
  replacing : Option FileFault := none

/-- What stands at the ledger's place and at its draft's. -/
structure LedgerFolder where
  ledger : Content := .absent
  draft : Content := .absent
  deriving DecidableEq, Repr

namespace LedgerFolder

/-- The entries of the ledger. -/
def load (folder : LedgerFolder) (faults : LedgerFaults) : Except LedgerError (List LedgerEntry) :=
  match faults.reading with
  | some fault => .error (.io fault.val)
  | none => Ledger.load { content := folder.ledger }

/-- Gives the draft the ledger's name. A directory does not give way. -/
def rename (folder : LedgerFolder) (faults : LedgerFaults) : Except LedgerError Unit × LedgerFolder :=
  match faults.replacing with
  | some fault => (.error (.io fault), folder)
  | none =>
    if folder.ledger == .directory then (.error (.io .isDirectory), folder)
    else (.ok (), { ledger := folder.draft, draft := .absent })

/-- Replaces the ledger by way of the draft, which a directory in its place keeps from being written. -/
def save (folder : LedgerFolder) (faults : LedgerFaults) (entries : List LedgerEntry) :
    Except LedgerError Unit × LedgerFolder :=
  match faults.directory, faults.draft with
  | some fault, _ => (.error (.io fault), folder)
  | none, some (fault, remnant) => (.error (.io fault), { folder with draft := remnant })
  | none, none =>
    if folder.draft == .directory then (.error (.io .isDirectory), folder)
    else { folder with draft := .text (Ledger.write entries) : LedgerFolder }.rename faults

/-- One call: its result and the folder after it. -/
def perform (folder : LedgerFolder) (faults : LedgerFaults) (call : LedgerCall) :
    Except LedgerError Unit × LedgerFolder :=
  match folder.load faults with
  | .error fault => (.error fault, folder)
  | .ok entries =>
    match call with
    | .record _ => folder.save faults (call.apply entries)
    | .remove pid => if entries.any (·.pid == pid) then folder.save faults (call.apply entries) else (.ok (), folder)

/-- The folder after some calls. -/
def performAll (folder : LedgerFolder) : List (LedgerFaults × LedgerCall) → LedgerFolder
  | [] => folder
  | (faults, call) :: rest => (folder.perform faults call).2.performAll rest

/-- Those of some calls that return without an error. -/
def succeeding (folder : LedgerFolder) : List (LedgerFaults × LedgerCall) → List LedgerCall
  | [] => []
  | (faults, call) :: rest =>
    let done := folder.perform faults call
    if done.1.isOk then call :: done.2.succeeding rest else done.2.succeeding rest

end LedgerFolder

/-- A slot that cannot be written is one whose draft cannot be written. -/
def LedgerFaults.ofSlot (slot : Slot) : LedgerFaults :=
  { draft := if slot.writable then none else some (.denied, .absent) }

end PageAudit
