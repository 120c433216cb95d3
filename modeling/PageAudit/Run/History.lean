import PageAudit.Files.Slot
import PageAudit.Json.Printer
import PageAudit.Json.Reader
import PageAudit.Run.State

/-!
# The history of runs

A file keeps the latest runs, the newest first, at most a hundred of them and each once. A file that cannot
be read counts as empty.
-/

namespace PageAudit

open Document Files

/-- The account of a run. -/
structure HistoryEntry where
  id : String
  createdAt : String
  jobCount : Nat
  succeeded : Nat
  failed : Nat
  cancelled : Nat
  finalState : RunState
  outputDir : String
  deriving DecidableEq, Repr

/-- An account in a document. -/
def HistoryEntry.data (e : HistoryEntry) : Data :=
  .map [("id", .str e.id), ("created_at", .str e.createdAt), ("job_count", .nat e.jobCount),
    ("succeeded", .nat e.succeeded), ("failed", .nat e.failed), ("cancelled", .nat e.cancelled),
    ("final_state", .str e.finalState.name), ("output_dir", .str e.outputDir)]

/-- Reads an account. -/
def HistoryEntry.ofData? (d : Data) : Option HistoryEntry := do
  let r ← d.record? ["id", "created_at", "job_count", "succeeded", "failed", "cancelled", "final_state",
    "output_dir"] .refused
  return {
    id := ← r.field? "id" Data.str?
    createdAt := ← r.field? "created_at" Data.str?
    jobCount := ← r.field? "job_count" (Data.word? 64)
    succeeded := ← r.field? "succeeded" (Data.word? 64)
    failed := ← r.field? "failed" (Data.word? 64)
    cancelled := ← r.field? "cancelled" (Data.word? 64)
    finalState := ← r.field? "final_state" RunState.ofData?
    outputDir := ← r.field? "output_dir" Data.str? }

namespace History

/-- The greatest number of accounts kept. -/
def limit : Nat := 100

/-- The name of the history file. -/
def fileName : String := "history.json"

/-- Puts an account first, in place of an older one of the same run. -/
def insert (entries : List HistoryEntry) (e : HistoryEntry) : List HistoryEntry :=
  (e :: entries.filter (·.id != e.id)).take limit

/-- The text of a history. -/
def write (entries : List HistoryEntry) : String :=
  Json.indented (.list (entries.map HistoryEntry.data)) ++ "\n"

/-- The accounts of a text. -/
def read? (s : String) : Option (List HistoryEntry) :=
  Json.read? s >>= Data.list? HistoryEntry.ofData?

/-- The accounts of the file, none if it cannot be read. -/
def load (slot : Slot) : List HistoryEntry :=
  match slot.content.read with
  | .ok s => (read? s).getD []
  | .error _ => []

/-- Records a run. -/
def record (slot : Slot) (e : HistoryEntry) : Except FileFault Slot :=
  slot.write (write (insert (load slot) e))

end History

end PageAudit
