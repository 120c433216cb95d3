import PageAudit.Calendar.Stamp
import PageAudit.Document.Record

/-!
# Ledger entries

What is written down about a browser process so that a later run can end it.
-/

namespace PageAudit

open Document Calendar

/-- A process that was started. -/
structure LedgerEntry where
  pid : Nat
  jobId : String
  attempt : Nat
  runId : String
  launchedAt : Stamp
  deriving DecidableEq, Repr

/-- An entry in a document. -/
def LedgerEntry.data (e : LedgerEntry) : Data :=
  .map [("pid", .nat e.pid), ("job_id", .str e.jobId), ("attempt", .nat e.attempt), ("run_id", .str e.runId),
    ("launched_at", .str e.launchedAt.write)]

/-- Reads a stamp. -/
def stampOfData? (d : Data) : Option Stamp :=
  d.str? >>= Stamp.read?

/-- Reads an entry. -/
def LedgerEntry.ofData? (d : Data) : Option LedgerEntry := do
  let r ← d.record? ["pid", "job_id", "attempt", "run_id", "launched_at"] .refused
  return {
    pid := ← r.field? "pid" (Data.word? 32)
    jobId := ← r.field? "job_id" Data.str?
    attempt := ← r.field? "attempt" (Data.word? 32)
    runId := ← r.field? "run_id" Data.str?
    launchedAt := ← r.field? "launched_at" stampOfData? }

end PageAudit
