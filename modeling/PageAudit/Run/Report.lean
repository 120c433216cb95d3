import PageAudit.Job.Result
import PageAudit.Pool.Report
import PageAudit.Progress.Summary
import PageAudit.Run.State
import PageAudit.Supervisor.Kills

/-!
# The report of a run

The results in plan order with the accounts of the events, the pool and the sweeps.
-/

namespace PageAudit

open Document

/-- The report of a run. -/
structure RunReport where
  runId : String
  state : RunState
  results : List Result
  summary : RunSummary
  pool : PoolReport
  cancelReason : Option String := none
  initialSweep : SweepReport := {}
  finalSweep : SweepReport := {}

namespace RunReport

/-- The number of results with a state. -/
def count (r : RunReport) (state : JobState) : Nat :=
  (r.results.filter (·.state == state)).length

/-- The number of jobs that succeeded. -/
def succeeded (r : RunReport) : Nat := r.count .succeeded

/-- The number of jobs that failed for good. -/
def failed (r : RunReport) : Nat := r.count .failedPermanent

/-- The number of jobs that were called off. -/
def cancelled (r : RunReport) : Nat := r.count .cancelled

/-- A report in a document. -/
def data (r : RunReport) : Data :=
  .map [("run_id", .str r.runId), ("state", .str r.state.name), ("results", .list (r.results.map Result.data)),
    ("summary", r.summary.data), ("pool", r.pool.data), ("cancel_reason", .ofOption .str r.cancelReason),
    ("initial_sweep", r.initialSweep.data), ("final_sweep", r.finalSweep.data)]

end RunReport

end PageAudit
