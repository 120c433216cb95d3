import PageAudit.Attempt.Error
import PageAudit.Document.Record
import PageAudit.Job.Basic

/-!
# Results

Every job ends with one result: what became of it, after how many attempts and how long. A result is written
to documents and read back from them.
-/

namespace PageAudit

open Document

/-- The scores of a page by category, sorted by name. -/
abbrev Metrics := List (String × Float)

/-- What a job came to. -/
inductive Outcome where
  | success (metrics : Metrics)
  | failure (kind : ErrorKind) (message : String)

/-- The final result of a job. -/
structure Result where
  jobId : String
  url : String
  planIndex : Nat
  state : JobState
  outcome : Outcome
  durationMs : Nat
  attemptsUsed : Nat

namespace Result

/-- The result of a job as it stands. -/
def ofJob (j : Job) (now : Nat) (state : JobState) (outcome : Outcome) : Result :=
  { jobId := j.id, url := j.url, planIndex := j.planIndex, state, outcome
    durationMs := j.elapsed now, attemptsUsed := j.attempt }

/-- The result of a job that got its scores. -/
def succeeded (j : Job) (now : Nat) (metrics : Metrics) : Result :=
  ofJob j now .succeeded (.success metrics)

/-- The result of a job that failed for good. -/
def failed (j : Job) (now : Nat) (kind : ErrorKind) (message : String) : Result :=
  ofJob j now .failedPermanent (.failure kind message)

/-- The result of a job that was called off. -/
def cancelled (j : Job) (now : Nat) (reason : String) : Result :=
  ofJob j now .cancelled (.failure .cancellation reason)

/-- A result with scores. -/
def isSuccess (r : Result) : Bool :=
  r.state == .succeeded

end Result

/-- A job in a document. -/
def Job.data (j : Job) : Data :=
  .map [("id", .str j.id), ("url", .str j.url), ("plan_index", .nat j.planIndex), ("state", .str j.state.name),
    ("attempt", .nat j.attempt)]

/-- Scores in a document. -/
def metricsData (metrics : Metrics) : Data :=
  .map (metrics.map fun (name, score) => (name, .float score))

/-- An outcome in a document: a map that names its case first. -/
def Outcome.data : Outcome → Data
  | .success metrics => .map [("status", .str "success"), ("metrics", metricsData metrics)]
  | .failure kind message =>
    .map [("status", .str "failure"), ("error_kind", .str kind.name), ("message", .str message)]

/-- A result in a document. -/
def Result.data (r : Result) : Data :=
  .map [("job_id", .str r.jobId), ("url", .str r.url), ("plan_index", .nat r.planIndex),
    ("state", .str r.state.name), ("outcome", r.outcome.data), ("duration_ms", .nat r.durationMs),
    ("attempts_used", .nat r.attemptsUsed)]

/-- A kind by its name. -/
def ErrorKind.ofData? : Data → Option ErrorKind :=
  Data.choice? (ErrorKind.all.map fun k => (k.name, k))

/-- A state by its name. -/
def JobState.ofData? : Data → Option JobState :=
  Data.choice? (JobState.all.map fun s => (s.name, s))

/-- Reads an outcome that stands `outer` levels deep. -/
def Outcome.ofData? (outer : Nat) (d : Data) : Option Outcome := do
  let (name, fields) ← d.tagged? "status" outer
  if name.str? == some "success" then
    let r ← fields.record? ["metrics"] .refused
    return .success (← r.field? "metrics" (Data.sortedMap? Data.real?))
  else if name.str? == some "failure" then
    let r ← fields.record? ["error_kind", "message"] .refused
    return .failure (← r.field? "error_kind" ErrorKind.ofData?) (← r.field? "message" Data.str?)
  else none

/-- Reads a result. -/
def Result.ofData? (d : Data) : Option Result := do
  let r ← d.record? ["job_id", "url", "plan_index", "state", "outcome", "duration_ms", "attempts_used"] .refused
  return {
    jobId := ← r.field? "job_id" Data.str?
    url := ← r.field? "url" Data.str?
    planIndex := ← r.field? "plan_index" (Data.word? 64)
    state := ← r.field? "state" JobState.ofData?
    outcome := ← r.field? "outcome" (Outcome.ofData? 1)
    durationMs := ← r.field? "duration_ms" (Data.word? 64)
    attemptsUsed := ← r.field? "attempts_used" (Data.word? 32) }

end PageAudit
