import PageAudit.Job.Basic

/-!
# Calls on a job

A call takes a step of its job statement by statement. One that breaks down keeps what its earlier statements did.
-/

namespace PageAudit

open Decimal

/-- Why a call breaks down. -/
inductive JobBreakdown where
  | refused (fault : JobFault)
  /-- The number of the attempt is no 32-bit word. -/
  | additionOverflow
  deriving DecidableEq, Repr

/-- The sentence for a breakdown. -/
def JobBreakdown.message : JobBreakdown → String
  | .refused fault => fault.message
  | .additionOverflow => "attempt to add with overflow"

/-- Statements on a job. -/
abbrev JobStatements := ExceptT JobBreakdown (StateM Job)

namespace JobStatements

/-- Moves to a state that the present one allows. -/
def moveTo (target : JobState) : JobStatements Unit := do
  let j ← get
  if !j.state.canBecome target then throw (.refused (.illegal j.state target))
  set { j with state := target }

/-- Counts one attempt more. -/
def count : JobStatements Unit := do
  let j ← get
  if wordMax 32 < j.attempt + 1 then throw .additionOverflow
  set { j with attempt := j.attempt + 1 }

/-- Begins an attempt and tells its number. -/
def begin (now : Nat) : JobStatements Nat := do
  moveTo .running
  count
  let j ← get
  set { j with startedAt := j.startedAt <|> some now }
  return j.attempt

/-- Counts one attempt less. Without any the job has not been begun. -/
def uncount : JobStatements Unit := do
  let j ← get
  set { j with attempt := j.attempt - 1 }
  let j ← get
  if j.attempt == 0 then set { j with startedAt := none }

/-- Gives the running attempt up without a result. -/
def yield : JobStatements Unit := do
  moveTo .queued
  uncount

/-- Enters a terminal state. -/
def finish (target : JobState) : JobStatements Unit := do
  if !target.isTerminal then throw (.refused (.notTerminal target))
  moveTo target

/-- Takes a step at a given time. Beginning an attempt tells its number. -/
def take (now : Nat) : JobStep → JobStatements (Option Nat)
  | .begin => return some (← begin now)
  | .yield => do
    yield
    return none
  | .awaitRetry => do
    moveTo .awaitingRetry
    return none
  | .finish target => do
    finish target
    return none

end JobStatements

/-- A call: when it was made, the step, and what it told or why it broke down. -/
structure JobCall where
  time : Nat
  step : JobStep
  result : Except JobBreakdown (Option Nat)

/-- What happens to a job. -/
inductive JobEvent where
  /-- Some ticks of the clock pass. -/
  | pass (ticks : Nat)
  | call (step : JobStep)
  deriving DecidableEq, Repr

/-- The step that an event calls for. -/
def JobEvent.step? : JobEvent → Option JobStep
  | .pass _ => none
  | .call step => some step

/-- A job, its clock and the calls made so far, the earliest first. -/
structure JobDiary where
  job : Job
  clock : Nat := 0
  calls : List JobCall := []

namespace JobDiary

/-- Notes a call and what it leaves of the job. -/
def note (d : JobDiary) (step : JobStep) (result : Except JobBreakdown (Option Nat)) (job : Job) : JobDiary :=
  { d with job, calls := d.calls ++ [⟨d.clock, step, result⟩] }

/-- The diary after an event. -/
def after (d : JobDiary) : JobEvent → JobDiary
  | .pass ticks => { d with clock := d.clock + ticks }
  | .call step =>
    let (result, job) := (JobStatements.take d.clock step).run.run d.job
    d.note step result job

end JobDiary

end PageAudit
