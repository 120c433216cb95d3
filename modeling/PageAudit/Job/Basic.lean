import PageAudit.Decimal.Numeral

/-!
# Jobs

A job is the audit of one page, over as many attempts as it takes. Its state moves along a fixed set of
transitions and never leaves a terminal state. The number of attempts counts those that were begun and not
yielded.
-/

namespace PageAudit

open Decimal

/-- The state of a job. -/
inductive JobState where
  | queued
  | running
  | awaitingRetry
  | succeeded
  | failedPermanent
  | cancelled
  deriving DecidableEq, Repr

/-- The name of a state. -/
def JobState.name : JobState → String
  | .queued => "queued"
  | .running => "running"
  | .awaitingRetry => "awaiting_retry"
  | .succeeded => "succeeded"
  | .failedPermanent => "failed_permanent"
  | .cancelled => "cancelled"

/-- All states. -/
def JobState.all : List JobState :=
  [.queued, .running, .awaitingRetry, .succeeded, .failedPermanent, .cancelled]

/-- A state that is never left. -/
def JobState.isTerminal : JobState → Bool
  | .succeeded | .failedPermanent | .cancelled => true
  | _ => false

/-- The transitions of a job. -/
def JobState.canBecome : JobState → JobState → Bool
  | .queued, .running | .queued, .cancelled => true
  | .running, .awaitingRetry | .running, .queued => true
  | .running, .succeeded | .running, .failedPermanent | .running, .cancelled => true
  | .awaitingRetry, .running | .awaitingRetry, .cancelled => true
  | _, _ => false

/-- A step that a job does not allow. -/
inductive JobFault where
  | notTerminal (target : JobState)
  | illegal (before after : JobState)
  deriving DecidableEq, Repr

/-- The sentence for a step that is not allowed. -/
def JobFault.message : JobFault → String
  | .notTerminal target => s!"{target.name} 不是终态"
  | .illegal before after => s!"非法状态转换: {before.name} → {after.name}"

/-- What can be asked of a job. -/
inductive JobStep where
  | begin
  | yield
  | awaitRetry
  | finish (target : JobState)
  deriving DecidableEq, Repr

/-- A job. Instants are ticks of a clock; that of a pool ticks in milliseconds. -/
structure Job where
  id : String
  url : String
  /-- The position in the plan. Jobs are started and reported in this order. -/
  planIndex : Nat
  attempt : Nat := 0
  state : JobState := .queued
  /-- When the first attempt that still counts was begun. -/
  startedAt : Option Nat := none
  deriving DecidableEq, Repr

namespace Job

/-- Moves to a state that the present one allows. -/
def moveTo (j : Job) (target : JobState) : Except JobFault Job :=
  if j.state.canBecome target then .ok { j with state := target }
  else .error (.illegal j.state target)

/-- Begins an attempt. -/
def begin (j : Job) (now : Nat) : Except JobFault Job := do
  let j ← j.moveTo .running
  return { j with attempt := j.attempt + 1, startedAt := j.startedAt <|> some now }

/-- Gives the running attempt up without a result: it is not counted, and the job queues again. -/
def yield (j : Job) : Except JobFault Job := do
  let j ← j.moveTo .queued
  let attempt := j.attempt - 1
  return { j with attempt, startedAt := if attempt == 0 then none else j.startedAt }

/-- Waits for the next attempt. -/
def awaitRetry (j : Job) : Except JobFault Job :=
  j.moveTo .awaitingRetry

/-- Enters a terminal state. -/
def finish (j : Job) (target : JobState) : Except JobFault Job :=
  if target.isTerminal then j.moveTo target else .error (.notTerminal target)

/-- Takes a step at a given time. -/
def take (j : Job) (now : Nat) : JobStep → Except JobFault Job
  | .begin => j.begin now
  | .yield => j.yield
  | .awaitRetry => j.awaitRetry
  | .finish target => j.finish target

/-- Whole milliseconds, in a word, since the first counted attempt was begun, 0 without one. The clock has `ticks` ticks in
a millisecond. -/
def elapsedOn (ticks : Nat) (j : Job) (now : Nat) : Nat :=
  match j.startedAt with
  | some t => min ((now - t) / ticks) (wordMax 64)
  | none => 0

/-- Milliseconds since the first counted attempt was begun, by the clock of a pool. -/
def elapsed (j : Job) (now : Nat) : Nat :=
  j.elapsedOn 1 now

end Job

end PageAudit
