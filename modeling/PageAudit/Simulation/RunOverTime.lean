import PageAudit.Run.Coordinator

/-!
# A run over time

A run that is cancelled at given times, with the states that it shows between two polls.
-/

namespace PageAudit

/-- A run with its cancellations and the states it has shown. -/
structure RunOverTime where
  run : Run
  cancellations : List (Nat × String) := []
  states : List (Nat × RunState) := []

/-- A part of the run, or a cancellation. -/
inductive TimedRunTask where
  | part (t : RunTask)
  | cancellation (n : Nat)
  deriving DecidableEq, Repr

namespace RunOverTime

/-- Notes the state if it has changed. -/
def noteState (x : RunOverTime) : RunOverTime :=
  let state := x.run.control.state
  if (x.states.getLast?).any (·.2 == state) then x else { x with states := x.states ++ [(x.run.clock, state)] }

/-- Polls a task. -/
def poll (t : TimedRunTask) (x : RunOverTime) : RunOverTime :=
  let run := match t with
    | .part t => x.run.poll t
    | .cancellation n =>
      match x.cancellations[n]? with
      | some (_, reason) => x.run.cancel reason
      | none => x.run
  { x with run }.noteState

/-- The tasks that can go on because of a poll. Only the first cancellation is heard. -/
def woken (t : TimedRunTask) (before after : RunOverTime) : List TimedRunTask :=
  match t with
  | .part t => (Run.woken t before.run after.run).map .part
  | .cancellation _ =>
    if before.run.control.cancelled then []
    else before.run.session.listeners.map fun t => .part (.part t)

/-- When a task can go on at the latest. -/
def due? (t : TimedRunTask) (x : RunOverTime) : Option Nat :=
  match t with
  | .part t => x.run.due? t
  | .cancellation n => (x.cancellations[n]?).bind fun (due, _) => if x.run.clock < due then some due else none

/-- Lets time pass. -/
def elapse (now : Nat) (x : RunOverTime) : RunOverTime :=
  { x with run := x.run.elapse now }

/-- The tasks of a run over time. -/
def system : TaskSystem RunOverTime TimedRunTask := { poll, woken, due?, elapse }

/-- The beginning: the coordinator is to be polled, and the cancellations are awaited. -/
def begin (x : RunOverTime) : Execution RunOverTime TimedRunTask :=
  { state := x.noteState, queue := [.part .coordinator]
    alarms := x.cancellations.zipIdx.map fun ((due, _), n) => (due, .cancellation n) }

/-- The run has ended. -/
def isOver (x : RunOverTime) : Bool := x.run.isOver

end RunOverTime

end PageAudit
