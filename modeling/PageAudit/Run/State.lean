import PageAudit.Document.Record

/-!
# States of a run

A run is idle, runs, drains once it is cancelled, and ends completed or aborted.
-/

namespace PageAudit

open Document

/-- The state of a run. -/
inductive RunState where
  | idle
  | running
  | draining
  | completed
  | aborted
  deriving DecidableEq, Repr

/-- The name of a state. -/
def RunState.name : RunState → String
  | .idle => "idle"
  | .running => "running"
  | .draining => "draining"
  | .completed => "completed"
  | .aborted => "aborted"

/-- All states. -/
def RunState.all : List RunState :=
  [.idle, .running, .draining, .completed, .aborted]

/-- A state by its name. -/
def RunState.ofData? : Data → Option RunState :=
  Data.choice? (RunState.all.map fun s => (s.name, s))

end PageAudit
