import PageAudit.Run.Error
import PageAudit.Run.State

/-!
# The control of a run

The state of a run, and what is known of its cancellation. Cancelling takes three steps, between which other
things may happen: the reason is noted, a running run begins to drain, and the run is told.
-/

namespace PageAudit

/-- The state of a run and its cancellation. -/
structure RunControl where
  state : RunState := .idle
  /-- The first reason that was given. -/
  reason : Option String := none
  /-- The run was told that it is cancelled. -/
  cancelled : Bool := false
  deriving DecidableEq, Repr

namespace RunControl

/-- Begins the run, once. -/
def begin (c : RunControl) : Except RunError RunControl :=
  if c.state == .idle then .ok { c with state := .running } else .error (.alreadyStarted c.state.name)

/-- Notes the reason of a cancellation, unless there is one. -/
def noteReason (c : RunControl) (reason : String) : RunControl :=
  { c with reason := c.reason <|> some reason }

/-- A running run begins to drain. -/
def drain (c : RunControl) : RunControl :=
  if c.state == .running then { c with state := .draining } else c

/-- The run is told that it is cancelled. -/
def tell (c : RunControl) : RunControl :=
  { c with cancelled := true }

/-- Cancels the run. -/
def cancel (c : RunControl) (reason : String) : RunControl :=
  (c.noteReason reason).drain.tell

/-- The run was refused. -/
def refuse (c : RunControl) : RunControl :=
  { c with state := .aborted }

/-- The state in which a run ends. -/
def finalState (c : RunControl) : RunState :=
  if c.cancelled then .aborted else .completed

/-- The run has ended in a state. -/
def finish (c : RunControl) (final : RunState) : RunControl :=
  { c with state := final }

end RunControl

end PageAudit
