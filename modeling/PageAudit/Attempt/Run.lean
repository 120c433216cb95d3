import PageAudit.Attempt.Flow

/-!
# An attempt over time

An attempt is polled whenever it has something to wait for no longer. It is told of a stop and of a
cancellation at given times.
-/

namespace PageAudit

/-- When an attempt is told to stop, and when its run is cancelled. -/
structure SignalTimes where
  stopAt : Option Nat := none
  cancelAt : Option Nat := none
  deriving DecidableEq, Repr

/-- What has been told up to a time. -/
def SignalTimes.signalsAt (t : SignalTimes) (now : Nat) : AttemptSignals :=
  { stop := t.stopAt.any (· ≤ now), cancelled := t.cancelAt.any (· ≤ now) }

/-- The next time after `now` at which something is told or the attempt goes on. -/
def SignalTimes.next? (t : SignalTimes) (due : Option Nat) (now : Nat) : Option Nat :=
  ((due.toList ++ t.stopAt.toList ++ t.cancelAt.toList).filter (now < ·)).min?

namespace Attempt

/-- At most this many polls end an attempt: the first one, the ends of a start, an audit and a kill, and the
two signals. -/
def pollBound : Nat := 6

/-- Polls an attempt until it is done. -/
def runFor (t : SignalTimes) : Nat → Site → Attempt → Site × Attempt
  | 0, s, a => (s, a)
  | fuel + 1, s, a =>
    let (s, a) := a.poll s (t.signalsAt s.clock)
    if a.isDone then (s, a)
    else
      match t.next? a.due? s.clock with
      | some now => runFor t fuel (s.elapse now) a
      | none => (s, a)

/-- Runs an attempt to its end. -/
def run (a : Attempt) (t : SignalTimes) (s : Site) : Site × Attempt :=
  runFor t pollBound s a

end Attempt

end PageAudit
