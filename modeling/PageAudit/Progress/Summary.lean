import PageAudit.Progress.Event

/-!
# The account of a run's events

How many events of each kind there were.
-/

namespace PageAudit

open Document

/-- Numbers of events, and the time they took in milliseconds. -/
structure RunSummary where
  queued : Nat := 0
  succeeded : Nat := 0
  failed : Nat := 0
  cancelled : Nat := 0
  retries : Nat := 0
  concurrencyChanges : Nat := 0
  totalDurationMs : Nat := 0
  deriving DecidableEq, Repr

namespace RunSummary

/-- The number of jobs that have ended. -/
def finished (s : RunSummary) : Nat :=
  s.succeeded + s.failed + s.cancelled

/-- Counts an event. -/
def add (s : RunSummary) : ProgressEvent → RunSummary
  | .queued .. => { s with queued := s.queued + 1 }
  | .started .. => s
  | .retried .. => { s with retries := s.retries + 1 }
  | .succeeded .. => { s with succeeded := s.succeeded + 1 }
  | .failedPermanent .. => { s with failed := s.failed + 1 }
  | .cancelled .. => { s with cancelled := s.cancelled + 1 }
  | .concurrencyChanged .. => { s with concurrencyChanges := s.concurrencyChanges + 1 }

/-- The account of some events. -/
def ofEvents (events : List ProgressEvent) : RunSummary :=
  events.foldl add {}

/-- An account in a document. -/
def data (s : RunSummary) : Data :=
  .map [("queued", .nat s.queued), ("succeeded", .nat s.succeeded), ("failed", .nat s.failed),
    ("cancelled", .nat s.cancelled), ("retries", .nat s.retries),
    ("concurrency_changes", .nat s.concurrencyChanges), ("total_duration_ms", .nat s.totalDurationMs)]

end RunSummary

end PageAudit
