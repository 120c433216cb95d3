import PageAudit.Document.Data

/-!
# The account of a pool

What a pool did over a run, and what it shows while it goes on.
-/

namespace PageAudit

open Document

/-- Numbers of what a pool did. -/
structure PoolReport where
  dispatchedAttempts : Nat := 0
  succeeded : Nat := 0
  failed : Nat := 0
  cancelled : Nat := 0
  retries : Nat := 0
  shrinkEvents : Nat := 0
  growEvents : Nat := 0
  finalConcurrency : Nat := 0
  minObservedConcurrency : Nat := 0
  maxObservedConcurrency : Nat := 0
  peakOccupied : Nat := 0
  /-- The browsers that were released by force after the grace period. -/
  forcedReleases : Nat := 0
  deriving DecidableEq, Repr

/-- An account in a document. -/
def PoolReport.data (r : PoolReport) : Data :=
  .map [("dispatched_attempts", .nat r.dispatchedAttempts), ("succeeded", .nat r.succeeded),
    ("failed", .nat r.failed), ("cancelled", .nat r.cancelled), ("retries", .nat r.retries),
    ("shrink_events", .nat r.shrinkEvents), ("grow_events", .nat r.growEvents),
    ("final_concurrency", .nat r.finalConcurrency),
    ("min_observed_concurrency", .nat r.minObservedConcurrency),
    ("max_observed_concurrency", .nat r.maxObservedConcurrency), ("peak_occupied", .nat r.peakOccupied),
    ("forced_releases", .nat r.forcedReleases)]

/-- What a pool shows. -/
structure PoolSnapshot where
  allowedConcurrency : Nat := 0
  minConcurrency : Nat := 0
  maxConcurrency : Nat := 0
  occupied : Nat := 0
  queued : Nat := 0
  awaitingRetry : Nat := 0
  /-- The running jobs in plan order. -/
  running : List String := []
  succeeded : Nat := 0
  failed : Nat := 0
  cancelled : Nat := 0
  failureRate : Float := 0.0
  memoryUsedBytes : Nat := 0
  memoryLevel : Float := 0.0
  draining : Bool := false

/-- A snapshot in a document. -/
def PoolSnapshot.data (s : PoolSnapshot) : Data :=
  .map [("allowed_concurrency", .nat s.allowedConcurrency), ("min_concurrency", .nat s.minConcurrency),
    ("max_concurrency", .nat s.maxConcurrency), ("occupied", .nat s.occupied), ("queued", .nat s.queued),
    ("awaiting_retry", .nat s.awaitingRetry), ("running", .list (s.running.map .str)),
    ("succeeded", .nat s.succeeded), ("failed", .nat s.failed), ("cancelled", .nat s.cancelled),
    ("failure_rate", .float s.failureRate), ("memory_used_bytes", .nat s.memoryUsedBytes),
    ("memory_level", .float s.memoryLevel), ("draining", .bool s.draining)]

end PageAudit
