import PageAudit.Decimal.Numeral
import PageAudit.Document.Data

/-!
# Recent outcomes

The outcomes of the last attempts, oldest first. A full window forgets its oldest outcome.
-/

namespace PageAudit

open Decimal

/-- How an attempt counts. -/
inductive Verdict where
  | success
  | failure
  deriving DecidableEq, Repr

/-- The last outcomes, at most `capacity` of them. -/
structure Window where
  capacity : Nat
  entries : List Verdict := []
  deriving DecidableEq, Repr

namespace Window

/-- An empty window for at least one outcome. -/
def ofSize (n : Nat) : Window :=
  ⟨max n 1, []⟩

/-- Adds an outcome. -/
def record (w : Window) (v : Verdict) : Window :=
  let kept := if w.entries.length == w.capacity then w.entries.drop 1 else w.entries
  { w with entries := kept ++ [v] }

/-- The window has no room left. -/
def isFull (w : Window) : Bool :=
  w.entries.length == w.capacity

/-- No outcome is a failure. -/
def allSuccesses (w : Window) : Bool :=
  w.entries.all (· == .success)

/-- The number of failures. -/
def failures (w : Window) : Nat :=
  w.entries.count .failure

/-- The share of failures, 0 in an empty window. -/
def failureRate (w : Window) : Float :=
  if w.entries.isEmpty then 0.0 else ofWord w.failures / ofWord w.entries.length

/-- A window in a document. -/
def data (w : Window) : Document.Data :=
  .map [("len", .nat w.entries.length), ("empty", .bool w.entries.isEmpty), ("full", .bool w.isFull),
    ("all_successes", .bool w.allSuccesses), ("failure_rate", .float w.failureRate)]

/-- Forgets all outcomes. -/
def clear (w : Window) : Window :=
  { w with entries := [] }

end Window

end PageAudit
