import PageAudit.Concurrency.Window
import PageAudit.Memory.Pressure

/-!
# Adaptive concurrency

How many attempts may run at once. The number shrinks by a factor as soon as memory, resources or failures
ask for it, at least by one and not below the minimum. It grows by a step only after a full window without
failures, with memory to spare, and then starts a new window.
-/

namespace PageAudit

open Decimal

/-- The limits and thresholds of a pool. -/
structure PoolPolicy where
  maxConcurrency : Nat := 4
  minConcurrency : Nat := 1
  /-- The number to start with, the maximum if none is given. -/
  initialConcurrency : Option Nat := none
  memoryHighWatermarkBytes : Nat := 8 * 1024 * 1024 * 1024
  /-- The share of failures that makes the pool shrink. -/
  failureRateThreshold : Float := 0.5
  windowSize : Nat := 10
  shrinkFactor : Float := 0.5
  growStep : Nat := 1
  /-- The share of the watermark below which the pool may grow. -/
  growHeadroomRatio : Float := 0.85

/-- The number of attempts a pool starts with: within its bounds, and none if the bounds exclude each
other. -/
def PoolPolicy.starting? (p : PoolPolicy) : Option Nat :=
  if p.minConcurrency ≤ p.maxConcurrency then
    some (min (max (p.initialConcurrency.getD p.maxConcurrency) p.minConcurrency) p.maxConcurrency)
  else none

/-- Why a pool shrinks. -/
inductive ShrinkReason where
  | memoryPressure
  | failureRate
  | resourceExhausted
  deriving DecidableEq, Repr

/-- The name of a reason. -/
def ShrinkReason.name : ShrinkReason → String
  | .memoryPressure => "memory_pressure"
  | .failureRate => "failure_rate"
  | .resourceExhausted => "resource_exhausted"

/-- What a step did to the number of attempts allowed. -/
inductive ConcurrencyChange where
  | unchanged
  | shrunk (before after : Nat) (reason : ShrinkReason)
  | grew (before after : Nat)
  deriving DecidableEq, Repr

/-- A change in a document. -/
def ConcurrencyChange.data : ConcurrencyChange → Document.Data
  | .unchanged => .str "unchanged"
  | .shrunk before after reason =>
    .map [("shrunk", .list [.nat before, .nat after]), ("reason", .str reason.name)]
  | .grew before after => .map [("grew", .list [.nat before, .nat after])]

/-- The state of the adaptation. -/
structure Concurrency where
  policy : PoolPolicy
  allowed : Nat
  window : Window

/-- The whole number below `allowed * factor`, but no less than the minimum and, above it, no more than
`allowed - 1`. -/
def shrinkTarget (allowed minimum : Nat) (factor : Float) : Nat :=
  if allowed ≤ minimum then minimum
  else
    let scaled := (ofWord allowed * factor).floor.toUInt64.toNat
    min (max scaled minimum) (allowed - 1)

namespace Concurrency

/-- The start: an empty window. -/
def start? (p : PoolPolicy) : Option Concurrency :=
  p.starting?.map fun n => ⟨p, n, .ofSize p.windowSize⟩

/-- Adds an outcome to the window. -/
def record (c : Concurrency) (v : Verdict) : Concurrency :=
  { c with window := c.window.record v }

/-- Shrinks by one step. -/
def shrink (c : Concurrency) (reason : ShrinkReason) : Concurrency × ConcurrencyChange :=
  let target := shrinkTarget c.allowed c.policy.minConcurrency c.policy.shrinkFactor
  if target == c.allowed then (c, .unchanged)
  else ({ c with allowed := target }, .shrunk c.allowed target reason)

/-- Memory in use has reached the watermark. -/
def atWatermark (c : Concurrency) (m : MemoryPressure) : Bool :=
  c.policy.memoryHighWatermarkBytes ≤ m.used

/-- The first reason there is to shrink: memory, then resources, then failures. -/
def shrinkReason? (c : Concurrency) (m : MemoryPressure) (resourceExhausted : Bool) : Option ShrinkReason :=
  if c.atWatermark m then some .memoryPressure
  else if resourceExhausted then some .resourceExhausted
  else if !c.window.entries.isEmpty && c.policy.failureRateThreshold ≤ c.window.failureRate then
    some .failureRate
  else none

/-- Memory in use leaves room to grow. -/
def hasHeadroom (c : Concurrency) (m : MemoryPressure) : Bool :=
  ofWord m.used ≤ ofWord c.policy.memoryHighWatermarkBytes * c.policy.growHeadroomRatio

/-- Shrinks, grows or stays after an attempt has ended. None if the sum with the step is no 64-bit word. -/
def recompute? (c : Concurrency) (m : MemoryPressure) (resourceExhausted : Bool) :
    Option (Concurrency × ConcurrencyChange) :=
  match c.shrinkReason? m resourceExhausted with
  | some reason => some (c.shrink reason)
  | none =>
    if c.window.isFull && c.window.allSuccesses && c.hasHeadroom m then
      if wordMax 64 < c.allowed + c.policy.growStep then none
      else
        let target := min (c.allowed + c.policy.growStep) c.policy.maxConcurrency
        if target == c.allowed then some (c, .unchanged)
        else some ({ c with allowed := target, window := c.window.clear }, .grew c.allowed target)
    else some (c, .unchanged)

/-- Looks at the memory alone: shrinks by one step at the watermark, and leaves the window as it is. -/
def onMemory (c : Concurrency) (m : MemoryPressure) : Concurrency × ConcurrencyChange :=
  if c.atWatermark m then c.shrink .memoryPressure else (c, .unchanged)

/-- Shrinks by as many steps as memory asks for, with the changes in order. Every step takes at least one
away, so `fuel` steps are enough when that many are allowed. -/
def settleOnMemory (m : MemoryPressure) : Nat → Concurrency → Concurrency × List ConcurrencyChange
  | 0, c => (c, [])
  | fuel + 1, c =>
    match c.onMemory m with
    | (c, .unchanged) => (c, [])
    | (c, change) =>
      let (c, more) := settleOnMemory m fuel c
      (c, change :: more)

end Concurrency

/-- What can be asked of the adaptation. -/
inductive ConcurrencyStep where
  | record (v : Verdict)
  | recompute (m : MemoryPressure) (resourceExhausted : Bool)
  | onMemory (m : MemoryPressure)

/-- Takes a step and tells what it did. -/
def Concurrency.take? (c : Concurrency) : ConcurrencyStep → Option (Concurrency × ConcurrencyChange)
  | .record v => some (c.record v, .unchanged)
  | .recompute m resourceExhausted => c.recompute? m resourceExhausted
  | .onMemory m => some (c.onMemory m)

end PageAudit
