import PageAudit.Decimal.Numeral
import PageAudit.Document.Data

/-!
# Memory pressure

Readings of the memory in use are smoothed over the last few of them. The pressure relates the mean to the
watermark and tells whether it rises or falls. Sizes are in bytes.
-/

namespace PageAudit

open Decimal

/-- A reading of the memory. -/
structure MemoryReading where
  used : Nat
  free : Nat
  deriving DecidableEq, Repr

/-- Where the memory in use is heading. -/
inductive MemoryTrend where
  | rising
  | falling
  | stable
  deriving DecidableEq, Repr

/-- The name of a trend. -/
def MemoryTrend.name : MemoryTrend → String
  | .rising => "rising"
  | .falling => "falling"
  | .stable => "stable"

/-- Smoothed readings. -/
structure MemoryPressure where
  /-- The mean over the last readings. -/
  used : Nat := 0
  /-- What the last reading found free. -/
  free : Nat := 0
  /-- The mean over the watermark: 1 at the watermark. -/
  level : Float := 0.0
  trend : MemoryTrend := .stable
  /-- The number of readings behind the mean. -/
  samples : Nat := 0

/-- A pressure in a document. -/
def MemoryPressure.data (p : MemoryPressure) : Document.Data :=
  .map [("used_bytes", .nat p.used), ("free_bytes", .nat p.free), ("level", .float p.level),
    ("trend", .str p.trend.name), ("samples", .nat p.samples)]

/-- The last readings, oldest first, and what they are measured by. -/
structure MemoryHistory where
  watermark : Nat
  capacity : Nat
  readings : List MemoryReading := []
  deriving DecidableEq, Repr

/-- The relative change below which memory is stable. -/
def trendThreshold : Float := 0.02

/-- The mean of the memory in use. -/
def meanUsed (readings : List MemoryReading) : Float :=
  (readings.map fun r => ofWord r.used).foldl (· + ·) 0.0 / ofWord readings.length

namespace MemoryHistory

/-- No readings yet. The watermark and the number of readings kept are at least 1. -/
def empty (watermark capacity : Nat) : MemoryHistory :=
  ⟨max watermark 1, max capacity 1, []⟩

/-- Adds a reading and forgets the oldest one when there are too many. -/
def push (h : MemoryHistory) (r : MemoryReading) : MemoryHistory :=
  let kept := if h.readings.length == h.capacity then h.readings.drop 1 else h.readings
  { h with readings := kept ++ [r] }

/-- Adds what a probe found; a failed probe changes nothing. -/
def observe (h : MemoryHistory) : Option MemoryReading → MemoryHistory
  | some r => h.push r
  | none => h

/-- Compares the older half of the readings with the newer half. -/
def trend (h : MemoryHistory) : MemoryTrend :=
  let n := h.readings.length
  if n < 2 then .stable
  else
    let older := meanUsed (h.readings.take (n / 2))
    let newer := meanUsed (h.readings.drop (n - n / 2))
    if older ≤ 0.0 then .stable
    else
      let change := (newer - older) / older
      if trendThreshold < change then .rising
      else if change < -trendThreshold then .falling
      else .stable

/-- The pressure of the readings; without any reading there is none. -/
def pressure (h : MemoryHistory) : MemoryPressure :=
  match h.readings.getLast? with
  | none => {}
  | some last =>
    let n := h.readings.length
    let used := (h.readings.map (·.used)).foldr (· + ·) 0 / n
    { used, free := last.free, level := ofWord used / ofWord h.watermark, trend := h.trend, samples := n }

end MemoryHistory

end PageAudit
