import Mathlib.Algebra.Order.BigOperators.Group.List
import Mathlib.Algebra.Order.Floor.Semifield
import Mathlib.Data.List.ReduceOption
import Mathlib.Data.Rat.Floor
import PageAudit.Concurrency.Basic
import PageAudit.Memory.Monitor
import PageAudit.Proofs.Concurrency.Window

/-!
# Smoothed readings

A history keeps the last of the readings that were found, however many probes fail between them. The pressure is their
mean without its fraction, so it lies between them, and more memory in use never makes a pool give up a reason to shrink.
That there is room for as many readings as a history may keep is taken for granted.
-/

namespace PageAudit

open Decimal

/-- The memory in use that some readings add up to. -/
def usedSum (readings : List MemoryReading) : Nat :=
  (readings.map (·.used)).sum

/-- What a pressure says of the readings found so far, the oldest first, if so many may be kept: it is that of the last of
them, and no sum on the way to it is beyond its words. -/
structure MemoryPressure.Smooths (p : MemoryPressure) (capacity : Nat) (found : List MemoryReading) : Prop where
  samples : p.samples = min found.length (max capacity 1)
  mean : p.used = ⌊(usedSum (found.rtake p.samples) : ℚ) / p.samples⌋₊
  between : found ≠ [] → ∀ low high, (∀ r ∈ found.rtake p.samples, low ≤ r.used ∧ r.used ≤ high) →
    low ≤ p.used ∧ p.used ≤ high
  latest : ∀ r, found.getLast? = some r → p.free = r.free
  start : found = [] → p = {}
  words : capacity ≤ wordMax 64 → (∀ r ∈ found, r.used ≤ wordMax 64) →
    p.samples ≤ wordMax 64 ∧ usedSum (found.rtake p.samples) ≤ wordMax 128 ∧ p.used ≤ wordMax 64

/-! ## Sums of readings -/

variable {readings raised : List MemoryReading} {low high : Nat}

theorem usedSum_le (h : ∀ r ∈ readings, r.used ≤ high) : usedSum readings ≤ readings.length * high := by
  have hsum := (readings.map (·.used)).sum_le_card_nsmul high (List.forall_mem_map.mpr h)
  rwa [List.length_map, nsmul_eq_mul, Nat.cast_id] at hsum

theorem le_usedSum (h : ∀ r ∈ readings, low ≤ r.used) : readings.length * low ≤ usedSum readings := by
  have hsum := (readings.map (·.used)).card_nsmul_le_sum low (List.forall_mem_map.mpr h)
  rwa [List.length_map, nsmul_eq_mul, Nat.cast_id] at hsum

theorem usedSum_mono (h : List.Forall₂ (·.used ≤ ·.used) readings raised) : usedSum readings ≤ usedSum raised :=
  (List.forall₂_map_left_iff.mpr (List.forall₂_map_right_iff.mpr h)).sum_le_sum

/-- As many words as a word can count add up to a double word. -/
theorem usedSum_le_word (hlength : readings.length ≤ wordMax 64) (h : ∀ r ∈ readings, r.used ≤ wordMax 64) :
    usedSum readings ≤ wordMax 128 :=
  calc usedSum readings ≤ readings.length * wordMax 64 := usedSum_le h
    _ ≤ wordMax 64 * wordMax 64 := Nat.mul_le_mul_right _ hlength
    _ ≤ wordMax 128 := by decide

namespace MemoryHistory

variable {h : MemoryHistory}

/-! ## The pressure of a history -/

theorem pressure_samples (h : MemoryHistory) : h.pressure.samples = h.readings.length := by
  unfold pressure
  split
  · rename_i hnone
    rw [List.getLast?_eq_none_iff.mp hnone]
    rfl
  · rfl

theorem pressure_used (h : MemoryHistory) : h.pressure.used = usedSum h.readings / h.readings.length := by
  unfold pressure
  split
  · rename_i hnone
    rw [List.getLast?_eq_none_iff.mp hnone]
    rfl
  · rfl

theorem pressure_free {r : MemoryReading} (hlast : h.readings.getLast? = some r) : h.pressure.free = r.free := by
  simp only [pressure, hlast]

theorem pressure_of_nil (hnone : h.readings = []) : h.pressure = {} := by
  simp only [pressure, hnone, List.getLast?_nil]

theorem pressure_between (hsome : h.readings ≠ []) (hall : ∀ r ∈ h.readings, low ≤ r.used ∧ r.used ≤ high) :
    low ≤ h.pressure.used ∧ h.pressure.used ≤ high := by
  have hlength := List.length_pos_iff.mpr hsome
  rw [pressure_used, Nat.le_div_iff_mul_le hlength, Nat.mul_comm low]
  exact ⟨le_usedSum fun r hr => (hall r hr).1, Nat.div_le_of_le_mul (usedSum_le fun r hr => (hall r hr).2)⟩

theorem pressure_mono (hraised : List.Forall₂ (·.used ≤ ·.used) h.readings raised) :
    h.pressure.used ≤ { h with readings := raised }.pressure.used := by
  rw [pressure_used, pressure_used, ← hraised.length_eq]
  exact Nat.div_le_div_right (usedSum_mono hraised)

/-! ## The readings of a history -/

/-- A history that keeps the last of the readings found. -/
structure Keeps (h : MemoryHistory) (capacity : Nat) (found : List MemoryReading) : Prop where
  room : h.capacity = max capacity 1
  readings : h.readings = found.rtake (max capacity 1)

variable {capacity : Nat} {found : List MemoryReading}

theorem keeps_empty (watermark capacity : Nat) : (empty watermark capacity).Keeps capacity [] :=
  ⟨rfl, by simp [empty, List.rtake]⟩

/-- A reading comes in, or the probe failed. -/
theorem Keeps.observe (hk : h.Keeps capacity found) (result : Option MemoryReading) :
    (h.observe result).Keeps capacity (found ++ result.toList) := by
  cases result with
  | none =>
      rw [Option.toList_none, List.append_nil]
      exact hk
  | some r =>
      refine ⟨hk.room, ?_⟩
      have hreadings := Window.rtake_slide (Nat.le_max_right capacity 1) hk.readings r
      rw [← hk.room] at hreadings
      rw [← hk.room]
      exact hreadings

/-- After any results of the probe a history keeps the last of the readings among them. -/
theorem keeps_results (watermark capacity : Nat) (results : List (Option MemoryReading)) :
    (results.foldl MemoryHistory.observe (empty watermark capacity)).Keeps capacity results.reduceOption := by
  induction results using List.reverseRecOn with
  | nil => exact keeps_empty watermark capacity
  | append_singleton results result ih =>
      rw [List.foldl_append, List.foldl_cons, List.foldl_nil, List.reduceOption_append, List.reduceOption_singleton]
      exact ih.observe result

theorem Keeps.length (hk : h.Keeps capacity found) : h.readings.length = min found.length (max capacity 1) := by
  rw [hk.readings, List.rtake, List.length_drop]
  omega

/-- The readings kept are as many of the last as there are samples. -/
theorem Keeps.rtake_samples (hk : h.Keeps capacity found) : found.rtake h.pressure.samples = h.readings := by
  rw [pressure_samples, hk.length, hk.readings, List.rtake, List.rtake]
  congr 1
  omega

theorem Keeps.ne_nil (hk : h.Keeps capacity found) (hsome : found ≠ []) : h.readings ≠ [] := by
  have hlength := hk.length
  have hfound := List.length_pos_iff.mpr hsome
  rw [← List.length_pos_iff, hlength]
  omega

theorem Keeps.getLast? (hk : h.Keeps capacity found) : h.readings.getLast? = found.getLast? := by
  rw [hk.readings, List.rtake, List.getLast?_drop]
  split
  · have hnone : found = [] := List.eq_nil_iff_length_eq_zero.mpr (by omega)
    rw [hnone, List.getLast?_nil]
  · rfl

theorem Keeps.smooths (hk : h.Keeps capacity found) : h.pressure.Smooths capacity found := by
  have hlast := hk.rtake_samples
  refine ⟨?_, ?_, ?_, ?_, ?_, ?_⟩
  · rw [pressure_samples, hk.length]
  · rw [hlast, Nat.floor_div_eq_div, pressure_samples, pressure_used]
  · intro hsome low high hall
    exact pressure_between (hk.ne_nil hsome) (hlast ▸ hall)
  · exact fun r hr => pressure_free (hk.getLast?.trans hr)
  · rintro rfl
    exact pressure_of_nil (by simp [hk.readings, List.rtake])
  · intro hcapacity hfound
    have hall : ∀ r ∈ h.readings, r.used ≤ wordMax 64 := by
      rw [hk.readings]
      exact fun r hr => hfound r (List.mem_of_mem_drop hr)
    have hlength : h.readings.length ≤ wordMax 64 := by
      rw [hk.length]
      exact (Nat.min_le_right ..).trans (Nat.max_le.mpr ⟨hcapacity, by decide⟩)
    rw [hlast, pressure_samples, pressure_used]
    exact ⟨hlength, usedSum_le_word hlength hall, Nat.div_le_of_le_mul (usedSum_le hall)⟩

end MemoryHistory

/-! ## The pressure that a monitor publishes -/

namespace MemoryMonitor

variable {m : MemoryMonitor} {capacity : Nat} {found : List MemoryReading}

/-- The readings among the first `n` results of a probe. -/
def foundBy (probe : Nat → Except ProbeError MemoryReading) (n : Nat) : List MemoryReading :=
  ((List.range n).map fun i => (probe i).toOption).reduceOption

theorem foundBy_succ (probe : Nat → Except ProbeError MemoryReading) (n : Nat) :
    foundBy probe (n + 1) = foundBy probe n ++ (probe n).toOption.toList := by
  rw [foundBy, List.range_succ, List.map_append, List.reduceOption_append, List.map_singleton,
    List.reduceOption_singleton, foundBy]

/-- A monitor keeps the last readings and has published their pressure. -/
structure Follows (m : MemoryMonitor) (capacity : Nat) (found : List MemoryReading) : Prop where
  keeps : m.history.Keeps capacity found
  published : m.published = m.history.pressure

theorem follows_start (watermark capacity : Nat) (probe : Nat → Except ProbeError MemoryReading) :
    (start watermark capacity (probe 0)).1.Follows capacity (foundBy probe 1) := by
  have hnone : foundBy probe 0 = [] := rfl
  rw [foundBy_succ, hnone]
  have hkeeps := (MemoryHistory.keeps_empty watermark capacity).observe (probe 0).toOption
  generalize probe 0 = first at hkeeps ⊢
  cases first with
  | ok r => exact ⟨hkeeps, rfl⟩
  | error e => exact ⟨hkeeps, rfl⟩

theorem Follows.sample (h : m.Follows capacity found) (result : Except ProbeError MemoryReading) :
    (m.sample result).1.Follows capacity (found ++ result.toOption.toList) := by
  have hkeeps := h.keeps.observe result.toOption
  cases result with
  | ok r => exact ⟨hkeeps, rfl⟩
  | error e => exact ⟨hkeeps, h.published⟩

theorem Follows.sampleTimes {probe : Nat → Except ProbeError MemoryReading} {first : Nat}
    (h : m.Follows capacity (foundBy probe first)) (n : Nat) :
    (m.sampleTimes probe first n).1.Follows capacity (foundBy probe (first + n)) := by
  induction n generalizing m first with
  | zero => exact h
  | succ n ih =>
      have hnext := h.sample (probe first)
      rw [← foundBy_succ] at hnext
      rw [show first + (n + 1) = first + 1 + n by omega]
      exact ih hnext

theorem follows_probe (watermark capacity : Nat) (probe : Nat → Except ProbeError MemoryReading) (n : Nat) :
    ((start watermark capacity (probe 0)).1.sampleTimes probe 1 n).1.Follows capacity (foundBy probe (n + 1)) := by
  rw [Nat.add_comm]
  exact (follows_start watermark capacity probe).sampleTimes n

end MemoryMonitor

/-! ## Decisions to shrink -/

namespace Concurrency

variable {c : Concurrency} {m p : MemoryPressure}

theorem atWatermark_mono (hm : c.atWatermark m = true) (hle : m.used ≤ p.used) : c.atWatermark p = true := by
  rw [atWatermark, decide_eq_true_eq] at hm ⊢
  exact hm.trans hle

/-- At the watermark the pool shrinks, whatever else there is. -/
theorem shrink_of_atWatermark (hm : c.atWatermark m = true) : c.onMemory m = c.shrink .memoryPressure ∧
    ∀ resourceExhausted, c.recompute? m resourceExhausted = some (c.shrink .memoryPressure) :=
  ⟨if_pos hm, fun _ => by simp only [recompute?, shrinkReason?, if_pos hm]⟩

end Concurrency

namespace MemoryHistory

/-- One reading of a history found more memory in use. -/
theorem forall₂_set {readings : List MemoryReading} {i : Nat} {raised : MemoryReading}
    (h : ∀ r, readings[i]? = some r → r.used ≤ raised.used) :
    List.Forall₂ (·.used ≤ ·.used) readings (readings.set i raised) := by
  refine List.forall₂_iff_get.mpr ⟨by rw [List.length_set], fun j hj hj' => ?_⟩
  simp only [List.get_eq_getElem, List.getElem_set]
  split
  · rename_i hij
    exact h _ (by rw [hij, List.getElem?_eq_getElem hj])
  · exact Nat.le_refl _

end MemoryHistory

namespace MemoryMonitor

/-- **Smoothed readings.** After any results of a probe, a history keeps the last readings that were found, at most as many
as it may, and its pressure is the mean of them without its fraction and what the latest of them found free; without any
reading there is no pressure. A failed probe changes nothing. A monitor publishes this pressure after every probe, the
first and those that follow. If any reading of any history had found more memory in use, the pressure would not be less,
and a pool that shrinks on it would still shrink. -/
theorem readings_smoothed :
    (∀ (watermark capacity : Nat) (results : List (Option MemoryReading)),
      let h := results.foldl MemoryHistory.observe (.empty watermark capacity)
      h.readings = results.reduceOption.rtake (max capacity 1) ∧ h.pressure.Smooths capacity results.reduceOption ∧
        h.observe none = h) ∧
    (∀ (watermark capacity : Nat) (probe : Nat → Except ProbeError MemoryReading) (n : Nat),
      let m := ((start watermark capacity (probe 0)).1.sampleTimes probe 1 n).1
      m.published = m.history.pressure ∧ m.published.Smooths capacity (foundBy probe (n + 1)) ∧
        ∀ e, (m.sample (.error e)).1 = m) ∧
    ∀ (h : MemoryHistory) (i : Nat) (raised : MemoryReading),
      (∀ r, h.readings[i]? = some r → r.used ≤ raised.used) →
      let p := { h with readings := h.readings.set i raised }.pressure
      h.pressure.used ≤ p.used ∧ ∀ c : Concurrency, c.atWatermark h.pressure = true →
        c.onMemory p = c.shrink .memoryPressure ∧
          ∀ resourceExhausted, c.recompute? p resourceExhausted = some (c.shrink .memoryPressure) := by
  refine ⟨fun watermark capacity results => ?_, fun watermark capacity probe n => ?_, fun h i raised hraised => ?_⟩
  · have hkeeps := MemoryHistory.keeps_results watermark capacity results
    exact ⟨hkeeps.readings, hkeeps.smooths, rfl⟩
  · have hfollows := follows_probe watermark capacity probe n
    refine ⟨hfollows.published, ?_, fun e => rfl⟩
    rw [hfollows.published]
    exact hfollows.keeps.smooths
  · have hused := h.pressure_mono (MemoryHistory.forall₂_set hraised)
    exact ⟨hused, fun c hc => Concurrency.shrink_of_atWatermark (Concurrency.atWatermark_mono hc hused)⟩

/-- Two of three readings are kept, one of them the greatest word, and the probe fails between them. -/
theorem greatest_word_smoothed :
    let results : List (Option MemoryReading) :=
      [some ⟨9, 5⟩, none, some ⟨1, 7⟩, some ⟨wordMax 64, 3⟩, none]
    let probe : Nat → Except ProbeError MemoryReading := fun n => if n = 1 then .error "probe offline" else .ok ⟨n, 4⟩
    let h := results.foldl MemoryHistory.observe (.empty 1000 2)
    let m := ((start 1000 2 (probe 0)).1.sampleTimes probe 1 3).1
    let policy : PoolPolicy := { memoryHighWatermarkBytes := 2 ^ 63 }
    let pool : Concurrency := ⟨policy, 4, .ofSize 10⟩
    let p := { h with readings := h.readings.set 0 ⟨2, 0⟩ : MemoryHistory }.pressure
    h.readings = [⟨1, 7⟩, ⟨wordMax 64, 3⟩] ∧ h.pressure.samples = 2 ∧ h.pressure.used = 2 ^ 63 ∧ h.pressure.free = 3 ∧
    (1 ≤ h.pressure.used ∧ h.pressure.used ≤ wordMax 64) ∧ usedSum h.readings ≤ wordMax 128 ∧
    m.published.Smooths 2 [⟨0, 4⟩, ⟨2, 4⟩, ⟨3, 4⟩] ∧
    pool.atWatermark h.pressure = true ∧ h.pressure.used ≤ p.used ∧ pool.onMemory p = pool.shrink .memoryPressure := by
  intro results probe h m policy pool p
  obtain ⟨hhistory, hmonitor, hraised⟩ := readings_smoothed
  obtain ⟨hreadings, hsmooths, -⟩ := hhistory 1000 2 results
  have hkept : h.readings = [⟨1, 7⟩, ⟨wordMax 64, 3⟩] := hreadings.trans (by decide)
  have hsamples : h.pressure.samples = 2 := hsmooths.samples.trans (by decide)
  have hlast : results.reduceOption.rtake h.pressure.samples = h.readings := by
    rw [hsamples, hkept]
    decide
  have hbetween := hsmooths.between (by decide) 1 (wordMax 64) (by rw [hlast, hkept]; decide)
  obtain ⟨-, hsum, -⟩ := hsmooths.words (by decide) (by decide)
  obtain ⟨hused, hshrinks⟩ := hraised h 0 ⟨2, 0⟩ (by rw [hkept]; decide)
  have hwatermark : pool.atWatermark h.pressure = true := by decide
  exact ⟨hkept, hsamples, by decide, hsmooths.latest ⟨wordMax 64, 3⟩ (by decide), hbetween, hlast ▸ hsum,
    (hmonitor 1000 2 probe 3).2.1, hwatermark, hused, (hshrinks pool hwatermark).1⟩

end MemoryMonitor

end PageAudit
