import PageAudit.Concurrency.Basic

/-!
# Courses of the adaptation

The adaptation records an outcome, follows the end of an attempt, or looks at the memory. What one such step may do is
said once, with the product of the number allowed and the factor rounded to any number at all. A course is a row of
steps with the changes that they told.
-/

namespace PageAudit

/-- The number allowed after a shrink, if its product with the factor is rounded to `scaled`. -/
def cut (allowed minimum scaled : Nat) : Nat :=
  if allowed ≤ minimum then minimum else min (max scaled minimum) (allowed - 1)

theorem exists_shrinkTarget_eq (allowed minimum : Nat) (factor : Float) :
    ∃ scaled, shrinkTarget allowed minimum factor = cut allowed minimum scaled :=
  ⟨_, rfl⟩

theorem cut_of_le {allowed minimum : Nat} (h : allowed ≤ minimum) (scaled : Nat) :
    cut allowed minimum scaled = minimum := by
  simp [cut, h]

theorem cut_of_lt {allowed minimum : Nat} (h : minimum < allowed) (scaled : Nat) :
    minimum ≤ cut allowed minimum scaled ∧ cut allowed minimum scaled < allowed := by
  simp only [cut, Nat.not_le.mpr h, ↓reduceIte]
  omega

namespace ConcurrencyStep

/-- The outcome that a step records. -/
def verdict? : ConcurrencyStep → Option Verdict
  | .record v => some v
  | _ => none

end ConcurrencyStep

namespace ConcurrencyChange

/-- The change is a growth. -/
def isGrowth : ConcurrencyChange → Bool
  | .grew .. => true
  | _ => false

end ConcurrencyChange

namespace Concurrency

/-- The reason that there is to shrink at a step. -/
def reason? (c : Concurrency) : ConcurrencyStep → Option ShrinkReason
  | .record _ => none
  | .recompute m resourceExhausted => c.shrinkReason? m resourceExhausted
  | .onMemory m => if c.atWatermark m then some .memoryPressure else none

/-- Shrinks to a number, and tells of it unless it is the number allowed. -/
def shrinkTo (c : Concurrency) (target : Nat) (reason : ShrinkReason) : Concurrency × ConcurrencyChange :=
  if target == c.allowed then (c, .unchanged)
  else ({ c with allowed := target }, .shrunk c.allowed target reason)

/-- A window full of successes, and memory to spare. -/
def isReady (c : Concurrency) (m : MemoryPressure) : Bool :=
  c.window.isFull && c.window.allSuccesses && c.hasHeadroom m

/-- The number allowed after a growth. -/
def raised (c : Concurrency) : Nat :=
  min (c.allowed + c.policy.growStep) c.policy.maxConcurrency

/-- What a step may do. -/
inductive Takes (c : Concurrency) : ConcurrencyStep → Concurrency × ConcurrencyChange → Prop where
  | record (v : Verdict) : Takes c (.record v) (c.record v, .unchanged)
  | shrink {step : ConcurrencyStep} {reason : ShrinkReason} (why : c.reason? step = some reason) (scaled : Nat) :
      Takes c step (c.shrinkTo (cut c.allowed c.policy.minConcurrency scaled) reason)
  | pass {m : MemoryPressure} (calm : c.reason? (.onMemory m) = none) : Takes c (.onMemory m) (c, .unchanged)
  | stay {m : MemoryPressure} {resourceExhausted : Bool} (calm : c.reason? (.recompute m resourceExhausted) = none)
      (still : c.isReady m = true → c.raised = c.allowed) : Takes c (.recompute m resourceExhausted) (c, .unchanged)
  | grow {m : MemoryPressure} {resourceExhausted : Bool} (calm : c.reason? (.recompute m resourceExhausted) = none)
      (ready : c.isReady m = true) (fits : c.allowed + c.policy.growStep ≤ Decimal.wordMax 64)
      (more : c.raised ≠ c.allowed) :
      Takes c (.recompute m resourceExhausted)
        ({ c with allowed := c.raised, window := c.window.clear }, .grew c.allowed c.raised)

/-- A step that follows the end of an attempt comes to a growth whose sum is no word. -/
structure Overflows (c : Concurrency) (m : MemoryPressure) (resourceExhausted : Bool) : Prop where
  calm : c.reason? (.recompute m resourceExhausted) = none
  ready : c.isReady m = true
  beyond : Decimal.wordMax 64 < c.allowed + c.policy.growStep

/-- Takes steps in order and tells what each of them did; none if one of them has no result. -/
def takeAll? : Concurrency → List ConcurrencyStep → Option (Concurrency × List ConcurrencyChange)
  | c, [] => some (c, [])
  | c, step :: rest =>
    match c.take? step with
    | none => none
    | some (c, change) => (c.takeAll? rest).map fun x => (x.1, change :: x.2)

/-- A row of steps from the first state to another one, with what each step told. -/
inductive Course (c : Concurrency) : List (ConcurrencyStep × ConcurrencyChange) → Concurrency → Prop where
  | start : Course c [] c
  | next {log : List (ConcurrencyStep × ConcurrencyChange)} {d e : Concurrency} {step : ConcurrencyStep}
      {change : ConcurrencyChange} (course : Course c log d) (takes : d.Takes step (e, change)) :
      Course c (log ++ [(step, change)]) e

variable {c d e : Concurrency} {step : ConcurrencyStep} {change : ConcurrencyChange}
  {log : List (ConcurrencyStep × ConcurrencyChange)}

/-! ## Single steps -/

/-- A shrink leaves the minimum as it is, and takes at least one away from what is above it. -/
theorem shrinkTo_cut (h : c.policy.minConcurrency ≤ c.allowed) (scaled : Nat) (reason : ShrinkReason) :
    c.allowed = c.policy.minConcurrency ∧
        c.shrinkTo (cut c.allowed c.policy.minConcurrency scaled) reason = (c, .unchanged) ∨
      ∃ target, c.policy.minConcurrency ≤ target ∧ target < c.allowed ∧
        c.shrinkTo (cut c.allowed c.policy.minConcurrency scaled) reason =
          ({ c with allowed := target }, .shrunk c.allowed target reason) := by
  by_cases hfloor : c.allowed ≤ c.policy.minConcurrency
  · have hsame := Nat.le_antisymm hfloor h
    have hcut : cut c.allowed c.policy.minConcurrency scaled = c.allowed := (cut_of_le hfloor scaled).trans hsame.symm
    exact Or.inl ⟨hsame, by simp [shrinkTo, hcut]⟩
  · obtain ⟨hleast, hless⟩ := cut_of_lt (Nat.not_le.mp hfloor) scaled
    exact Or.inr ⟨_, hleast, hless, by simp [shrinkTo, Nat.ne_of_lt hless]⟩

theorem takes_shrink {reason : ShrinkReason} (why : c.reason? step = some reason) : c.Takes step (c.shrink reason) := by
  obtain ⟨scaled, hscaled⟩ := exists_shrinkTarget_eq c.allowed c.policy.minConcurrency c.policy.shrinkFactor
  have hshrink : c.shrink reason = c.shrinkTo (cut c.allowed c.policy.minConcurrency scaled) reason := by
    rw [← hscaled]
    rfl
  rw [hshrink]
  exact .shrink why scaled

theorem takes_onMemory (c : Concurrency) (m : MemoryPressure) : c.Takes (.onMemory m) (c.onMemory m) := by
  cases hm : c.atWatermark m with
  | true =>
      simp only [onMemory, hm, ↓reduceIte]
      exact takes_shrink (by simp [reason?, hm])
  | false =>
      simp only [onMemory, hm, Bool.false_eq_true, ↓reduceIte]
      exact .pass (by simp [reason?, hm])

/-- What follows the end of an attempt is one of those things, or its sum is no word. -/
theorem recompute?_cases (c : Concurrency) (m : MemoryPressure) (resourceExhausted : Bool) :
    (c.recompute? m resourceExhausted = none ∧ c.Overflows m resourceExhausted) ∨
      ∃ next, c.recompute? m resourceExhausted = some next ∧ c.Takes (.recompute m resourceExhausted) next := by
  unfold recompute?
  cases hr : c.shrinkReason? m resourceExhausted with
  | some reason => exact Or.inr ⟨_, rfl, takes_shrink hr⟩
  | none =>
      by_cases hready : c.isReady m = true
      · have hready' := hready
        simp only [isReady] at hready'
        simp only [hready', ↓reduceIte]
        by_cases hover : Decimal.wordMax 64 < c.allowed + c.policy.growStep
        · simp only [hover, ↓reduceIte]
          exact Or.inl ⟨trivial, hr, hready, hover⟩
        · simp only [hover, ↓reduceIte]
          by_cases hsame : c.raised = c.allowed
          · have hsame' := hsame
            simp only [raised] at hsame'
            simp only [hsame', beq_self_eq_true, ↓reduceIte]
            exact Or.inr ⟨_, rfl, .stay hr fun _ => hsame⟩
          · have hsame' := hsame
            simp only [raised] at hsame'
            simp only [beq_iff_eq, hsame', ↓reduceIte]
            exact Or.inr ⟨_, rfl, .grow hr hready (Nat.not_lt.mp hover) hsame⟩
      · have hready' := hready
        simp only [isReady] at hready'
        simp only [hready']
        exact Or.inr ⟨_, rfl, .stay hr fun h => absurd h hready⟩

theorem takes_of_take? (h : c.take? step = some (d, change)) : c.Takes step (d, change) := by
  cases step with
  | record v =>
      cases h
      exact .record v
  | onMemory m =>
      have hm := c.takes_onMemory m
      rw [Option.some.inj h] at hm
      exact hm
  | recompute m resourceExhausted =>
      rcases c.recompute?_cases m resourceExhausted with ⟨hnone, _⟩ | ⟨next, hsome, htakes⟩
      · simp only [take?, hnone] at h
        cases h
      · simp only [take?, hsome] at h
        cases h
        exact htakes

/-- Only a growth whose sum is no word has no result. -/
theorem take?_eq_none_iff : c.take? step = none ↔
    ∃ m resourceExhausted, step = .recompute m resourceExhausted ∧ c.Overflows m resourceExhausted := by
  constructor
  · intro h
    cases step with
    | record | onMemory => cases h
    | recompute m resourceExhausted =>
        rcases c.recompute?_cases m resourceExhausted with ⟨_, hover⟩ | ⟨next, hsome, _⟩
        · exact ⟨m, resourceExhausted, rfl, hover⟩
        · simp only [take?, hsome] at h
          cases h
  · rintro ⟨m, resourceExhausted, rfl, hcalm, hready, hover⟩
    simp only [reason?] at hcalm
    simp only [isReady] at hready
    simp only [take?, recompute?, hcalm, hready, hover, ↓reduceIte]

/-! ## Rows of steps -/

theorem takeAll?_cons {rest : List ConcurrencyStep} {changes : List ConcurrencyChange}
    (h : c.takeAll? (step :: rest) = some (e, changes)) : ∃ d change later,
      c.take? step = some (d, change) ∧ d.takeAll? rest = some (e, later) ∧ changes = change :: later := by
  unfold takeAll? at h
  cases hstep : c.take? step with
  | none =>
      rw [hstep] at h
      cases h
  | some next =>
      rw [hstep] at h
      obtain ⟨⟨_, later⟩, hrest, he⟩ := Option.map_eq_some_iff.mp h
      cases he
      exact ⟨_, _, later, rfl, hrest, rfl⟩

theorem takeAll?_append {steps more : List ConcurrencyStep} {changes later : List ConcurrencyChange}
    (h : c.takeAll? steps = some (d, changes)) (hmore : d.takeAll? more = some (e, later)) :
    c.takeAll? (steps ++ more) = some (e, changes ++ later) := by
  induction steps generalizing c changes with
  | nil =>
      cases h
      exact hmore
  | cons step rest ih =>
      obtain ⟨next, change, others, hstep, hrest, rfl⟩ := takeAll?_cons h
      simp [takeAll?, hstep, ih hrest]

theorem Course.takeAll? {steps : List ConcurrencyStep} {changes : List ConcurrencyChange} (h : c.Course log d)
    (hsteps : d.takeAll? steps = some (e, changes)) : c.Course (log ++ steps.zip changes) e := by
  induction steps generalizing d log changes with
  | nil =>
      cases hsteps
      simpa using h
  | cons step rest ih =>
      obtain ⟨next, change, later, hstep, hrest, rfl⟩ := takeAll?_cons hsteps
      have hnext := ih (h.next (takes_of_take? hstep)) hrest
      simpa using hnext

theorem course_of_takeAll? {steps : List ConcurrencyStep} {changes : List ConcurrencyChange}
    (h : c.takeAll? steps = some (d, changes)) : c.Course (steps.zip changes) d :=
  Course.takeAll? .start h

end Concurrency

end PageAudit
