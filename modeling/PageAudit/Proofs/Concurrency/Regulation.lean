import PageAudit.Proofs.Concurrency.Courses
import PageAudit.Proofs.Config.Validity

/-!
# Bounds of the adaptation

The number of attempts allowed stays within the bounds of the policy, however the product with the factor is rounded,
and a change tells what the number was and what it became. Whatever there is to shrink for takes at least one away while
more than the minimum are allowed, so memory at the watermark brings the number down to the minimum.
-/

namespace PageAudit

/-- A change tells what became of the number allowed. -/
def ConcurrencyChange.Tells (p : PoolPolicy) (before after : Nat) : ConcurrencyChange → Prop
  | .unchanged => after = before
  | .shrunk a b _ => a = before ∧ b = after ∧ b < a
  | .grew a b => a = before ∧ b = after ∧ a < b ∧ b = min (a + p.growStep) p.maxConcurrency

namespace Concurrency

/-- The number allowed is within the bounds of a policy. -/
structure Within (p : PoolPolicy) (c : Concurrency) : Prop where
  policy : c.policy = p
  least : p.minConcurrency ≤ c.allowed
  most : c.allowed ≤ p.maxConcurrency

/-- There is something to shrink for: memory, resources or failures. -/
def Pressed (c : Concurrency) : ConcurrencyStep → Prop
  | .record _ => False
  | .recompute m resourceExhausted =>
    c.policy.memoryHighWatermarkBytes ≤ m.used ∨ resourceExhausted = true ∨
      c.window.entries ≠ [] ∧ c.policy.failureRateThreshold ≤ c.window.failureRate
  | .onMemory m => c.policy.memoryHighWatermarkBytes ≤ m.used

/-- What a step does to the number allowed. -/
structure Regulated (c : Concurrency) (step : ConcurrencyStep) (d : Concurrency) (change : ConcurrencyChange) :
    Prop where
  told : change.Tells c.policy c.allowed d.allowed
  shrinks : c.Pressed step → c.policy.minConcurrency < c.allowed → ∃ reason, change = .shrunk c.allowed d.allowed reason
  floored : c.Pressed step → c.allowed ≤ c.policy.minConcurrency → change = .unchanged ∧ d = c
  window : ∀ m, step = .onMemory m → d.window = c.window

/-- Memory at the watermark brings the number allowed down to the minimum, where it stays. -/
structure Settles (c : Concurrency) : Prop where
  descends : ∀ log d, c.Course log d →
    (∀ x ∈ log, ∃ m, x.1 = .onMemory m ∧ c.policy.memoryHighWatermarkBytes ≤ m.used) →
    c.allowed - c.policy.minConcurrency < log.length →
    d.allowed = c.policy.minConcurrency ∧ ∃ x ∈ log, x.2 = .unchanged
  rests : ∀ m d, c.policy.memoryHighWatermarkBytes ≤ m.used → c.Takes (.onMemory m) (d, .unchanged) →
    c.allowed = c.policy.minConcurrency ∧ d = c
  loop : ∀ m, c.policy.memoryHighWatermarkBytes ≤ m.used → ∃ d changes,
    c.settleOnMemory m (c.allowed + 1) = (d, changes) ∧ d.allowed = c.policy.minConcurrency ∧
      d.onMemory m = (d, .unchanged) ∧ d.window = c.window

variable {p : PoolPolicy} {c d : Concurrency} {step : ConcurrencyStep} {change : ConcurrencyChange}
  {log : List (ConcurrencyStep × ConcurrencyChange)} {next : Concurrency × ConcurrencyChange} {m : MemoryPressure}

/-! ## Single steps -/

theorem pressed_iff : c.Pressed step ↔ c.reason? step ≠ none := by
  cases step with
  | record => simp [Pressed, reason?]
  | onMemory => simp [Pressed, reason?, atWatermark]
  | recompute m resourceExhausted =>
      simp only [Pressed, reason?, shrinkReason?, atWatermark]
      by_cases hm : c.policy.memoryHighWatermarkBytes ≤ m.used
      · simp [hm]
      · cases resourceExhausted <;> simp [hm]

theorem Within.start? (h : p.Valid) : ∃ c, Concurrency.start? p = some c ∧ c.Within p := by
  have hordered := h.ordered
  refine ⟨⟨p, min (max (p.initialConcurrency.getD p.maxConcurrency) p.minConcurrency) p.maxConcurrency,
    .ofSize p.windowSize⟩, ?_, rfl, ?_, ?_⟩
  · simp [Concurrency.start?, PoolPolicy.starting?, hordered]
  · dsimp only
    omega
  · dsimp only
    omega

theorem Regulated.of_calm (calm : c.reason? step = none) (told : change.Tells c.policy c.allowed d.allowed)
    (window : ∀ m, step = .onMemory m → d.window = c.window) : c.Regulated step d change := by
  have hcalm : ¬c.Pressed step := fun hpressed => pressed_iff.mp hpressed calm
  exact ⟨told, fun hpressed => absurd hpressed hcalm, fun hpressed => absurd hpressed hcalm, window⟩

/-- A step keeps to the bounds and tells what it did. -/
theorem Within.takes (h : c.Within p) (ht : c.Takes step next) : next.1.Within p ∧ c.Regulated step next.1 next.2 := by
  obtain ⟨rfl, hleast, hmost⟩ := h
  cases ht with
  | record v => exact ⟨⟨rfl, hleast, hmost⟩, .of_calm rfl rfl fun _ he => by cases he⟩
  | @shrink _ reason _ scaled =>
      rcases shrinkTo_cut hleast scaled reason with ⟨hfloor, he⟩ | ⟨target, hcut, hless, he⟩
      · rw [he]
        exact ⟨⟨rfl, hleast, hmost⟩, rfl, fun _ hmore => absurd hfloor (Nat.ne_of_gt hmore), fun _ _ => ⟨rfl, rfl⟩,
          fun _ _ => rfl⟩
      · rw [he]
        exact ⟨⟨rfl, hcut, Nat.le_trans (Nat.le_of_lt hless) hmost⟩, ⟨rfl, rfl, hless⟩, fun _ _ => ⟨reason, rfl⟩,
          fun _ hle => absurd (Nat.le_trans hle hcut) (Nat.not_le.mpr hless), fun _ _ => rfl⟩
  | pass calm => exact ⟨⟨rfl, hleast, hmost⟩, .of_calm calm rfl fun _ _ => rfl⟩
  | stay calm => exact ⟨⟨rfl, hleast, hmost⟩, .of_calm calm rfl fun _ he => by cases he⟩
  | grow calm _ _ more =>
      have hraised : c.allowed < c.raised ∧ c.raised ≤ c.policy.maxConcurrency := by
        simp only [raised] at more ⊢
        omega
      have htold : (ConcurrencyChange.grew c.allowed c.raised).Tells c.policy c.allowed c.raised :=
        ⟨rfl, rfl, hraised.1, rfl⟩
      exact ⟨⟨rfl, Nat.le_trans hleast (Nat.le_of_lt hraised.1), hraised.2⟩,
        .of_calm calm htold fun _ he => by cases he⟩

/-- A look at memory that is at the watermark takes at least one away, or the minimum is reached and nothing changes. -/
theorem Within.takes_onMemory (h : c.Within p) (hm : p.memoryHighWatermarkBytes ≤ m.used)
    (ht : c.Takes (.onMemory m) next) : next.1.Within p ∧ next.1.window = c.window ∧
      (next.1.allowed < c.allowed ∧ next.2 ≠ .unchanged ∨ c.allowed = p.minConcurrency ∧ next = (c, .unchanged)) := by
  obtain ⟨hwithin, hregulated⟩ := h.takes ht
  obtain rfl := h.policy
  refine ⟨hwithin, hregulated.window m rfl, ?_⟩
  by_cases hmore : c.policy.minConcurrency < c.allowed
  · obtain ⟨reason, hchange⟩ := hregulated.shrinks hm hmore
    have htold := hregulated.told
    rw [hchange] at htold
    exact Or.inl ⟨htold.2.2, by simp [hchange]⟩
  · have hfloor := Nat.not_lt.mp hmore
    obtain ⟨hchange, hsame⟩ := hregulated.floored hm hfloor
    exact Or.inr ⟨Nat.le_antisymm hfloor h.least, Prod.ext hsame hchange⟩

theorem Within.onMemory_of_floor (h : c.Within p) (hm : p.memoryHighWatermarkBytes ≤ m.used)
    (hfloor : c.allowed = p.minConcurrency) : c.onMemory m = (c, .unchanged) := by
  obtain ⟨hwithin, _, ⟨hless, _⟩ | ⟨_, hsame⟩⟩ := h.takes_onMemory hm (c.takes_onMemory m)
  · exact absurd hwithin.least (Nat.not_le.mpr (hfloor ▸ hless))
  · exact hsame

/-! ## Rows of steps -/

theorem Within.course (h : c.Within p) (hc : c.Course log d) : d.Within p := by
  induction hc with
  | start => exact h
  | next _ takes ih => exact (ih.takes takes).1

/-- Each look at the memory takes one away, until one of them changes nothing at the minimum. -/
theorem Within.descends (h : c.Within p) (hc : c.Course log d)
    (hlog : ∀ x ∈ log, ∃ m, x.1 = .onMemory m ∧ p.memoryHighWatermarkBytes ≤ m.used) :
    d.allowed + log.length ≤ c.allowed ∨ d.allowed = p.minConcurrency ∧ ∃ x ∈ log, x.2 = .unchanged := by
  induction hc with
  | start => exact Or.inl (Nat.le_refl _)
  | @next log d e step change course takes ih =>
      have hlast : (step, change) ∈ log ++ [(step, change)] := by simp
      have hd := h.course course
      obtain ⟨m, rfl, hm⟩ := hlog _ hlast
      rcases hd.takes_onMemory hm takes with ⟨hwithin, _, ⟨hless, _⟩ | ⟨hfloor, hsame⟩⟩
      · -- This look takes one away, so no earlier one has come to the minimum.
        rcases ih fun x hx => hlog x (List.mem_append_left _ hx) with hfar | ⟨hfloor, _⟩
        · rw [List.length_append, List.length_singleton]
          exact Or.inl (by dsimp only at hless; omega)
        · exact absurd hwithin.least (Nat.not_le.mpr (hfloor ▸ hless))
      · cases hsame
        exact Or.inr ⟨hfloor, _, hlast, rfl⟩

theorem Within.settleOnMemory (h : c.Within p) (hm : p.memoryHighWatermarkBytes ≤ m.used) (fuel : Nat)
    (hfuel : c.allowed < p.minConcurrency + fuel) :
    (c.settleOnMemory m fuel).1.Within p ∧ (c.settleOnMemory m fuel).1.allowed = p.minConcurrency ∧
      (c.settleOnMemory m fuel).1.window = c.window := by
  induction fuel generalizing c with
  | zero => exact absurd hfuel (Nat.not_lt.mpr h.least)
  | succ fuel ih =>
      obtain ⟨hnext, hwindow, hcases⟩ := h.takes_onMemory hm (c.takes_onMemory m)
      unfold Concurrency.settleOnMemory
      rcases hcases with ⟨hless, hchange⟩ | ⟨hfloor, hsame⟩
      · obtain ⟨hwithin, hallowed, hkept⟩ := ih hnext (by omega)
        split
        · rename_i heq
          exact absurd (congrArg Prod.snd heq) hchange
        · rename_i heq
          simp only [heq] at hwithin hallowed hkept hwindow
          exact ⟨hwithin, hallowed, hkept.trans hwindow⟩
      · rw [hsame]
        exact ⟨h, hfloor, rfl⟩

theorem Within.settles (h : c.Within p) : c.Settles := by
  obtain rfl := h.policy
  refine ⟨fun log d hc hlog hlength => ?_, fun m d hm ht => ?_, fun m hm => ?_⟩
  · rcases h.descends hc hlog with hfar | hfloor
    · have := (h.course hc).least
      omega
    · exact hfloor
  · rcases h.takes_onMemory hm ht with ⟨_, _, ⟨_, hchange⟩ | ⟨hfloor, hsame⟩⟩
    · exact absurd rfl hchange
    · exact ⟨hfloor, congrArg Prod.fst hsame⟩
  · obtain ⟨hwithin, hallowed, hwindow⟩ := h.settleOnMemory hm (c.allowed + 1) (by omega)
    exact ⟨_, _, rfl, hallowed, hwithin.onMemory_of_floor hm hallowed, hwindow⟩

/-- A pool with a valid policy adapts the number of attempts allowed within its bounds, by changes that it tells as they
are, and gives way to whatever there is to shrink for. -/
theorem allowed_regulated (h : p.validate = .ok ()) : ∃ c, Concurrency.start? p = some c ∧
    (∀ steps d changes, c.takeAll? steps = some (d, changes) → c.Course (steps.zip changes) d) ∧
    ∀ log d, c.Course log d → d.policy = p ∧ p.minConcurrency ≤ d.allowed ∧ d.allowed ≤ p.maxConcurrency ∧
      (∀ step e change, d.Takes step (e, change) → d.Regulated step e change) ∧ d.Settles := by
  obtain ⟨c, hc, hwithin⟩ := Within.start? (.of_validate h)
  refine ⟨c, hc, fun _ _ _ => course_of_takeAll?, fun log d hcourse => ?_⟩
  have hd := hwithin.course hcourse
  exact ⟨hd.policy, hd.least, hd.most, fun step e change ht => (hd.takes ht).2, hd.settles⟩

theorem defaults_allowed_regulated : PoolPolicy.validate {} = .ok () ∧ ∃ c, Concurrency.start? {} = some c ∧
    c.allowed = 4 ∧ c.Settles := by
  obtain ⟨c, hc, _, hall⟩ := allowed_regulated (p := {}) rfl
  have hfour := hc
  cases hfour
  exact ⟨rfl, _, hc, rfl, (hall [] _ .start).2.2.2.2⟩

end Concurrency

end PageAudit
