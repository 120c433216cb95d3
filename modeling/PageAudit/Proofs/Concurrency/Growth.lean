import PageAudit.Proofs.Concurrency.Changes
import PageAudit.Proofs.Concurrency.Regulation
import PageAudit.Proofs.Concurrency.Window

/-!
# Growth of the adaptation

The window holds the last outcomes recorded since the last growth. So the number of attempts allowed grows only after
as many successes in a row as the window holds, which no other growth has used. Every step has a result, unless such a
growth comes to a sum that is no word.
-/

namespace PageAudit

namespace Concurrency

/-- The outcomes that a row of steps recorded. -/
def recorded (log : List (ConcurrencyStep × ConcurrencyChange)) : List Verdict :=
  log.filterMap (·.1.verdict?)

/-- The outcomes recorded since the last growth, or since the beginning. -/
def latest (log : List (ConcurrencyStep × ConcurrencyChange)) : List Verdict :=
  recorded (log.rtakeWhile fun x => !x.2.isGrowth)

/-- How often a row of steps grew. -/
def growths (log : List (ConcurrencyStep × ConcurrencyChange)) : Nat :=
  log.countP (·.2.isGrowth)

/-- The window knows what was recorded since the last growth, and every growth has used up a window of successes. -/
structure Remembers (p : PoolPolicy) (log : List (ConcurrencyStep × ConcurrencyChange)) (c : Concurrency) : Prop where
  policy : c.policy = p
  capacity : c.window.capacity = p.windowSize
  entries : c.window.entries = (latest log).rtake p.windowSize
  paid : growths log * p.windowSize + (latest log).count .success ≤ (recorded log).count .success

/-- What a row of steps from the beginning says of growth: the window is the end of what was recorded since the last
growth, and a growth follows a window of successes in a row, with memory and resources to spare. -/
structure Earned (p : PoolPolicy) (log : List (ConcurrencyStep × ConcurrencyChange)) (c : Concurrency) : Prop where
  window : c.window.entries = (latest log).rtake p.windowSize
  growths : growths log ≤ (recorded log).count .success / p.windowSize
  earned : ∀ m resourceExhausted d before after,
    c.take? (.recompute m resourceExhausted) = some (d, .grew before after) →
    p.windowSize ≤ (latest log).length ∧ (latest log).rtake p.windowSize = List.replicate p.windowSize .success ∧
      m.used < p.memoryHighWatermarkBytes ∧ resourceExhausted = false ∧ d.window.entries = []

variable {p : PoolPolicy} {c d : Concurrency} {step : ConcurrencyStep} {change : ConcurrencyChange}
  {steps : List ConcurrencyStep} {log : List (ConcurrencyStep × ConcurrencyChange)} {m : MemoryPressure}
  {resourceExhausted : Bool}

/-! ## Single steps -/

theorem grow_of_takes {before after : Nat} (ht : c.Takes (.recompute m resourceExhausted) (d, .grew before after)) :
    c.reason? (.recompute m resourceExhausted) = none ∧ c.isReady m = true ∧ d.window = c.window.clear := by
  generalize hnext : (d, ConcurrencyChange.grew before after) = next at ht
  cases ht with
  | stay => cases hnext
  | shrink =>
      unfold shrinkTo at hnext
      split at hnext <;> cases hnext
  | grow calm ready =>
      cases hnext
      exact ⟨calm, ready, rfl⟩

theorem calm_recompute (calm : c.reason? (.recompute m resourceExhausted) = none) :
    m.used < c.policy.memoryHighWatermarkBytes ∧ resourceExhausted = false := by
  have hpressed : ¬c.Pressed (.recompute m resourceExhausted) := fun hp => pressed_iff.mp hp calm
  simp only [Pressed, not_or, Nat.not_le, Bool.not_eq_true] at hpressed
  exact ⟨hpressed.1, hpressed.2.1⟩

/-! ## What was recorded -/

theorem recorded_concat (log : List (ConcurrencyStep × ConcurrencyChange)) (x : ConcurrencyStep × ConcurrencyChange) :
    recorded (log ++ [x]) = recorded log ++ x.1.verdict?.toList := by
  cases h : x.1.verdict? <;> simp [recorded, h]

theorem latest_concat (log : List (ConcurrencyStep × ConcurrencyChange)) (x : ConcurrencyStep × ConcurrencyChange) :
    latest (log ++ [x]) = if x.2.isGrowth then [] else latest log ++ x.1.verdict?.toList := by
  unfold latest
  rw [List.rtakeWhile_concat]
  cases h : x.2.isGrowth with
  | true => rfl
  | false => exact recorded_concat _ x

theorem growths_concat (log : List (ConcurrencyStep × ConcurrencyChange)) (x : ConcurrencyStep × ConcurrencyChange) :
    growths (log ++ [x]) = growths log + if x.2.isGrowth then 1 else 0 := by
  simp [growths, List.countP_cons]

/-! ## What the window knows -/

theorem Remembers.start? (h : p.Valid) (hc : Concurrency.start? p = some c) : Remembers p [] c := by
  obtain ⟨n, _, rfl⟩ := Option.map_eq_some_iff.mp hc
  have hwindow := h.window
  exact ⟨rfl, Nat.max_eq_left hwindow, by simp [latest, recorded, Window.ofSize], by simp [growths, latest, recorded]⟩

/-- A step that neither records nor grows leaves the window alone. -/
theorem Remembers.same (h : Remembers p log c) (hpolicy : d.policy = c.policy) (hwindow : d.window = c.window)
    (hstep : step.verdict? = none) (hchange : change.isGrowth = false) : Remembers p (log ++ [(step, change)]) d := by
  have hlatest : latest (log ++ [(step, change)]) = latest log := by simp [latest_concat, hchange, hstep]
  have hrecorded : recorded (log ++ [(step, change)]) = recorded log := by simp [recorded_concat, hstep]
  have hgrowths : growths (log ++ [(step, change)]) = growths log := by simp [growths_concat, hchange]
  refine ⟨hpolicy.trans h.policy, hwindow ▸ h.capacity, ?_, ?_⟩
  · rw [hlatest, hwindow]
    exact h.entries
  · rw [hlatest, hrecorded, hgrowths]
    exact h.paid

/-- A full window without failures is the end of what was recorded since the last growth. -/
theorem Remembers.ready (h : Remembers p log c) (hready : c.isReady m = true) :
    (latest log).rtake p.windowSize = List.replicate p.windowSize .success ∧ p.windowSize ≤ (latest log).length := by
  obtain ⟨full, healthy⟩ := full_of_isReady hready
  have hentries := Window.entries_of_full full healthy
  rw [h.entries, h.capacity] at hentries
  have hlength := congrArg List.length hentries
  simp only [List.rtake, List.length_drop, List.length_replicate] at hlength
  exact ⟨hentries, by omega⟩

theorem Remembers.takes (h : Remembers p log c) (hvalid : p.Valid) {next : Concurrency × ConcurrencyChange}
    (ht : c.Takes step next) : Remembers p (log ++ [(step, next.2)]) next.1 := by
  cases ht with
  | record v =>
      have hlatest : latest (log ++ [(.record v, .unchanged)]) = latest log ++ [v] := latest_concat log _
      have hrecorded : recorded (log ++ [(.record v, .unchanged)]) = recorded log ++ [v] := recorded_concat log _
      refine ⟨h.policy, h.capacity, ?_, ?_⟩
      · rw [hlatest, ← h.capacity]
        exact Window.record_rtake (h.capacity ▸ hvalid.window) (h.capacity ▸ h.entries) v
      · have hpaid := h.paid
        rw [hlatest, hrecorded, growths_concat, List.count_append, List.count_append]
        simp only [ConcurrencyChange.isGrowth, Bool.false_eq_true, ↓reduceIte, Nat.add_zero]
        omega
  | shrink why scaled =>
      have hnone : step.verdict? = none := by
        cases step with
        | record => cases why
        | recompute | onMemory => rfl
      unfold shrinkTo
      split
      · exact h.same rfl rfl hnone rfl
      · exact h.same rfl rfl hnone rfl
  | pass | stay => exact h.same rfl rfl rfl rfl
  | @grow m resourceExhausted _ ready =>
      have hlatest : latest (log ++ [(.recompute m resourceExhausted, .grew c.allowed c.raised)]) = [] :=
        latest_concat log _
      refine ⟨h.policy, h.capacity, ?_, ?_⟩
      · simp [hlatest, Window.clear]
      · -- The successes in the window pay for this growth.
        have hspent : p.windowSize ≤ (latest log).count .success := by
          have hcount := congrArg (List.count Verdict.success) (h.ready ready).1
          rw [List.count_replicate_self] at hcount
          exact hcount ▸ (List.drop_sublist _ _).count_le _
        have hpaid := h.paid
        rw [hlatest, recorded_concat, growths_concat, Nat.add_mul]
        simp only [ConcurrencyChange.isGrowth, ConcurrencyStep.verdict?, ↓reduceIte, List.count_nil, Option.toList_none,
          List.append_nil, Nat.one_mul, Nat.add_zero]
        omega

theorem Remembers.course (h : Remembers p [] c) (hvalid : p.Valid) (hc : c.Course log d) : Remembers p log d := by
  induction hc with
  | start => exact h
  | next _ takes ih => exact ih.takes hvalid takes

/-! ## Growth -/

theorem Remembers.earned (h : Remembers p log c) (hvalid : p.Valid) : Earned p log c := by
  refine ⟨h.entries, ?_, fun m resourceExhausted d before after hgrew => ?_⟩
  · rw [Nat.le_div_iff_mul_le hvalid.window]
    exact Nat.le_trans (Nat.le_add_right _ _) h.paid
  · obtain ⟨calm, ready, hclear⟩ := grow_of_takes (takes_of_take? hgrew)
    obtain ⟨hlast, hlength⟩ := h.ready ready
    obtain ⟨hmemory, hresources⟩ := calm_recompute calm
    exact ⟨hlength, hlast, h.policy ▸ hmemory, hresources, by simp [hclear, Window.clear]⟩

/-- A new pool grows by what its attempts have earned. -/
theorem Earned.of_takeAll? (h : p.Valid) (hc : Concurrency.start? p = some c) {changes : List ConcurrencyChange}
    (hsteps : c.takeAll? steps = some (d, changes)) : Earned p (steps.zip changes) d :=
  ((Remembers.start? h hc).course h (course_of_takeAll? hsteps)).earned h

/-! ## Sums that are no word -/

/-- Steps in order have a result, unless one of them comes to a growth whose sum is no word. -/
theorem takeAll?_eq_none_iff : c.takeAll? steps = none ↔ ∃ before m resourceExhausted later d changes,
    steps = before ++ .recompute m resourceExhausted :: later ∧ c.takeAll? before = some (d, changes) ∧
      d.Overflows m resourceExhausted := by
  induction steps generalizing c with
  | nil => simp [takeAll?]
  | cons step rest ih =>
      constructor
      · intro h
        cases hstep : c.take? step with
        | none =>
            obtain ⟨m, resourceExhausted, rfl, hover⟩ := take?_eq_none_iff.mp hstep
            exact ⟨[], m, resourceExhausted, rest, c, [], rfl, rfl, hover⟩
        | some next =>
            simp only [takeAll?, hstep, Option.map_eq_none_iff] at h
            obtain ⟨before, m, resourceExhausted, later, d, changes, rfl, hbefore, hover⟩ := ih.mp h
            exact ⟨step :: before, m, resourceExhausted, later, d, next.2 :: changes, rfl,
              by simp [takeAll?, hstep, hbefore], hover⟩
      · rintro ⟨before, m, resourceExhausted, later, d, changes, hsplit, hbefore, hover⟩
        cases before with
        | nil =>
            cases hsplit
            cases hbefore
            have hstep : c.take? (.recompute m resourceExhausted) = none :=
              take?_eq_none_iff.mpr ⟨m, resourceExhausted, rfl, hover⟩
            simp [takeAll?, hstep]
        | cons _ before =>
            simp only [List.cons_append, List.cons.injEq] at hsplit
            obtain ⟨rfl, rfl⟩ := hsplit
            obtain ⟨next, change, others, hstep, hrest, _⟩ := takeAll?_cons hbefore
            have hnone := ih.mpr ⟨before, m, resourceExhausted, later, d, others, rfl, hrest, hover⟩
            simp [takeAll?, hstep, hnone]

/-- What the low 64 bits of a number hold. -/
def lowWord (n : Nat) : Nat :=
  n % (Decimal.wordMax 64 + 1)

/-- A sum that is no word is, in its low 64 bits, less than what was to be raised. -/
theorem lowWord_lt {allowed step : Nat} (hstep : step ≤ Decimal.wordMax 64) (h : Decimal.wordMax 64 < allowed + step) :
    lowWord (allowed + step) < allowed := by
  have hmax : Decimal.wordMax 64 = 18446744073709551615 := rfl
  rw [lowWord, hmax]
  omega

/-- The steps of a new pool with a valid policy have results, but for the first that comes to a growth whose sum with
the step of growth is no word. That takes a full window of successes, and never happens if the maximum and the step of
growth are together a word. -/
theorem growth_sums (h : p.validate = .ok ()) : ∃ c, Concurrency.start? p = some c ∧
    (∀ steps, c.takeAll? steps = none ↔ ∃ before m resourceExhausted later d changes,
      steps = before ++ .recompute m resourceExhausted :: later ∧ c.takeAll? before = some (d, changes) ∧
        d.Overflows m resourceExhausted) ∧
    (∀ steps d changes m resourceExhausted, c.takeAll? steps = some (d, changes) → d.Overflows m resourceExhausted →
      (latest (steps.zip changes)).rtake p.windowSize = List.replicate p.windowSize .success ∧
        m.used < p.memoryHighWatermarkBytes ∧ resourceExhausted = false ∧
        Decimal.wordMax 64 < p.maxConcurrency + p.growStep ∧
        (p.growStep ≤ Decimal.wordMax 64 → lowWord (d.allowed + p.growStep) < d.allowed)) ∧
    (p.maxConcurrency + p.growStep ≤ Decimal.wordMax 64 →
      ∀ steps, ∃ d changes, c.takeAll? steps = some (d, changes)) := by
  have hvalid := PoolPolicy.Valid.of_validate h
  obtain ⟨c, hc, hwithin⟩ := Within.start? hvalid
  have hover : ∀ steps d changes m resourceExhausted, c.takeAll? steps = some (d, changes) →
      d.Overflows m resourceExhausted → Decimal.wordMax 64 < p.maxConcurrency + p.growStep := by
    intro steps d changes m resourceExhausted hsteps hoverflows
    obtain ⟨hpolicy, _, hmost⟩ := hwithin.course (course_of_takeAll? hsteps)
    have hbeyond := hoverflows.beyond
    rw [hpolicy] at hbeyond
    omega
  refine ⟨c, hc, fun _ => takeAll?_eq_none_iff, ?_, fun hfits steps => ?_⟩
  · intro steps d changes m resourceExhausted hsteps hoverflows
    have hknown := (Remembers.start? hvalid hc).course hvalid (course_of_takeAll? hsteps)
    obtain ⟨hmemory, hresources⟩ := calm_recompute hoverflows.calm
    have hbeyond := hoverflows.beyond
    rw [hknown.policy] at hmemory hbeyond
    exact ⟨(hknown.ready hoverflows.ready).1, hmemory, hresources, hover _ _ _ _ _ hsteps hoverflows,
      fun hstep => lowWord_lt hstep hbeyond⟩
  · cases hsteps : c.takeAll? steps with
    | some result => exact ⟨_, _, rfl⟩
    | none =>
        obtain ⟨before, m, resourceExhausted, _, d, changes, _, hbefore, hoverflows⟩ := takeAll?_eq_none_iff.mp hsteps
        exact absurd (hover _ _ _ _ _ hbefore hoverflows) (Nat.not_lt.mpr hfits)

theorem defaults_growth_sums : PoolPolicy.validate {} = .ok () ∧ ∃ c, Concurrency.start? {} = some c ∧
    ∀ steps, ∃ d changes, c.takeAll? steps = some (d, changes) := by
  obtain ⟨c, hc, _, _, hall⟩ := growth_sums (p := {}) rfl
  exact ⟨rfl, c, hc, hall (by decide)⟩

/-- A valid policy that grows by the greatest word after every success. -/
def greedyPolicy : PoolPolicy :=
  { initialConcurrency := some 1, windowSize := 1, growStep := Decimal.wordMax 64 }

/-- The first success has no result, and the low bits of its sum would allow no attempt at all. -/
theorem greedy_growth_overflows : greedyPolicy.validate = .ok () ∧ ∃ c, Concurrency.start? greedyPolicy = some c ∧
    c.takeAll? [.record .success, .recompute {} false] = none ∧
    min (lowWord (c.allowed + greedyPolicy.growStep)) greedyPolicy.maxConcurrency < greedyPolicy.minConcurrency ∧
    ¬ ∀ steps, ∃ d changes, c.takeAll? steps = some (d, changes) := by
  have hvalid : greedyPolicy.validate = .ok () := rfl
  obtain ⟨c, hc⟩ : ∃ c, Concurrency.start? greedyPolicy = some c := ⟨_, rfl⟩
  have hnone : c.takeAll? [.record .success, .recompute {} false] = none := by
    cases hc
    rfl
  have hwrapped : min (lowWord (c.allowed + greedyPolicy.growStep)) greedyPolicy.maxConcurrency <
      greedyPolicy.minConcurrency := by
    cases hc
    decide
  refine ⟨hvalid, c, hc, hnone, hwrapped, fun hall => ?_⟩
  obtain ⟨d, changes, hsome⟩ := hall _
  cases hnone.symm.trans hsome

end Concurrency

end PageAudit
