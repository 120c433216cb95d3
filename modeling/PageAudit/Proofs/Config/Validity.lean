import PageAudit.Config.Validity

/-!
# What a valid configuration promises

A configuration that is accepted meets every condition that it was checked for.
-/

namespace PageAudit

theorem demand_eq_ok {condition : Bool} {setting : String} {fault : SettingFault}
    (h : demand condition setting fault = .ok ()) : condition = true := by
  cases condition with
  | false => cases h
  | true => rfl

/-- What is checked after a condition is checked only if the condition holds. -/
theorem demand_bind {condition : Bool} {setting : String} {fault : SettingFault}
    {next : Unit → Except ConfigError Unit} (h : (demand condition setting fault >>= next) = .ok ()) :
    condition = true ∧ next () = .ok () := by
  cases condition with
  | false => cases h
  | true => exact ⟨rfl, h⟩

/-- The conditions on a pool. -/
structure PoolPolicy.Valid (p : PoolPolicy) : Prop where
  positive : 1 ≤ p.minConcurrency
  ordered : p.minConcurrency ≤ p.maxConcurrency
  initial : ∀ n, p.initialConcurrency = some n → p.minConcurrency ≤ n ∧ n ≤ p.maxConcurrency
  threshold : isShare p.failureRateThreshold = true
  window : 1 ≤ p.windowSize
  factor : isProperShare p.shrinkFactor = true
  step : 1 ≤ p.growStep
  headroom : isShare p.growHeadroomRatio = true
  watermark : 0 < p.memoryHighWatermarkBytes

theorem PoolPolicy.Valid.of_validate {p : PoolPolicy} (h : p.validate = .ok ()) : p.Valid := by
  unfold PoolPolicy.validate at h
  obtain ⟨hpositive, h⟩ := demand_bind h
  obtain ⟨hordered, h⟩ := demand_bind h
  dsimp only at h
  have hrest : (∀ n, p.initialConcurrency = some n → p.minConcurrency ≤ n ∧ n ≤ p.maxConcurrency) ∧ (do
      demand (isShare p.failureRateThreshold) "pool.failure_rate_threshold"
        (.outsideUnit p.failureRateThreshold true)
      demand (1 ≤ p.windowSize) "pool.window_size" .notAtLeastOne
      demand (isProperShare p.shrinkFactor) "pool.shrink_factor" (.outsideUnit p.shrinkFactor false)
      demand (1 ≤ p.growStep) "pool.grow_step" .notAtLeastOne
      demand (isShare p.growHeadroomRatio) "pool.grow_headroom_ratio" (.outsideUnit p.growHeadroomRatio true)
      demand (0 < p.memoryHighWatermarkBytes) "pool.memory_high_watermark_bytes" .notPositive) = .ok () := by
    cases hn : p.initialConcurrency with
    | none =>
        rw [hn] at h
        exact ⟨fun n he => (Option.some_ne_none n he.symm).elim, h⟩
    | some n =>
        rw [hn] at h
        obtain ⟨hinitial, h⟩ := demand_bind h
        simp only [Bool.and_eq_true, decide_eq_true_eq] at hinitial
        exact ⟨fun m he => Option.some.inj he ▸ hinitial, h⟩
  obtain ⟨hinitial, h⟩ := hrest
  obtain ⟨hthreshold, h⟩ := demand_bind h
  obtain ⟨hwindow, h⟩ := demand_bind h
  obtain ⟨hfactor, h⟩ := demand_bind h
  obtain ⟨hstep, h⟩ := demand_bind h
  obtain ⟨hheadroom, h⟩ := demand_bind h
  exact {
    positive := of_decide_eq_true hpositive
    ordered := of_decide_eq_true hordered
    initial := hinitial
    threshold := hthreshold
    window := of_decide_eq_true hwindow
    factor := hfactor
    step := of_decide_eq_true hstep
    headroom := hheadroom
    watermark := of_decide_eq_true (demand_eq_ok h) }

theorem RetryPolicy.one_le_of_validate {p : RetryPolicy} (h : p.validate = .ok ()) : 1 ≤ p.maxAttempts :=
  of_decide_eq_true (demand_eq_ok h)

theorem Config.parts_of_validate {c : Config} (h : c.validate = .ok ()) :
    c.pool.validate = .ok () ∧ c.retry.validate = .ok () := by
  unfold Config.validate at h
  cases hpool : c.pool.validate with
  | error e =>
      rw [hpool] at h
      cases h
  | ok =>
      cases hretry : c.retry.validate with
      | error e =>
          rw [hpool, hretry] at h
          cases h
      | ok => exact ⟨rfl, rfl⟩

end PageAudit
