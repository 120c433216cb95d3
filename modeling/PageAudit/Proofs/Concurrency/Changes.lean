import PageAudit.Proofs.Concurrency.Courses

/-!
# What an adaptation changes

Every step of the adaptation leaves the number of attempts allowed as it is, lowers it by at least one but not
below the minimum, or raises it to at most the maximum after a full window of successes.
-/

namespace PageAudit.Concurrency

variable {c : Concurrency}

/-- What a step of the adaptation does: the state after it and the change that it tells. -/
inductive Changed (c : Concurrency) : Concurrency × ConcurrencyChange → Prop where
  | unchanged : Changed c (c, .unchanged)
  | shrunk {target : Nat} (reason : ShrinkReason) (least : c.policy.minConcurrency ≤ target)
      (less : target < c.allowed) : Changed c ({ c with allowed := target }, .shrunk c.allowed target reason)
  | grew {target : Nat} (full : c.window.isFull = true) (healthy : c.window.allSuccesses = true)
      (sum : target = min (c.allowed + c.policy.growStep) c.policy.maxConcurrency) (more : target ≠ c.allowed) :
      Changed c ({ c with allowed := target, window := c.window.clear }, .grew c.allowed target)

theorem full_of_isReady {m : MemoryPressure} (h : c.isReady m = true) :
    c.window.isFull = true ∧ c.window.allSuccesses = true := by
  simp only [isReady, Bool.and_eq_true] at h
  exact h.1

/-- A step that records nothing does one of these things. -/
theorem Takes.changed {step : ConcurrencyStep} {next : Concurrency × ConcurrencyChange} (ht : c.Takes step next)
    (h : c.policy.minConcurrency ≤ c.allowed) (hstep : step.verdict? = none) : c.Changed next := by
  cases ht with
  | record => cases hstep
  | @shrink _ reason _ scaled =>
      rcases shrinkTo_cut h scaled reason with ⟨_, he⟩ | ⟨target, least, less, he⟩
      · exact he ▸ .unchanged
      · exact he ▸ .shrunk reason least less
  | pass | stay => exact .unchanged
  | grow _ ready _ more => exact .grew (full_of_isReady ready).1 (full_of_isReady ready).2 rfl more

theorem onMemory_changed (h : c.policy.minConcurrency ≤ c.allowed) (m : MemoryPressure) :
    c.Changed (c.onMemory m) :=
  (c.takes_onMemory m).changed h rfl

/-- An adaptation after an attempt has no result only if the sum with the step is no word. -/
theorem recompute?_changed (h : c.policy.minConcurrency ≤ c.allowed) (m : MemoryPressure)
    (resourceExhausted : Bool) :
    (c.recompute? m resourceExhausted = none ∧ c.window.isFull = true ∧ c.window.allSuccesses = true ∧
      Decimal.wordMax 64 < c.allowed + c.policy.growStep) ∨
    ∃ change, c.recompute? m resourceExhausted = some change ∧ c.Changed change := by
  rcases c.recompute?_cases m resourceExhausted with ⟨hnone, hover⟩ | ⟨next, hsome, ht⟩
  · obtain ⟨full, healthy⟩ := full_of_isReady hover.ready
    exact Or.inl ⟨hnone, full, healthy, hover.beyond⟩
  · exact Or.inr ⟨next, hsome, ht.changed h rfl⟩

end PageAudit.Concurrency
