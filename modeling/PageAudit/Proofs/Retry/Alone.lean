import PageAudit.Attempt.Flow
import PageAudit.Job.Result
import PageAudit.Retry

/-!
# A job on its own

What a job comes to when nothing but its own attempts matters: the first attempt that decides, or else the last one
that the policy gives, makes the result.
-/

namespace PageAudit

/-- What a job came to, apart from how long it took. -/
structure Ending where
  state : JobState
  outcome : Outcome
  attempts : Nat

/-- What a result says that the job came to. -/
def Result.ending (r : Result) : Ending :=
  ⟨r.state, r.outcome, r.attemptsUsed⟩

/-- What an attempt reports that gave scores or an error. -/
def reported : Except AttemptError Metrics → AttemptOutcome
  | .ok metrics => .completed metrics
  | .error e => .failed e

theorem ok_of_reported {o : Except AttemptError Metrics} {metrics : Metrics} (h : reported o = .completed metrics) :
    o = .ok metrics := by
  cases o with
  | ok => exact congrArg Except.ok (AttemptOutcome.completed.inj h)
  | error => cases h

theorem error_of_reported {o : Except AttemptError Metrics} {e : AttemptError} (h : reported o = .failed e) :
    o = .error e := by
  cases o with
  | ok => cases h
  | error => exact congrArg Except.error (AttemptOutcome.failed.inj h)

theorem reported_ne_interrupted (o : Except AttemptError Metrics) : reported o ≠ .interrupted := by
  cases o <;> simp [reported]

namespace RetryPolicy

variable {retry : RetryPolicy} {out : Nat → Except AttemptError Metrics} {attempt : Nat}

/-- No attempt follows one that gave scores or failed fatally. -/
def decides (retry : RetryPolicy) : Except AttemptError Metrics → Bool
  | .ok _ => true
  | .error e => retry.classifier e == .fatal

/-- The first of the attempts that decides, the last one if none does. -/
def lastAttempt (retry : RetryPolicy) (out : Nat → Except AttemptError Metrics) : Nat :=
  ((List.range' 1 retry.maxAttempts).find? fun a => retry.decides (out a)).getD retry.maxAttempts

/-- What a job comes to on its own, when its attempts give `out`. -/
def alone (retry : RetryPolicy) (out : Nat → Except AttemptError Metrics) : Ending :=
  match out (retry.lastAttempt out) with
  | .ok metrics => ⟨.succeeded, .success metrics, retry.lastAttempt out⟩
  | .error e => ⟨.failedPermanent, .failure e.kind e.message, retry.lastAttempt out⟩

/-- No attempt before `attempt` decides. -/
def Undecided (retry : RetryPolicy) (out : Nat → Except AttemptError Metrics) (attempt : Nat) : Prop :=
  ∀ a, 1 ≤ a → a < attempt → retry.decides (out a) = false

theorem Undecided.succ (h : retry.Undecided out attempt) (hd : retry.decides (out attempt) = false) :
    retry.Undecided out (attempt + 1) := by
  intro a hone hlt
  rcases Nat.lt_succ_iff_lt_or_eq.mp hlt with hlt | rfl
  · exact h a hone hlt
  · exact hd

/-- An attempt that no other decides before is the last one if it decides or the policy gives no more. -/
theorem Undecided.lastAttempt_eq (h : retry.Undecided out attempt) (hone : 1 ≤ attempt)
    (hle : attempt ≤ retry.maxAttempts)
    (hlast : retry.decides (out attempt) = true ∨ attempt = retry.maxAttempts) :
    retry.lastAttempt out = attempt := by
  unfold lastAttempt
  by_cases hd : retry.decides (out attempt) = true
  · have hfind : ((List.range' 1 retry.maxAttempts).find? fun a => retry.decides (out a)) = some attempt := by
      rw [List.find?_range'_eq_some]
      refine ⟨hd, List.mem_range'_1.mpr ⟨hone, by omega⟩, fun a ha hlt => ?_⟩
      simp [h a ha hlt]
    rw [hfind]
    rfl
  · have hattempt : attempt = retry.maxAttempts := hlast.resolve_left hd
    have hfind : ((List.range' 1 retry.maxAttempts).find? fun a => retry.decides (out a)) = none := by
      rw [List.find?_range'_eq_none]
      intro a ha hlt
      rcases Nat.lt_or_eq_of_le (by omega : a ≤ attempt) with hlt | rfl
      · simp [h a ha hlt]
      · simpa using hd
    rw [hfind]
    exact hattempt.symm

theorem Undecided.alone_of_ok {metrics : Metrics} (h : retry.Undecided out attempt) (hone : 1 ≤ attempt)
    (hle : attempt ≤ retry.maxAttempts) (ho : out attempt = .ok metrics) :
    retry.alone out = ⟨.succeeded, .success metrics, attempt⟩ := by
  have hlast := h.lastAttempt_eq hone hle (Or.inl (by rw [ho]; rfl))
  rw [alone, hlast, ho]

/-- A job whose failure is final came to the same on its own. -/
theorem Undecided.alone_of_finalize {draw : Nat} {e : AttemptError} {reason : FinalizeReason}
    (h : retry.Undecided out attempt) (hone : 1 ≤ attempt) (hle : attempt ≤ retry.maxAttempts)
    (ho : out attempt = .error e) (hfinal : retry.decide attempt draw e = .finalize reason) :
    retry.alone out = ⟨.failedPermanent, .failure e.kind e.message, attempt⟩ := by
  have hlast : retry.decides (out attempt) = true ∨ attempt = retry.maxAttempts := by
    unfold decide at hfinal
    split at hfinal
    · rename_i hfatal
      exact Or.inl (by rw [ho]; simp [decides, hfatal])
    · split at hfinal
      · exact Or.inr (by omega)
      · cases hfinal
  rw [alone, h.lastAttempt_eq hone hle hlast, ho]

theorem decides_of_requeue {draw delayMs : Nat} {e : AttemptError} {classification : Classification}
    (hagain : retry.decide attempt draw e = .requeue delayMs classification) :
    retry.decides (.error e) = false := by
  unfold decide at hagain
  split at hagain
  · cases hagain
  · rename_i htransient
    simp [decides, htransient]

end RetryPolicy

end PageAudit
