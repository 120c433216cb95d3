import Mathlib.Algebra.Group.Nat.Defs
import Mathlib.Order.Monotone.Basic
import PageAudit.Retry

/-!
# Delays before attempts

The delay after a failed attempt doubles with every attempt until it has doubled often enough or reached the greatest
word, and the random part is added to it. Words are enough to compute it.
-/

namespace PageAudit

open Decimal

/-! ## Words -/

/-- The product of two words, or the greatest word if the product is none. -/
def saturatingMul (a b : UInt64) : UInt64 :=
  if a.toNat * b.toNat ≤ wordMax 64 then a * b else .ofNat (wordMax 64)

/-- The word before another one, 0 before 0. -/
def saturatingPred (a : UInt32) : UInt32 :=
  if a = 0 then 0 else a - 1

/-- The delay after an attempt without its random part, computed with words. -/
def wordDelay (base : UInt64) (attempt : UInt32) : UInt64 :=
  saturatingMul base (1 <<< (min (saturatingPred attempt) (.ofNat maxDoublings)).toUInt64)

theorem saturatingMul_toNat (a b : UInt64) : (saturatingMul a b).toNat = min (a.toNat * b.toNat) (wordMax 64) := by
  have hmax : wordMax 64 = 2 ^ 64 - 1 := rfl
  unfold saturatingMul
  split
  · rename_i hle
    rw [UInt64.toNat_mul, Nat.mod_eq_of_lt (by omega), Nat.min_eq_left hle]
  · rename_i hbeyond
    rw [Nat.min_eq_right (Nat.le_of_lt (Nat.not_le.mp hbeyond))]
    rfl

theorem saturatingPred_toNat (a : UInt32) : (saturatingPred a).toNat = a.toNat - 1 := by
  unfold saturatingPred
  split
  · rename_i hzero
    rw [hzero]
    rfl
  · rename_i hpos
    have hle : (1 : UInt32) ≤ a := by
      rw [UInt32.le_iff_toNat_le]
      have : a.toNat ≠ 0 := fun h => hpos (UInt32.toNat_inj.mp h)
      simp
      omega
    rw [UInt32.toNat_sub_of_le _ _ hle]
    rfl

/-- The number of doublings is small enough for a shift within a word. -/
theorem doubled_toNat (e : UInt32) (h : e.toNat ≤ maxDoublings) : ((1 : UInt64) <<< e.toUInt64).toNat = 2 ^ e.toNat := by
  have hsmall : e.toNat < 64 := Nat.lt_of_le_of_lt h (by decide)
  have hlt : 2 ^ e.toNat < 2 ^ 64 := Nat.pow_lt_pow_right (by decide) hsmall
  rw [UInt64.toNat_shiftLeft, UInt32.toNat_toUInt64, Nat.mod_eq_of_lt hsmall, UInt64.toNat_one, Nat.one_shiftLeft,
    Nat.mod_eq_of_lt hlt]

theorem min_toNat (a b : UInt32) : (min a b).toNat = min a.toNat b.toNat := by
  have hmin : min a b = if a ≤ b then a else b := rfl
  rw [hmin]
  split
  · rename_i hle
    exact (Nat.min_eq_left (UInt32.le_iff_toNat_le.mp hle)).symm
  · rename_i hlt
    exact (Nat.min_eq_right (Nat.le_of_not_le fun hle => hlt (UInt32.le_iff_toNat_le.mpr hle))).symm

theorem wordDelay_toNat (base : UInt64) (attempt : UInt32) : (wordDelay base attempt).toNat =
    min (base.toNat * 2 ^ min (attempt.toNat - 1) maxDoublings) (wordMax 64) := by
  have hmin : (min (saturatingPred attempt) (.ofNat maxDoublings)).toNat = min (attempt.toNat - 1) maxDoublings := by
    rw [min_toNat, saturatingPred_toNat]
    rfl
  rw [wordDelay, saturatingMul_toNat, doubled_toNat _ (hmin ▸ Nat.min_le_right _ _), hmin]

namespace RetryPolicy

variable {retry : RetryPolicy}

/-- The delays of a policy, as they double from attempt to attempt. -/
structure Doubles (retry : RetryPolicy) : Prop where
  exact : ∀ a, retry.baseDelay a = min (retry.backoffBaseMs * 2 ^ min (a - 1) 20) (2 ^ 64 - 1)
  /-- No word overflows on the way. -/
  words : ∀ (base : UInt64) (attempt : UInt32), base.toNat = retry.backoffBaseMs →
    (wordDelay base attempt).toNat = retry.baseDelay attempt.toNat
  increasing : Monotone retry.baseDelay
  within : ∀ a draw, retry.baseDelay a ≤ retry.delay a draw ∧
    retry.delay a draw ≤ retry.baseDelay a + retry.backoffJitterMs
  /-- With a random part of a word, its seconds still are a word. -/
  seconds : retry.backoffJitterMs ≤ 2 ^ 64 - 1 → ∀ a draw, retry.delay a draw / 1000 ≤ 2 ^ 64 - 1

theorem baseDelay_monotone (retry : RetryPolicy) : Monotone retry.baseDelay := by
  intro a b hab
  have hdoublings : min (a - 1) maxDoublings ≤ min (b - 1) maxDoublings := by omega
  have hproduct := Nat.mul_le_mul_left retry.backoffBaseMs (Nat.pow_le_pow_right Nat.zero_lt_two hdoublings)
  exact le_min (Nat.le_trans (Nat.min_le_left _ _) hproduct) (Nat.min_le_right _ _)

theorem delay_within (retry : RetryPolicy) (a draw : Nat) :
    retry.baseDelay a ≤ retry.delay a draw ∧ retry.delay a draw ≤ retry.baseDelay a + retry.backoffJitterMs := by
  have hrandom : draw % (retry.backoffJitterMs + 1) < retry.backoffJitterMs + 1 := Nat.mod_lt _ (Nat.succ_pos _)
  unfold delay
  omega

theorem doubles (retry : RetryPolicy) : retry.Doubles where
  exact := fun _ => rfl
  words := fun base attempt hbase => by
    rw [wordDelay_toNat, hbase]
    rfl
  increasing := retry.baseDelay_monotone
  within := retry.delay_within
  seconds := fun hjitter a draw => by
    have hword : retry.baseDelay a ≤ 2 ^ 64 - 1 := Nat.min_le_right _ _
    have hsum := (retry.delay_within a draw).2
    omega

/-- A failed attempt is repeated after the delay of the policy. -/
theorem delay_of_requeue {attempt draw delayMs : Nat} {e : AttemptError} {classification : Classification}
    (h : retry.decide attempt draw e = .requeue delayMs classification) : delayMs = retry.delay attempt draw := by
  unfold decide at h
  split at h
  · cases h
  · split at h
    · cases h
    · exact (RetryDecision.requeue.inj h).1.symm

end RetryPolicy

end PageAudit
