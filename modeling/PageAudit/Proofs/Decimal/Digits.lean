import Mathlib.Algebra.Group.Nat.Defs
import PageAudit.Decimal.Numeral

/-!
# Digits

Reading the digits of a number gives the number back, whatever follows them, as long as no digit does.
-/

namespace PageAudit.Decimal

/-- What follows does not go on with a digit. -/
def NoDigit (cs : List Char) : Prop :=
  ∀ c ∈ cs.head?, c.isDigit = false

theorem NoDigit.nil : NoDigit [] := by simp [NoDigit]

theorem NoDigit.cons {c : Char} {cs : List Char} (h : c.isDigit = false) : NoDigit (c :: cs) := by
  simpa [NoDigit] using h

theorem digitOf?_eq (c : Char) : digitOf? c = if c.isDigit then some (c.toNat - '0'.toNat) else none := by
  have hiff : ('0' ≤ c && c ≤ '9') = c.isDigit := by
    simp only [Char.isDigit, Char.le_def, ge_iff_le]
  rw [digitOf?, hiff]

theorem takeDigits_append {cs rest : List Char} (hcs : ∀ c ∈ cs, c.isDigit = true) (hrest : NoDigit rest) :
    takeDigits (cs ++ rest) = (cs.map fun c => c.toNat - '0'.toNat, rest) := by
  induction cs with
  | nil =>
      cases rest with
      | nil => rfl
      | cons c rest => simp [takeDigits, digitOf?_eq, hrest c rfl]
  | cons c cs ih =>
      have hc := hcs c List.mem_cons_self
      have hmore := ih fun d hd => hcs d (List.mem_cons_of_mem c hd)
      simp [takeDigits, digitOf?_eq, hc, hmore]

theorem ofDigits_map (cs : List Char) :
    ofDigits (cs.map fun c => c.toNat - '0'.toNat) = Nat.ofDigitChars 10 cs 0 := by
  simp [ofDigits, Nat.ofDigitChars_eq_foldl, List.foldl_map]

theorem lt_ten_of_mem_takeDigits {cs : List Char} {d : Nat} (hd : d ∈ (takeDigits cs).1) : d < 10 := by
  induction cs with
  | nil => simp [takeDigits] at hd
  | cons c cs ih =>
      rw [takeDigits, digitOf?_eq] at hd
      by_cases hc : c.isDigit = true
      · simp only [hc, if_true, List.mem_cons] at hd
        rcases hd with rfl | hd
        · simp only [Char.isDigit, Bool.and_eq_true, decide_eq_true_eq, ge_iff_le, UInt32.le_iff_toNat_le] at hc
          have hhigh : c.toNat ≤ 57 := hc.2
          show c.toNat - 48 < 10
          omega
        · exact ih hd
      · simp [hc] at hd

theorem ofDigits_lt {ds : List Nat} (hds : ∀ d ∈ ds, d < 10) : ofDigits ds < 10 ^ ds.length := by
  have hfold : ∀ n, ds.foldl (fun n d => 10 * n + d) n < (n + 1) * 10 ^ ds.length := by
    induction ds with
    | nil => intro n; simp
    | cons d ds ih =>
        intro n
        have hd := hds d List.mem_cons_self
        calc ds.foldl (fun n d => 10 * n + d) (10 * n + d)
            < (10 * n + d + 1) * 10 ^ ds.length := ih (fun e he => hds e (List.mem_cons_of_mem d he)) _
          _ ≤ (n + 1) * 10 * 10 ^ ds.length := Nat.mul_le_mul_right _ (by omega)
          _ = (n + 1) * 10 ^ (d :: ds).length := by rw [List.length_cons, Nat.pow_succ', Nat.mul_assoc]
  simpa [ofDigits] using hfold 0

/-- The values of the digits of a number. -/
def digitValues (n : Nat) : List Nat :=
  (Nat.toDigits 10 n).map fun c => c.toNat - '0'.toNat

theorem not_mem_toDigits {c : Char} (hc : c.isDigit = false) (n : Nat) : c ∉ Nat.toDigits 10 n := fun hmem =>
  Bool.false_ne_true (hc.symm.trans (Nat.isDigit_of_mem_toDigits (by decide) (by decide) hmem))

theorem toDigits_inj {m n : Nat} (h : Nat.toDigits 10 m = Nat.toDigits 10 n) : m = n := by
  rw [← Nat.ofDigitChars_ten_toDigits (n := m), h, Nat.ofDigitChars_ten_toDigits]

theorem takeDigits_toDigits (n : Nat) {rest : List Char} (hrest : NoDigit rest) :
    takeDigits (Nat.toDigits 10 n ++ rest) = (digitValues n, rest) :=
  takeDigits_append (fun _ => Nat.isDigit_of_mem_toDigits (by decide) (by decide)) hrest

theorem ofDigits_digitValues (n : Nat) : ofDigits (digitValues n) = n := by
  rw [digitValues, ofDigits_map, Nat.ofDigitChars_ten_toDigits]

theorem digitValues_ne_nil (n : Nat) : digitValues n ≠ [] := by
  simp [digitValues]

theorem digitValues_of_lt {n : Nat} (hn : n < 10) : digitValues n = [n] := by
  rw [digitValues, Nat.toDigits_of_lt_base hn]
  simp [Nat.toNat_digitChar_of_lt_ten hn]

theorem digitValues_of_le {n : Nat} (hn : 10 ≤ n) : digitValues n = digitValues (n / 10) ++ [n % 10] := by
  have hlast : (n % 10).digitChar.toNat - 48 = n % 10 :=
    Nat.toNat_digitChar_sub_48_of_lt_ten (Nat.mod_lt n (by decide))
  simp [digitValues, Nat.toDigits_of_base_le (by decide : 1 < 10) hn, hlast]

/-- Only zero is written with a zero in front. -/
theorem digitValues_head {n : Nat} (hn : n ≠ 0) : (digitValues n).head? ≠ some 0 := by
  induction n using Nat.strongRecOn with
  | ind n ih =>
      by_cases hlt : n < 10
      · simp [digitValues_of_lt hlt, hn]
      · have hmore := ih (n / 10) (by omega) (by omega)
        obtain ⟨d, ds, hds⟩ := List.exists_cons_of_ne_nil (digitValues_ne_nil (n / 10))
        simpa [digitValues_of_le (Nat.le_of_not_lt hlt), hds] using hmore

theorem pushDigits_of_le {ds : List Nat} {n : Nat} (h : ds.foldl (fun n d => 10 * n + d) n ≤ wordMax 64) :
    pushDigits n ds = (ds.foldl (fun n d => 10 * n + d) n, []) := by
  have hgrows : ∀ (ds : List Nat) (n : Nat), n ≤ ds.foldl (fun n d => 10 * n + d) n := by
    intro ds
    induction ds with
    | nil => exact fun n => Nat.le_refl n
    | cons d ds ih => exact fun n => Nat.le_trans (by omega) (ih (10 * n + d))
  induction ds generalizing n with
  | nil => rfl
  | cons d ds ih =>
      have hfits : 10 * n + d ≤ wordMax 64 := Nat.le_trans (hgrows ds _) h
      rw [pushDigits, if_pos hfits]
      exact ih h

theorem pushDigits_digitValues {n : Nat} (hn : n ≤ wordMax 64) : pushDigits 0 (digitValues n) = (n, []) := by
  have hvalue : (digitValues n).foldl (fun n d => 10 * n + d) 0 = n := ofDigits_digitValues n
  rw [pushDigits_of_le (hvalue.symm ▸ hn), hvalue]

end PageAudit.Decimal
