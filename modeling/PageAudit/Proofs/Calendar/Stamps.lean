import PageAudit.Calendar.Stamp
import PageAudit.Proofs.Calendar.Days
import PageAudit.Proofs.Decimal.Digits

/-!
# Stamps there and back

A stamp that exists is written as a text that is read back to it, and reading gives stamps that exist.
-/

namespace PageAudit.Calendar

open Decimal Text

/-- A stamp whose day exists and whose time of day is within its bounds. -/
structure Stamp.Exists (s : Stamp) : Prop where
  date : s.date.isValid = true
  hour : s.hour < 24
  minute : s.minute < 60
  second : s.second ≤ 60
  nanos : s.nanos < 1000000000

/-! ## Numbers of a fixed width -/

/-- The characters of a number with leading zeros. -/
def paddedChars (width n : Nat) : List Char :=
  List.replicate (width - (Nat.toDigits 10 n).length) '0' ++ Nat.toDigits 10 n

theorem toList_padded (width n : Nat) : (padded width n).toList = paddedChars width n := by
  simp [padded, zeros, natText, paddedChars]

theorem isDigit_of_mem_paddedChars {width n : Nat} {c : Char} (hc : c ∈ paddedChars width n) : c.isDigit = true := by
  rcases List.mem_append.mp hc with hc | hc
  · rw [List.eq_of_mem_replicate hc]
    decide
  · exact Nat.isDigit_of_mem_toDigits (by decide) (by decide) hc

theorem length_paddedChars {width n : Nat} (hwidth : 0 < width) (hn : n < 10 ^ width) :
    (paddedChars width n).length = width := by
  have hle := (Nat.length_toDigits_le_iff (by decide : 1 < 10) hwidth).mpr hn
  simp [paddedChars]
  omega

theorem paddedChars_ne_nil (width n : Nat) : paddedChars width n ≠ [] := by
  simp [paddedChars]

theorem takeDigits_paddedChars (width n : Nat) {rest : List Char} (hrest : NoDigit rest) :
    ∃ ds, takeDigits (paddedChars width n ++ rest) = (ds, rest) ∧ ds.length = (paddedChars width n).length ∧
      ofDigits ds = n := by
  refine ⟨_, takeDigits_append (fun _ hc => isDigit_of_mem_paddedChars hc) hrest, List.length_map .., ?_⟩
  rw [ofDigits_map, paddedChars, Nat.ofDigitChars_append, Nat.ofDigitChars_replicate_zero, Nat.mul_zero,
    Nat.ofDigitChars_ten_toDigits]

/-! ## Reading what was written -/

theorem skipBlank_of_not {c : Char} (hc : isBlank c = false) (cs : List Char) : skipBlank (c :: cs) = c :: cs := by
  simp [skipBlank, hc]

theorem isBlank_of_isDigit {c : Char} (hc : c.isDigit = true) : isBlank c = false := by
  simp only [Char.isDigit, Bool.and_eq_true, decide_eq_true_eq, ge_iff_le, UInt32.le_iff_toNat_le] at hc
  have hlow : 48 ≤ c.toNat := hc.1
  have hhigh : c.toNat ≤ 57 := hc.2
  simp only [isBlank, Bool.or_eq_false_iff, Bool.and_eq_false_iff, decide_eq_false_iff_not, beq_eq_false_iff_ne]
  omega

theorem exists_digit_paddedChars (width n : Nat) :
    ∃ c cs, paddedChars width n = c :: cs ∧ c.isDigit = true := by
  obtain ⟨c, cs, hcs⟩ := List.exists_cons_of_ne_nil (paddedChars_ne_nil width n)
  exact ⟨c, cs, hcs, isDigit_of_mem_paddedChars (hcs ▸ List.mem_cons_self)⟩

theorem skipBlank_paddedChars (width n : Nat) (rest : List Char) :
    skipBlank (paddedChars width n ++ rest) = paddedChars width n ++ rest := by
  obtain ⟨c, cs, hcs, hc⟩ := exists_digit_paddedChars width n
  rw [hcs, List.cons_append, skipBlank_of_not (isBlank_of_isDigit hc)]

/-- A number is read as far as its digits go. -/
theorem readNumber_paddedChars {width limit n : Nat} {rest : List Char} (hfits : (paddedChars width n).length ≤ limit)
    (hrest : NoDigit (rest.take (limit - (paddedChars width n).length))) :
    readNumber limit (paddedChars width n ++ rest) = some (n, rest) := by
  obtain ⟨ds, hread, hlength, hvalue⟩ := takeDigits_paddedChars width n hrest
  have hds : ds ≠ [] := by
    rintro rfl
    exact paddedChars_ne_nil width n (List.length_eq_zero_iff.mp hlength.symm)
  have htake : (paddedChars width n ++ rest).take limit =
      paddedChars width n ++ rest.take (limit - (paddedChars width n).length) := by
    rw [List.take_append, List.take_of_length_le hfits]
  rw [readNumber, htake, hread]
  cases ds with
  | nil => exact absurd rfl hds
  | cons d ds => simp [hvalue, hlength]

theorem readNumber_fixed (width n : Nat) (hwidth : 0 < width) (hn : n < 10 ^ width) (rest : List Char) :
    readNumber width (paddedChars width n ++ rest) = some (n, rest) := by
  have hlength := length_paddedChars hwidth hn
  exact readNumber_paddedChars (Nat.le_of_eq hlength) (by rw [hlength, Nat.sub_self]; exact .nil)

theorem readNumber_free (width n : Nat) {rest : List Char} (hrest : NoDigit rest) :
    readNumber (paddedChars width n ++ rest).length (paddedChars width n ++ rest) = some (n, rest) := by
  refine readNumber_paddedChars (by simp) ?_
  rw [List.length_append, Nat.add_sub_cancel_left, List.take_length]
  exact hrest

theorem readField_padded {low high n : Nat} (hlow : low ≤ n) (hhigh : n ≤ high) (hn : n < 100) (rest : List Char) :
    readField low high (paddedChars 2 n ++ rest) = some (n, rest) := by
  rw [readField, skipBlank_paddedChars, readNumber_fixed 2 n (by decide) hn]
  simp [hlow, hhigh]

theorem readMark_cons {mark : Char} (hmark : isBlank mark = false) (rest : List Char) :
    readMark mark (mark :: rest) = some rest := by
  simp [readMark, skipBlank_of_not hmark]

theorem readYear_yearText (year : Int) (rest : List Char) :
    readYear ((yearText year).toList ++ '-' :: rest) = some (year, '-' :: rest) := by
  have hmark : NoDigit ('-' :: rest) := .cons (by decide)
  unfold yearText
  split
  · rename_i hfour
    simp only [Bool.and_eq_true, decide_eq_true_eq] at hfour
    obtain ⟨c, cs, hcs, hc⟩ := exists_digit_paddedChars 4 year.toNat
    have hread := readNumber_fixed 4 year.toNat (by decide) (by omega) ('-' :: rest)
    rw [toList_padded, readYear, skipBlank_paddedChars]
    rw [hcs, List.cons_append] at hread ⊢
    split
    · rename_i h
      cases h
      exact absurd hc (by decide)
    · rename_i h
      cases h
      exact absurd hc (by decide)
    · rw [hread]
      simp
      omega
  · rename_i hfour
    simp only [Bool.and_eq_true, decide_eq_true_eq] at hfour
    have hread := readNumber_free 4 year.natAbs hmark
    by_cases hpos : 0 ≤ year
    · have htext : ("+" ++ padded 4 year.natAbs).toList ++ '-' :: rest =
          '+' :: (paddedChars 4 year.natAbs ++ '-' :: rest) := by simp [toList_padded]
      have hvalue : Int.ofNat year.natAbs = year := Int.natAbs_of_nonneg hpos
      rw [if_pos hpos, htext, readYear, skipBlank_of_not (by decide)]
      simp only [hread, Option.map_some, hvalue]
    · have htext : ("-" ++ padded 4 year.natAbs).toList ++ '-' :: rest =
          '-' :: (paddedChars 4 year.natAbs ++ '-' :: rest) := by simp [toList_padded]
      have hvalue : -Int.ofNat year.natAbs = year := by
        rw [Int.ofNat_eq_natCast]
        omega
      rw [if_neg hpos, htext, readYear, skipBlank_of_not (by decide)]
      simp only [hread, Option.map_some, hvalue]

theorem readFraction_places (width n : Nat) (hwidth : 0 < width) (hnine : width ≤ 9) (hn : n < 10 ^ width)
    {rest : List Char} (hrest : NoDigit rest) :
    readFraction ('.' :: (paddedChars width n ++ rest)) = some (n * Nat.pow 10 (9 - width), rest) := by
  obtain ⟨ds, hread, hlength, hvalue⟩ := takeDigits_paddedChars width n hrest
  rw [length_paddedChars hwidth hn] at hlength
  have hkept : ds.take 9 = ds := List.take_of_length_le (by omega)
  rw [readFraction, hread]
  cases ds with
  | nil => simp at hlength; omega
  | cons d ds => simp only [hkept, hvalue, hlength]

theorem readFraction_fractionText {nanos : Nat} (hn : nanos < 1000000000) :
    readFraction ((fractionText nanos).toList ++ ['Z']) = some (nanos, ['Z']) := by
  have hz : NoDigit ['Z'] := .cons (by decide)
  unfold fractionText
  split
  · rename_i h
    obtain rfl : nanos = 0 := by simpa using h
    rfl
  split
  · rename_i h
    have hzero : nanos % 1000000 = 0 := by simpa using h
    have hread := readFraction_places 3 (nanos / 1000000) (by decide) (by decide) (by omega) hz
    have hvalue : nanos / 1000000 * Nat.pow 10 (9 - 3) = nanos := Nat.div_mul_cancel (Nat.dvd_of_mod_eq_zero hzero)
    simpa [toList_padded, hvalue] using hread
  split
  · rename_i h
    have hzero : nanos % 1000 = 0 := by simpa using h
    have hread := readFraction_places 6 (nanos / 1000) (by decide) (by decide) (by omega) hz
    have hvalue : nanos / 1000 * Nat.pow 10 (9 - 6) = nanos := Nat.div_mul_cancel (Nat.dvd_of_mod_eq_zero hzero)
    simpa [toList_padded, hvalue] using hread
  · have hread := readFraction_places 9 nanos (by decide) (by decide) (by omega) hz
    simpa [toList_padded] using hread

theorem Stamp.shift_zero {s : Stamp} (hhour : s.hour < 24) (hminute : s.minute < 60) : s.shift 0 = s := by
  obtain ⟨date, hour, minute, second, nanos⟩ := s
  have hinday : (Int.ofNat (60 * hour + minute) - 0) % 1440 = Int.ofNat (60 * hour + minute) := by
    simp only [Int.ofNat_eq_natCast] at *
    omega
  have hpast : ¬Int.ofNat (60 * hour + minute) - 0 < 0 := by simp only [Int.ofNat_eq_natCast]; omega
  have hnext : ¬1440 ≤ Int.ofNat (60 * hour + minute) - 0 := by simp only [Int.ofNat_eq_natCast] at *; omega
  simp only [shift, hinday, if_neg hpast, if_neg hnext, Stamp.mk.injEq, true_and, and_true]
  simp only [Int.ofNat_eq_natCast, Int.toNat_natCast] at *
  omega

/-- A stamp that exists is read back as it was written. -/
theorem Stamp.read?_write {s : Stamp} (h : s.Exists) : Stamp.read? s.write = some s := by
  obtain ⟨⟨year, month, day⟩, hour, minute, second, nanos⟩ := s
  obtain ⟨hdate, hhour, hminute, hsecond, hnanos⟩ := h
  dsimp only at hdate hhour hminute hsecond hnanos
  have hbounds := hdate
  simp only [Date.isValid, Bool.and_eq_true, decide_eq_true_eq] at hbounds
  obtain ⟨⟨⟨⟨-, hmonth⟩, hmonth'⟩, hday⟩, hday'⟩ := hbounds
  have hlength : monthLength year month ≤ 31 := by
    unfold monthLength
    split
    · split <;> decide
    · split <;> decide
  have htext : (Stamp.mk ⟨year, month, day⟩ hour minute second nanos).write.toList =
      (yearText year).toList ++ '-' :: (paddedChars 2 month ++ '-' :: (paddedChars 2 day ++ 'T' ::
        (paddedChars 2 hour ++ ':' :: (paddedChars 2 minute ++ ':' :: (paddedChars 2 second ++
          ((fractionText nanos).toList ++ ['Z'])))))) := by
    simp [write, Date.text, timeText, toList_padded]
  have hdash : isBlank '-' = false := by decide
  have hcolon : isBlank ':' = false := by decide
  have hletter : ('T' == 't' || 'T' == 'T' || 'T' == ' ') = true := by decide
  have hfield : ∀ {low high n : Nat} (rest : List Char), low ≤ n → n ≤ high → n < 100 →
      readField low high (paddedChars 2 n ++ rest) = some (n, rest) := fun rest hlow hhigh hn =>
    readField_padded hlow hhigh hn rest
  have hshift := shift_zero (s := ⟨⟨year, month, day⟩, hour, minute, second, nanos⟩) hhour hminute
  have hzone : readZone (skipBlank ['Z']) = some (0, []) := by decide
  unfold read?
  rw [htext, readYear_yearText]
  simp only [bind, Option.bind, readMark_cons hdash, readMark_cons hcolon, hfield _ hmonth hmonth' (by omega),
    hfield _ hday (show day ≤ 31 by omega) (by omega), hfield _ (Nat.zero_le hour) (show hour ≤ 23 by omega) (by omega),
    hfield _ (Nat.zero_le minute) (show minute ≤ 59 by omega) (by omega),
    hfield _ (Nat.zero_le second) hsecond (by omega), readFraction_fractionText hnanos, hletter, if_true, hzone,
    hshift, hdate]
  rfl

/-! ## Stamps that exist -/

theorem readField_bounds {low high n : Nat} {cs rest : List Char} (h : readField low high cs = some (n, rest)) :
    low ≤ n ∧ n ≤ high := by
  unfold readField at h
  split at h
  · split at h
    · rename_i hbounds
      cases h
      simpa using hbounds
    · cases h
  · cases h

theorem readFraction_lt {n : Nat} {cs rest : List Char} (h : readFraction cs = some (n, rest)) : n < 1000000000 := by
  unfold readFraction at h
  split at h
  · rename_i more
    have hdigits : ∀ d ∈ (takeDigits more).1, d < 10 := fun d hd => lt_ten_of_mem_takeDigits hd
    split at h
    · cases h
    · rename_i ds left _ htaken
      cases h
      rw [htaken] at hdigits
      have hlength : (ds.take 9).length ≤ 9 := List.length_take_le ..
      have hvalue : ofDigits (ds.take 9) < 10 ^ (ds.take 9).length :=
        ofDigits_lt fun d hd => hdigits d (List.mem_of_mem_take hd)
      calc ofDigits (ds.take 9) * Nat.pow 10 (9 - (ds.take 9).length)
          < 10 ^ (ds.take 9).length * 10 ^ (9 - (ds.take 9).length) :=
            Nat.mul_lt_mul_of_pos_right hvalue (Nat.pow_pos (by decide))
        _ = 1000000000 := by rw [← Nat.pow_add, Nat.add_sub_cancel' hlength]
  · cases h
    decide

/-- What is read as a stamp exists. -/
theorem Stamp.Exists.of_read? {text : String} {s : Stamp} (h : Stamp.read? text = some s) : s.Exists := by
  unfold Stamp.read? at h
  obtain ⟨⟨year, _⟩, -, h⟩ := Option.bind_eq_some_iff.mp h
  obtain ⟨_, -, h⟩ := Option.bind_eq_some_iff.mp h
  obtain ⟨⟨month, _⟩, -, h⟩ := Option.bind_eq_some_iff.mp h
  obtain ⟨_, -, h⟩ := Option.bind_eq_some_iff.mp h
  obtain ⟨⟨day, _⟩, -, h⟩ := Option.bind_eq_some_iff.mp h
  dsimp only at h
  split at h
  case h_2 => cases h
  split at h
  case isFalse => cases h
  obtain ⟨_, -, h⟩ := Option.bind_eq_some_iff.mp h
  obtain ⟨⟨hour, _⟩, -, h⟩ := Option.bind_eq_some_iff.mp h
  obtain ⟨_, -, h⟩ := Option.bind_eq_some_iff.mp h
  obtain ⟨⟨minute, _⟩, -, h⟩ := Option.bind_eq_some_iff.mp h
  obtain ⟨_, -, h⟩ := Option.bind_eq_some_iff.mp h
  obtain ⟨⟨second, _⟩, hsecond, h⟩ := Option.bind_eq_some_iff.mp h
  obtain ⟨⟨nanos, _⟩, hnanos, h⟩ := Option.bind_eq_some_iff.mp h
  obtain ⟨⟨offset, _⟩, -, h⟩ := Option.bind_eq_some_iff.mp h
  dsimp only at h
  split at h
  · rename_i hvalid
    simp only [Bool.and_eq_true] at hvalid
    cases h
    have hday : ((Int.ofNat (60 * hour + minute) - offset) % 1440).toNat < 1440 := by omega
    exact ⟨hvalid.1.2, by simp only [shift]; omega, by simp only [shift]; omega, (readField_bounds hsecond).2,
      readFraction_lt hnanos⟩
  · cases h

theorem Stamp.exists_ofMillis {ms : Nat} (h : ms < 94974067 * 86400000) : (Stamp.ofMillis ms).Exists := by
  refine ⟨Date.ofDays_isValid ?_, ?_, ?_, ?_, ?_⟩ <;> (try simp only [ofMillis]) <;> omega

end PageAudit.Calendar
