import Mathlib.Tactic.IntervalCases
import PageAudit.Calendar.Date

/-!
# Days since 1970

Counting days from 1970 on gives days that exist, up to the last whole period of 400 years that the calendar covers.
-/

namespace PageAudit.Calendar

/-- The year of a period in which a day falls, up to its place among four years. -/
theorem yearOfPeriod_place {r b : Nat} (hb : b ≤ 4) (hr : r < 146097) :
    ∃ k ≤ 5, (r - r / 1460 + b) / 365 + 1 = 4 * (r / 1460) + k := by
  refine ⟨(r - r / 1460 + b) / 365 + 1 - 4 * (r / 1460), ?_, ?_⟩ <;> omega

/-- The day of a period's year, counted from March, and whether the year ends with a leap day. -/
theorem dayOfYear_bounds {r y : Nat} (hr : r < 146097) (hy : y = (r - r / 1460 + r / 36524 - r / 146096) / 365) :
    y ≤ 399 ∧ r - (365 * y + y / 4 - y / 100) ≤ 365 ∧
      (r - (365 * y + y / 4 - y / 100) = 365 → y % 4 = 3 ∧ (y % 100 ≠ 99 ∨ y = 399)) := by
  by_cases hlast : r = 146096
  · subst hlast hy
    decide
  · have hcenturies : r / 36524 ≤ 4 := by omega
    have hwhole : r / 146096 = 0 := by omega
    obtain ⟨k, hk, hplace⟩ := yearOfPeriod_place hcenturies hr
    rw [hwhole, Nat.sub_zero] at hy
    rw [← hy] at hplace
    generalize hb : r / 36524 = b at *
    generalize r / 1460 = a at *
    interval_cases k <;> interval_cases b <;> omega

theorem monthLength_february (year : Int) : 28 ≤ monthLength year 2 := by
  cases h : isLeap year <;> simp [monthLength, h]

/-- The days of a year that is counted from March fall into its months, a leap day apart. -/
theorem dayOfMonth_le {d month : Nat} (hd : d < 365) (hmonth : month = (5 * d + 2) / 153) (year : Int) :
    d - (153 * month + 2) / 5 + 1 ≤ monthLength year (if month < 10 then month + 3 else month - 9) := by
  by_cases hlast : month = 11
  · subst hlast
    exact Nat.le_trans (by omega) (monthLength_february year)
  · have hlt : month < 11 := by omega
    clear hlast
    interval_cases month <;> simp [monthLength] <;> omega

/-- A year before which a leap day falls when years are counted from March. -/
theorem isLeap_next {year period : Nat} (hfour : year % 4 = 3) (hcentury : year % 100 ≠ 99 ∨ year = 399) :
    isLeap (Int.ofNat (year + 400 * period + 1)) = true := by
  simp only [isLeap, Bool.and_eq_true, Bool.or_eq_true, beq_iff_eq, bne_iff_ne, Int.ofNat_eq_natCast]
  omega

theorem Date.ofDays_isValid {n : Nat} (hn : n < 94974067) : (Date.ofDays n).isValid = true := by
  simp only [Date.ofDays]
  generalize hr : (n + 719468) % 146097 = r
  generalize hp : (n + 719468) / 146097 = period
  generalize hy : (r - r / 1460 + r / 36524 - r / 146096) / 365 = year
  generalize hd : r - (365 * year + year / 4 - year / 100) = d
  generalize hm : (5 * d + 2) / 153 = month
  obtain ⟨hyear, hday, hleap⟩ := dayOfYear_bounds (by omega) hy.symm
  rw [hd] at hday hleap
  have hmonth : month ≤ 11 := by omega
  have hperiod : period ≤ 654 := by omega
  generalize hc : (if month < 10 then month + 3 else month - 9) = civil
  have hcivil : 1 ≤ civil ∧ civil ≤ 12 := by split at hc <;> omega
  have hlength : d - (153 * month + 2) / 5 + 1 ≤
      monthLength (Int.ofNat (year + 400 * period + if civil ≤ 2 then 1 else 0)) civil := by
    by_cases hlt : d < 365
    · exact hc ▸ dayOfMonth_le hlt hm.symm _
    · obtain rfl : d = 365 := by omega
      obtain rfl : month = 11 := by omega
      obtain rfl : civil = 2 := hc.symm
      obtain ⟨hfour, hcentury⟩ := hleap rfl
      show 29 ≤ monthLength (Int.ofNat (year + 400 * period + 1)) 2
      rw [monthLength, isLeap_next hfour hcentury]
      decide
  simp only [isValid, yearMin, yearMax, Bool.and_eq_true, decide_eq_true_eq]
  refine ⟨⟨⟨⟨⟨?_, ?_⟩, hcivil.1⟩, hcivil.2⟩, by omega⟩, hlength⟩
  · split <;> simp <;> omega
  · split <;> simp <;> omega

end PageAudit.Calendar
