/-!
# Calendar days

Days of the Gregorian calendar, carried on before its introduction, with years that may be negative.
-/

namespace PageAudit.Calendar

/-- A day. -/
structure Date where
  year : Int
  month : Nat
  day : Nat
  deriving DecidableEq, Repr

/-- A year with 366 days. -/
def isLeap (year : Int) : Bool :=
  year % 4 == 0 && (year % 100 != 0 || year % 400 == 0)

/-- The number of days of a month. -/
def monthLength (year : Int) (month : Nat) : Nat :=
  if month == 2 then (if isLeap year then 29 else 28)
  else if month == 4 || month == 6 || month == 9 || month == 11 then 30
  else 31

/-- The least and the greatest year. -/
def yearMin : Int := -262143
def yearMax : Int := 262142

/-- A day that exists. -/
def Date.isValid (d : Date) : Bool :=
  yearMin ≤ d.year && d.year ≤ yearMax && 1 ≤ d.month && d.month ≤ 12
    && 1 ≤ d.day && d.day ≤ monthLength d.year d.month

/-- The next day. -/
def Date.next (d : Date) : Date :=
  if d.day < monthLength d.year d.month then { d with day := d.day + 1 }
  else if d.month < 12 then { d with month := d.month + 1, day := 1 }
  else ⟨d.year + 1, 1, 1⟩

/-- The day before. -/
def Date.previous (d : Date) : Date :=
  if 1 < d.day then { d with day := d.day - 1 }
  else if 1 < d.month then { d with month := d.month - 1, day := monthLength d.year (d.month - 1) }
  else ⟨d.year - 1, 12, 31⟩

/-- The day that is `n` days after 1 January 1970. Years are counted from March in periods of 400 years. -/
def Date.ofDays (n : Nat) : Date :=
  let shifted := n + 719468
  let period := shifted / 146097
  let inPeriod := shifted % 146097
  let year := (inPeriod - inPeriod / 1460 + inPeriod / 36524 - inPeriod / 146096) / 365
  let inYear := inPeriod - (365 * year + year / 4 - year / 100)
  let month := (5 * inYear + 2) / 153
  let day := inYear - (153 * month + 2) / 5 + 1
  let civilMonth := if month < 10 then month + 3 else month - 9
  ⟨Int.ofNat (year + 400 * period + (if civilMonth ≤ 2 then 1 else 0)), civilMonth, day⟩

end PageAudit.Calendar
