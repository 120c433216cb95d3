import PageAudit.Calendar.Date
import PageAudit.Decimal.Layout
import PageAudit.Decimal.Numeral
import PageAudit.Text.Basic

/-!
# Time stamps

Instants of universal time down to the nanosecond, as RFC 3339 writes them. Reading is lenient about blanks
and separators and takes any offset; writing uses `Z` and 0, 3, 6 or 9 places.
-/

namespace PageAudit.Calendar

open Decimal Text

/-- An instant of universal time. A leap second is second 60. -/
structure Stamp where
  date : Date
  hour : Nat
  minute : Nat
  second : Nat
  nanos : Nat
  deriving DecidableEq, Repr

/-- A number with leading zeros up to a width. -/
def padded (width n : Nat) : String :=
  let digits := natText n
  zeros (width - digits.length) ++ digits

/-- A year: four digits, and a sign outside 0 to 9999. -/
def yearText (year : Int) : String :=
  if 0 ≤ year && year ≤ 9999 then padded 4 year.toNat
  else (if 0 ≤ year then "+" else "-") ++ padded 4 year.natAbs

/-- The fraction of a second in as few groups of three places as it needs. -/
def fractionText (nanos : Nat) : String :=
  if nanos == 0 then ""
  else if nanos % 1000000 == 0 then "." ++ padded 3 (nanos / 1000000)
  else if nanos % 1000 == 0 then "." ++ padded 6 (nanos / 1000)
  else "." ++ padded 9 nanos

/-- The day of a stamp. -/
def Date.text (d : Date) : String :=
  yearText d.year ++ "-" ++ padded 2 d.month ++ "-" ++ padded 2 d.day

/-- The time of day down to the second. -/
def Stamp.timeText (s : Stamp) : String :=
  padded 2 s.hour ++ ":" ++ padded 2 s.minute ++ ":" ++ padded 2 s.second

/-- A stamp as it is written. -/
def Stamp.write (s : Stamp) : String :=
  s.date.text ++ "T" ++ s.timeText ++ fractionText s.nanos ++ "Z"

/-- A stamp for people: the day and the time down to the second. -/
def Stamp.plain (s : Stamp) : String :=
  s.date.text ++ " " ++ s.timeText

/-- The stamp of a number of milliseconds since 1970. -/
def Stamp.ofMillis (ms : Nat) : Stamp :=
  let seconds := ms / 1000
  { date := .ofDays (seconds / 86400)
    hour := seconds / 3600 % 24
    minute := seconds / 60 % 60
    second := seconds % 60
    nanos := ms % 1000 * 1000000 }

/-- Drops the blanks at the front. -/
def skipBlank (cs : List Char) : List Char := cs.dropWhile isBlank

/-- A number of one to `width` digits. -/
def readNumber (width : Nat) (cs : List Char) : Option (Nat × List Char) :=
  match takeDigits (cs.take width) with
  | ([], _) => none
  | (ds, _) => some (ofDigits ds, cs.drop ds.length)

/-- A number within bounds, blanks before it passed over. -/
def readField (low high : Nat) (cs : List Char) : Option (Nat × List Char) :=
  match readNumber 2 (skipBlank cs) with
  | some (n, rest) => if low ≤ n && n ≤ high then some (n, rest) else none
  | none => none

/-- A year: four digits at most, or any number of them after a sign. -/
def readYear (cs : List Char) : Option (Int × List Char) :=
  match skipBlank cs with
  | '-' :: rest => (readNumber rest.length rest).map fun (n, more) => (-Int.ofNat n, more)
  | '+' :: rest => (readNumber rest.length rest).map fun (n, more) => (Int.ofNat n, more)
  | rest => (readNumber 4 rest).map fun (n, more) => (Int.ofNat n, more)

/-- A separator with blanks before it. -/
def readMark (mark : Char) (cs : List Char) : Option (List Char) :=
  match skipBlank cs with
  | c :: rest => if c == mark then some rest else none
  | [] => none

/-- A fraction of a second. Digits beyond the ninth are passed over. -/
def readFraction : List Char → Option (Nat × List Char)
  | '.' :: rest =>
    match takeDigits rest with
    | ([], _) => none
    | (ds, more) =>
      let kept := ds.take 9
      some (ofDigits kept * Nat.pow 10 (9 - kept.length), more)
  | cs => some (0, cs)

/-- Two digits. -/
def readPair : List Char → Option (Nat × List Char)
  | a :: b :: rest => do return (10 * (← digitOf? a) + (← digitOf? b), rest)
  | _ => none

/-- The minutes of an offset: hours and minutes after a sign, with colons and blanks between them. -/
def readOffset (cs : List Char) : Option (Int × List Char) := do
  let (negative, rest) ← match cs with
    | '+' :: rest => some (false, rest)
    | '-' :: rest => some (true, rest)
    | '\u2212' :: rest => some (true, rest)
    | _ => none
  let (hours, rest) ← readPair rest
  let (minutes, rest) ← readPair (rest.dropWhile fun c => c == ':' || isBlank c)
  if hours ≤ 23 && minutes ≤ 59 then
    let n := Int.ofNat (60 * hours + minutes)
    return (if negative then -n else n, rest)
  else none

/-- A zone: `Z`, `UTC` in letters of any case, or an offset. -/
def readZone (cs : List Char) : Option (Int × List Char) :=
  match cs with
  | u :: t :: c :: rest =>
    if [u, t, c].map Char.toUpper == ['U', 'T', 'C'] then some (0, rest)
    else if u == 'Z' || u == 'z' then some (0, t :: c :: rest)
    else readOffset cs
  | 'Z' :: rest => some (0, rest)
  | 'z' :: rest => some (0, rest)
  | _ => none

/-- Moves a local time to universal time. -/
def Stamp.shift (s : Stamp) (offset : Int) : Stamp :=
  let minutes := Int.ofNat (60 * s.hour + s.minute) - offset
  let inDay := (minutes % 1440).toNat
  let date := if minutes < 0 then s.date.previous else if 1440 ≤ minutes then s.date.next else s.date
  { s with date, hour := inDay / 60, minute := inDay % 60 }

/-- Reads a stamp, all of the text but blanks at the end. -/
def Stamp.read? (text : String) : Option Stamp := do
  let (year, cs) ← readYear text.toList
  let cs ← readMark '-' cs
  let (month, cs) ← readField 1 12 cs
  let cs ← readMark '-' cs
  let (day, cs) ← readField 1 31 cs
  let cs ← match cs with
    | c :: rest => if c == 't' || c == 'T' || c == ' ' then some rest else none
    | [] => none
  let (hour, cs) ← readField 0 23 cs
  let cs ← readMark ':' cs
  let (minute, cs) ← readField 0 59 cs
  let cs ← readMark ':' cs
  let (second, cs) ← readField 0 60 cs
  let (nanos, cs) ← readFraction cs
  let (offset, cs) ← readZone (skipBlank cs)
  let stamp : Stamp := { date := ⟨year, month, day⟩, hour, minute, second, nanos }
  let universal := stamp.shift offset
  if stamp.date.isValid && universal.date.isValid && (skipBlank cs).isEmpty then return universal else none

end PageAudit.Calendar
