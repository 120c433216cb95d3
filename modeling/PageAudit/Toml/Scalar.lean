import PageAudit.Document.Data
import PageAudit.Decimal.Numeral

/-!
# TOML scalars

Words without quotation marks: truth values, whole numbers in four bases, reals and instants. Underscores may
stand between digits.
-/

namespace PageAudit.Toml

open PageAudit.Document PageAudit.Decimal

/-- Digits of a base, with single underscores between them. -/
def groupedDigits? (isDigit : Char → Bool) : List Char → Option (List Char)
  | [] => none
  | [c] => if isDigit c then some [c] else none
  | c :: '_' :: rest => if isDigit c then (groupedDigits? isDigit rest).map (c :: ·) else none
  | c :: rest => if isDigit c then (groupedDigits? isDigit rest).map (c :: ·) else none

/-- A decimal digit. -/
def isDecimal (c : Char) : Bool := '0' ≤ c && c ≤ '9'

/-- A digit of a base up to sixteen. -/
def isDigitOf (base : Nat) (c : Char) : Bool :=
  if base ≤ 10 then '0' ≤ c && c.toNat < '0'.toNat + base
  else isDecimal c || ('a' ≤ c && c ≤ 'f') || ('A' ≤ c && c ≤ 'F')

/-- The value of a digit. -/
def digitValue (c : Char) : Nat :=
  if isDecimal c then c.toNat - '0'.toNat
  else if 'a' ≤ c then c.toNat - 'a'.toNat + 10
  else c.toNat - 'A'.toNat + 10

/-- The number written in a base. -/
def ofBase (base : Nat) (cs : List Char) : Nat :=
  cs.foldl (fun n c => base * n + digitValue c) 0

/-- Whole numbers have no more than 128 bits, or 127 below zero. -/
def wholeInRange? (i : Int) : Option Data :=
  if -Int.ofNat (Nat.pow 2 127) ≤ i && i < Int.ofNat (Nat.pow 2 128) then some (.int i) else none

/-- A whole number in a base named by a letter, without a sign. -/
def basedWhole? (base : Nat) (cs : List Char) : Option Data :=
  groupedDigits? (isDigitOf base) cs >>= fun ds => wholeInRange? (Int.ofNat (ofBase base ds))

/-- Decimal digits without a leading zero. -/
def plainDigits? (cs : List Char) : Option (List Char) :=
  match groupedDigits? isDecimal cs with
  | some ('0' :: _ :: _) => none
  | found => found

/-- A sign, if there is one: whether it is minus, and what follows. -/
def takeSign : List Char → Bool × List Char
  | '-' :: rest => (true, rest)
  | '+' :: rest => (false, rest)
  | cs => (false, cs)

/-- A decimal whole number. -/
def decimalWhole? (cs : List Char) : Option Data :=
  let (negative, body) := takeSign cs
  plainDigits? body >>= fun ds =>
    let n := Int.ofNat (ofBase 10 ds)
    wholeInRange? (if negative then -n else n)

/-- A whole number. -/
def whole? : List Char → Option Data
  | '0' :: 'x' :: rest => basedWhole? 16 rest
  | '0' :: 'o' :: rest => basedWhole? 8 rest
  | '0' :: 'b' :: rest => basedWhole? 2 rest
  | cs => decimalWhole? cs

/-- An exponent: an optional sign and digits. -/
def exponent? (cs : List Char) : Option Int :=
  let (negative, body) := takeSign cs
  (groupedDigits? isDecimal body).map fun ds =>
    let n := Int.ofNat (ofBase 10 ds)
    if negative then -n else n

/-- A finite real: digits with a point and digits after it, or an exponent, or both. -/
def decimalReal? (cs : List Char) : Option Float := do
  let (body, exponent) := cs.span fun c => c != 'e' && c != 'E'
  let e ← match exponent with
    | [] => some 0
    | _ :: rest => exponent? rest
  let (front, back) := body.span (· != '.')
  let whole ← plainDigits? front
  let fraction ← match back with
    | [] => if exponent.isEmpty then none else some []
    | _ :: rest => groupedDigits? isDecimal rest
  return nearest (ofBase 10 (whole ++ fraction)) (e - Int.ofNat fraction.length)

/-- A real number. -/
def real? (cs : List Char) : Option Data :=
  let (negative, body) := takeSign cs
  let value :=
    if body == ['i', 'n', 'f'] then some (1.0 / 0.0)
    else if body == ['n', 'a', 'n'] then some (0.0 / 0.0)
    else decimalReal? body
  value.map fun x => .float (withSign negative x)

/-- A number of exactly `n` decimal digits. -/
def fixedDigits? (n : Nat) (cs : List Char) : Option Nat :=
  if cs.length == n && cs.all isDecimal then some (ofBase 10 cs) else none

/-- A leap year has a February of 29 days. -/
def isLeap (year : Nat) : Bool :=
  year % 4 == 0 && (year % 100 != 0 || year % 400 == 0)

/-- The number of days of a month. -/
def monthLength (year month : Nat) : Nat :=
  if month == 2 then (if isLeap year then 29 else 28)
  else if month == 4 || month == 6 || month == 9 || month == 11 then 30
  else 31

/-- A date `YYYY-MM-DD`. -/
def isDate (cs : List Char) : Bool :=
  match cs with
  | [a, b, c, d, '-', e, f, '-', g, h] =>
    match fixedDigits? 4 [a, b, c, d], fixedDigits? 2 [e, f], fixedDigits? 2 [g, h] with
    | some year, some month, some day =>
      1 ≤ month && month ≤ 12 && 1 ≤ day && day ≤ monthLength year month
    | _, _, _ => false
  | _ => false

/-- A two-digit number up to a bound. -/
def isPart (bound : Nat) (a b : Char) : Bool :=
  match fixedDigits? 2 [a, b] with
  | some n => n ≤ bound
  | none => false

/-- Seconds after minutes: `:SS` and an optional fraction. -/
def isSeconds : List Char → Bool
  | [] => true
  | [':', a, b] => isPart 60 a b
  | ':' :: a :: b :: '.' :: d :: rest => isPart 60 a b && (d :: rest).all isDecimal
  | _ => false

/-- A time `HH:MM`, with optional seconds. -/
def isTime : List Char → Bool
  | a :: b :: ':' :: c :: d :: rest => isPart 23 a b && isPart 59 c d && isSeconds rest
  | _ => false

/-- A time with an offset: `Z`, or hours and minutes after a sign. -/
def isOffsetTime (cs : List Char) : Bool :=
  match cs.reverse with
  | 'Z' :: rest => isTime rest.reverse
  | 'z' :: rest => isTime rest.reverse
  | f :: e :: ':' :: d :: c :: sign :: rest =>
    (sign == '+' || sign == '-') && isPart 23 c d && isPart 59 e f && isTime rest.reverse
  | _ => false

/-- A date, a time, or both joined by `T` or a blank, then with an offset or without. -/
def isInstant (cs : List Char) : Bool :=
  let date := cs.take 10
  match cs.drop 10 with
  | [] => isDate cs || isTime cs
  | sep :: time =>
    (isDate date && (sep == 'T' || sep == 't' || sep == ' ') && (isTime time || isOffsetTime time))
      || isTime cs

/-- The field under which an instant holds its text. -/
def instantField : String := "$__toml_private_datetime"

/-- The value of a word without quotation marks. An instant is a map with its text in one field. -/
def scalar? (cs : List Char) : Option Data :=
  if cs == "true".toList then some (.bool true)
  else if cs == "false".toList then some (.bool false)
  else if isInstant cs then some (.map [(instantField, .str (String.ofList cs))])
  else (whole? cs) <|> (real? cs)

end PageAudit.Toml
