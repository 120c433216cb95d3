/-!
# Numerals read as doubles

Two rules. A setting is the double nearest to the written decimal. A number of a document is computed: as
many leading digits as fit 64 bits, times or over a power of ten, with one rounding for each operation.
-/

namespace PageAudit.Decimal

/-- The digit a character stands for. -/
def digitOf? (c : Char) : Option Nat :=
  if '0' ≤ c && c ≤ '9' then some (c.toNat - '0'.toNat) else none

/-- The digits at the front, and what follows. -/
def takeDigits : List Char → List Nat × List Char
  | [] => ([], [])
  | c :: rest =>
    match digitOf? c with
    | some d => let (ds, more) := takeDigits rest; (d :: ds, more)
    | none => ([], c :: rest)

/-- The number with the given decimal digits. -/
def ofDigits (ds : List Nat) : Nat :=
  ds.foldl (fun n d => 10 * n + d) 0

/-- An unsigned whole number in decimal digits, all of the text. -/
def readNat? (cs : List Char) : Option Nat :=
  match takeDigits cs with
  | ([], _) => none
  | (ds, []) => some (ofDigits ds)
  | _ => none

/-- The greatest number of a word with `bits` bits. -/
def wordMax (bits : Nat) : Nat :=
  Nat.pow 2 bits - 1

/-- An unsigned word: digits after an optional plus sign, no more than the greatest word. -/
def readWord? (bits : Nat) (s : String) : Option Nat :=
  let body := match s.toList with
    | '+' :: rest => rest
    | cs => cs
  (readNat? body).filter (· ≤ wordMax bits)

/-- The double nearest to `mantissa * 10 ^ exponent`. Beyond 400 digits on either side of the point nothing
but infinity and zero is left. -/
def nearest (mantissa : Nat) (exponent : Int) : Float :=
  let lead := exponent + Int.ofNat (Nat.toDigits 10 mantissa).length
  if mantissa == 0 || lead < -400 then 0.0
  else if 400 < lead then 1.0 / 0.0
  else if 0 ≤ exponent then Float.ofScientific mantissa false exponent.toNat
  else Float.ofScientific mantissa true (-exponent).toNat

/-- A double with its sign. -/
def withSign (negative : Bool) (x : Float) : Float :=
  if negative then -x else x

/-- The exponent after `e` or `E`: an optional sign and digits up to the end. -/
def readExponent? : List Char → Option Int
  | [] => some 0
  | c :: rest =>
    if c == 'e' || c == 'E' then
      match rest with
      | '+' :: ds => (readNat? ds).map Int.ofNat
      | '-' :: ds => (readNat? ds).map fun n => -Int.ofNat n
      | ds => (readNat? ds).map Int.ofNat
    else none

/-- A decimal with at least one digit before or after an optional point, and an optional exponent. -/
def readDecimal? (cs : List Char) : Option Float :=
  let (whole, rest) := takeDigits cs
  let (fraction, rest) := match rest with
    | '.' :: more => takeDigits more
    | _ => ([], rest)
  if whole.isEmpty && fraction.isEmpty then none
  else (readExponent? rest).map fun e => nearest (ofDigits (whole ++ fraction)) (e - Int.ofNat fraction.length)

/-- A double of a setting: an optional sign, then a decimal or, in letters of any case, `inf`, `infinity` or
`nan`. -/
def readFloat? (s : String) : Option Float :=
  let (negative, body) := match s.toList with
    | '+' :: rest => (false, rest)
    | '-' :: rest => (true, rest)
    | cs => (false, cs)
  let name := String.ofList (body.map Char.toLower)
  if name == "inf" || name == "infinity" then some (withSign negative (1.0 / 0.0))
  else if name == "nan" then some (withSign negative (0.0 / 0.0))
  else (readDecimal? body).map (withSign negative)

/-- A number of a document as it is written: sign, digits before the point, digits after it, exponent with
its sign. -/
structure Literal where
  negative : Bool
  whole : List Nat
  fraction : Option (List Nat)
  exponent : Option (Bool × List Nat)
  deriving Repr, DecidableEq

/-- What a number of a document means. -/
inductive Number where
  | whole (i : Int)
  | real (x : Float)
  /-- The literal is beyond the greatest double. -/
  | tooLarge

/-- Adds digits while the result fits 64 bits; what is left starts with the first digit that does not fit. -/
def pushDigits : Nat → List Nat → Nat × List Nat
  | n, [] => (n, [])
  | n, d :: ds => if 10 * n + d ≤ wordMax 64 then pushDigits (10 * n + d) ds else (n, d :: ds)

/-- The double nearest to a word. -/
def ofWord (n : Nat) : Float :=
  n.toUInt64.toFloat

/-- `x * 10 ^ exponent`, as one operation with a power of ten no greater than `10 ^ 308`, or, for smaller
results, with `10 ^ 308` divided out first. None beyond the greatest double. -/
def scale : Nat → Float → Int → Option Float
  | 0, x, _ => some x
  | n + 1, x, exponent =>
    if exponent.natAbs ≤ 308 then
      let power := Float.ofScientific 1 false exponent.natAbs
      if 0 ≤ exponent then
        let y := x * power
        if y.isInf then none else some y
      else some (x / power)
    else if x == 0.0 then some x
    else if 0 ≤ exponent then none
    else scale n (x / 1e308) (exponent + 308)

/-- The largest exponent that is still counted. -/
def exponentMax : Nat := wordMax 31

/-- The real number of a literal with significant digits `n` and the exponent they have so far. -/
def Literal.scaled (l : Literal) (n : Nat) (exponent : Int) : Number :=
  let finish (e : Int) : Number :=
    match scale 4 (ofWord n) e with
    | some x => .real (withSign l.negative x)
    | none => .tooLarge
  match l.exponent with
  | none => finish exponent
  | some (positive, ds) =>
    let e := ofDigits ds
    if exponentMax < e then
      if n != 0 && positive then .tooLarge else .real (withSign l.negative 0.0)
    else if positive then finish (min (exponent + Int.ofNat e) (Int.ofNat exponentMax))
    else finish (max (exponent - Int.ofNat e) (-Int.ofNat exponentMax - 1))

/-- What a literal means. A whole number stays whole while it fits 64 bits, or 63 bits below zero; minus zero
is real. -/
def Literal.number (l : Literal) : Number :=
  let (n, left) := pushDigits 0 l.whole
  match l.fraction with
  | some ds =>
    let (m, dropped) := pushDigits n ds
    l.scaled m (Int.ofNat left.length - Int.ofNat (ds.length - dropped.length))
  | none =>
    if l.exponent.isSome || !left.isEmpty then l.scaled n (Int.ofNat left.length)
    else if !l.negative then .whole (Int.ofNat n)
    else if n == 0 || Nat.pow 2 63 < n then .real (-ofWord n)
    else .whole (-Int.ofNat n)

end PageAudit.Decimal
