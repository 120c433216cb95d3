import PageAudit.Decimal.Shortest

/-!
# Written doubles

A double is written by its shortest digits in a layout. Messages use the positional layout for every
exponent; documents use it in a middle range and the exponent elsewhere. Sizes are written with a fixed
number of places, where a half goes to the even neighbour.
-/

namespace PageAudit.Decimal

/-- The decisions of a layout: the range of leading exponents written positionally (all if none), whether
a whole value keeps `.0`, the texts of the values without digits, and which of two equally near values is
written. -/
structure Layout where
  positional : Option (Int × Int)
  keepsPoint : Bool
  nan : String
  infinity : String
  tie : Tie

/-- Layout of numbers in messages: no exponent ever, and no point in a whole value. -/
def Layout.message : Layout := ⟨none, false, "NaN", "inf", .up⟩

/-- Layout of numbers in documents: positional from 0.00001 to below 10 ^ 16, and a whole value has a point.
A document has no text for what is not finite. -/
def Layout.document : Layout := ⟨some (-5, 15), true, "null", "null", .toEven⟩

/-- The digits of a natural number. -/
def natText (n : Nat) : String :=
  String.ofList (Nat.toDigits 10 n)

/-- `n` zeros. -/
def zeros (n : Nat) : String :=
  String.ofList (List.replicate n '0')

/-- The number of digits of the coefficient. -/
def Digits.count (d : Digits) : Nat :=
  (Nat.toDigits 10 d.coefficient).length

/-- The exponent of the leading digit. -/
def Digits.leading (d : Digits) : Int :=
  d.exponent + (d.count : Int) - 1

/-- Digits with the point where the value has it. -/
def Digits.positional (d : Digits) (keepsPoint : Bool) : String :=
  if 0 ≤ d.exponent then
    natText d.coefficient ++ zeros d.exponent.toNat ++ (if keepsPoint then ".0" else "")
  else
    let ds := Nat.toDigits 10 d.coefficient
    let places := (-d.exponent).toNat
    if places < ds.length then
      String.ofList (ds.take (ds.length - places)) ++ "." ++ String.ofList (ds.drop (ds.length - places))
    else "0." ++ zeros (places - ds.length) ++ String.ofList ds

/-- Digits with the point after the first one, and the signed exponent. -/
def Digits.scientific (d : Digits) : String :=
  let lead := d.leading
  let exponent := (if 0 ≤ lead then "e+" else "e-") ++ natText lead.natAbs
  match Nat.toDigits 10 d.coefficient with
  | [c] => String.ofList [c] ++ exponent
  | c :: rest => String.ofList [c] ++ "." ++ String.ofList rest ++ exponent
  | [] => exponent

/-- Digits in a layout. -/
def Layout.digits (l : Layout) (d : Digits) : String :=
  match l.positional with
  | none => d.positional l.keepsPoint
  | some (low, high) =>
    if low ≤ d.leading && d.leading ≤ high then d.positional l.keepsPoint else d.scientific

/-- A minus sign for a negative value. -/
def signText (negative : Bool) : String :=
  if negative then "-" else ""

/-- A double in a layout. -/
def Layout.write (l : Layout) (x : Float) : String :=
  match classOf x with
  | .nan => l.nan
  | .infinite negative => signText negative ++ l.infinity
  | .zero negative => signText negative ++ (if l.keepsPoint then "0.0" else "0")
  | .finite negative b => signText negative ++ l.digits (b.shortest l.tie)

/-- The whole number nearest to a rational, of two equally near ones the even one. -/
def Ratio.round (r : Ratio) : Nat :=
  let q := r.num / r.den
  let twice := 2 * (r.num % r.den)
  if twice < r.den then q
  else if r.den < twice then q + 1
  else if q % 2 == 0 then q else q + 1

/-- A whole number of units of `10 ^ -places` with its point. -/
def withPlaces (places units : Nat) : String :=
  if places == 0 then natText units
  else
    let fraction := natText (units % Nat.pow 10 places)
    natText (units / Nat.pow 10 places) ++ "." ++ zeros (places - fraction.length) ++ fraction

/-- A double rounded to a fixed number of places, a half to the even neighbour. -/
def fixed (places : Nat) (x : Float) : String :=
  match classOf x with
  | .nan => "NaN"
  | .infinite negative => signText negative ++ "inf"
  | .zero negative => signText negative ++ withPlaces places 0
  | .finite negative b =>
    let v := b.value
    signText negative ++ withPlaces places (Ratio.round ⟨v.num * Nat.pow 10 places, v.den⟩)

end PageAudit.Decimal
