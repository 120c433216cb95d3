/-!
# Shortest decimal digits of a double

A finite double is `mantissa * 2 ^ exponent`, and the reals that round to it form an interval. Its shortest
digits are the fewest decimal digits whose value lies in that interval; of two such values the nearer one.
Which of two equally near ones is taken is up to the layout.
-/

namespace PageAudit.Decimal

/-- A positive double, taken apart: `mantissa * 2 ^ exponent`. -/
structure Binary where
  mantissa : Nat
  exponent : Int
  deriving Repr, DecidableEq

/-- The classes of doubles. -/
inductive Class where
  | nan
  | infinite (negative : Bool)
  | zero (negative : Bool)
  | finite (negative : Bool) (value : Binary)
  deriving Repr, DecidableEq

/-- Takes a double apart by its 64 bits. -/
def classOfBits (bits : UInt64) : Class :=
  let n := bits.toNat
  let negative := n / Nat.pow 2 63 == 1
  let field : Nat := n / Nat.pow 2 52 % Nat.pow 2 11
  let fraction : Nat := n % Nat.pow 2 52
  if field == Nat.pow 2 11 - 1 then
    if fraction == 0 then .infinite negative else .nan
  else if field == 0 then
    if fraction == 0 then .zero negative else .finite negative ⟨fraction, -1074⟩
  else .finite negative ⟨Nat.pow 2 52 + fraction, Int.ofNat field - 1075⟩

/-- The class of a double. -/
def classOf (x : Float) : Class :=
  classOfBits x.toBits

/-- A nonnegative rational, numerator over denominator. -/
structure Ratio where
  num : Nat
  den : Nat
  deriving Repr, DecidableEq

/-- The rational `n * 2 ^ e`. -/
def Ratio.scaled2 (n : Nat) (e : Int) : Ratio :=
  if 0 ≤ e then ⟨n * Nat.pow 2 e.toNat, 1⟩ else ⟨n, Nat.pow 2 (-e).toNat⟩

/-- The rational `n * 10 ^ e`. -/
def Ratio.scaled10 (n : Nat) (e : Int) : Ratio :=
  if 0 ≤ e then ⟨n * Nat.pow 10 e.toNat, 1⟩ else ⟨n, Nat.pow 10 (-e).toNat⟩

/-- Order of rationals by cross multiplication. -/
def Ratio.le (a b : Ratio) : Bool :=
  a.num * b.den ≤ b.num * a.den

/-- Strict order of rationals. -/
def Ratio.lt (a b : Ratio) : Bool :=
  a.num * b.den < b.num * a.den

/-- The value of a binary. -/
def Binary.value (b : Binary) : Ratio :=
  .scaled2 b.mantissa b.exponent

/-- The lower end of the reals that round to a double: half a unit below, a quarter below the least mantissa
of a binade. -/
def Binary.lower (b : Binary) : Ratio :=
  let step := if b.mantissa == Nat.pow 2 52 && b.exponent != -1074 then 1 else 2
  .scaled2 (4 * b.mantissa - step) (b.exponent - 2)

/-- The upper end of the reals that round to a double: half a unit above. -/
def Binary.upper (b : Binary) : Ratio :=
  .scaled2 (4 * b.mantissa + 2) (b.exponent - 2)

/-- Reals that round to the double: between the two ends, which belong to it when the mantissa is even. -/
def Binary.covers (b : Binary) (r : Ratio) : Bool :=
  if b.mantissa % 2 == 0 then b.lower.le r && r.le b.upper
  else b.lower.lt r && r.lt b.upper

/-- Decimal digits: the value is `coefficient * 10 ^ exponent`. -/
structure Digits where
  coefficient : Nat
  exponent : Int
  deriving Repr, DecidableEq

/-- Lowers a guess until ten to it is no more than the value. -/
def lowerTo (r : Ratio) : Nat → Int → Int
  | 0, e => e
  | n + 1, e => if (Ratio.scaled10 1 e).le r then e else lowerTo r n (e - 1)

/-- Raises a guess while ten times ten to it is no more than the value. -/
def raiseTo (r : Ratio) : Nat → Int → Int
  | 0, e => e
  | n + 1, e => if (Ratio.scaled10 1 (e + 1)).le r then raiseTo r n (e + 1) else e

/-- The exponent of the leading decimal digit, from the number of binary digits. -/
def Binary.leading (b : Binary) : Int :=
  let guess := ((Nat.log2 b.mantissa : Int) + b.exponent) * 30103 / 100000
  raiseTo b.value 3 (lowerTo b.value 3 (guess + 1))

/-- The whole multiples of `10 ^ e` next to the value: the one below or at it. -/
def floorOn (r : Ratio) (e : Int) : Nat :=
  if 0 ≤ e then r.num / (r.den * Nat.pow 10 e.toNat) else r.num * Nat.pow 10 (-e).toNat / r.den

/-- Which of two equally near grid points is taken. -/
inductive Tie where
  /-- The one above. -/
  | up
  /-- The one with an even last digit. -/
  | toEven
  deriving Repr, DecidableEq

/-- The point `d` is taken, and not the equally near one above. -/
def Tie.takesBelow (t : Tie) (d : Nat) : Bool :=
  match t with
  | .up => false
  | .toEven => d % 2 == 0

/-- The middle between a grid point and the next one. -/
def middleOn (d : Nat) (e : Int) : Ratio :=
  let twice := Ratio.scaled10 (2 * d + 1) e
  ⟨twice.num, 2 * twice.den⟩

/-- The grid point below the value is taken, and not the one above. -/
def Tie.prefersBelow (t : Tie) (r : Ratio) (d : Nat) (e : Int) : Bool :=
  r.lt (middleOn d e) || (r.le (middleOn d e) && t.takesBelow d)

/-- Tries the grids of 1, 2, … digits and takes the first that has a point in the interval. -/
def Binary.search (b : Binary) (tie : Tie) (lead : Int) : Nat → Nat → Digits
  | 0, _ => ⟨floorOn b.value (lead - 16), lead - 16⟩
  | fuel + 1, places =>
    let e := lead - places
    let d := floorOn b.value e
    let below := b.covers (.scaled10 d e)
    let above := b.covers (.scaled10 (d + 1) e)
    if below && (!above || tie.prefersBelow b.value d e) then ⟨d, e⟩
    else if above then ⟨d + 1, e⟩
    else b.search tie lead fuel (places + 1)

/-- Moves trailing zeros of the coefficient into the exponent. -/
def Digits.strip : Nat → Digits → Digits
  | 0, d => d
  | n + 1, d => if d.coefficient % 10 == 0 then Digits.strip n ⟨d.coefficient / 10, d.exponent + 1⟩ else d

/-- The shortest digits of a positive double; 17 always suffice. -/
def Binary.shortest (b : Binary) (tie : Tie) : Digits :=
  Digits.strip 17 (b.search tie b.leading 17 0)

end PageAudit.Decimal
