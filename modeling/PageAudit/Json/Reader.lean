import PageAudit.Document.Data
import PageAudit.Decimal.Numeral

/-!
# Reading JSON

The reader accepts one value with blanks around it. Blanks are space, tab, line feed and carriage return;
control characters are refused in texts; a number has no leading zero and no bare point. A text with half a
surrogate pair and a number beyond the greatest double are read as `unreadable`.
-/

namespace PageAudit.Json

open PageAudit.Document PageAudit.Decimal

/-- The blanks between tokens. -/
def isSpace (c : Char) : Bool :=
  c == ' ' || c == '\t' || c == '\n' || c == '\r'

/-- Drops the blanks at the front. -/
def skipSpace (cs : List Char) : List Char :=
  cs.dropWhile isSpace

/-- The value of a hexadecimal digit. -/
def hexOf? (c : Char) : Option Nat :=
  if '0' ≤ c && c ≤ '9' then some (c.toNat - '0'.toNat)
  else if 'a' ≤ c && c ≤ 'f' then some (c.toNat - 'a'.toNat + 10)
  else if 'A' ≤ c && c ≤ 'F' then some (c.toNat - 'A'.toNat + 10)
  else none

/-- The value of four hexadecimal digits. -/
def hex4? (a b c d : Char) : Option Nat := do
  return (((← hexOf? a) * 16 + (← hexOf? b)) * 16 + (← hexOf? c)) * 16 + (← hexOf? d)

/-- A part of a text: a character, or a 16-bit unit written in hexadecimal digits. -/
inductive Piece where
  | char (c : Char)
  | unit (n : Nat)
  deriving DecidableEq, Repr

/-- The characters with a short escape, by the letter that follows the backslash. -/
def shortEscape? (c : Char) : Option Char :=
  if c == '"' || c == '\\' || c == '/' then some c
  else if c == 'b' then some '\x08'
  else if c == 'f' then some '\x0c'
  else if c == 'n' then some '\n'
  else if c == 'r' then some '\r'
  else if c == 't' then some '\t'
  else none

/-- The pieces up to the closing quotation mark, and what follows it. -/
def readPieces : List Char → Option (List Piece × List Char)
  | [] => none
  | '"' :: rest => some ([], rest)
  | '\\' :: 'u' :: a :: b :: c :: d :: rest => do
    let n ← hex4? a b c d
    let (ps, more) ← readPieces rest
    return (.unit n :: ps, more)
  | '\\' :: e :: rest => do
    let c ← shortEscape? e
    let (ps, more) ← readPieces rest
    return (.char c :: ps, more)
  | c :: rest =>
    if c.toNat < 0x20 || c == '\\' then none
    else do
      let (ps, more) ← readPieces rest
      return (.char c :: ps, more)

/-- The first unit of a surrogate pair. -/
def isHigh (n : Nat) : Bool := 0xD800 ≤ n && n ≤ 0xDBFF

/-- The second unit of a surrogate pair. -/
def isLow (n : Nat) : Bool := 0xDC00 ≤ n && n ≤ 0xDFFF

/-- Joins units to characters; none for half a surrogate pair. -/
def joinPieces : List Piece → Option (List Char)
  | [] => some []
  | .char c :: rest => (joinPieces rest).map (c :: ·)
  | .unit n :: rest =>
    if isHigh n then
      match rest with
      | .unit m :: more =>
        if isLow m then
          (joinPieces more).map (Char.ofNat (0x10000 + (n - 0xD800) * 0x400 + (m - 0xDC00)) :: ·)
        else none
      | _ => none
    else if isLow n then none
    else (joinPieces rest).map (Char.ofNat n :: ·)

/-- The text after an opening quotation mark, if it has no half surrogate pair, and what follows. -/
def readText (cs : List Char) : Option (Option String × List Char) := do
  let (ps, rest) ← readPieces cs
  return ((joinPieces ps).map String.ofList, rest)

/-- Digits before the point: one zero, or digits that do not start with zero. -/
def readWhole (cs : List Char) : Option (List Nat × List Char) :=
  match takeDigits cs with
  | ([], _) => none
  | (0 :: _ :: _, _) => none
  | found => some found

/-- At least one digit. -/
def readDigits (cs : List Char) : Option (List Nat × List Char) :=
  match takeDigits cs with
  | ([], _) => none
  | found => some found

/-- The digits after a point, if there is one. -/
def readFraction : List Char → Option (Option (List Nat) × List Char)
  | '.' :: rest => (readDigits rest).map fun (ds, more) => (some ds, more)
  | cs => some (none, cs)

/-- The exponent, if there is one, with whether it counts up. -/
def readExponent : List Char → Option (Option (Bool × List Nat) × List Char)
  | c :: rest =>
    if c == 'e' || c == 'E' then
      match rest with
      | '+' :: more => (readDigits more).map fun (ds, left) => (some (true, ds), left)
      | '-' :: more => (readDigits more).map fun (ds, left) => (some (false, ds), left)
      | more => (readDigits more).map fun (ds, left) => (some (true, ds), left)
    else some (none, c :: rest)
  | [] => some (none, [])

/-- A number without its sign. -/
def readUnsigned (negative : Bool) (cs : List Char) : Option (Data × List Char) := do
  let (whole, rest) ← readWhole cs
  let (fraction, rest) ← readFraction rest
  let (exponent, rest) ← readExponent rest
  let d := match (Literal.mk negative whole fraction exponent).number with
    | .whole i => .int i
    | .real x => .float x
    | .tooLarge => .unreadable
  return (d, rest)

/-- Takes a fixed word off the front. -/
def takeWord (word : List Char) (d : Data) (cs : List Char) : Option (Data × List Char) :=
  if word.isPrefixOf cs then some (d, cs.drop word.length) else none

/-- The map of some entries, unless a key has half a surrogate pair. -/
def mapOf (entries : List (Option String × Data)) : Data :=
  match entries.mapM fun (k, d) => k.map fun k => (k, d) with
  | some es => .map es
  | none => .unreadable

mutual
/-- A value at the front, and what follows it. -/
def readValue : Nat → List Char → Option (Data × List Char)
  | 0, _ => none
  | n + 1, cs =>
    match skipSpace cs with
    | '{' :: rest =>
      match skipSpace rest with
      | '}' :: more => some (.map [], more)
      | more => (readEntries n more).map fun (es, left) => (mapOf es, left)
    | '[' :: rest =>
      match skipSpace rest with
      | ']' :: more => some (.list [], more)
      | more => (readItems n more).map fun (ds, left) => (.list ds, left)
    | '"' :: rest => (readText rest).map fun (s, left) => ((s.map Data.str).getD .unreadable, left)
    | 't' :: rest => takeWord ['r', 'u', 'e'] (.bool true) rest
    | 'f' :: rest => takeWord ['a', 'l', 's', 'e'] (.bool false) rest
    | 'n' :: rest => takeWord ['u', 'l', 'l'] .null rest
    | '-' :: rest => readUnsigned true rest
    | rest => readUnsigned false rest

/-- The items of a list up to its end. -/
def readItems : Nat → List Char → Option (List Data × List Char)
  | 0, _ => none
  | n + 1, cs => do
    let (d, rest) ← readValue n cs
    match skipSpace rest with
    | ',' :: more => (readItems n more).map fun (ds, left) => (d :: ds, left)
    | ']' :: more => some ([d], more)
    | _ => none

/-- The entries of a map up to its end. -/
def readEntries : Nat → List Char → Option (List (Option String × Data) × List Char)
  | 0, _ => none
  | n + 1, cs =>
    match skipSpace cs with
    | '"' :: rest => do
      let (key, rest) ← readText rest
      match skipSpace rest with
      | ':' :: rest => do
        let (d, rest) ← readValue n rest
        match skipSpace rest with
        | ',' :: more => (readEntries n more).map fun (es, left) => ((key, d) :: es, left)
        | '}' :: more => some ([(key, d)], more)
        | _ => none
      | _ => none
    | _ => none
end

/-- Reads a text that is one value. Every level of the reader takes at least every second time a character. -/
def read? (s : String) : Option Data :=
  let cs := s.toList
  match readValue (2 * cs.length + 2) cs with
  | some (d, rest) => if (skipSpace rest).isEmpty then some d else none
  | none => none

end PageAudit.Json
