/-!
# UTF-8 octets

Octets read as text. The strict reading refuses octets that are not UTF-8; the lenient one writes the
replacement character U+FFFD for every longest run of octets that no character continues.
-/

namespace PageAudit.Text

/-- A character read off the front of octets: the character, or the number of octets that cannot go on. -/
inductive Utf8Step where
  | char (c : Char) (size : Nat)
  | broken (size : Nat)
  deriving Repr

/-- An octet of the form `10xxxxxx`. -/
def isTail (b : Nat) : Bool :=
  0x80 ≤ b && b ≤ 0xBF

/-- The second octets that may follow a first octet: 0xE0 and 0xF0 exclude longer spellings of a shorter
character, 0xED the surrogates, 0xF4 what lies above U+10FFFF. -/
def isSecond (first b : Nat) : Bool :=
  if first == 0xE0 then 0xA0 ≤ b && b ≤ 0xBF
  else if first == 0xED then 0x80 ≤ b && b ≤ 0x9F
  else if first == 0xF0 then 0x90 ≤ b && b ≤ 0xBF
  else if first == 0xF4 then 0x80 ≤ b && b ≤ 0x8F
  else isTail b

/-- Reads one character. A run that breaks off counts the octets up to the one that does not fit. -/
def utf8Step (a : Nat) (rest : List Nat) : Utf8Step :=
  if a < 0x80 then .char (Char.ofNat a) 1
  else if 0xC2 ≤ a && a ≤ 0xDF then
    match rest with
    | b :: _ => if isTail b then .char (Char.ofNat ((a - 0xC0) * 64 + (b - 0x80))) 2 else .broken 1
    | [] => .broken 1
  else if 0xE0 ≤ a && a ≤ 0xEF then
    match rest with
    | b :: c :: _ =>
      if !isSecond a b then .broken 1
      else if !isTail c then .broken 2
      else .char (Char.ofNat (((a - 0xE0) * 64 + (b - 0x80)) * 64 + (c - 0x80))) 3
    | [b] => if isSecond a b then .broken 2 else .broken 1
    | [] => .broken 1
  else if 0xF0 ≤ a && a ≤ 0xF4 then
    match rest with
    | b :: c :: d :: _ =>
      if !isSecond a b then .broken 1
      else if !isTail c then .broken 2
      else if !isTail d then .broken 3
      else .char (Char.ofNat ((((a - 0xF0) * 64 + (b - 0x80)) * 64 + (c - 0x80)) * 64 + (d - 0x80))) 4
    | [b, c] => if !isSecond a b then .broken 1 else if isTail c then .broken 3 else .broken 2
    | [b] => if isSecond a b then .broken 2 else .broken 1
    | [] => .broken 1
  else .broken 1

/-- Every step takes at least one octet, so as many steps as there are octets read all of them. -/
def utf8Chars : Nat → List Nat → List (Option Char)
  | 0, _ => []
  | _, [] => []
  | n + 1, a :: rest =>
    match utf8Step a rest with
    | .char c size => some c :: utf8Chars n (rest.drop (size - 1))
    | .broken size => none :: utf8Chars n (rest.drop (size - 1))

/-- Octets as text, if they are UTF-8. -/
def decodeUtf8? (octets : List Nat) : Option String :=
  ((utf8Chars octets.length octets).mapM id).map String.ofList

/-- Octets as text, with U+FFFD for what is not UTF-8. -/
def decodeUtf8Lossy (octets : List Nat) : String :=
  String.ofList ((utf8Chars octets.length octets).map fun c => c.getD '\uFFFD')

end PageAudit.Text
