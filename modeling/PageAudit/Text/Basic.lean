/-!
# Looking at texts

Blank characters, the ones with the Unicode property White_Space, and texts trimmed of them at both ends; a text
that is looked for in another one.
-/

namespace PageAudit.Text

/-- A character with the Unicode property White_Space. -/
def isBlank (c : Char) : Bool :=
  let n := c.toNat
  (9 ≤ n && n ≤ 13) || n == 0x20 || n == 0x85 || n == 0xA0 || n == 0x1680
    || (0x2000 ≤ n && n ≤ 0x200A) || n == 0x2028 || n == 0x2029 || n == 0x202F || n == 0x205F
    || n == 0x3000

/-- Drops the blank characters at both ends. -/
def trimChars (cs : List Char) : List Char :=
  ((cs.dropWhile isBlank).reverse.dropWhile isBlank).reverse

/-- A text without the blank characters at its two ends. -/
def trim (s : String) : String :=
  String.ofList (trimChars s.toList)

/-- A text with no other characters than blank ones. -/
def isBlankText (s : String) : Bool :=
  s.toList.all isBlank

/-- What follows the first occurrence of `mark` after which `accept` holds. -/
def afterMark? (mark : List Char) (accept : List Char → Bool) : List Char → Option (List Char)
  | [] => if mark.isEmpty && accept [] then some [] else none
  | c :: rest =>
    if mark.isPrefixOf (c :: rest) && accept ((c :: rest).drop mark.length) then
      some ((c :: rest).drop mark.length)
    else afterMark? mark accept rest

/-- A text that contains another one. -/
def containsText (needle s : String) : Bool :=
  (afterMark? needle.toList (fun _ => true) s.toList).isSome

/-- The rest of a text after a given beginning. -/
def afterFront? (front s : String) : Option String :=
  if front.toList.isPrefixOf s.toList then some (String.ofList (s.toList.drop front.length)) else none

end PageAudit.Text
