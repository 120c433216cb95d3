import PageAudit.Document.Data
import PageAudit.Decimal.Layout

/-!
# Writing JSON

Two forms. The compact one has no blanks. The indented one gives every item and entry a line, two spaces
for a level, and writes an empty list or map as `[]` or `{}`. Only quotation marks, backslashes and control
characters are escaped.
-/

namespace PageAudit.Json

open PageAudit.Document PageAudit.Decimal

/-- A hexadecimal digit in lower case. -/
def hexDigit (n : Nat) : Char :=
  Nat.digitChar n

/-- A character as it stands in a text. -/
def escapeChar (c : Char) : List Char :=
  if c == '"' then ['\\', '"']
  else if c == '\\' then ['\\', '\\']
  else if c == '\x08' then ['\\', 'b']
  else if c == '\t' then ['\\', 't']
  else if c == '\n' then ['\\', 'n']
  else if c == '\x0c' then ['\\', 'f']
  else if c == '\r' then ['\\', 'r']
  else if c.toNat < 0x20 then ['\\', 'u', '0', '0', hexDigit (c.toNat / 16), hexDigit (c.toNat % 16)]
  else [c]

/-- A text between quotation marks. -/
def writeText (s : String) : List Char :=
  '"' :: (s.toList.flatMap escapeChar ++ ['"'])

/-- A whole number. -/
def writeInt (i : Int) : List Char :=
  if 0 ≤ i then Nat.toDigits 10 i.toNat else '-' :: Nat.toDigits 10 i.natAbs

/-- A value without inner values. -/
def writeLeaf : Data → List Char
  | .bool true => "true".toList
  | .bool false => "false".toList
  | .int i => writeInt i
  | .float x => if x.isFinite then (Layout.document.write x).toList else "null".toList
  | .str s => writeText s
  | _ => "null".toList

mutual
/-- A value without blanks. -/
def compactChars : Data → List Char
  | .list items => '[' :: compactItems items
  | .map entries => '\x7b' :: compactEntries entries
  | d => writeLeaf d

/-- Items and the end of their list. -/
def compactItems : List Data → List Char
  | [] => [']']
  | [d] => compactChars d ++ [']']
  | d :: ds => compactChars d ++ ',' :: compactItems ds

/-- Entries and the end of their map. -/
def compactEntries : List (String × Data) → List Char
  | [] => ['\x7d']
  | [(k, d)] => writeText k ++ ':' :: compactChars d ++ ['\x7d']
  | (k, d) :: es => writeText k ++ ':' :: compactChars d ++ ',' :: compactEntries es
end

/-- A line feed and the indentation of a level. -/
def newline (level : Nat) : List Char :=
  '\n' :: List.replicate (2 * level) ' '

mutual
/-- A value whose inner lines are at `level + 1`. -/
def indentedChars (level : Nat) : Data → List Char
  | .list [] => ['[', ']']
  | .list items => '[' :: indentedItems level items
  | .map [] => ['\x7b', '\x7d']
  | .map entries => '\x7b' :: indentedEntries level entries
  | d => writeLeaf d

/-- Items, each on its line, and the end of their list. -/
def indentedItems (level : Nat) : List Data → List Char
  | [] => newline level ++ [']']
  | [d] => newline (level + 1) ++ indentedChars (level + 1) d ++ newline level ++ [']']
  | d :: ds => newline (level + 1) ++ indentedChars (level + 1) d ++ ',' :: indentedItems level ds

/-- Entries, each on its line, and the end of their map. -/
def indentedEntries (level : Nat) : List (String × Data) → List Char
  | [] => newline level ++ ['\x7d']
  | [(k, d)] =>
    newline (level + 1) ++ writeText k ++ ':' :: ' ' :: indentedChars (level + 1) d ++ newline level ++ ['\x7d']
  | (k, d) :: es =>
    newline (level + 1) ++ writeText k ++ ':' :: ' ' :: indentedChars (level + 1) d ++ ',' :: indentedEntries level es
end

/-- A value in one line without blanks. -/
def compact (d : Data) : String :=
  String.ofList (compactChars d)

/-- A value in indented lines. -/
def indented (d : Data) : String :=
  String.ofList (indentedChars 0 d)

end PageAudit.Json
