import PageAudit.Text.Utf8

/-!
# Lines of octets

A stream of octets is read line by line: a line feed ends a line, a carriage return before it belongs to
the ending, and the last line needs no ending. Reading stops at the first line that is not UTF-8.
-/

namespace PageAudit.Text

/-- Where octets stop being UTF-8: the position, and the number of octets at fault unless the octets
merely end too early. -/
structure Utf8Fault where
  index : Nat
  size : Option Nat
  deriving Repr, DecidableEq

/-- The sentence for a fault. -/
def Utf8Fault.message (f : Utf8Fault) : String :=
  match f.size with
  | some n => s!"invalid utf-8 sequence of {n} bytes from index {f.index}"
  | none => s!"incomplete utf-8 byte sequence from index {f.index}"

/-- Looks for the first fault from position `index` on. -/
def findFault : Nat → Nat → List Nat → Option Utf8Fault
  | 0, _, _ => none
  | _, _, [] => none
  | n + 1, index, a :: rest =>
    match utf8Step a rest with
    | .char _ size => findFault n (index + size) (rest.drop (size - 1))
    | .broken size =>
      let cut := size == rest.length + 1 && 0xC2 ≤ a && a ≤ 0xF4
      some ⟨index, if cut then none else some size⟩

/-- The first fault of octets read as UTF-8. -/
def utf8Fault? (octets : List Nat) : Option Utf8Fault :=
  findFault octets.length 0 octets

/-- Splits octets into lines that keep their line feed. -/
def octetLines : List Nat → List (List Nat)
  | [] => []
  | a :: rest =>
    if a == 0x0A then [a] :: octetLines rest
    else
      match octetLines rest with
      | [] => [[a]]
      | line :: more => (a :: line) :: more

/-- A line without its ending: the line feed, and a carriage return before it. -/
def dropEnding (cs : List Char) : List Char :=
  match cs.reverse with
  | '\n' :: '\r' :: before => before.reverse
  | '\n' :: before => before.reverse
  | _ => cs

/-- What a reader of lines gets: the lines up to the first fault, and that fault. -/
structure LineReading where
  lines : List String
  fault : Option Utf8Fault
  deriving Repr

/-- Reads lines until one is not UTF-8. -/
def readLinesFrom : List (List Nat) → LineReading
  | [] => ⟨[], none⟩
  | line :: more =>
    match utf8Fault? line, decodeUtf8? line with
    | none, some s =>
      let rest := readLinesFrom more
      ⟨String.ofList (dropEnding s.toList) :: rest.lines, rest.fault⟩
    | fault, _ => ⟨[], fault⟩

/-- Reads a stream of octets line by line. -/
def readLines (octets : List Nat) : LineReading :=
  readLinesFrom (octetLines octets)

/-- The last `n` entries. -/
def lastEntries (n : Nat) (lines : List String) : List String :=
  lines.drop (lines.length - n)

end PageAudit.Text
