import PageAudit.Json.Reader
import PageAudit.Toml.Scalar

/-!
# TOML lines

A document is read as a list of lines: a table heading, a heading of a table in a list, or a key with its
value. What the headings and the dotted keys build is the next module's matter.
-/

namespace PageAudit.Toml

open PageAudit.Document PageAudit.Json

/-- Blanks within a line. -/
def isGap (c : Char) : Bool := c == ' ' || c == '\t'

/-- Drops the blanks at the front. -/
def skipGap (cs : List Char) : List Char := cs.dropWhile isGap

/-- Characters that may stand in a comment or a text: no control characters but the tab. -/
def isPlain (c : Char) : Bool :=
  c == '\t' || (0x20 ≤ c.toNat && c.toNat != 0x7F)

/-- Drops a comment, if there is one. -/
def skipComment : List Char → List Char
  | '#' :: rest => rest.dropWhile isPlain
  | cs => cs

/-- Takes a line ending. -/
def takeNewline : List Char → Option (List Char)
  | '\n' :: rest => some rest
  | '\r' :: '\n' :: rest => some rest
  | _ => none

/-- Drops blanks, comments and line endings. -/
def skipLines : Nat → List Char → List Char
  | 0, cs => cs
  | n + 1, cs =>
    let rest := skipComment (skipGap cs)
    match takeNewline rest with
    | some more => skipLines n more
    | none => rest

/-- The character of a code point, unless it is a surrogate or too large. -/
def scalarOf? (n : Nat) : Option Char :=
  if n < 0xD800 || (0xDFFF < n && n < 0x110000) then some (Char.ofNat n) else none

/-- The number of some hexadecimal digits. -/
def hexNumber? (cs : List Char) : Option Nat :=
  cs.foldlM (fun n c => (hexOf? c).map (16 * n + ·)) 0

/-- An escape after its backslash: the character and what follows. -/
def readEscape : List Char → Option (Char × List Char)
  | 'b' :: rest => some ('\x08', rest)
  | 't' :: rest => some ('\t', rest)
  | 'n' :: rest => some ('\n', rest)
  | 'f' :: rest => some ('\x0c', rest)
  | 'r' :: rest => some ('\r', rest)
  | 'e' :: rest => some ('\x1b', rest)
  | '"' :: rest => some ('"', rest)
  | '\\' :: rest => some ('\\', rest)
  | 'x' :: a :: b :: rest => do return (← scalarOf? (← hexNumber? [a, b]), rest)
  | 'u' :: a :: b :: c :: d :: rest => do return (← scalarOf? (← hexNumber? [a, b, c, d]), rest)
  | 'U' :: a :: b :: c :: d :: e :: f :: g :: h :: rest => do
    return (← scalarOf? (← hexNumber? [a, b, c, d, e, f, g, h]), rest)
  | _ => none

/-- A text up to its quotation mark, with escapes. -/
def readBasic : Nat → List Char → Option (List Char × List Char)
  | 0, _ => none
  | n + 1, cs =>
    match cs with
    | '"' :: rest => some ([], rest)
    | '\\' :: rest => do
      let (c, rest) ← readEscape rest
      let (text, more) ← readBasic n rest
      return (c :: text, more)
    | c :: rest =>
      if isPlain c then (readBasic n rest).map fun (text, more) => (c :: text, more) else none
    | [] => none

/-- A text up to its apostrophe, without escapes. -/
def readLiteral : List Char → Option (List Char × List Char)
  | [] => none
  | c :: rest =>
    if c == '\'' then some ([], rest)
    else if isPlain c then (readLiteral rest).map fun (text, more) => (c :: text, more)
    else none

/-- Drops the line ending right after an opening mark. -/
def dropFirstNewline (cs : List Char) : List Char :=
  (takeNewline cs).getD cs

/-- The end of a text in triple marks: up to two more marks belong to the text. -/
def closeTriple (mark : Char) (cs : List Char) : Option (List Char × List Char) :=
  let run := cs.takeWhile (· == mark)
  if run.length < 3 then none
  else
    let extra := min (run.length - 3) 2
    some (List.replicate extra mark, cs.drop (3 + extra))

/-- Drops blanks and line endings after a backslash at the end of a line. -/
def skipFolded (cs : List Char) : Option (List Char) :=
  match takeNewline (skipGap cs) with
  | some rest => some (rest.dropWhile fun c => isGap c || c == '\n' || c == '\r')
  | none => none

/-- A text in triple quotation marks, with escapes and folded lines. -/
def readLongBasic : Nat → List Char → Option (List Char × List Char)
  | 0, _ => none
  | n + 1, cs =>
    match closeTriple '"' cs with
    | some found => some found
    | none =>
      match cs with
      | '\\' :: rest =>
        match skipFolded rest with
        | some more => readLongBasic n more
        | none => do
          let (c, rest) ← readEscape rest
          let (text, more) ← readLongBasic n rest
          return (c :: text, more)
      | '\r' :: '\n' :: rest => (readLongBasic n rest).map fun (text, more) => ('\r' :: '\n' :: text, more)
      | c :: rest =>
        if isPlain c || c == '\n' then (readLongBasic n rest).map fun (text, more) => (c :: text, more) else none
      | [] => none

/-- A text in triple apostrophes. -/
def readLongLiteral : Nat → List Char → Option (List Char × List Char)
  | 0, _ => none
  | n + 1, cs =>
    match closeTriple '\'' cs with
    | some found => some found
    | none =>
      match cs with
      | '\r' :: '\n' :: rest => (readLongLiteral n rest).map fun (text, more) => ('\r' :: '\n' :: text, more)
      | c :: rest =>
        if isPlain c || c == '\n' then (readLongLiteral n rest).map fun (text, more) => (c :: text, more)
        else none
      | [] => none

/-- A text in marks, from its opening mark on. -/
def readText (cs : List Char) : Option (String × List Char) :=
  let fuel := cs.length + 1
  let found := match cs with
    | '"' :: '"' :: '"' :: rest => readLongBasic fuel (dropFirstNewline rest)
    | '\'' :: '\'' :: '\'' :: rest => readLongLiteral fuel (dropFirstNewline rest)
    | '"' :: rest => readBasic fuel rest
    | '\'' :: rest => readLiteral rest
    | _ => none
  found.map fun (text, rest) => (String.ofList text, rest)

/-- A character of a key without marks. -/
def isBare (c : Char) : Bool :=
  ('a' ≤ c && c ≤ 'z') || ('A' ≤ c && c ≤ 'Z') || isDecimal c || c == '_' || c == '-'

/-- One part of a key. -/
def readKeyPart (cs : List Char) : Option (String × List Char) :=
  match cs with
  | '"' :: rest => (readBasic (rest.length + 1) rest).map fun (text, more) => (String.ofList text, more)
  | '\'' :: rest => (readLiteral rest).map fun (text, more) => (String.ofList text, more)
  | _ =>
    let (part, rest) := cs.span isBare
    if part.isEmpty then none else some (String.ofList part, rest)

/-- The parts of a key, joined by points with blanks around them. -/
def readKey : Nat → List Char → Option (List String × List Char)
  | 0, _ => none
  | n + 1, cs => do
    let (part, rest) ← readKeyPart (skipGap cs)
    match skipGap rest with
    | '.' :: more => (readKey n more).map fun (parts, left) => (part :: parts, left)
    | more => some ([part], more)

/-- A character of a word without marks. -/
def isScalarChar (c : Char) : Bool :=
  isBare c || c == '+' || c == '.' || c == ':'

/-- A word without marks. A blank joins a date and a time. -/
def readScalar (cs : List Char) : Option (Data × List Char) :=
  let (word, rest) := cs.span isScalarChar
  let joined := match rest with
    | ' ' :: more =>
      let (time, left) := more.span isScalarChar
      if isDate word && !time.isEmpty && (isTime time || isOffsetTime time) then
        some (word ++ ' ' :: time, left)
      else none
    | _ => none
  let (word, rest) := joined.getD (word, rest)
  (scalar? word).map fun d => (d, rest)

/-- A key with its value. -/
structure Entry where
  path : List String
  value : Data

/-- A line of a document. -/
inductive Line where
  | heading (path : List String)
  | itemHeading (path : List String)
  | entry (e : Entry)

/-- The tables that the entries of an inline table make, each name once; a name stands for a value or for the
entries below it. -/
def inlineTable? : Nat → List Entry → Option (List (String × Data))
  | 0, _ => none
  | _, [] => some []
  | n + 1, e :: rest =>
    match e.path with
    | [] => none
    | [name] =>
      if rest.any fun f => f.path.head? == some name then none
      else (inlineTable? n rest).map fun es => (name, e.value) :: es
    | name :: _ => do
      let same := (e :: rest).filter fun f => f.path.head? == some name
      let others := (e :: rest).filter fun f => f.path.head? != some name
      let inner ← inlineTable? n (same.map fun f => { f with path := f.path.tail })
      let outer ← inlineTable? n others
      return (name, .map inner) :: outer

mutual
/-- A value at the front, and what follows it. -/
def readValue : Nat → List Char → Option (Data × List Char)
  | 0, _ => none
  | n + 1, cs =>
    match cs with
    | '"' :: _ => (readText cs).map fun (s, rest) => (.str s, rest)
    | '\'' :: _ => (readText cs).map fun (s, rest) => (.str s, rest)
    | '[' :: rest => (readItems n (skipLines rest.length rest)).map fun (ds, more) => (.list ds, more)
    | '{' :: rest => do
      let (es, more) ← readEntries n (skipLines rest.length rest)
      let table ← inlineTable? (2 * (es.map fun e => e.path.length).sum + 2) es
      return (.map table, more)
    | _ => readScalar cs

/-- The items of a list up to its end. -/
def readItems : Nat → List Char → Option (List Data × List Char)
  | 0, _ => none
  | n + 1, cs =>
    match cs with
    | ']' :: rest => some ([], rest)
    | _ => do
      let (d, rest) ← readValue n cs
      match skipLines rest.length rest with
      | ',' :: more => (readItems n (skipLines more.length more)).map fun (ds, left) => (d :: ds, left)
      | ']' :: more => some ([d], more)
      | _ => none

/-- The entries of an inline table up to its end. -/
def readEntries : Nat → List Char → Option (List Entry × List Char)
  | 0, _ => none
  | n + 1, cs =>
    match cs with
    | '}' :: rest => some ([], rest)
    | _ => do
      let (path, rest) ← readKey (cs.length + 1) cs
      match rest with
      | '=' :: rest => do
        let (d, rest) ← readValue n (skipGap rest)
        match skipLines rest.length rest with
        | ',' :: more => (readEntries n (skipLines more.length more)).map fun (es, left) => (⟨path, d⟩ :: es, left)
        | '}' :: more => some ([⟨path, d⟩], more)
        | _ => none
      | _ => none
end

/-- The deepest nesting of lists and inline tables. -/
def nestingLimit : Nat := 80

/-- A key with its value. -/
def readEntry (cs : List Char) : Option (Entry × List Char) := do
  let (path, rest) ← readKey (cs.length + 1) cs
  match rest with
  | '=' :: rest => do
    let (d, rest) ← readValue (2 * rest.length + 2) (skipGap rest)
    if d.depth ≤ nestingLimit then some (⟨path, d⟩, rest) else none
  | _ => none

/-- One line's content, from a character that is not blank. -/
def readLine (cs : List Char) : Option (Line × List Char) :=
  match cs with
  | '[' :: '[' :: rest => do
    let (path, rest) ← readKey (rest.length + 1) rest
    match rest with
    | ']' :: ']' :: more => some (.itemHeading path, more)
    | _ => none
  | '[' :: rest => do
    let (path, rest) ← readKey (rest.length + 1) rest
    match rest with
    | ']' :: more => some (.heading path, more)
    | _ => none
  | _ => (readEntry cs).map fun (e, rest) => (.entry e, rest)

/-- All lines to the end of the text. -/
def readLines : Nat → List Char → Option (List Line)
  | 0, _ => none
  | n + 1, cs =>
    match skipLines cs.length cs with
    | [] => some []
    | start => do
      let (line, rest) ← readLine start
      match skipComment (skipGap rest) with
      | [] => some [line]
      | rest => do
        let more ← takeNewline rest
        return line :: (← readLines n more)

/-- The lines of a document. A byte order mark at its front is passed over. -/
def lines? (s : String) : Option (List Line) :=
  let cs := match s.toList with
    | '\uFEFF' :: rest => rest
    | cs => cs
  readLines (cs.length + 1) cs

end PageAudit.Toml
