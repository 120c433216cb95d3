/-!
# The words of shell scripts

A script is a list of words and separators. Quotes keep blanks in a word, a dollar sign stands for an argument,
and a number sign begins a comment.
-/

namespace PageAudit.Shell

/-- A part of a word. -/
inductive Part where
  | char (c : Char)
  /-- An argument by its number; 0 is the name of the script. -/
  | argument (n : Nat)
  | allArguments
  | argumentCount
  /-- The status of the last command. -/
  | status
  deriving DecidableEq, Repr

/-- A word by its parts. -/
abbrev Word := List Part

/-- A token. -/
inductive Token where
  | word (w : Word)
  /-- A line feed or a semicolon. -/
  | separator
  /-- The output goes to the error stream. -/
  | toErrors
  deriving DecidableEq, Repr

/-- Where a character of a script stands. -/
inductive Quotation where
  | bare
  | single
  | double
  | comment
  deriving DecidableEq, Repr

/-- The token of a word that has begun. -/
def closeWord (word : Option Word) : List Token :=
  (word.map Token.word).toList

/-- Adds a part to a word, which begins with it if none has begun. -/
def extend (word : Option Word) (p : Part) : Option Word :=
  some (word.getD [] ++ [p])

/-- What a dollar sign before a character stands for. -/
def parameter? (c : Char) : Option Part :=
  if c.isDigit then some (.argument (c.toNat - '0'.toNat))
  else if c == '*' || c == '@' then some .allArguments
  else if c == '#' then some .argumentCount
  else if c == '?' then some .status
  else none

/-- The tokens of the rest of a script after a part of a word. -/
def tokensFrom (word : Option Word) : Quotation → List Char → List Token
  | _, [] => closeWord word
  | .comment, c :: rest =>
    if c == '\n' then .separator :: tokensFrom word .bare rest else tokensFrom word .comment rest
  | .single, c :: rest =>
    if c == '\'' then tokensFrom word .bare rest else tokensFrom (extend word (.char c)) .single rest
  | q, '$' :: c :: rest =>
    match parameter? c with
    | some p => tokensFrom (extend word p) q rest
    | none => tokensFrom (extend word (.char '$')) q (c :: rest)
  | .double, '\\' :: c :: rest =>
    if c == '"' || c == '\\' || c == '$' then tokensFrom (extend word (.char c)) .double rest
    else tokensFrom (extend word (.char '\\')) .double (c :: rest)
  | .double, c :: rest =>
    if c == '"' then tokensFrom word .bare rest else tokensFrom (extend word (.char c)) .double rest
  | .bare, '\\' :: c :: rest =>
    if c == '\n' then tokensFrom word .bare rest else tokensFrom (extend word (.char c)) .bare rest
  | .bare, '>' :: '&' :: '2' :: rest => closeWord word ++ .toErrors :: tokensFrom none .bare rest
  | .bare, c :: rest =>
    if c == '\'' then tokensFrom (some (word.getD [])) .single rest
    else if c == '"' then tokensFrom (some (word.getD [])) .double rest
    else if c == ' ' || c == '\t' then closeWord word ++ tokensFrom none .bare rest
    else if c == '\n' || c == ';' then closeWord word ++ .separator :: tokensFrom none .bare rest
    else if c == '#' && word.isNone then tokensFrom none .comment rest
    else tokensFrom (extend word (.char c)) .bare rest

/-- The tokens of a script. -/
def tokens (script : String) : List Token :=
  tokensFrom none .bare script.toList

/-- Tokens between separators. -/
def lines : List Token → List (List Token)
  | [] => [[]]
  | .separator :: rest => [] :: lines rest
  | t :: rest =>
    match lines rest with
    | [] => [[t]]
    | line :: more => (t :: line) :: more

end PageAudit.Shell
