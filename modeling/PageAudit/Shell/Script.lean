import PageAudit.Decimal.Numeral
import PageAudit.Engine.Output
import PageAudit.Files.Tree
import PageAudit.Shell.Token

/-!
# Programs that are scripts

A script is a list of commands with `if` blocks. It writes to its streams, waits and exits. A program is found
by its path in a tree of files and is run with arguments.
-/

namespace PageAudit.Shell

open Decimal Files Text

/-- A step of a script. -/
inductive Step where
  /-- The condition of a block begins. -/
  | ifBegins
  | thenBegins
  | elseBegins
  | blockEnds
  | command (words : List Word) (toErrors : Bool)
  deriving DecidableEq, Repr

/-- A word of plain characters. -/
def plainWord (s : String) : Word := s.toList.map .char

/-- The step that a word of the language begins. -/
def keyword? (w : Word) : Option Step :=
  if w == plainWord "if" then some .ifBegins
  else if w == plainWord "then" then some .thenBegins
  else if w == plainWord "else" then some .elseBegins
  else if w == plainWord "fi" then some .blockEnds
  else none

/-- The words of a command. -/
def wordsOf (line : List Token) : List Word :=
  line.filterMap fun
    | .word w => some w
    | .separator | .toErrors => none

/-- The command of a line; none for a line without words. -/
def commandOf (line : List Token) : List Step :=
  if (wordsOf line).isEmpty then [] else [.command (wordsOf line) (line.contains .toErrors)]

/-- The steps of a line: the words of the language at its front, then a command. -/
def stepsOfLine : List Token → List Step
  | .word w :: rest =>
    match keyword? w with
    | some step => step :: stepsOfLine rest
    | none => commandOf (.word w :: rest)
  | line => commandOf line

/-- The steps of a script. -/
def steps (script : String) : List Step :=
  (lines (tokens script)).flatMap stepsOfLine

/-- An `if` block that has begun. -/
structure Block where
  /-- The outcome of the condition; none while it is being found. -/
  holds : Option Bool := none
  /-- The steps are those of the alternative. -/
  otherwise : Bool := false
  deriving DecidableEq, Repr

/-- The steps of a block are taken. -/
def Block.isLive (b : Block) : Bool :=
  b.holds.all fun holds => holds != b.otherwise

/-- A script that is being run. -/
structure Progress where
  /-- The name of the script and its arguments. -/
  arguments : List String
  stdout : String := ""
  stderr : String := ""
  /-- The status of the last command. -/
  status : Nat := 0
  /-- The blocks that have begun, the innermost first. -/
  blocks : List Block := []
  /-- How long the script has waited, in milliseconds. -/
  waited : Nat := 0
  ended : Bool := false
  deriving Repr

namespace Progress

/-- The text of a part. -/
def partText (p : Progress) : Part → String
  | .char c => c.toString
  | .argument n => (p.arguments[n]?).getD ""
  | .allArguments => " ".intercalate (p.arguments.drop 1)
  | .argumentCount => toString (p.arguments.length - 1)
  | .status => toString p.status

/-- The text of a word. -/
def wordText (p : Progress) (w : Word) : String :=
  String.join (w.map p.partText)

/-- Ends a command with a status. -/
def withStatus (p : Progress) (status : Nat) : Progress :=
  { p with status }

/-- Writes a text. -/
def write (p : Progress) (toErrors : Bool) (s : String) : Progress :=
  if toErrors then { p with stderr := p.stderr ++ s } else { p with stdout := p.stdout ++ s }

/-- Whether a test holds; none if it is none. -/
def test? : List String → Option Bool
  | [a, "=", b] => some (a == b)
  | [a, "!=", b] => some (a != b)
  | ["-z", a] => some a.isEmpty
  | ["-n", a] => some (!a.isEmpty)
  | [a] => some (!a.isEmpty)
  | [] => some false
  | _ => none

/-- Ends a test. -/
def tested (p : Progress) (words : List String) : Progress :=
  p.withStatus (match test? words with
    | some true => 0
    | some false => 1
    | none => 2)

/-- The number that a word names. -/
def wordNumber (words : List String) : Nat :=
  (words.head? >>= readWord? 64).getD 0

/-- Runs a command. -/
def run (p : Progress) (toErrors : Bool) : List String → Progress
  | "echo" :: "-n" :: words => (p.write toErrors (" ".intercalate words)).withStatus 0
  | "echo" :: words => (p.write toErrors (" ".intercalate words ++ "\n")).withStatus 0
  | "sleep" :: words => { p with waited := p.waited + 1000 * wordNumber words, status := 0 }
  | "exit" :: words => { p with ended := true, status := if words.isEmpty then p.status else wordNumber words % 256 }
  | "exec" :: words => { run p toErrors words with ended := true }
  | "test" :: words => p.tested words
  | "[" :: words => p.tested words.dropLast
  | "true" :: _ | ":" :: _ => p.withStatus 0
  | "false" :: _ => p.withStatus 1
  | _ => p.withStatus 127

/-- Takes a step. -/
def take (p : Progress) (s : Step) : Progress :=
  if p.ended then p
  else
    match s, p.blocks with
    | .ifBegins, blocks => { p with blocks := {} :: blocks }
    | .thenBegins, b :: blocks => { p with blocks := { b with holds := some (p.status == 0) } :: blocks }
    | .elseBegins, b :: blocks => { p with blocks := { b with otherwise := true } :: blocks }
    | .blockEnds, _ :: blocks => { p with blocks }
    | .command words toErrors, blocks =>
      if blocks.all Block.isLive then p.run toErrors (words.map p.wordText) else p
    | _, [] => p

end Progress

/-- What the run of a program gives. -/
structure ProgramRun where
  output : ProcessOutput
  /-- How long it takes, in milliseconds. -/
  delay : Nat
  deriving Repr

/-- Runs a script. -/
def runScript (script name : String) (arguments : List String) : ProgramRun :=
  let start : Progress := { arguments := name :: arguments }
  let p := (steps script).foldl Progress.take start
  { output := { stdout := utf8Octets p.stdout, stderr := utf8Octets p.stderr, status := .code p.status }
    delay := p.waited }

/-- Runs the program at a path. A name without a slash names no program. -/
def runProgram (files : Tree) (path : String) (arguments : List String) : Except FileFault ProgramRun := do
  if !path.toList.contains '/' then .error .notFound
  else
    let place ← files.locate path
    match files.at? place with
    | none => .error .notFound
    | some node =>
      match node.content, node.executable with
      | .text script, true => .ok (runScript script path arguments)
      | _, _ => .error .denied

end PageAudit.Shell
