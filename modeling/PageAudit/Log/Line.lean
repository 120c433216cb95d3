import PageAudit.Document.Data

/-!
# Log lines

A line for people who watch a run, with its level.
-/

namespace PageAudit

/-- How urgent a line is. -/
inductive LogLevel where
  | debug
  | info
  | warn
  | error
  deriving DecidableEq, Repr

/-- The name of a level. -/
def LogLevel.name : LogLevel → String
  | .debug => "debug"
  | .info => "info"
  | .warn => "warn"
  | .error => "error"

/-- A line of the log. -/
structure LogLine where
  level : LogLevel
  text : String
  deriving DecidableEq, Repr

/-- A line in a document. -/
def LogLine.data (l : LogLine) : Document.Data :=
  .list [.str l.level.name, .str l.text]

/-- A rule of sixty equality signs. -/
def logRule : String :=
  String.ofList (List.replicate 60 '=')

/-- A text cut to a number of characters, with three points where something is cut off. -/
def truncated (s : String) (n : Nat) : String :=
  if n < s.length then String.ofList (s.toList.take n) ++ "..." else s

end PageAudit
