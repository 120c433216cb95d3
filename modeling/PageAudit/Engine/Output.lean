import PageAudit.Attempt.Error
import PageAudit.Job.Result
import PageAudit.Json.Reader
import PageAudit.Text.Basic
import PageAudit.Text.Lines

/-!
# The output of an engine

An engine writes lines. A line that is a result or an error in JSON counts, any other is passed over. The last
result and the first error hold, and an error wins over a result.
-/

namespace PageAudit

open Document Text

/-- A line of an engine. -/
inductive EngineLine where
  | result (metrics : List (String × Data))
  | error (kind message : String) (timeoutMs : Option Nat)
  | other

/-- A line's value as it is. -/
def anyData? (d : Data) : Option Data := some d

/-- Reads the value of a line. -/
def EngineLine.ofData? (d : Data) : Option EngineLine := do
  let (name, fields) ← d.tagged? "type" 0
  let name ← name.str?
  if name == "result" then
    let r ← fields.record? ["metrics"] .refused
    return .result (← r.field? "metrics" (Data.sortedMap? anyData?))
  else if name == "error" then
    let r ← fields.record? ["kind", "message", "timeoutMs"] .refused
    return .error (← r.field? "kind" Data.str?) (← r.field? "message" Data.str?)
      (← r.fieldD "timeoutMs" (Data.optional? (Data.word? 64)) none)
  else return .other

/-- Reads a line; blanks around it are passed over. -/
def EngineLine.read? (line : String) : Option EngineLine :=
  Json.read? (trim line) >>= EngineLine.ofData?

/-- The entries that are numbers. -/
def numericMetrics (entries : List (String × Data)) : Metrics :=
  entries.filterMap fun (name, d) => d.real?.map fun x => (name, x)

/-- The error that an engine names. -/
def engineError (kind message : String) (timeoutMs : Option Nat) : AuditError :=
  if kind == "network" then .network message
  else if kind == "timeout" then .timeout (timeoutMs.getD 0)
  else if kind == "resource" || kind == "resource_exhausted" || kind == "out_of_memory" then
    .resourceExhausted message
  else if kind == "invalid_url" then .invalidUrl message
  else if kind == "invalid_config" then .invalidConfig message
  else .engine s!"{kind}: {message}"

/-- What an engine has said so far. -/
structure EngineOutput where
  metrics : Option Metrics := none
  error : Option AuditError := none

/-- Takes a line. -/
def EngineOutput.take (o : EngineOutput) (line : String) : EngineOutput :=
  match EngineLine.read? line with
  | some (.result entries) => { o with metrics := some (numericMetrics entries) }
  | some (.error kind message timeoutMs) =>
    { o with error := o.error <|> some (engineError kind message timeoutMs) }
  | some .other | none => o

/-- What an engine has said in some lines. -/
def EngineOutput.ofLines (lines : List String) : EngineOutput :=
  lines.foldl EngineOutput.take {}

/-- How a process ended. -/
inductive ExitStatus where
  | code (n : Nat)
  | signal (n : Nat)
  deriving DecidableEq, Repr

/-- The name of a signal. -/
def signalName? : Nat → Option String
  | 1 => some "SIGHUP"
  | 2 => some "SIGINT"
  | 3 => some "SIGQUIT"
  | 4 => some "SIGILL"
  | 5 => some "SIGTRAP"
  | 6 => some "SIGABRT"
  | 7 => some "SIGBUS"
  | 8 => some "SIGFPE"
  | 9 => some "SIGKILL"
  | 10 => some "SIGUSR1"
  | 11 => some "SIGSEGV"
  | 12 => some "SIGUSR2"
  | 13 => some "SIGPIPE"
  | 14 => some "SIGALRM"
  | 15 => some "SIGTERM"
  | _ => none

/-- The text of a status. -/
def ExitStatus.text : ExitStatus → String
  | .code n => s!"exit status: {n}"
  | .signal n =>
    match signalName? n with
    | some name => s!"signal: {n} ({name})"
    | none => s!"signal: {n}"

/-- What a process wrote and how it ended. -/
structure ProcessOutput where
  stdout : List Nat := []
  stderr : List Nat := []
  status : ExitStatus := .code 0
  deriving Repr

/-- The last lines of a stream with bars between them. -/
def tailText (n : Nat) (octets : List Nat) : String :=
  " | ".intercalate (lastEntries n (readLines octets).lines)

/-- The number of error lines that are kept. -/
def stderrTailLines : Nat := 6

/-- What the run of an engine came to. -/
def ProcessOutput.outcome (p : ProcessOutput) : Except AuditError Metrics :=
  let said := EngineOutput.ofLines (readLines p.stdout).lines
  match said.error, said.metrics with
  | some e, _ => .error e
  | none, some metrics => .ok metrics
  | none, none =>
    if p.status == .code 0 then .error (.engine "审计引擎未返回结果")
    else .error (.engine s!"审计引擎异常退出 ({p.status.text}): {tailText stderrTailLines p.stderr}")

end PageAudit
