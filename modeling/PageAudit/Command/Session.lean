import PageAudit.Command.Error
import PageAudit.Command.Programs
import PageAudit.Config.Load
import PageAudit.Log.Run
import PageAudit.Progress.Reporter
import PageAudit.Run.History
import PageAudit.Simulation.RunOverTime

/-!
# The command

The command loads the configuration, begins the log file, reads the plan, finds the browser, the engine and
Node, carries out the run, writes its report and records it in the history. It ends at the first fault; what it
has written until then stays.
-/

namespace PageAudit

open Files Calendar

/-- What the command finds when it is started. -/
structure Surroundings where
  env : Environment := []
  /-- The directory of the command itself. -/
  programDir : Option String := none
  /-- The present time, in milliseconds since 1970. -/
  now : Nat := 0
  /-- Random numbers for delays, by the job's position in the plan and the attempt. -/
  draws : Nat → Nat → Nat := fun _ _ => 0
  /-- What every reading of the memory gives. -/
  memory : Nat → Except ProbeError MemoryReading
  /-- The reason why an endpoint does not answer. -/
  probe : String → Option String

/-- The variables that the command looks at. -/
def Surroundings.variables : List String :=
  ["AUDIT_CONFIG", "AUDIT_MAX_CONCURRENCY", "AUDIT_MIN_CONCURRENCY", "AUDIT_MEMORY_WATERMARK_BYTES",
    "AUDIT_FAILURE_RATE_THRESHOLD", "AUDIT_MAX_ATTEMPTS", "AUDIT_BACKOFF_BASE_MS", "AUDIT_GRACE_PERIOD_MS",
    "AUDIT_CHROME_PATH", "AUDIT_ENGINE_MANIFEST", "AUDIT_PLAN_FILE", "AUDIT_OUTPUT_ROOT", "VERBOSE_LOGGING",
    "OUTPUT_LOG_FILE", "XDG_CACHE_HOME", "HOME", "TMPDIR"]

/-- The files, and the lines that the command has printed. -/
structure SessionState where
  files : Tree
  lines : List LogLine := []

/-- A part of the command. -/
abbrev Session := ExceptT CommandError (StateM SessionState)

namespace Session

/-- The files as they are. -/
def files : Session Tree := return (← get).files

/-- Replaces the files. -/
def setFiles (files : Tree) : Session Unit := modify fun s => { s with files }

/-- Prints lines. -/
def print (lines : List LogLine) : Session Unit :=
  modify fun s => { s with lines := s.lines ++ lines }

/-- Prints a line. -/
def say (text : String) (level : LogLevel := .info) : Session Unit := print [⟨level, text⟩]

/-- Goes on with a value, or ends with a fault. -/
def orElse {ε α : Type} (fault : ε → CommandError) : Except ε α → Session α
  | .ok a => return a
  | .error e => throw (fault e)

end Session

namespace Surroundings

/-- The name of the run. -/
def runId (s : Surroundings) : String := s!"run-{s.now}"

open Session

/-- Begins the log file, if there is to be one. -/
def beginLog (s : Surroundings) (c : Config) : Session Unit := do
  if !c.outputLogFile.isEmpty then
    let header := logHeader (Stamp.ofMillis s.now).plain
    setFiles (← orElse (fun _ => .logFileNotCreated c.outputLogFile) ((← files).write c.outputLogFile header))

/-- Reads the plan. -/
def plan (c : Config) : Session (List Job) := do
  let jobs ← orElse .plan (loadPlan (← files) c.planFile)
  print [planLoadedLine c.planFile jobs]
  return jobs

/-- Finds the browser. -/
def chrome (s : Surroundings) (c : Config) : Session Chrome := do
  let chrome ← orElse .unusable (Chrome.find (← files) s.env c.browser)
  say s!"✓ 使用浏览器: {chrome.executable}"
  say s!"✓ 浏览器: {chrome.executable}"
  return chrome

/-- Finds the engine and a version of Node that it can use. -/
def engine (s : Surroundings) (c : Config) : Session NodeEngine := do
  let resolved ← orElse .unusable (findEngine (← files) s.env s.programDir c.engine.manifestPath)
  let engine := NodeEngine.ofSettings c.engine resolved
  say s!"✓ 审计引擎 v{engine.version} ({engine.entryPath})"
  let version ← orElse .unusable (engine.verifyIn (← files))
  say s!"✓ Node {version}"
  return engine

/-- The directory of a place can be made. -/
def canBeMade (files : Tree) (path : String) : Bool :=
  match files.makeDirectories (files.placeOf path).dropLast with
  | .ok _ => true
  | .error _ => false

/-- A file as a slot whose directory is made when it is written. -/
def slotIn (files : Tree) (path : String) : Slot :=
  { files.slot (files.placeOf path) with writable := canBeMade files path }

/-- Puts a slot back with its directory, if its content has changed. -/
def putSlot (files : Tree) (path : String) (slot : Slot) : Tree :=
  let place := files.placeOf path
  if slot.content == (files.slot place).content then files
  else ((files.makeDirectories place.dropLast).toOption.getD files).setSlot place slot

/-- The ledger file of a configuration. -/
def ledgerPath? (c : Config) : Option String := c.stateDir.map fun dir => join dir Ledger.fileName

/-- The supervisor of the browsers of the run. -/
def supervisor (s : Surroundings) (c : Config) (files : Tree) (chrome : Chrome) : Supervisor :=
  { launcher := chrome.launcher files s.probe s.runId
    runId := s.runId
    registry := .ofCapacity c.browserCapacity
    ledger := (ledgerPath? c).map (slotIn files)
    clock := s.now }

/-- The run of a plan. -/
def runOf? (s : Surroundings) (c : Config) (files : Tree) (jobs : List Job) (chrome : Chrome) (engine : NodeEngine) :
    Option Run :=
  Run.ofPlan? c jobs
    { supervisor := s.supervisor c files chrome
      engine := engine.engine files (chrome.reportedEndpoint files s.runId)
      timeLimit := c.engine.attemptTimeoutMs }
    s.draws s.memory

/-- More steps than a run takes. -/
def stepLimit : Nat := 1000000000

/-- Carries a run out to its end. -/
def complete (r : Run) : Run :=
  let start : RunOverTime := { run := r }
  (start.begin.run RunOverTime.system RunOverTime.isOver none stepLimit).state.run

/-- The profile directories of the starts of a run are made and taken away again. -/
def leaveProfiles (s : Surroundings) (files : Tree) (chrome : Chrome) (r : Run) : Tree :=
  r.supervisor.launchCalls.foldl (fun files jobId =>
    let o : LaunchOptions := { jobId, attempt := 1, runId := s.runId }
    match chrome.start files (fun _ => none) o with
    | (.ok _, made) => (chrome.kill made (.ok ()) o).2
    | (.error _, left) => left) files

/-- Reports the events of a run in the log and the log file. -/
def reportEvents (c : Config) (r : Run) : Session Unit := do
  let before ← files
  let start : Reporter :=
    { logFile := if c.outputLogFile.isEmpty then none else some (c.outputLogFile, slotIn before c.outputLogFile) }
  let reporter := start.takeTimed (r.events.map fun (t, e) => (Stamp.ofMillis t, e))
  print reporter.lines
  match reporter.logFile with
  | some (path, slot) => setFiles (putSlot (← files) path slot)
  | none => pure ()

/-- Carries out the run. -/
def audit (s : Surroundings) (c : Config) (jobs : List Job) (chrome : Chrome) (engine : NodeEngine) :
    Session RunReport := do
  let before ← files
  match s.runOf? c before jobs chrome engine with
  | none => throw (.run (.run (.poolFailed "")))
  | some start =>
    let r := complete start
    setFiles (s.leaveProfiles before chrome r)
    match ledgerPath? c, r.supervisor.ledger with
    | some path, some slot => setFiles (putSlot (← files) path slot)
    | _, _ => pure ()
    reportEvents c r
    match r.stage with
    | .ended (.ok report) => return report
    | .ended (.error e) => throw (.run e)
    | _ => throw (.run (.run (.poolFailed "")))

/-- The directory for the output of the run. -/
def outputDir (s : Surroundings) (c : Config) : String := join c.outputRoot s.runId

/-- Writes the report. -/
def writeReport (s : Surroundings) (c : Config) (report : RunReport) : Session Unit := do
  let directory := s.outputDir c
  let path := join directory "results.json"
  let before ← files
  let made ← orElse (fun _ => .outputNotCreated directory) (before.makeDirectories (before.placeOf directory))
  setFiles made
  setFiles (← orElse (fun _ => .resultsNotWritten path) (made.write path (Json.indented report.data)))
  say s!"💾 结果已写入: {path}"

/-- The account of the run for the history. -/
def historyEntry (s : Surroundings) (c : Config) (report : RunReport) : HistoryEntry :=
  { id := report.runId
    createdAt := (Stamp.ofMillis s.now).write
    jobCount := report.results.length
    succeeded := report.succeeded
    failed := report.failed
    cancelled := report.cancelled
    finalState := report.state
    outputDir := s.outputDir c }

/-- Records the run in the history, if one is kept. A history that cannot be written is no fault of the run. -/
def recordHistory (s : Surroundings) (c : Config) (report : RunReport) : Session Unit := do
  match c.stateDir with
  | none => pure ()
  | some dir =>
    let path := join dir History.fileName
    match History.record (slotIn (← files) path) (s.historyEntry c report) with
    | .ok slot => setFiles (putSlot (← files) path slot)
    | .error fault => say s!"⚠️ 写入运行历史失败: {fault.message}" .warn

/-- The line for a job that failed for good. -/
def failureLine? (r : Result) : Option LogLine :=
  match r.state, r.outcome with
  | .failedPermanent, .failure _ message => some ⟨.error, s!"[任务 {r.jobId}] ❌ {truncated message 120}"⟩
  | _, _ => none

/-- Closes with the lines about what failed and the account of the run. -/
def closing (s : Surroundings) (c : Config) (report : RunReport) : Session Unit := do
  print (report.results.filterMap failureLine?)
  print (finalLines report (Stamp.ofMillis s.now).plain c.outputLogFile)

/-- The whole command. The report is missing if the plan is empty. -/
def session (s : Surroundings) : Session (Option RunReport) := do
  let c ← orElse .configNotLoaded (Config.load (← files) s.env)
  s.beginLog c
  print ((startupLines? c).getD [])
  let jobs ← plan c
  if jobs.isEmpty then
    say "⚠️ 任务计划为空，无需运行" .warn
    return none
  else
    let chrome ← s.chrome c
    let engine ← s.engine c
    let report ← s.audit c jobs chrome engine
    s.writeReport c report
    s.recordHistory c report
    s.closing c report
    return some report

/-- Carries out the command in a tree of files. -/
def carryOut (s : Surroundings) (files : Tree) : Except CommandError (Option RunReport) × SessionState :=
  s.session.run.run { files }

end Surroundings

end PageAudit
