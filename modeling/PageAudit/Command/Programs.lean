import PageAudit.Browser.Chrome
import PageAudit.Engine.Node
import PageAudit.Shell.Script
import PageAudit.Supervisor.Launcher
import PageAudit.Attempt.Engine

/-!
# Programs at work

The browser and the engine of a run as programs in a tree of files. What a program does depends only on its
arguments, so it is known in advance how every start and every audit ends.
-/

namespace PageAudit

open Files Shell

/-- What comes of running a program, with the system's sentence if it cannot be run. -/
def runIn (files : Tree) (path : String) (arguments : List String) : Except String ProgramRun :=
  (runProgram files path arguments).mapError FileFault.message

namespace Chrome

/-- The error stream of a browser up to the time limit. -/
def errorStream (c : Chrome) (r : ProgramRun) : ErrorStream :=
  { octets := r.output.stderr, ended := r.delay ≤ c.settings.startupTimeoutMs }

/-- A start with what it does to the files. -/
def start (c : Chrome) (files : Tree) (probe : String → Option String) (o : LaunchOptions) :
    Except LaunchError String × Tree :=
  c.launch files ((runIn files c.executable (c.arguments o)).map c.errorStream) probe o

/-- How long a start takes: one without an endpoint takes as long as the program, up to the time limit. -/
def startDelay (c : Chrome) (files : Tree) (o : LaunchOptions) : Except LaunchError String → Nat
  | .error (.startupTimeout limit) => limit
  | .error (.endpointNotReported _) | .error (.portInUse _) =>
    match runIn files c.executable (c.arguments o) with
    | .ok r => r.delay
    | .error _ => 0
  | _ => 0

/-- The endpoint that this browser reports when it starts. -/
def reportedEndpoint (c : Chrome) (files : Tree) (runId : String) : String :=
  ((c.start files (fun _ => none) { jobId := "", attempt := 1, runId }).1.toOption).getD ""

/-- A start of a run; the number of the attempt is that of the start. -/
def launchOf (c : Chrome) (files : Tree) (probe : String → Option String) (runId jobId : String) (n : Nat) : Launch :=
  let o : LaunchOptions := { jobId, attempt := n + 1, runId }
  let ending := (c.start files probe o).1
  { delay := c.startDelay files o ending
    ending := match ending with
      | .ok _ => .ready
      | .error e => .failed e }

/-- The browser as a launcher. -/
def launcher (c : Chrome) (files : Tree) (probe : String → Option String) (runId : String) : Launcher :=
  { launch := c.launchOf files probe runId
    kill := fun _ _ => {}
    pid := fun n => n + 1
    endpoint := fun _ => c.reportedEndpoint files runId }

end Chrome

namespace NodeEngine

/-- An audit of a page. -/
def auditOf (e : NodeEngine) (files : Tree) (endpoint url : String) : Audit :=
  let run := runIn files e.nodeBinary (e.entryPath :: arguments url endpoint)
  { delay := match run with
      | .ok r => r.delay
      | .error _ => 0
    ending := match outcome (run.map (·.output)) with
      | .ok metrics => .scored metrics
      | .error error => .failed error }

/-- Node as an engine. -/
def engine (e : NodeEngine) (files : Tree) (endpoint : String) : Engine :=
  { audit := fun url _ => e.auditOf files endpoint url
    supportsEarlyTermination := supportsEarlyTermination }

/-- The version of Node in a tree of files, if it is new enough. -/
def verifyIn (e : NodeEngine) (files : Tree) : Except ConfigError String :=
  e.verify ((runIn files e.nodeBinary ["--version"]).map (·.output))

end NodeEngine

end PageAudit
