import PageAudit.Attempt.Site
import PageAudit.Document.Lookup
import PageAudit.Memory.Monitor

/-!
# Scripts

A document tells what launchers, engines and memory probes will do: entry by entry for every job or page, and
by a default once the entries are used up.
-/

namespace PageAudit

open Document Document.Lookup

/-- The error of an audit that an entry names. -/
def AuditError.ofScript? (d : Data) : Option AuditError :=
  let message := text d "message"
  match text d "type" with
  | "network" => some (.network message)
  | "resource" => some (.resourceExhausted message)
  | "invalid_url" => some (.invalidUrl message)
  | "invalid_config" => some (.invalidConfig message)
  | "engine" => some (.engine message)
  | "timeout" => some (.timeout (num d "timeout_ms"))
  | "interrupted" => some .interrupted
  | _ => none

/-- The error of a start that an entry names. -/
def LaunchError.ofScript? (d : Data) : Option LaunchError :=
  let message := text d "message"
  match text d "type" with
  | "spawn_failed" => some (.spawnFailed (text d "executable") message)
  | "port_in_use" => some (.portInUse message)
  | "startup_timeout" => some (.startupTimeout (num d "timeout_ms"))
  | "endpoint_not_reported" => some (.endpointNotReported message)
  | "probe_failed" => some (.probeFailed (text d "endpoint") message)
  | "capacity_exhausted" => some (.capacityExhausted (num d "live") (num d "limit"))
  | "handle_already_held" => some (.handleAlreadyHeld (text d "job_id"))
  | _ => none

/-- The error that an entry names. -/
def AttemptError.ofScript? (d : Data) : Option AttemptError :=
  (AuditError.ofScript? d).map .audit <|> (LaunchError.ofScript? d).map .launch

/-- The entry for a key after a number of earlier ones. -/
def scriptEntry (d : Data) (scripts key : String) (n : Nat) : Data :=
  ((list (part d scripts) key)[n]?).getD (part d "default")

/-- A start by its entry. -/
def Launch.ofScript (d : Data) : Launch :=
  { delay := num d "delay_ms"
    ending := match text? d "panic", (get? d "error") >>= LaunchError.ofScript? with
      | some message, _ => .broken message
      | none, some e => .failed e
      | none, none => .ready }

/-- Metrics by name. -/
def metricsOfScript (d : Data) (key : String) : Metrics :=
  ((get? d key) >>= Data.sortedMap? Data.real?).getD []

/-- An audit by its entry. -/
def Audit.ofScript (d : Data) : Audit :=
  { delay := num d "delay_ms"
    ending := match text? d "panic", (get? d "error") >>= AuditError.ofScript? with
      | some message, _ => .broken message
      | none, some e => .failed e
      | none, none => .scored (metricsOfScript d "metrics") }

/-- Kills that fail for some processes. -/
def failingKills (delay : Nat) (pids : List Nat) (pid _ : Nat) : Kill :=
  { delay, ending := if pids.contains pid then .failed "permission denied" else .done }

/-- A launcher by its script. -/
def Launcher.ofScript (d : Data) : Launcher :=
  { launch := fun jobId n => .ofScript (scriptEntry d "script" jobId n)
    kill := failingKills (num d "kill_delay_ms") (nums d "fail_kills")
    pid := fun n => numD d "first_pid" 10000 + n
    endpoint := fun pid => s!"ws://127.0.0.1:9222/devtools/browser/{pid}" }

/-- An engine by its script. -/
def Engine.ofScript (d : Data) : Engine :=
  { audit := fun url n => .ofScript (scriptEntry d "scripts" url n)
    supportsEarlyTermination := flag d "early_termination" }

/-- A supervisor by the script of its launcher, with the processes that run already. -/
def Supervisor.ofScript (d : Data) (capacity : Nat) (runId : String) (ledger : Option Files.Slot) : Supervisor :=
  { launcher := .ofScript d, runId, registry := .ofCapacity capacity, ledger
    alive := (nums d "alive").foldl (fun found pid => insertAscending pid found) [] }

/-- A reading by its entry; null stands for a probe that fails. -/
def readingOfScript : Data → Except ProbeError MemoryReading
  | .null => .error "probe offline"
  | d => .ok ⟨num d "used", num d "free"⟩

/-- The readings of a probe; the last one repeats. -/
def probeOfScript (readings : List Data) (n : Nat) : Except ProbeError MemoryReading :=
  readingOfScript ((readings[min n (readings.length - 1)]?).getD .null)

end PageAudit
