import PageAudit.Config.Document
import PageAudit.Scenario.Script
import PageAudit.Simulation.PoolRun
import PageAudit.Simulation.RunOverTime

/-!
# Scenarios

A document describes a pool or a run: its jobs, what launchers and engines will do, and what happens at which
time. Retries have no random part.
-/

namespace PageAudit

open Document Document.Lookup Files

/-- A step by its name: that of a step, or that of the state in which a job ends. -/
def JobStep.ofName (name : String) : JobStep :=
  match name with
  | "begin" => .begin
  | "yield" => .yield
  | "await_retry" => .awaitRetry
  | name => .finish ((JobState.all.find? fun s => s.name == name).getD .queued)

/-- A job by its entry. Its place in the plan is that of the entry unless it names another one; steps that it
names have been taken already. -/
def Job.ofScript (d : Data) (index : Nat) : Job :=
  (texts d "steps").foldl (fun j name => (j.take 0 (.ofName name)).toOption.getD j)
    { id := text d "id", url := text d "url", planIndex := numD d "plan_index" index }

/-- The jobs of a scenario. -/
def jobsOfScript (d : Data) : List Job :=
  (list d "jobs").zipIdx.map fun (e, index) => .ofScript e index

/-- A pressure by its entry. -/
def MemoryPressure.ofScript (d : Data) : MemoryPressure :=
  { used := num d "used", free := num d "free", level := real d "level" }

/-- The surroundings of attempts. -/
def Site.ofScript (d : Data) (supervisor : Supervisor) (timeLimit : Nat) : Site :=
  { supervisor, timeLimit, engine := .ofScript (part d "engine") }

/-- The supervisor of a scenario. -/
def scriptedSupervisor (d : Data) (capacity : Nat) (runId : String) (ledger : Option Slot) : Supervisor :=
  .ofScript (part d "launcher") capacity runId ledger

/-- The ledger file that a scenario begins with. -/
def ledgerOfScript (d : Data) : Slot :=
  { content := ((text? d "ledger_text").map Content.text).getD .absent }

/-- What happens to a pool. The pressure is closed only after all of it has come. -/
def agendaOfScript (d : Data) : List (Nat × PoolEvent) :=
  let sent := (list d "pressure").map fun e => (num e "at", PoolEvent.pressure (.ofScript e))
  let last := (sent.map (·.1)).foldl max 0
  sent ++ ((num? d "close_pressure_at").map fun t => (max t last, PoolEvent.pressureClosed)).toList
    ++ ((num? d "cancel_at").map fun t => (t, PoolEvent.cancel)).toList

/-- A pool over time; none if its bounds exclude each other. -/
def PoolRun.ofScript? (d : Data) (policy : PoolPolicy) (retry : RetryPolicy) : Option PoolRun :=
  let supervisor := scriptedSupervisor d (numD d "capacity" policy.maxConcurrency) "run-test" none
  (Pool.submit? policy { retry with backoffJitterMs := 0 } (numD d "grace_ms" 30000) (fun _ _ => 0)
      (.ofScript (part d "pressure0")) 0 (jobsOfScript d)).map fun pool =>
    { session :=
        { pool := if flag d "cancel_first" then pool.cancel else pool
          site := .ofScript d supervisor (numD d "timeout_ms" 60000) }
      agenda := agendaOfScript d }

/-- A run over time; none if its bounds exclude each other. -/
def RunOverTime.ofScript? (d : Data) (config : Config) : Option RunOverTime :=
  let config := { config with retry := { config.retry with backoffJitterMs := 0 } }
  let ledger := if flag d "state_dir" then some (ledgerOfScript d) else none
  let supervisor := scriptedSupervisor d config.browserCapacity "run-1" ledger
  (Run.ofPlan? config (jobsOfScript d) (.ofScript d supervisor config.engine.attemptTimeoutMs) (fun _ _ => 0)
      (probeOfScript (list d "memory"))).map fun run =>
    { run := ((text? d "cancel_before").map run.cancel).getD run
      cancellations := (list d "cancel").map fun e => (num e "at", text e "reason") }

end PageAudit
