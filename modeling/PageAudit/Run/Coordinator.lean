import PageAudit.Config.Validity
import PageAudit.Memory.Monitor
import PageAudit.Pool.Session
import PageAudit.Progress.Summary
import PageAudit.Run.Control
import PageAudit.Run.Report

/-!
# Coordinating a run

A run sweeps what an earlier one left behind, watches the memory, has a pool work through the plan, collects the
results in plan order, releases all browsers and sweeps again. The coordinator, the memory monitor and the parts
of the pool are tasks of their own.
-/

namespace PageAudit

/-- How far a run has come. -/
inductive RunStage where
  | idle
  /-- The first sweep. -/
  | sweeping (kills : Kills)
  /-- The pool works. -/
  | pooling (initial : SweepReport)
  /-- All browsers that are left are released. -/
  | releasing (initial : SweepReport) (results : List Result) (kills : Kills)
  /-- The last sweep. -/
  | clearing (initial : SweepReport) (results : List Result) (kills : Kills)
  /-- The state in which the run ends has to be decided. -/
  | deciding (initial final : SweepReport) (results : List Result)
  /-- The state is decided and has to be shown. -/
  | showing (initial final : SweepReport) (results : List Result) (state : RunState)
  /-- The report has to be written. -/
  | reporting (initial final : SweepReport) (results : List Result) (state : RunState)
  | ended (outcome : Except AppError RunReport)
  /-- The launcher broke down in a kill of the coordinator. -/
  | broken (message : String)

/-- A part of a run that goes on by itself. -/
inductive RunTask where
  | coordinator
  | monitor
  | part (t : PoolTask)
  deriving DecidableEq, Repr

/-- A run. -/
structure Run where
  config : Config
  plan : List Job
  session : PoolSession
  /-- What every reading of the memory gives. -/
  probe : Nat → Except ProbeError MemoryReading
  control : RunControl := {}
  stage : RunStage := .idle
  monitor : MemoryMonitor
  /-- The number of readings taken. -/
  readings : Nat := 0
  nextReading : Nat := 0
  /-- When the pool was started. -/
  beganAt : Nat := 0
  /-- The events before and after those of the pool. -/
  opening : List (Nat × ProgressEvent) := []
  closing : List (Nat × ProgressEvent) := []
  endedAt : Option Nat := none

/-- The final result of a job for which the pool gave none. -/
def missingReason : String := "缺少最终结果"

namespace Run

/-- A run of a plan; none if the configuration's bounds exclude each other. -/
def ofPlan? (config : Config) (plan : List Job) (site : Site) (draws : Nat → Nat → Nat)
    (probe : Nat → Except ProbeError MemoryReading) : Option Run :=
  (Pool.submit? config.pool config.retry config.gracePeriodMs draws {} site.clock plan).map fun pool =>
    { config, plan, probe, session := { site, pool }
      monitor := { history := .empty config.pool.memoryHighWatermarkBytes config.memory.historyLen } }

/-- The present time. -/
def clock (r : Run) : Nat := r.session.pool.clock

/-- The supervisor of the run's browsers. -/
def supervisor (r : Run) : Supervisor := r.session.site.supervisor

/-- Puts the supervisor back. -/
def withSupervisor (r : Run) (supervisor : Supervisor) : Run :=
  { r with session := { r.session with site := { r.session.site with supervisor } } }

/-- All events of the run. -/
def events (r : Run) : List (Nat × ProgressEvent) :=
  r.opening ++ r.session.pool.events ++ r.closing

/-- The account of the events. -/
def summary (r : Run) : RunSummary :=
  { RunSummary.ofEvents (r.events.map (·.2)) with totalDurationMs := r.session.endedAt.getD r.clock - r.beganAt }

/-- The account of the pool; of one that broke down, there is none. -/
def poolReport (r : Run) : PoolReport :=
  if r.session.pool.fault.isSome then {} else r.session.pool.report

/-- Ends the run. -/
def stop (r : Run) (outcome : Except AppError RunReport) : Run :=
  { r with stage := .ended outcome, endedAt := some r.clock }

/-- Breaks down. -/
def breakDown (r : Run) (message : String) : Run :=
  { r with stage := .broken message, endedAt := some r.clock }

/-- The result that the pool gave for a position, the first one if there are several. -/
def resultAt? (r : Run) (index : Nat) : Option Result :=
  (r.session.pool.results.find? fun (_, x) => x.planIndex == index).map (·.2)

/-- The results in plan order. -/
def collected (r : Run) : List Result :=
  r.plan.zipIdx.map fun (job, index) => (r.resultAt? index).getD (.cancelled job r.clock missingReason)

/-- The events for jobs without a result. -/
def missingEvents (r : Run) : List (Nat × ProgressEvent) :=
  r.plan.zipIdx.filterMap fun (job, index) =>
    if (r.resultAt? index).isSome then none else some (r.clock, .cancelled job.id job.attempt)

/-! ## The steps of the coordinator -/

/-- Writes the report. -/
def report (r : Run) (initial final : SweepReport) (results : List Result) (state : RunState) : Run :=
  r.stop (.ok {
    runId := r.supervisor.runId, state, results, summary := r.summary, pool := r.poolReport
    cancelReason := r.control.reason, initialSweep := initial, finalSweep := final })

/-- Shows the state in which the run ends. -/
def showFinal (r : Run) (initial final : SweepReport) (results : List Result) (state : RunState) : Run :=
  { r with control := r.control.finish state, stage := .reporting initial final results state }

/-- Decides the state in which the run ends. -/
def decideFinal (r : Run) (initial final : SweepReport) (results : List Result) : Run :=
  { r with stage := .showing initial final results r.control.finalState }

/-- Goes on with a row of kills. `stage` is the stage meanwhile, `next` what follows a row that is done. -/
def killOn (r : Run) (k : Kills) (stage : Kills → RunStage) (next : Kills → Run → Run) : Run :=
  let (supervisor, k) := k.poll r.supervisor
  let r := r.withSupervisor supervisor
  if k.isDone then
    match k.broken with
    | none => next k r
    | some message => r.breakDown message
  else { r with stage := stage k }

/-- Goes on with the last sweep. -/
def clearOn (r : Run) (initial : SweepReport) (results : List Result) (k : Kills) : Run :=
  r.killOn k (.clearing initial results) fun k r => { r with stage := .deciding initial k.sweepReport results }

/-- Begins the last sweep. -/
def beginClearing (r : Run) (initial : SweepReport) (results : List Result) : Run :=
  let (supervisor, k) := Kills.ofSweep r.supervisor
  (r.withSupervisor supervisor).clearOn initial results k

/-- Goes on releasing all browsers. -/
def releaseOn (r : Run) (initial : SweepReport) (results : List Result) (k : Kills) : Run :=
  r.killOn k (.releasing initial results) fun _ r => r.beginClearing initial results

/-- Collects the results once the pool has ended. -/
def collect (r : Run) (initial : SweepReport) : Run :=
  if r.session.endedAt.isNone then r
  else
    let results := r.collected
    let r := { r with closing := r.missingEvents }
    let (supervisor, k) := Kills.ofAll r.supervisor
    (r.withSupervisor supervisor).releaseOn initial results k

/-- Starts to watch the memory and to work through the plan. -/
def beginPooling (r : Run) (initial : SweepReport) : Run :=
  let (monitor, _) := MemoryMonitor.start r.config.pool.memoryHighWatermarkBytes r.config.memory.historyLen (r.probe 0)
  let pool := { r.session.pool with pressure := monitor.published }
  { r with
    monitor
    readings := 1
    nextReading := r.clock + r.config.memory.sampleIntervalMs
    beganAt := r.clock
    opening := r.plan.map fun job => (r.clock, .queued job.id job.url)
    session := { r.session with pool }
    stage := .pooling initial }

/-- Goes on with the first sweep. -/
def sweepOn (r : Run) (k : Kills) : Run :=
  r.killOn k .sweeping fun k r => r.beginPooling k.sweepReport

/-- Refuses the run. -/
def refuse (r : Run) (e : AppError) : Run :=
  { r with control := r.control.refuse }.stop (.error e)

/-- Checks the configuration and the plan and begins the first sweep. -/
def begin (r : Run) : Run :=
  match r.control.begin with
  | .error e => r.stop (.error (.run e))
  | .ok control =>
    let r := { r with control }
    match r.config.validate, validatePlan r.plan with
    | .error e, _ => r.refuse (.config e)
    | .ok (), .error e => r.refuse (.plan e)
    | .ok (), .ok () =>
      let (supervisor, k) := Kills.ofSweep r.supervisor
      (r.withSupervisor supervisor).sweepOn k

/-- One step of the coordinator. The last three are steps of their own, since a cancellation may come between
them. -/
def step (r : Run) : Run :=
  match r.stage with
  | .idle => r.begin
  | .sweeping k => r.sweepOn k
  | .pooling initial => r.collect initial
  | .releasing initial results k => r.releaseOn initial results k
  | .clearing initial results k => r.clearOn initial results k
  | .deciding initial final results => r.decideFinal initial final results
  | .showing initial final results state => r.showFinal initial final results state
  | .reporting initial final results state => r.report initial final results state
  | .ended _ | .broken _ => r

/-- Nothing keeps the coordinator from its next step. -/
def isClosing (r : Run) : Bool :=
  match r.stage with
  | .deciding .. | .showing .. | .reporting .. => true
  | _ => false

/-- Polls the coordinator: a step, and then those at the end of the run. -/
def pollCoordinator (r : Run) : Run :=
  let again (r : Run) : Run := if r.isClosing then r.step else r
  again (again (again r.step))

/-- Polls the memory monitor. -/
def pollMonitor (r : Run) : Run :=
  match r.stage with
  | .pooling _ =>
    if r.clock < r.nextReading then r
    else
      let reading := r.probe r.readings
      let (monitor, _) := r.monitor.sample reading
      let r := { r with
        monitor
        readings := r.readings + 1
        nextReading := r.nextReading + r.config.memory.sampleIntervalMs }
      match reading with
      | .ok _ => { r with session := { r.session with pool := r.session.pool.setPressure monitor.published } }
      | .error _ => r
  | _ => r

/-- Cancels the run. -/
def cancel (r : Run) (reason : String) : Run :=
  { r with
    control := r.control.cancel reason
    session := { r.session with pool := r.session.pool.cancel } }

/-- Lets time pass. -/
def elapse (now : Nat) (r : Run) : Run :=
  { r with session := r.session.elapse now }

/-- Polls a task. -/
def poll (t : RunTask) (r : Run) : Run :=
  match t with
  | .coordinator => r.pollCoordinator
  | .monitor => r.pollMonitor
  | .part t => { r with session := r.session.poll t }

/-- The pool works. -/
def isPooling (r : Run) : Bool :=
  match r.stage with
  | .pooling _ => true
  | _ => false

/-- The tasks that can go on because of a poll. -/
def woken (t : RunTask) (before after : Run) : List RunTask :=
  match t with
  | .coordinator => if after.isPooling && !before.isPooling then [.monitor, .part .turns] else []
  | .monitor => if after.session.pool.pressureFresh then [.part .turns] else []
  | .part t =>
    (PoolSession.woken t before.session after.session).map .part
      ++ (if after.session.endedAt.isSome && before.session.endedAt.isNone then [.coordinator] else [])

/-- When a task can go on at the latest. -/
def due? (t : RunTask) (r : Run) : Option Nat :=
  match t with
  | .coordinator =>
    match r.stage with
    | .sweeping k | .releasing _ _ k | .clearing _ _ k => k.due?
    | _ => none
  | .monitor => if r.isPooling then some r.nextReading else none
  | .part t => r.session.due? t

/-- The run has ended. -/
def isOver (r : Run) : Bool := r.endedAt.isSome

end Run

end PageAudit
