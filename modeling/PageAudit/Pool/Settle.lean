import PageAudit.Pool.State

/-!
# What follows the end of an attempt

The outcome of an attempt ends its job or lets it wait for the next one, and then the number of attempts allowed
is adapted. When it falls below the number of running attempts, the latest ones lose their slots. An attempt that
ends for that reason alone is not counted.
-/

namespace PageAudit

/-- The event for a final result. -/
def Result.event (r : Result) (reason : FinalizeReason) : ProgressEvent :=
  match r.state, r.outcome with
  | .succeeded, _ => .succeeded r.jobId r.attemptsUsed r.durationMs
  | .failedPermanent, .failure kind message => .failedPermanent r.jobId r.attemptsUsed kind reason message
  | _, _ => .cancelled r.jobId r.attemptsUsed

/-- Counts a final event. -/
def PoolReport.countFinal (r : PoolReport) : ProgressEvent → PoolReport
  | .succeeded .. => { r with succeeded := r.succeeded + 1 }
  | .failedPermanent .. => { r with failed := r.failed + 1 }
  | _ => { r with cancelled := r.cancelled + 1 }

/-- Notes a number of attempts allowed. -/
def PoolReport.observe (r : PoolReport) (allowed : Nat) : PoolReport :=
  { r with
    minObservedConcurrency := min r.minObservedConcurrency allowed
    maxObservedConcurrency := max r.maxObservedConcurrency allowed }

namespace Pool

/-- Sends a final result with its event. -/
def emit (p : Pool) (r : Result) (reason : FinalizeReason) : Pool :=
  let e := r.event reason
  let p := { p with report := p.report.countFinal e }
  let p := p.notify e
  { p with results := p.results ++ [(p.clock, r)] }

/-- Ends a job. -/
def conclude (p : Pool) (job : Job) (target : JobState) (result : Job → Result) (reason : FinalizeReason) : Pool :=
  match job.finish target with
  | .ok job => p.emit (result job) reason
  | .error e => p.fail (.job e)

/-- Calls a job off. -/
def cancelJob (p : Pool) (reason : String) (job : Job) : Pool :=
  p.conclude job .cancelled (fun j => .cancelled j p.clock reason) .fatal

/-- Calls jobs off, one after the other. -/
def cancelJobs (reason : String) : List Job → Pool → Pool
  | [], p => p
  | job :: rest, p => (p.cancelJob reason job).andThen (cancelJobs reason rest)

/-- Takes the slot from the attempt that was started last. -/
def preemptNewest (p : Pool) : Pool :=
  match p.running.getLast? with
  | none => p
  | some entry =>
    let p := if p.reports.any (·.flight.seq == entry.seq) then p.strike entry.seq else p
    { p with
      running := p.running.dropLast
      stopped := p.stopped ++ [entry.seq]
      slots := p.slots.set entry.slotId none
      occupied := p.occupied - 1
      preempted := p.preempted ++ [entry.job] }

/-- Takes slots away until no more attempts run than are allowed. -/
def preemptExcess : Nat → Pool → Pool
  | 0, p => p
  | n + 1, p => if p.allowed < p.occupied then preemptExcess n p.preemptNewest else p

/-- Tells of a change in the number of attempts allowed. -/
def noteChange (p : Pool) (before after : Nat) (reason : String) : Pool :=
  { p with report := p.report.observe after }.notify (.concurrencyChanged before after reason)

/-- Follows a change in the number of attempts allowed. -/
def applyChange (p : Pool) : ConcurrencyChange → Pool
  | .unchanged => p
  | .shrunk before after reason =>
    let p := { p with report := { p.report with shrinkEvents := p.report.shrinkEvents + 1 } }
    (preemptExcess (p.occupied - after) p).noteChange before after reason.name
  | .grew before after =>
    { p with report := { p.report with growEvents := p.report.growEvents + 1 } }.noteChange before after
      "window_healthy"

/-- Adapts the number of attempts allowed. -/
def adapt (resourceExhausted : Bool) (p : Pool) : Pool :=
  match p.concurrency.recompute? p.pressure resourceExhausted with
  | none => p.fail .additionOverflow
  | some (concurrency, change) => { p with concurrency }.applyChange change

/-- Adapts the number of attempts allowed to the memory alone. -/
def adaptToMemory (p : Pool) : Pool :=
  let (concurrency, change) := p.concurrency.onMemory p.pressure
  { p with pressureFresh := false, concurrency }.applyChange change

/-- Counts how an attempt ended. -/
def record (p : Pool) (v : Verdict) : Pool :=
  { p with concurrency := p.concurrency.record v }

/-- Lets a job wait for its next attempt. -/
def delay (p : Pool) (job : Job) (delayMs : Nat) (classification : Classification) (e : AttemptError) : Pool :=
  match job.awaitRetry with
  | .error fault => p.fail (.job fault)
  | .ok job =>
    let p := { p with report := { p.report with retries := p.report.retries + 1 } }
    let p := p.notify (.retried job.id job.attempt (delayWord delayMs) classification e.message)
    { p with delayed := p.delayed ++ [⟨p.clock + delayMs, job⟩] }

/-- Decides about a job whose attempt failed. -/
def settleFailure (p : Pool) (job : Job) (e : AttemptError) : Pool :=
  match p.retry.decide job.attempt (p.draws job.planIndex job.attempt) e with
  | .requeue delayMs classification =>
    if p.draining then p.cancelJob "运行已取消，放弃重试" job else p.delay job delayMs classification e
  | .finalize reason => p.conclude job .failedPermanent (fun j => .failed j p.clock e.kind e.message) reason

/-- Follows the outcome of a counted attempt. Exhausted resources make the pool shrink and are no failure in the
window. -/
def settle (p : Pool) (job : Job) : AttemptOutcome → Pool
  | .completed metrics =>
    ((p.record .success).conclude job .succeeded (fun j => .succeeded j p.clock metrics) .fatal).andThen (adapt false)
  | .interrupted => (p.cancelJob "执行被取消" job).andThen (adapt false)
  | .failed e =>
    if e.kind == .resource then (p.settleFailure job e).andThen (adapt true)
    else ((p.record .failure).settleFailure job e).andThen (adapt false)

/-- Follows the outcome of an attempt that lost its slot. If it ended before it noticed, it counts. -/
def settlePreempted (p : Pool) (job : Job) : AttemptOutcome → Pool
  | .interrupted =>
    if p.draining then p.cancelJob "执行被取消" job
    else
      match job.yield with
      | .ok job => { p with ready := insertByPlan job p.ready }
      | .error e => p.fail (.job e)
  | outcome => p.settle job outcome

/-- Takes a report. -/
def onReport (p : Pool) (r : SlotReport) : Pool :=
  let index := r.flight.planIndex
  match p.preempted.find? (·.planIndex == index), p.running.find? (·.job.planIndex == index) with
  | some job, _ =>
    { p with preempted := p.preempted.filter (·.planIndex != index) }.settlePreempted job r.outcome
  | none, some entry =>
    ({ p with
      running := p.running.filter (·.job.planIndex != index)
      slots := p.slots.set entry.slotId none
      occupied := p.occupied - 1 }.settle entry.job r.outcome).strike entry.seq
  | none, none => p

end Pool

end PageAudit
