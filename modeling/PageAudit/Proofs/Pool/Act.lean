import PageAudit.Pool.Turn
import PageAudit.Proofs.Job.Steps
import PageAudit.Proofs.Pool.PlanOrder
import Mathlib.Logic.Relation

/-!
# The acts of a pool

Everything a pool does to its jobs, slots and counts is one of a few acts. Each of them is stated with what the
pool knew when it did it and with the whole state after it, so that a fact about all runs is shown act by act.
-/

namespace PageAudit

/-! ## Jobs -/

/-- What of a job never changes. -/
structure JobPlace where
  index : Nat
  id : String
  url : String
  deriving DecidableEq

/-- The place of a job in its plan. -/
def Job.place (j : Job) : JobPlace := ⟨j.planIndex, j.id, j.url⟩

/-- The place in the plan that a result is for. -/
def Result.place (r : Result) : JobPlace := ⟨r.planIndex, r.jobId, r.url⟩

namespace Pool

/-! ## What the acts leave behind -/

/-- The window after the outcome of a counted attempt. -/
def recordOutcome (p : Pool) : AttemptOutcome → Pool
  | .completed _ => p.record .success
  | .interrupted => p
  | .failed e => if e.kind == .resource then p else p.record .failure

/-- The pool after jobs in hand were called off. -/
def calledOff (p : Pool) (reason : String) (jobs : List Job) : Pool :=
  { p with
    report := { p.report with cancelled := p.report.cancelled + jobs.length }
    events := p.events ++ jobs.map fun j => (p.clock, .cancelled j.id j.attempt)
    results := p.results ++ jobs.map fun j => (p.clock, .cancelled (j.enter .cancelled) p.clock reason) }

/-- The pool after a job in hand was told to wait for its next attempt. -/
def postponed (p : Pool) (job : Job) (delayMs : Nat) (classification : Classification) (e : AttemptError) : Pool :=
  { p with
    report := { p.report with retries := p.report.retries + 1 }
    events := p.events ++ [(p.clock, .retried job.id job.attempt (delayWord delayMs) classification e.message)]
    delayed := p.delayed ++ [⟨p.clock + delayMs, job.enter .awaitingRetry⟩] }

/-- The pool after an attempt of the first ready job was started. -/
def launched (p : Pool) (job : Job) (rest : List Job) (slotId : Nat) : Pool :=
  { p with
    ready := rest
    slots := p.slots.set slotId (some job.id)
    occupied := p.occupied + 1
    nextSeq := p.nextSeq + 1
    running := p.running ++ [⟨job.begun p.clock, slotId, p.nextSeq + 1⟩]
    inFlight := p.inFlight ++ [⟨p.nextSeq + 1, job.planIndex⟩]
    roster := p.roster ++ [p.nextSeq + 1]
    started := p.started ++ [⟨job.id, job.url, job.planIndex, job.attempt + 1, slotId⟩]
    report := { p.report with
      dispatchedAttempts := p.report.dispatchedAttempts + 1
      peakOccupied := max p.report.peakOccupied (p.occupied + 1) }
    events := p.events ++ [(p.clock, .started job.id (job.attempt + 1) slotId)] }

/-- The running attempts that have to go when only `target` may stay, the latest first. -/
def victims (p : Pool) (target : Nat) : List RunningJob := (p.running.drop target).reverse

/-- The pool after the number of attempts allowed was lowered. -/
def shrunk (p : Pool) (target : Nat) (reason : ShrinkReason) (roster : List Nat) : Pool :=
  { p with
    concurrency := { p.concurrency with allowed := target }
    running := p.running.take target
    stopped := p.stopped ++ (p.victims target).map (·.seq)
    slots := (p.victims target).foldl (fun slots e => slots.set e.slotId none) p.slots
    occupied := min p.occupied target
    preempted := p.preempted ++ (p.victims target).map (·.job)
    roster
    report := ({ p.report with shrinkEvents := p.report.shrinkEvents + 1 }).observe target
    events := p.events ++ [(p.clock, .concurrencyChanged p.allowed target reason.name)] }

/-- The pool after the number of attempts allowed was raised. -/
def grown (p : Pool) (target : Nat) : Pool :=
  { p with
    concurrency := { p.concurrency with allowed := target, window := p.concurrency.window.clear }
    report := ({ p.report with growEvents := p.report.growEvents + 1 }).observe target
    events := p.events ++ [(p.clock, .concurrencyChanged p.allowed target "window_healthy")] }

/-- The pool after it began to drain. -/
def drained (p : Pool) : Pool :=
  calledOff
    { p with
      draining := true
      ready := []
      delayed := []
      graceDeadline := if p.inFlight.isEmpty then p.graceDeadline else some (p.clock + p.gracePeriod) }
    "运行已取消" (sortByPlan (p.ready ++ p.delayed.map (·.job)))

/-- The pool after it gave up the attempts that had not ended. -/
def abandoned (p : Pool) : Pool :=
  calledOff
    { p with
      reapDeadline := none
      inFlight := []
      reports := []
      slots := p.slots.map fun _ => none
      occupied := 0
      running := []
      preempted := [] }
    "执行被强制中止" (sortByPlan (p.running.map (·.job) ++ p.preempted))

/-- The pool after the browsers were released by force. -/
def resumed (p : Pool) (count : Nat) : Pool :=
  { p with
    report := { p.report with forcedReleases := p.report.forcedReleases + count }
    reapDeadline := some (p.clock + reapTimeout)
    phase := .waiting }

/-- The pool without the report `r` and without the running attempt it came from. -/
def withoutRunning (p : Pool) (r : SlotReport) (rest : List SlotReport) (e : RunningJob) : Pool :=
  { p with
    reports := rest
    inFlight := p.inFlight.filter (·.seq != r.flight.seq)
    running := p.running.filter (·.job.planIndex != r.flight.planIndex)
    slots := p.slots.set e.slotId none
    occupied := p.occupied - 1 }

/-- The pool without the report `r` and without the preempted job whose attempt it came from. -/
def withoutPreempted (p : Pool) (r : SlotReport) (rest : List SlotReport) : Pool :=
  { p with
    reports := rest
    inFlight := p.inFlight.filter (·.seq != r.flight.seq)
    preempted := p.preempted.filter (·.planIndex != r.flight.planIndex) }

/-- A report is taken and its job is in hand; `held` tells whether the attempt still held its slot. -/
inductive Taken (p : Pool) (r : SlotReport) : Bool → Job → Pool → Prop where
  | running {e : RunningJob} {rest : List SlotReport} (first : p.reports = r :: rest) (mem : e ∈ p.running)
      (place : e.job.planIndex = r.flight.planIndex) : Taken p r true e.job (p.withoutRunning r rest e)
  | preempted {job : Job} {rest : List SlotReport} (first : p.reports = r :: rest) (mem : job ∈ p.preempted)
      (place : job.planIndex = r.flight.planIndex) : Taken p r false job (p.withoutPreempted r rest)

theorem Taken.mem {p q : Pool} {r : SlotReport} {held : Bool} {job : Job} (ht : p.Taken r held job q) :
    r ∈ p.reports := by
  cases ht with
  | running first => exact first ▸ List.mem_cons_self
  | preempted first => exact first ▸ List.mem_cons_self

/-! ## The acts -/

/-- One thing that a pool does. -/
inductive Act : Pool → Pool → Prop where
  /-- The roster changes, or what is known of the news of the memory. -/
  | note {p : Pool} (pressureFresh pressureOpen : Bool) (roster : List Nat) :
      Act p { p with pressureFresh, pressureOpen, roster }
  | begin {p : Pool} (fresh : p.phase = .fresh) : Act p { p with phase := .waiting }
  | succeed {p q : Pool} {r : SlotReport} {held : Bool} {job : Job} {metrics : Metrics} (busy : p.phase = .waiting)
      (taken : p.Taken r held job q) (outcome : r.outcome = .completed metrics) :
      Act p ((q.recordOutcome r.outcome).emit (.succeeded (job.enter .succeeded) p.clock metrics) .fatal)
  | giveUp {p q : Pool} {r : SlotReport} {held : Bool} {job : Job} {e : AttemptError} {reason : FinalizeReason}
      (busy : p.phase = .waiting) (taken : p.Taken r held job q) (outcome : r.outcome = .failed e)
      (final : p.retry.decide job.attempt (p.draws job.planIndex job.attempt) e = .finalize reason) :
      Act p ((q.recordOutcome r.outcome).emit
        (.failed (job.enter .failedPermanent) p.clock e.kind e.message) reason)
  | postpone {p q : Pool} {r : SlotReport} {held : Bool} {job : Job} {e : AttemptError} {delayMs : Nat}
      {classification : Classification} (busy : p.phase = .waiting) (taken : p.Taken r held job q)
      (outcome : r.outcome = .failed e) (going : p.draining = false)
      (again : p.retry.decide job.attempt (p.draws job.planIndex job.attempt) e = .requeue delayMs classification) :
      Act p ((q.recordOutcome r.outcome).postponed job delayMs classification e)
  /-- An attempt was stopped, or failed while the pool drains. -/
  | callOff {p q : Pool} {r : SlotReport} {held : Bool} {job : Job} (reason : String) (busy : p.phase = .waiting)
      (taken : p.Taken r held job q)
      (why : (r.outcome = .interrupted ∧ (held = true ∨ p.draining = true)) ∨
        (p.draining = true ∧ ∃ e delayMs classification, r.outcome = .failed e ∧
          p.retry.decide job.attempt (p.draws job.planIndex job.attempt) e = .requeue delayMs classification)) :
      Act p ((q.recordOutcome r.outcome).calledOff reason [job])
  | requeue {p q : Pool} {r : SlotReport} {job : Job} (busy : p.phase = .waiting)
      (taken : p.Taken r false job q) (outcome : r.outcome = .interrupted) (going : p.draining = false) :
      Act p { q with ready := insertByPlan job.yielded q.ready }
  | shrink {p : Pool} {target : Nat} {reason : ShrinkReason} (roster : List Nat) (busy : p.phase = .waiting)
      (least : p.concurrency.policy.minConcurrency ≤ target) (less : target < p.allowed) :
      Act p (p.shrunk target reason roster)
  | grow {p : Pool} {target : Nat} (busy : p.phase = .waiting) (full : p.concurrency.window.isFull = true)
      (healthy : p.concurrency.window.allSuccesses = true)
      (sum : target = min (p.allowed + p.concurrency.policy.growStep) p.concurrency.policy.maxConcurrency)
      (more : target ≠ p.allowed) : Act p (p.grown target)
  | breakDown {p : Pool} (busy : p.phase = .waiting) (full : p.concurrency.window.isFull = true)
      (healthy : p.concurrency.window.allSuccesses = true)
      (beyond : Decimal.wordMax 64 < p.allowed + p.concurrency.policy.growStep) : Act p (p.fail .additionOverflow)
  | drain {p : Pool} (busy : p.phase = .waiting) (going : p.draining = false) (told : p.cancelled = true) :
      Act p p.drained
  | force {p : Pool} (busy : p.phase = .waiting) (passed : p.graceDeadline.any (· ≤ p.clock) = true) :
      Act p p.forceRelease
  | resume {p : Pool} (count : Nat) (forcing : p.phase = .forcing) : Act p (p.resumed count)
  /-- The launcher breaks down while all browsers are released. -/
  | collapse {p : Pool} (message : String) (forcing : p.phase = .forcing) : Act p (p.fail (.launcher message))
  /-- All attempts have ended in time. -/
  | reap {p : Pool} (busy : p.phase = .waiting) (passed : p.reapDeadline.any (· ≤ p.clock) = true)
      (landed : p.inFlight = []) : Act p { p with reapDeadline := none }
  | abandon {p : Pool} (busy : p.phase = .waiting) (passed : p.reapDeadline.any (· ≤ p.clock) = true)
      (flying : p.inFlight ≠ []) : Act p p.abandoned
  | promote {p : Pool} (busy : p.phase = .waiting) : Act p p.promoteDue
  | launch {p : Pool} {job : Job} {rest : List Job} {slotId : Nat} (busy : p.phase = .waiting)
      (going : p.draining = false) (first : p.ready = job :: rest)
      (free : p.slots.findIdx? Option.isNone = some slotId) (room : p.occupied < p.allowed) :
      Act p (p.launched job rest slotId)
  | publish {p : Pool} (busy : p.phase = .waiting) : Act p p.publish
  | close {p : Pool} (busy : p.phase = .waiting) (finished : p.isFinished = true) : Act p p.close

/-- What a pool does in a row. -/
abbrev Acts : Pool → Pool → Prop := Relation.ReflTransGen Act

/-- What comes to a pool from outside, reports apart. -/
inductive News : Pool → Pool → Prop where
  | elapse {p : Pool} (now : Nat) : News p (p.elapse now)
  | cancel {p : Pool} : News p p.cancel
  | pressure {p : Pool} (m : MemoryPressure) : News p (p.setPressure m)
  /-- The first reading, which the pool looks at in any case. -/
  | firstPressure {p : Pool} (m : MemoryPressure) : News p { p with pressure := m }
  | closed {p : Pool} : News p p.closePressure

end Pool

end PageAudit
