import PageAudit.Attempt.Flow
import PageAudit.Concurrency.Basic
import PageAudit.Pool.Report
import PageAudit.Progress.Event
import PageAudit.Retry

/-!
# The state of a pool

A pool runs the attempts of jobs in slots. Every job stands in one place: it is ready, delayed, running,
preempted or finished. What the pool has told the outside is kept in full: the attempts it started, the stops it
gave, the events and the results.
-/

namespace PageAudit

/-- A job whose attempt runs in a slot. -/
structure RunningJob where
  job : Job
  slotId : Nat
  /-- The number of the attempt among all of the pool, from 1 on. -/
  seq : Nat
  deriving DecidableEq, Repr

/-- A job that waits for its next attempt. -/
structure DelayedJob where
  due : Nat
  job : Job
  deriving DecidableEq, Repr

/-- An attempt whose report has not been taken. -/
structure Flight where
  seq : Nat
  planIndex : Nat
  deriving DecidableEq, Repr

/-- What an attempt reports at its end. -/
structure SlotReport where
  flight : Flight
  outcome : AttemptOutcome

/-- Where a pool stands. -/
inductive PoolPhase where
  | fresh
  /-- It waits for something to happen. -/
  | waiting
  /-- It releases all browsers by force. -/
  | forcing
  | ended
  deriving DecidableEq, Repr

/-- Why a pool breaks down. -/
inductive PoolFault where
  | job (e : JobFault)
  /-- The number of attempts allowed leaves the 64-bit words. -/
  | additionOverflow
  /-- More attempts run than are allowed. -/
  | overcommitted
  /-- The launcher broke down while all browsers were released. -/
  | launcher (message : String)
  deriving DecidableEq, Repr

/-- A pool. Times are in milliseconds. -/
structure Pool where
  retry : RetryPolicy
  /-- How long attempts may go on after a cancellation. -/
  gracePeriod : Nat
  /-- Random numbers for delays, by the job's position in the plan and the attempt. -/
  draws : Nat → Nat → Nat
  concurrency : Concurrency
  clock : Nat
  phase : PoolPhase := .fresh
  fault : Option PoolFault := none
  /-- The job in each slot. -/
  slots : List (Option String)
  occupied : Nat := 0
  /-- The jobs to be started, in plan order. -/
  ready : List Job
  delayed : List DelayedJob := []
  /-- The running jobs in the order in which they were started. -/
  running : List RunningJob := []
  /-- Jobs that lost their slot and whose attempt has not reported yet. -/
  preempted : List Job := []
  nextSeq : Nat := 0
  inFlight : List Flight := []
  /-- Reports in the order of the ends of the attempts. -/
  reports : List SlotReport := []
  pressure : MemoryPressure
  /-- The pressure has not been looked at. -/
  pressureFresh : Bool := false
  /-- No pressure comes any more. -/
  pressureClosed : Bool := false
  /-- The pool still waits for pressure. -/
  pressureOpen : Bool := true
  /-- The run was cancelled. -/
  cancelled : Bool := false
  draining : Bool := false
  graceDeadline : Option Nat := none
  reapDeadline : Option Nat := none
  /-- All attempts have to end. -/
  hardStopped : Bool := false
  /-- The attempts that were told to end one by one. -/
  stopped : List Nat := []
  /-- The attempts that have to be told when all have to end; they are told from the last one on. -/
  roster : List Nat := []
  /-- All attempts that were started, in order. -/
  started : List AttemptContext := []
  report : PoolReport
  snapshot : PoolSnapshot := {}
  events : List (Nat × ProgressEvent) := []
  results : List (Nat × Result) := []

/-- Puts a job at its place in plan order, in place of one of the same position. -/
def insertByPlan (j : Job) : List Job → List Job
  | [] => [j]
  | k :: rest =>
    if j.planIndex < k.planIndex then j :: k :: rest
    else if j.planIndex == k.planIndex then j :: rest
    else k :: insertByPlan j rest

/-- Jobs in plan order. -/
def sortByPlan (jobs : List Job) : List Job :=
  jobs.mergeSort fun a b => a.planIndex ≤ b.planIndex

/-- Takes an entry out of a list; the last entry takes its place. -/
def removeBySwap (xs : List Nat) (x : Nat) : List Nat :=
  match xs.getLast? with
  | none => []
  | some last => if xs.contains x then (xs.map fun y => if y == x then last else y).dropLast else xs

namespace Pool

/-- A pool for jobs; none if its bounds exclude each other. -/
def submit? (policy : PoolPolicy) (retry : RetryPolicy) (gracePeriod : Nat) (draws : Nat → Nat → Nat)
    (pressure : MemoryPressure) (clock : Nat) (jobs : List Job) : Option Pool :=
  (Concurrency.start? policy).map fun concurrency =>
    { retry, gracePeriod, draws, concurrency, clock, pressure
      slots := List.replicate policy.maxConcurrency none
      ready := jobs.foldl (fun ready j => insertByPlan j ready) []
      report := { minObservedConcurrency := concurrency.allowed, maxObservedConcurrency := concurrency.allowed } }

/-- The number of attempts that may run. -/
def allowed (p : Pool) : Nat := p.concurrency.allowed

/-- An attempt belongs to the pool and has not been taken. -/
def isInFlight (p : Pool) (seq : Nat) : Bool :=
  p.fault.isNone && p.inFlight.any (·.seq == seq)

/-- What an attempt is told. -/
def signals (p : Pool) (seq : Nat) : AttemptSignals :=
  { stop := p.hardStopped || p.stopped.contains seq, cancelled := p.cancelled }

/-- Nothing is left to be done. -/
def isFinished (p : Pool) : Bool :=
  p.ready.isEmpty && p.delayed.isEmpty && p.running.isEmpty && p.preempted.isEmpty && p.inFlight.isEmpty

/-- Breaks down. -/
def fail (p : Pool) (fault : PoolFault) : Pool :=
  { p with fault := some fault, phase := .ended }

/-- Goes on unless the pool has broken down. -/
def andThen (p : Pool) (next : Pool → Pool) : Pool :=
  if p.fault.isSome then p else next p

/-- An attempt is struck off the roster once it has ended and its job holds no slot for it any more. -/
def strike (p : Pool) (seq : Nat) : Pool :=
  { p with roster := removeBySwap p.roster seq }

/-- Sends an event. -/
def notify (p : Pool) (e : ProgressEvent) : Pool :=
  { p with events := p.events ++ [(p.clock, e)] }

/-- What the pool shows at present. -/
def currentSnapshot (p : Pool) : PoolSnapshot :=
  { allowedConcurrency := p.allowed
    minConcurrency := p.concurrency.policy.minConcurrency
    maxConcurrency := p.concurrency.policy.maxConcurrency
    occupied := p.occupied
    queued := p.ready.length
    awaitingRetry := p.delayed.length
    running := (sortByPlan (p.running.map (·.job))).map (·.id)
    succeeded := p.report.succeeded
    failed := p.report.failed
    cancelled := p.report.cancelled
    failureRate := p.concurrency.window.failureRate
    memoryUsedBytes := p.pressure.used
    memoryLevel := p.pressure.level
    draining := p.draining }

/-- Shows the present state. -/
def publish (p : Pool) : Pool :=
  { p with snapshot := p.currentSnapshot }

/-- When the pool has to be polled again. -/
def due? (p : Pool) : Option Nat :=
  if p.phase == .waiting then
    (p.graceDeadline.toList ++ p.reapDeadline.toList ++ p.delayed.map (·.due)).min?
  else none

end Pool

end PageAudit
