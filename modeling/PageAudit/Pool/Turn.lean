import PageAudit.Pool.Settle

/-!
# The turns of a pool

A pool goes on in turns. A turn takes one thing that has happened, the most urgent one first: a cancellation, the
end of the grace period, the end of the time to settle, news of the memory, a report, a delay that is over. Then
jobs whose delay is over become ready, ready jobs are started in plan order while attempts are allowed, and the
state is shown.
-/

namespace PageAudit

/-- How long attempts may take to end after they were told to. -/
def reapTimeout : Nat := 5000

namespace Pool

/-- The run was cancelled: nothing is started any more, and the jobs that wait are called off. -/
def beginDrain (p : Pool) : Pool :=
  let waiting := sortByPlan (p.ready ++ p.delayed.map (·.job))
  (cancelJobs "运行已取消" waiting { p with draining := true, ready := [], delayed := [] }).andThen fun p =>
    if p.inFlight.isEmpty then p else { p with graceDeadline := some (p.clock + p.gracePeriod) }

/-- The grace period is over: all attempts have to end, and all browsers are released. -/
def forceRelease (p : Pool) : Pool :=
  { p with graceDeadline := none, hardStopped := true, phase := .forcing }

/-- Attempts that have not ended are abandoned. -/
def abandon (p : Pool) : Pool :=
  if p.inFlight.isEmpty then { p with reapDeadline := none }
  else
    let jobs := sortByPlan (p.running.map (·.job) ++ p.preempted)
    cancelJobs "执行被强制中止" jobs
      { p with
        reapDeadline := none
        inFlight := []
        reports := []
        slots := p.slots.map fun _ => none
        occupied := 0
        running := []
        preempted := [] }

/-- Jobs whose delay is over become ready. -/
def promoteDue (p : Pool) : Pool :=
  let due := p.delayed.filter (·.due ≤ p.clock)
  { p with
    delayed := p.delayed.filter (p.clock < ·.due)
    ready := due.foldl (fun ready d => insertByPlan d.job ready) p.ready }

/-- Starts an attempt of a job in a free slot. -/
def launch (p : Pool) (job : Job) (slotId : Nat) : Pool :=
  match job.begin p.clock with
  | .error e => p.fail (.job e)
  | .ok job =>
    let seq := p.nextSeq + 1
    let occupied := p.occupied + 1
    if p.allowed < occupied then p.fail .overcommitted
    else
      let p : Pool := { p with
        slots := p.slots.set slotId (some job.id)
        occupied
        nextSeq := seq
        running := p.running ++ [⟨job, slotId, seq⟩]
        inFlight := p.inFlight ++ [⟨seq, job.planIndex⟩]
        roster := p.roster ++ [seq]
        started := p.started ++ [⟨job.id, job.url, job.planIndex, job.attempt, slotId⟩]
        report := { p.report with
          dispatchedAttempts := p.report.dispatchedAttempts + 1
          peakOccupied := max p.report.peakOccupied occupied } }
      p.notify (.started job.id job.attempt slotId)

/-- Starts the first of the ready jobs while attempts are allowed and a slot is free. -/
def dispatch : List Job → Pool → Pool
  | [], p => { p with ready := [] }
  | job :: rest, p =>
    match p.slots.findIdx? Option.isNone with
    | some slotId =>
      if p.occupied < p.allowed then ({ p with ready := rest }.launch job slotId).andThen (dispatch rest)
      else { p with ready := job :: rest }
    | none => { p with ready := job :: rest }

/-- Ends the pool. -/
def close (p : Pool) : Pool :=
  { p with report := { p.report with finalConcurrency := p.allowed }, phase := .ended }.publish

/-- Ends the pool with jobs left, which are called off. -/
def leave (p : Pool) : Pool :=
  let jobs := p.ready ++ p.delayed.map (·.job) ++ p.running.map (·.job) ++ p.preempted
  (cancelJobs "运行提前结束" (sortByPlan jobs)
    { p with ready := [], delayed := [], running := [], preempted := [] }).andThen close

/-- Makes the pool ready to wait: drains, promotes, starts and shows, and ends if nothing is left. -/
def prepare (p : Pool) : Pool :=
  let drained := if !p.draining && p.cancelled then p.beginDrain else p
  drained.andThen fun p =>
    let p := p.promoteDue
    let filled := if p.draining then p else dispatch p.ready p
    filled.andThen fun p =>
      let p := p.publish
      if p.isFinished then p.close else p

/-- Something can still happen that the pool waits for. -/
def isArmed (p : Pool) : Bool :=
  !p.draining || p.graceDeadline.isSome || p.reapDeadline.isSome || p.pressureOpen || !p.inFlight.isEmpty
    || !p.delayed.isEmpty

/-- Takes the most urgent thing that has happened; none if there is nothing. -/
def handle? (p : Pool) : Option Pool :=
  if !p.draining && p.cancelled then some p.beginDrain
  else if p.graceDeadline.any (· ≤ p.clock) then some p.forceRelease
  else if p.reapDeadline.any (· ≤ p.clock) then some p.abandon
  else if p.pressureOpen && p.pressureFresh then some p.adaptToMemory
  else if p.pressureOpen && p.pressureClosed then some { p with pressureOpen := false }
  else
    match p.reports with
    | r :: rest =>
      some ({ p with reports := rest, inFlight := p.inFlight.filter (·.seq != r.flight.seq) }.onReport r)
    | [] =>
      if p.delayed.any (·.due ≤ p.clock) then some p
      else if p.isArmed then none
      else some p.leave

/-- One turn; none if the pool waits. -/
def turn? (p : Pool) : Option Pool :=
  if p.phase == .waiting then p.handle?.map fun p => if p.phase == .waiting then p.prepare else p
  else none

/-- Turns until the pool waits, at most a given number. -/
def turns : Nat → Pool → Pool
  | 0, p => p
  | n + 1, p =>
    match p.turn? with
    | some p => turns n p
    | none => p

/-- The number of turns after which a pool waits: one for each report, and one for each other thing that can
have happened. -/
def turnBound (p : Pool) : Nat :=
  p.reports.length + 8

/-- The beginning: the pool shrinks as the memory asks for, and the first jobs are started. -/
def start (p : Pool) : Pool :=
  let (concurrency, changes) := p.concurrency.settleOnMemory p.pressure (p.allowed + 1)
  (changes.foldl applyChange { p with concurrency, pressureFresh := false, phase := .waiting }).prepare

/-- Goes on until the pool waits. -/
def poll (p : Pool) : Pool :=
  match p.phase with
  | .fresh => turns p.turnBound p.start
  | .waiting => turns p.turnBound p
  | .forcing | .ended => p

/-! ## What comes from outside -/

/-- Lets time pass. -/
def elapse (p : Pool) (now : Nat) : Pool :=
  { p with clock := now }

/-- The run is cancelled. -/
def cancel (p : Pool) : Pool :=
  { p with cancelled := true }

/-- There is news of the memory. -/
def setPressure (p : Pool) (m : MemoryPressure) : Pool :=
  { p with pressure := m, pressureFresh := true }

/-- No news of the memory comes any more. -/
def closePressure (p : Pool) : Pool :=
  { p with pressureClosed := true }

/-- An attempt reports its end, once. -/
def receive (p : Pool) (seq : Nat) (outcome : AttemptOutcome) : Pool :=
  match p.inFlight.find? (·.seq == seq) with
  | some flight =>
    if p.reports.any (·.flight.seq == seq) then p
    else
      let p := if p.running.any (·.seq == seq) then p else p.strike seq
      { p with reports := p.reports ++ [⟨flight, outcome⟩] }
  | none => p

/-- All browsers were released by force. -/
def released (p : Pool) (count : Nat) : Pool :=
  if p.phase == .forcing then
    { p with
      report := { p.report with forcedReleases := p.report.forcedReleases + count }
      reapDeadline := some (p.clock + reapTimeout)
      phase := .waiting }.prepare
  else p

/-- The launcher broke down while all browsers were released. -/
def launcherBroke (p : Pool) (message : String) : Pool :=
  if p.phase == .forcing then p.fail (.launcher message) else p

end Pool

/-- What can happen to a pool. -/
inductive PoolInput where
  | elapse (now : Nat)
  | cancel
  | pressure (m : MemoryPressure)
  | pressureClosed
  | report (seq : Nat) (outcome : AttemptOutcome)
  | released (count : Nat)
  | launcherBroke (message : String)
  /-- The pool begins, or takes one turn. -/
  | turn

/-- What follows an input. Time does not go back. -/
def Pool.step (p : Pool) : PoolInput → Pool
  | .elapse now => p.elapse (max p.clock now)
  | .cancel => p.cancel
  | .pressure m => p.setPressure m
  | .pressureClosed => p.closePressure
  | .report seq outcome => p.receive seq outcome
  | .released count => p.released count
  | .launcherBroke message => p.launcherBroke message
  | .turn => if p.phase == .fresh then p.start else p.turn?.getD p

/-- What follows inputs in order. -/
def Pool.after (p : Pool) (inputs : List PoolInput) : Pool :=
  inputs.foldl Pool.step p

end PageAudit
