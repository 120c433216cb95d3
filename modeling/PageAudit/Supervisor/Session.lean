import PageAudit.Supervisor.Kills

/-!
# Using a supervisor

The operations of a supervisor from their beginning to their end. Time passes while the launcher works, and
nothing else goes on meanwhile.
-/

namespace PageAudit

/-- What came of asking for a browser. -/
inductive Acquired where
  | lease (h : BrowserHandle)
  | refused (e : LaunchError)
  /-- The launcher broke down. -/
  | broken (message : String)
  /-- It took too long. -/
  | gaveUp
  deriving DecidableEq, Repr

/-- A start that goes on. -/
structure PendingLaunch where
  jobId : String
  attempt : Nat
  due : Nat
  ending : LaunchEnding
  deriving DecidableEq, Repr

namespace Supervisor

/-- Lets time pass up to a given instant. -/
def waitUntil (s : Supervisor) (due : Nat) : Supervisor :=
  { s with clock := max s.clock due }

/-- Ends a start whose time has come. -/
def conclude (s : Supervisor) (p : PendingLaunch) : Supervisor × Acquired :=
  match p.ending with
  | .ready =>
    let (s, h) := s.endLaunch p.jobId p.attempt
    (s, .lease h)
  | .failed e => (s.cancelLaunch p.jobId, .refused e)
  | .broken message => (s.cancelLaunch p.jobId, .broken message)

/-- Asks for a browser and waits for it, no longer than `patience`. -/
def acquire (s : Supervisor) (jobId : String) (attempt : Nat) (patience : Option Nat) : Supervisor × Acquired :=
  match s.beginLaunch jobId with
  | .error e => (s, .refused e)
  | .ok (s, launch) =>
    match patience with
    | some limit =>
      if limit < launch.delay then ((s.waitUntil (s.clock + limit)).cancelLaunch jobId, .gaveUp)
      else (s.waitUntil (s.clock + launch.delay)).conclude ⟨jobId, attempt, s.clock + launch.delay, launch.ending⟩
    | none => (s.waitUntil (s.clock + launch.delay)).conclude ⟨jobId, attempt, s.clock + launch.delay, launch.ending⟩

/-- Asks for the browsers of several jobs at once. What is settled at once is noted, the rest goes on. -/
def beginAll (s : Supervisor) : List String → Supervisor × List (Acquired ⊕ PendingLaunch)
  | [] => (s, [])
  | jobId :: rest =>
    let (s, first) : Supervisor × (Acquired ⊕ PendingLaunch) :=
      match s.beginLaunch jobId with
      | .error e => (s, .inl (.refused e))
      | .ok (s, launch) =>
        let p : PendingLaunch := ⟨jobId, 1, s.clock + launch.delay, launch.ending⟩
        if s.clock < p.due then (s, .inr p)
        else
          let (s, a) := s.conclude p
          (s, .inl a)
    let (s, more) := s.beginAll rest
    (s, first :: more)

/-- Asks for the browsers of several jobs at once and waits for all. Starts end in the order of their times. -/
def acquireAll (s : Supervisor) (jobIds : List String) : Supervisor × List Acquired :=
  let (s, begun) := s.beginAll jobIds
  let pending := begun.zipIdx.filterMap fun (x, n) => x.getRight?.map fun p => (p, n)
  let inOrder := pending.mergeSort fun a b => a.1.due ≤ b.1.due
  let (s, settled) := inOrder.foldl
    (fun (s, settled) (p, n) =>
      let (s, a) := (s.waitUntil p.due).conclude p
      (s, (n, a) :: settled))
    (s, ([] : List (Nat × Acquired)))
  (s, begun.zipIdx.map fun (x, n) =>
    match x with
    | .inl a => a
    | .inr _ => (settled.lookup n).getD .gaveUp)

/-- Carries out kills one after the other, until one of them breaks down. -/
def carryOut (s : Supervisor) (k : Kills) : List Nat → Supervisor × Kills
  | [] => (s, { k with waiting := [] })
  | pid :: rest =>
    let (s, c) := s.beginKill pid
    let s := s.waitUntil c.due
    let ending := s.killEnding c
    if ending.isBroken then (s.endKill c, k.conclude pid ending)
    else (s.endKill c).carryOut (k.conclude pid ending) rest

/-- Gives a browser back. Tells whether it was still registered, unless the kill breaks down. -/
def release (s : Supervisor) (h : BrowserHandle) : Supervisor × Except String Bool :=
  match s.unregister? h with
  | some s =>
    let (s, k) := s.carryOut { waiting := [] } [h.pid]
    (s, k.result true)
  | none => (s, .ok false)

/-- Releases all browsers. Tells how many there were, unless a kill breaks down. -/
def releaseAll (s : Supervisor) : Supervisor × Except String Nat :=
  let (s, pids) := s.drain
  let (s, k) := s.carryOut { waiting := [] } pids
  (s, k.result k.count)

/-- Ends what was left behind. Gives an account of it, unless a kill breaks down. -/
def sweep (s : Supervisor) : Supervisor × Except String SweepReport :=
  let (s, pids) := s.beginSweep
  let (s, k) := s.carryOut { waiting := [] } pids
  (s, k.result k.sweepReport)

end Supervisor

end PageAudit
