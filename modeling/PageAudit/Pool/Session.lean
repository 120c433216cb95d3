import PageAudit.Pool.Turn
import PageAudit.Simulation.Executor

/-!
# A pool at work

A pool with the attempts it has started and the browsers they use. The pool, every attempt and every browser
that is given back in the background are tasks of their own, which may be polled in any order.
-/

namespace PageAudit

/-- A part of a pool that goes on by itself. -/
inductive PoolTask where
  /-- The pool's turns. -/
  | turns
  | attempt (seq : Nat)
  /-- A browser that is given back in the background. -/
  | background (n : Nat)
  deriving DecidableEq, Repr

/-- A pool at work. -/
structure PoolSession where
  site : Site
  pool : Pool
  /-- The attempts in the order in which they were started; the first has the number 1. -/
  attempts : List Attempt := []
  /-- The release of all browsers by force, while it goes on. -/
  forced : Option Kills := none
  /-- The tasks that are told of a cancellation, in the order in which they began to listen. -/
  listeners : List PoolTask := []
  endedAt : Option Nat := none

namespace PoolSession

/-- Lets time pass. -/
def elapse (now : Nat) (x : PoolSession) : PoolSession :=
  { x with site := x.site.elapse now, pool := x.pool.elapse now }

/-- The attempts that the pool has started come into being. -/
def hire (x : PoolSession) : PoolSession :=
  { x with attempts :=
      x.attempts ++ (x.pool.started.drop x.attempts.length).map fun context => { context } }

/-- Notes the end of the pool. -/
def noteEnd (x : PoolSession) : PoolSession :=
  if x.endedAt.isNone && x.pool.phase == .ended then { x with endedAt := some x.pool.clock } else x

/-- The pool is told of the release of all browsers. -/
def heed (p : Pool) (k : Kills) : Pool :=
  match k.result k.count with
  | .ok count => (p.released count).poll
  | .error message => p.launcherBroke message

/-- Goes on with the release of all browsers, and then with the pool. -/
def forceOn (x : PoolSession) (k : Kills) : PoolSession :=
  let (supervisor, k) := k.poll x.site.supervisor
  let x := { x with site := { x.site with supervisor } }
  if k.isDone then { x with forced := none, pool := heed x.pool k }
  else { x with forced := some k }

/-- Goes on with the pool until it waits, or until it has to release all browsers. -/
def turnOn (x : PoolSession) : PoolSession :=
  let pool := x.pool.poll
  let x := { x with pool }
  if pool.phase == .forcing then
    let (supervisor, k) := Kills.ofAll x.site.supervisor
    { x with site := { x.site with supervisor } }.forceOn k
  else x

/-- Begins to listen for a cancellation, after all others. -/
def listen (x : PoolSession) (t : PoolTask) : PoolSession :=
  { x with listeners := x.listeners.filter (· != t) ++ [t] }

/-- Listens no more. -/
def ignore (x : PoolSession) (t : PoolTask) : PoolSession :=
  { x with listeners := x.listeners.filter (· != t) }

/-- Polls the pool. -/
def pollPool (x : PoolSession) : PoolSession :=
  let x := match x.forced with
    | some k => x.forceOn k
    | none => x.turnOn
  let x := if x.pool.phase == .waiting && !x.pool.draining then x.listen .turns else x.ignore .turns
  x.hire.noteEnd

/-- An attempt listens while its audit can be broken off. -/
def listensNow (x : PoolSession) (a : Attempt) : Bool :=
  match a.phase with
  | .auditing .. => x.site.engine.supportsEarlyTermination
  | _ => false

/-- Puts an attempt and the site back. -/
def putAttempt (x : PoolSession) (seq : Nat) (site : Site) (a : Attempt) : PoolSession :=
  let x := { x with site, attempts := x.attempts.set (seq - 1) a }
  if !x.listensNow a then x.ignore (.attempt seq)
  else if x.listeners.contains (.attempt seq) then x
  else x.listen (.attempt seq)

/-- Polls an attempt. One that the pool has given up is dropped. -/
def pollAttempt (x : PoolSession) (seq : Nat) : PoolSession :=
  match x.attempts[seq - 1]? with
  | none => x
  | some a =>
    if a.isDone then x
    else if x.pool.isInFlight seq then
      let (site, a) := a.poll x.site (x.pool.signals seq)
      let x := x.putAttempt seq site a
      match a.outcome? with
      | some outcome => { x with pool := x.pool.receive seq outcome }
      | none => x
    else
      let (site, a) := a.drop x.site
      x.putAttempt seq site a

/-- Polls a task. -/
def poll (t : PoolTask) (x : PoolSession) : PoolSession :=
  match t with
  | .turns => x.pollPool
  | .attempt seq => x.pollAttempt seq
  | .background n => { x with site := x.site.pollBackground n }

/-- The attempts that have not ended. -/
def openAttempts (x : PoolSession) : List Nat :=
  (x.attempts.zipIdx.filter fun (a, _) => !a.isDone).map fun (_, n) => n + 1

/-- The attempts that can go on because of a poll of the pool: those that were told to end, those that were
given up, and new ones. -/
def stirred (before after : PoolSession) : List Nat :=
  let stopped := after.pool.stopped.drop before.pool.stopped.length
  let all := if after.pool.hardStopped && !before.pool.hardStopped then after.pool.roster.reverse else []
  let givenUp := after.openAttempts.filter fun seq => !after.pool.isInFlight seq
  let hired := (List.range (after.attempts.length - before.attempts.length)).map fun n =>
    before.attempts.length + n + 1
  stopped ++ all ++ givenUp ++ hired

/-- The tasks that can go on because of a poll. -/
def woken (t : PoolTask) (before after : PoolSession) : List PoolTask :=
  match t with
  | .turns => (before.stirred after).map .attempt
  | .attempt seq =>
    let left := (List.range (after.site.background.length - before.site.background.length)).map fun n =>
      PoolTask.background (before.site.background.length + n)
    left ++ (if after.pool.reports.any (·.flight.seq == seq) then [.turns] else [])
  | .background _ => []

/-- When a task can go on at the latest. -/
def due? (t : PoolTask) (x : PoolSession) : Option Nat :=
  match t with
  | .turns =>
    match x.forced with
    | some k => k.due?
    | none => x.pool.due?
  | .attempt seq => (x.attempts[seq - 1]?).bind Attempt.due?
  | .background n => (x.site.background[n]?).bind Release.due?

/-- The tasks of a pool. -/
def system : TaskSystem PoolSession PoolTask := { poll, woken, due?, elapse }

end PoolSession

end PageAudit
