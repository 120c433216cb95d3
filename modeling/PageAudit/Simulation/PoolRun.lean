import PageAudit.Pool.Session

/-!
# A pool over time

A pool at work, with things that happen to it at given times.
-/

namespace PageAudit

/-- What happens to a pool from outside. -/
inductive PoolEvent where
  | cancel
  | pressure (m : MemoryPressure)
  /-- No news of the memory comes any more. -/
  | pressureClosed

/-- A pool with what will happen to it. -/
structure PoolRun where
  session : PoolSession
  agenda : List (Nat × PoolEvent) := []

/-- A part of the pool, or something that happens to it. -/
inductive PoolRunTask where
  | part (t : PoolTask)
  | event (n : Nat)
  deriving DecidableEq, Repr

namespace PoolRun

/-- An event changes the pool. -/
def happen (x : PoolRun) : PoolEvent → PoolRun
  | .cancel => { x with session := { x.session with pool := x.session.pool.cancel } }
  | .pressure m => { x with session := { x.session with pool := x.session.pool.setPressure m } }
  | .pressureClosed => { x with session := { x.session with pool := x.session.pool.closePressure } }

/-- Polls a task. -/
def poll (t : PoolRunTask) (x : PoolRun) : PoolRun :=
  match t with
  | .part t => { x with session := x.session.poll t }
  | .event n =>
    match x.agenda[n]? with
    | some (_, e) => x.happen e
    | none => x

/-- The tasks that can go on because of a poll. -/
def woken (t : PoolRunTask) (before after : PoolRun) : List PoolRunTask :=
  match t with
  | .part t => (PoolSession.woken t before.session after.session).map .part
  | .event n =>
    match before.agenda[n]? with
    | some (_, .cancel) => before.session.listeners.map .part
    | some _ => [.part .turns]
    | none => []

/-- When a task can go on at the latest. -/
def due? (t : PoolRunTask) (x : PoolRun) : Option Nat :=
  match t with
  | .part t => x.session.due? t
  | .event n => (x.agenda[n]?).bind fun (due, _) => if x.session.pool.clock < due then some due else none

/-- Lets time pass. -/
def elapse (now : Nat) (x : PoolRun) : PoolRun :=
  { x with session := x.session.elapse now }

/-- The tasks of a pool over time. -/
def system : TaskSystem PoolRun PoolRunTask := { poll, woken, due?, elapse }

/-- The beginning: the pool is to be polled, and the events are awaited. -/
def begin (x : PoolRun) : Execution PoolRun PoolRunTask :=
  { state := x, queue := [.part .turns]
    alarms := x.agenda.zipIdx.map fun ((due, _), n) => (due, .event n) }

/-- The pool has ended. -/
def isOver (x : PoolRun) : Bool := x.session.endedAt.isSome

end PoolRun

end PageAudit
