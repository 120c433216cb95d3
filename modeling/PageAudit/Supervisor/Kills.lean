import PageAudit.Supervisor.Basic

/-!
# Ending processes

Processes are ended one after the other. Giving a browser back, releasing all of them and sweeping are such
rows of kills. A kill that fails is counted and the row goes on; one that breaks down ends the row.
-/

namespace PageAudit

/-- What a sweep found: processes, and how many of them it ended or failed to end. -/
@[ext]
structure SweepReport where
  found : Nat := 0
  terminated : Nat := 0
  failed : Nat := 0
  deriving DecidableEq, Repr

/-- A sweep in a document. -/
def SweepReport.data (r : SweepReport) : Document.Data :=
  .map [("found", .nat r.found), ("terminated", .nat r.terminated), ("failed", .nat r.failed)]

/-- A row of kills. -/
structure Kills where
  /-- The processes that no kill was asked for yet. -/
  waiting : List Nat
  current : Option PendingKill := none
  /-- The processes that have ended. -/
  ended : List Nat := []
  /-- The processes that could not be ended. -/
  failed : List Nat := []
  /-- What a kill said that broke down. -/
  broken : Option String := none
  deriving DecidableEq, Repr

namespace Kills

/-- Nothing is left to be done. -/
def isDone (k : Kills) : Bool :=
  k.waiting.isEmpty && k.current.isNone

/-- The number of processes in a row that is done. -/
def count (k : Kills) : Nat :=
  k.ended.length + k.failed.length

/-- What is given for a row that is done, unless it broke down. -/
def result {α : Type} (k : Kills) (value : α) : Except String α :=
  match k.broken with
  | none => .ok value
  | some message => .error message

/-- Notes how the kill of a process ended. One that breaks down ends the row. -/
def conclude (k : Kills) (pid : Nat) : KillEnding → Kills
  | .done => { k with current := none, ended := k.ended ++ [pid] }
  | .failed _ => { k with current := none, failed := k.failed ++ [pid] }
  | .broken message => { k with waiting := [], current := none, broken := some message }

/-- Asks for one kill after the other until one of them takes time or breaks down. -/
def proceed : List Nat → Supervisor → Kills → Supervisor × Kills
  | [], s, k => (s, { k with waiting := [] })
  | pid :: rest, s, k =>
    let (s, c) := s.beginKill pid
    let ending := s.killEnding c
    if s.clock < c.due then (s, { k with waiting := rest, current := some c })
    else if ending.isBroken then (s.endKill c, k.conclude pid ending)
    else proceed rest (s.endKill c) (k.conclude pid ending)

/-- Goes on as far as the time allows. -/
def poll (s : Supervisor) (k : Kills) : Supervisor × Kills :=
  match k.current with
  | none => proceed k.waiting s k
  | some c =>
    if s.clock < c.due then (s, k)
    else
      let k := k.conclude c.pid (s.killEnding c)
      proceed k.waiting (s.endKill c) k

/-- When the kill in progress ends. -/
def due? (k : Kills) : Option Nat :=
  k.current.map (·.due)

/-- The account of a sweep. -/
def sweepReport (k : Kills) : SweepReport :=
  { found := k.count, terminated := k.ended.length, failed := k.failed.length }

/-- Ends the processes of all browsers that are held. -/
def ofAll (s : Supervisor) : Supervisor × Kills :=
  let (s, pids) := s.drain
  (s, { waiting := pids })

/-- Ends what an earlier run or an earlier kill left behind. -/
def ofSweep (s : Supervisor) : Supervisor × Kills :=
  let (s, pids) := s.beginSweep
  (s, { waiting := pids })

end Kills

/-- A browser that is given back: it is taken out of the registry and its process ended. Of a browser that is
not registered any more, nothing is left to be done. -/
structure Release where
  handle : BrowserHandle
  /-- The kill, once it was decided whether there is one. -/
  kills : Option Kills := none
  deriving DecidableEq, Repr

namespace Release

/-- Goes on as far as the time allows. -/
def poll (s : Supervisor) (r : Release) : Supervisor × Release :=
  let (s, kills) := match r.kills with
    | some k => k.poll s
    | none =>
      match s.unregister? r.handle with
      | some s => ({ waiting := [r.handle.pid] } : Kills).poll s
      | none => (s, { waiting := [] })
  (s, { r with kills := some kills })

/-- Nothing is left to be done. -/
def isDone (r : Release) : Bool :=
  r.kills.any Kills.isDone

/-- What the kill said if it broke down. -/
def broken? (r : Release) : Option String :=
  r.kills.bind (·.broken)

/-- When the kill in progress ends. -/
def due? (r : Release) : Option Nat :=
  r.kills.bind Kills.due?

end Release

end PageAudit
