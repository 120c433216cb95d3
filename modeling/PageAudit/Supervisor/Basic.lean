import PageAudit.Ledger.Store
import PageAudit.Supervisor.Launcher
import PageAudit.Supervisor.Registry

/-!
# The supervisor

A supervisor owns the browser processes of a run: the registry, the ledger on disk, and an account of what it
asked the launcher for. What waits for the launcher is cut into a step that begins it and one that ends it.
-/

namespace PageAudit

open Files Calendar

/-- A kill in progress. -/
structure PendingKill where
  pid : Nat
  due : Nat
  /-- The number of kills that were asked for before it. -/
  earlier : Nat
  deriving DecidableEq, Repr

/-- The browsers of a run. -/
structure Supervisor where
  launcher : Launcher
  runId : String
  registry : Registry
  /-- The ledger file, if one is kept. -/
  ledger : Option Slot := none
  clock : Nat := 0
  /-- The jobs for which starts were asked for. -/
  launchCalls : List String := []
  /-- The number of starts that succeeded. -/
  launched : Nat := 0
  /-- The processes for which kills were asked for. -/
  killCalls : List Nat := []
  /-- The processes that run, ascending. -/
  alive : List Nat := []

namespace Supervisor

/-- The ledger after a change; one that fails leaves it as it is. -/
def withLedger (s : Supervisor) (change : Slot → Except LedgerError Slot) : Supervisor :=
  { s with ledger := s.ledger.map fun slot =>
      match change slot with
      | .ok slot => slot
      | .error _ => slot }

/-- The processes in the ledger; none if it cannot be read. -/
def recorded (s : Supervisor) : List Nat :=
  match s.ledger.map Ledger.load with
  | some (.ok entries) => entries.map (·.pid)
  | _ => []

/-- The entry of a browser. -/
def entry (s : Supervisor) (h : BrowserHandle) : LedgerEntry :=
  { pid := h.pid, jobId := h.jobId, attempt := h.attempt, runId := s.runId, launchedAt := .ofMillis h.launchedAt }

/-- Asks the launcher for a browser once there is a place for it. -/
def beginLaunch (s : Supervisor) (jobId : String) : Except LaunchError (Supervisor × Launch) := do
  let registry ← s.registry.reserve jobId
  let launch := s.launcher.launch jobId (s.launchCalls.count jobId)
  return ({ s with registry, launchCalls := s.launchCalls ++ [jobId] }, launch)

/-- A start is given up or has failed. -/
def cancelLaunch (s : Supervisor) (jobId : String) : Supervisor :=
  { s with registry := s.registry.cancelReservation jobId }

/-- A start has succeeded: the browser is registered and recorded. -/
def endLaunch (s : Supervisor) (jobId : String) (attempt : Nat) : Supervisor × BrowserHandle :=
  let pid := s.launcher.pid s.launched
  let h : BrowserHandle := { pid, endpoint := s.launcher.endpoint pid, jobId, attempt, launchedAt := s.clock }
  let s := { s with
    launched := s.launched + 1
    alive := insertAscending pid s.alive
    registry := s.registry.register h }
  (s.withLedger fun slot => Ledger.record slot (s.entry h), h)

/-- Asks the launcher to end a process. -/
def beginKill (s : Supervisor) (pid : Nat) : Supervisor × PendingKill :=
  let earlier := s.killCalls.length
  ({ s with killCalls := s.killCalls ++ [pid] }, ⟨pid, s.clock + (s.launcher.kill pid earlier).delay, earlier⟩)

/-- How a kill in progress ends. -/
def killEnding (s : Supervisor) (k : PendingKill) : KillEnding :=
  (s.launcher.kill k.pid k.earlier).ending

/-- A kill has come to its end. Of one that breaks down, nothing is noted. -/
def endKill (s : Supervisor) (k : PendingKill) : Supervisor :=
  match s.killEnding k with
  | .done =>
    let s := { s with registry := s.registry.noteKilled k.pid, alive := s.alive.filter (· != k.pid) }
    s.withLedger fun slot => Ledger.remove slot k.pid
  | .failed _ => { s with registry := s.registry.notePending k.pid }
  | .broken _ => s

/-- Takes a browser out of the registry, if it is still there. -/
def unregister? (s : Supervisor) (h : BrowserHandle) : Option Supervisor :=
  (s.registry.unregister? h).map fun registry => { s with registry }

/-- Gives a browser up where nothing can be waited for. -/
def forfeit (s : Supervisor) (h : BrowserHandle) : Supervisor :=
  { s with registry := s.registry.forfeit h }

/-- Takes all browsers out of the registry. -/
def drain (s : Supervisor) : Supervisor × List Nat :=
  ({ s with registry := s.registry.drain }, s.registry.pids)

/-- Collects the processes that a sweep ends. -/
def beginSweep (s : Supervisor) : Supervisor × List Nat :=
  ({ s with registry := s.registry.takePending }, s.registry.orphans s.recorded)

end Supervisor

end PageAudit
