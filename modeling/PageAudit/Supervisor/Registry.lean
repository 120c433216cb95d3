import PageAudit.Attempt.Error

/-!
# The registry of browsers

Who holds which browser. A job has at most one browser, alive or being started, and there are no more of them
than the capacity. Processes that could not be ended are kept for the next sweep. Every function here is one
step that nothing interrupts.
-/

namespace PageAudit

/-- A browser that a job holds for an attempt. -/
structure BrowserHandle where
  pid : Nat
  endpoint : String
  jobId : String
  attempt : Nat
  launchedAt : Nat
  deriving DecidableEq, Repr

/-- A browser in a document. -/
def BrowserHandle.data (h : BrowserHandle) : Document.Data :=
  .map [("pid", .nat h.pid), ("endpoint", .str h.endpoint), ("job_id", .str h.jobId), ("attempt", .nat h.attempt)]

/-- The browsers that are held or being started. -/
structure Registry where
  capacity : Nat
  /-- The browsers that are held, in the order in which they were registered. -/
  handles : List BrowserHandle := []
  /-- The jobs whose browser is being started. -/
  launching : List String := []
  /-- The processes that could not be ended, ascending. -/
  pendingKills : List Nat := []
  deriving DecidableEq, Repr

/-- Puts a number at its place among ascending ones, once. -/
def insertAscending (n : Nat) : List Nat → List Nat
  | [] => [n]
  | m :: rest => if n < m then n :: m :: rest else if n == m then m :: rest else m :: insertAscending n rest

namespace Registry

/-- An empty registry for at least one browser. -/
def ofCapacity (n : Nat) : Registry :=
  { capacity := max n 1 }

/-- The job holds a browser or has one started. -/
def isTaken (r : Registry) (jobId : String) : Bool :=
  r.handles.any (·.jobId == jobId) || r.launching.contains jobId

/-- The number of browsers that count against the capacity. -/
def live (r : Registry) : Nat :=
  r.handles.length + r.launching.length

/-- The processes of the browsers that are held. -/
def pids (r : Registry) : List Nat :=
  r.handles.map (·.pid)

/-- Reserves a place for a start. -/
def reserve (r : Registry) (jobId : String) : Except LaunchError Registry :=
  if r.isTaken jobId then .error (.handleAlreadyHeld jobId)
  else if r.capacity ≤ r.live then .error (.capacityExhausted r.live r.capacity)
  else .ok { r with launching := r.launching ++ [jobId] }

/-- Gives a reserved place back. -/
def cancelReservation (r : Registry) (jobId : String) : Registry :=
  { r with launching := r.launching.filter (· != jobId) }

/-- Turns a reserved place into a browser that is held. -/
def register (r : Registry) (h : BrowserHandle) : Registry :=
  { r with
    launching := r.launching.filter (· != h.jobId)
    handles := r.handles.filter (·.jobId != h.jobId) ++ [h] }

/-- The job's browser is the given one. -/
def holds (r : Registry) (h : BrowserHandle) : Bool :=
  (r.handles.find? (·.jobId == h.jobId)).any (·.pid == h.pid)

/-- Takes the browser of a job out. -/
def removeJob (r : Registry) (jobId : String) : Registry :=
  { r with handles := r.handles.filter (·.jobId != jobId) }

/-- Takes a browser out; none if the job does not hold it any more. -/
def unregister? (r : Registry) (h : BrowserHandle) : Option Registry :=
  if r.holds h then some (r.removeJob h.jobId) else none

/-- Takes all browsers out. -/
def drain (r : Registry) : Registry :=
  { r with handles := [] }

/-- A process has ended. -/
def noteKilled (r : Registry) (pid : Nat) : Registry :=
  { r with pendingKills := r.pendingKills.filter (· != pid) }

/-- A process could not be ended. -/
def notePending (r : Registry) (pid : Nat) : Registry :=
  { r with pendingKills := insertAscending pid r.pendingKills }

/-- A browser is given up where nothing can be waited for: the job's browser is taken out, and the process is
left to the next sweep. -/
def forfeit (r : Registry) (h : BrowserHandle) : Registry :=
  (r.removeJob h.jobId).notePending h.pid

/-- The processes that a sweep ends, ascending: those that could not be ended before and those of the ledger,
without those of browsers that are held. -/
def orphans (r : Registry) (recorded : List Nat) : List Nat :=
  (recorded.foldl (fun found pid => insertAscending pid found) r.pendingKills).filter fun pid => !r.pids.contains pid

/-- A sweep takes over the processes that could not be ended. -/
def takePending (r : Registry) : Registry :=
  { r with pendingKills := [] }

end Registry

end PageAudit
