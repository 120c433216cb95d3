import Mathlib.Logic.Function.Basic
import PageAudit.Supervisor.Basic

/-!
# Many tasks at one supervisor

A supervisor is used by many tasks at once. What a task does between two instants at which another one may come in
between is one act: the functions of the registry and the ledger, each under its lock, and the returns of the launcher.
The launcher may answer anything: a start ends with any process or is given up, a kill ends it, fails or breaks down,
and a task that waits for a kill may be stopped.
-/

namespace PageAudit

open Files

/-! ## The parts of a supervisor that tasks share -/

/-- A ledger after a change; one that fails leaves it as it is. -/
def amend (ledger : Option Slot) (change : Slot → Except LedgerError Slot) : Option Slot :=
  ledger.map fun slot =>
    match change slot with
    | .ok slot => slot
    | .error _ => slot

/-- The processes in a ledger; none if it cannot be read. -/
def recordedIn (ledger : Option Slot) : List Nat :=
  match ledger.map Ledger.load with
  | some (.ok entries) => entries.map (·.pid)
  | _ => []

/-- The entry of a browser of a run. -/
def BrowserHandle.entry (h : BrowserHandle) (runId : String) : LedgerEntry :=
  { pid := h.pid, jobId := h.jobId, attempt := h.attempt, runId, launchedAt := .ofMillis h.launchedAt }

/-- The processes of the browsers of a job. -/
def Registry.pidsOf (r : Registry) (jobId : String) : List Nat :=
  (r.handles.filter fun h => h.jobId == jobId).map fun h => h.pid

namespace Supervisor

theorem withLedger_eq_amend (v : Supervisor) (change : Slot → Except LedgerError Slot) :
    v.withLedger change = { v with ledger := amend v.ledger change } :=
  rfl

theorem recorded_eq_recordedIn (v : Supervisor) : v.recorded = recordedIn v.ledger :=
  rfl

theorem entry_eq_entry (v : Supervisor) (h : BrowserHandle) : v.entry h = h.entry v.runId :=
  rfl

end Supervisor

/-! ## Tasks -/

/-- What a task is about. -/
inductive Errand where
  /-- It waits for the launcher to start a browser. -/
  | launching (jobId : String) (attempt : Nat)
  /-- The browser is registered but not in the ledger yet. -/
  | recording (h : BrowserHandle)
  /-- It is going to give a browser back, at once or in the background. -/
  | returning (h : BrowserHandle)
  /-- It gave a browser up where nothing can be waited for, and has not noted the process yet. -/
  | forfeiting (h : BrowserHandle)
  /-- A sweep that has seen which browsers are held. -/
  | sweeping (held : List BrowserHandle)
  /-- A sweep that has also taken over the processes that could not be ended. -/
  | gathering (held : List BrowserHandle) (pending : List Nat)
  /-- It waits for the launcher to end a process and has more to be ended. -/
  | killing (pid : Nat) (rest : List Nat)
  /-- The process has ended, but nothing says so yet. -/
  | killed (pid : Nat) (rest : List Nat)
  /-- The registry does not wait for the process to end any more, but it is still in the ledger. -/
  | striking (pid : Nat) (rest : List Nat)

namespace Errand

/-- The rest of a row of kills. -/
def kills : List Nat → Option Errand
  | [] => none
  | pid :: rest => some (.killing pid rest)

/-- The task waits, and everything that it has done is done to the end. -/
def Waits : Errand → Prop
  | launching _ _ | returning _ | killing _ _ => True
  | _ => False

end Errand

/-- Tasks at a supervisor, with an account of the processes. -/
structure Traffic where
  registry : Registry
  /-- The ledger file, if one is kept. -/
  ledger : Option Slot
  runId : String
  errands : Nat → Option Errand := fun _ => none
  /-- The browsers that were started. -/
  started : List BrowserHandle := []
  /-- The processes that were started and that no kill has ended since, ascending. -/
  alive : List Nat := []
  /-- Those of them for which somebody got a browser. -/
  lent : List Nat := []
  /-- The processes that were taken out of the registry and that no kill has ended since. -/
  dismissed : List Nat := []

/-- What a task does at once. -/
inductive Act where
  | reserve (jobId : String) (attempt : Nat)
  /-- A start fails, breaks down or is stopped. -/
  | giveUp
  | register (h : BrowserHandle)
  | record
  | giveBack (h : BrowserHandle)
  | takeOut
  /-- The browser is not registered any more. -/
  | passOver
  | forfeit (h : BrowserHandle)
  | noteForfeited
  | drain
  | lookUp
  | takeOver
  | collect
  /-- A kill returns, and the process has ended. -/
  | succeed
  | note
  | strike
  /-- A kill returns, and the process could not be ended. -/
  | fail
  /-- The task is stopped before it gives the browser back. -/
  | desist
  /-- The task is stopped while it waits for a kill, or the launcher breaks down in it. -/
  | abort
  deriving DecidableEq

namespace Traffic

/-- The beginning: nothing is held, and no task is there. -/
def opened (capacity : Nat) (runId : String) (ledger : Option Slot) : Traffic :=
  { registry := .ofCapacity capacity, ledger, runId }

/-- Sets what a task is about. -/
def put (s : Traffic) (n : Nat) (e : Option Errand) : Traffic :=
  { s with errands := Function.update s.errands n e }

section Put

variable (s : Traffic) (n : Nat) (e : Option Errand)

@[simp] theorem put_registry : (s.put n e).registry = s.registry := rfl
@[simp] theorem put_ledger : (s.put n e).ledger = s.ledger := rfl
@[simp] theorem put_runId : (s.put n e).runId = s.runId := rfl
@[simp] theorem put_started : (s.put n e).started = s.started := rfl
@[simp] theorem put_alive : (s.put n e).alive = s.alive := rfl
@[simp] theorem put_lent : (s.put n e).lent = s.lent := rfl
@[simp] theorem put_dismissed : (s.put n e).dismissed = s.dismissed := rfl

@[simp] theorem put_errands_self : (s.put n e).errands n = e :=
  Function.update_self ..

variable {n}

theorem put_errands_of_ne {m : Nat} (hm : m ≠ n) : (s.put n e).errands m = s.errands m :=
  Function.update_of_ne hm ..

end Put

/-- What the acts of a task do. An acquire that is refused does nothing. -/
inductive Step (n : Nat) : Act → Traffic → Traffic → Prop
  | reserve {s : Traffic} {jobId : String} {attempt : Nat} {registry : Registry} (hn : s.errands n = none)
      (hr : s.registry.reserve jobId = .ok registry) :
      Step n (.reserve jobId attempt) s ({ s with registry }.put n (some (.launching jobId attempt)))
  | giveUp {s : Traffic} {jobId : String} {attempt : Nat} (hn : s.errands n = some (.launching jobId attempt)) :
      Step n .giveUp s ({ s with registry := s.registry.cancelReservation jobId }.put n none)
  | register {s : Traffic} {h : BrowserHandle} (hn : s.errands n = some (.launching h.jobId h.attempt)) :
      Step n (.register h) s
        ({ s with
            registry := s.registry.register h
            started := h :: s.started
            alive := insertAscending h.pid s.alive }.put n (some (.recording h)))
  -- By the time the browser is lent, another task may have ended it.
  | record {s : Traffic} {h : BrowserHandle} (hn : s.errands n = some (.recording h)) :
      Step n .record s
        ({ s with
            ledger := amend s.ledger fun slot => Ledger.record slot (h.entry s.runId)
            lent := if h.pid ∈ s.alive then h.pid :: s.lent else s.lent }.put n none)
  | giveBack {s : Traffic} {h : BrowserHandle} (hn : s.errands n = none) :
      Step n (.giveBack h) s (s.put n (some (.returning h)))
  | takeOut {s : Traffic} {h : BrowserHandle} {registry : Registry} (hn : s.errands n = some (.returning h))
      (hr : s.registry.unregister? h = some registry) :
      Step n .takeOut s ({ s with registry, dismissed := h.pid :: s.dismissed }.put n (some (.killing h.pid [])))
  | passOver {s : Traffic} {h : BrowserHandle} (hn : s.errands n = some (.returning h))
      (hr : s.registry.unregister? h = none) :
      Step n .passOver s (s.put n none)
  | forfeit {s : Traffic} {h : BrowserHandle} (hn : s.errands n = none) :
      Step n (.forfeit h) s
        ({ s with
            registry := s.registry.removeJob h.jobId
            dismissed := s.registry.pidsOf h.jobId ++ s.dismissed }.put n (some (.forfeiting h)))
  | noteForfeited {s : Traffic} {h : BrowserHandle} (hn : s.errands n = some (.forfeiting h)) :
      Step n .noteForfeited s ({ s with registry := s.registry.notePending h.pid }.put n none)
  | drain {s : Traffic} (hn : s.errands n = none) :
      Step n .drain s
        ({ s with
            registry := s.registry.drain
            dismissed := s.registry.pids ++ s.dismissed }.put n (Errand.kills s.registry.pids))
  | lookUp {s : Traffic} (hn : s.errands n = none) : Step n .lookUp s (s.put n (some (.sweeping s.registry.handles)))
  | takeOver {s : Traffic} {held : List BrowserHandle} (hn : s.errands n = some (.sweeping held)) :
      Step n .takeOver s
        ({ s with registry := s.registry.takePending }.put n (some (.gathering held s.registry.pendingKills)))
  | collect {s : Traffic} {held : List BrowserHandle} {pending : List Nat}
      (hn : s.errands n = some (.gathering held pending)) :
      Step n .collect s (s.put n (Errand.kills
        ({ s.registry with handles := held, pendingKills := pending }.orphans (recordedIn s.ledger))))
  | succeed {s : Traffic} {pid : Nat} {rest : List Nat} (hn : s.errands n = some (.killing pid rest)) :
      Step n .succeed s
        ({ s with
            alive := s.alive.filter (· != pid)
            lent := s.lent.filter (· != pid)
            dismissed := s.dismissed.filter (· != pid) }.put n (some (.killed pid rest)))
  | note {s : Traffic} {pid : Nat} {rest : List Nat} (hn : s.errands n = some (.killed pid rest)) :
      Step n .note s ({ s with registry := s.registry.noteKilled pid }.put n (some (.striking pid rest)))
  | strike {s : Traffic} {pid : Nat} {rest : List Nat} (hn : s.errands n = some (.striking pid rest)) :
      Step n .strike s
        ({ s with ledger := amend s.ledger fun slot => Ledger.remove slot pid }.put n (Errand.kills rest))
  | fail {s : Traffic} {pid : Nat} {rest : List Nat} (hn : s.errands n = some (.killing pid rest)) :
      Step n .fail s ({ s with registry := s.registry.notePending pid }.put n (Errand.kills rest))
  | desist {s : Traffic} {h : BrowserHandle} (hn : s.errands n = some (.returning h)) : Step n .desist s (s.put n none)
  | abort {s : Traffic} {pid : Nat} {rest : List Nat} (hn : s.errands n = some (.killing pid rest)) :
      Step n .abort s (s.put n none)

variable {s t u : Traffic} {n m : Nat} {a : Act}

theorem Step.errands_of_ne (h : Step n a s t) (hm : m ≠ n) : t.errands m = s.errands m := by
  cases h <;> exact put_errands_of_ne _ _ hm

theorem Step.unique {t' : Traffic} (h : Step n a s t) (h' : Step n a s t') : t = t' := by
  cases h <;> cases h' <;> simp_all

/-! ## Runs -/

/-- Acts of any tasks, one after the other, that the outside world allows. -/
inductive Runs (fits : Traffic → Act → Prop) : Traffic → List (Nat × Act) → Traffic → Prop
  | nil (s : Traffic) : Runs fits s [] s
  | cons {s t u : Traffic} {n : Nat} {a : Act} {trace : List (Nat × Act)} (hfits : fits s a) (hstep : Step n a s t)
      (hrest : Runs fits t trace u) : Runs fits s ((n, a) :: trace) u

/-- Whatever the launcher does. -/
def Anyhow (_ : Traffic) (_ : Act) : Prop :=
  True

namespace Runs

variable {fits : Traffic → Act → Prop} {trace trace' : List (Nat × Act)}

theorem single (hfits : fits s a) (hstep : Step n a s t) : Runs fits s [(n, a)] t :=
  .cons hfits hstep (.nil t)

theorem append (h : Runs fits s trace t) (h' : Runs fits t trace' u) : Runs fits s (trace ++ trace') u := by
  induction h with
  | nil s => exact h'
  | cons hfits hstep hrest ih => exact .cons hfits hstep (ih h')

theorem preserves {P : Traffic → Prop} (h : Runs fits s trace t)
    (hstep : ∀ n a s t, fits s a → Step n a s t → P s → P t) (hs : P s) : P t := by
  induction h with
  | nil s => exact hs
  | cons hfits hact hrest ih => exact ih (hstep _ _ _ _ hfits hact hs)

theorem errands_of_ne (h : Runs fits s trace t) (hone : ∀ x ∈ trace, x.1 = n) (hm : m ≠ n) :
    t.errands m = s.errands m := by
  induction h with
  | nil s => rfl
  | @cons s t u k a trace hfits hstep hrest ih =>
      obtain rfl : k = n := hone (k, a) List.mem_cons_self
      rw [ih fun x hx => hone x (List.mem_cons_of_mem _ hx), hstep.errands_of_ne hm]

theorem unique {t' : Traffic} (h : Runs fits s trace t) (h' : Runs fits s trace t') : t = t' := by
  induction h with
  | nil s =>
      cases h'
      rfl
  | cons hfits hstep hrest ih =>
      cases h' with
      | cons hfits' hstep' hrest' =>
          obtain rfl := hstep.unique hstep'
          exact ih hrest'

end Runs

end Traffic

end PageAudit
