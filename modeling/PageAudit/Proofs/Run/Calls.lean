import PageAudit.Proofs.Run.Interruptions
import PageAudit.Proofs.Run.Steps

/-!
# Calls of a coordinator

Any number of callers share a coordinator: they ask it to run a plan, or to cancel what it runs. Every call goes on step
by step, and a step reads or writes the state of the run once. Between two steps of a call anything may happen: other
calls go on, and so do the parts of the run.
-/

namespace PageAudit

open Pool

/-! ## Calls -/

/-- How far a call that runs a plan has come. -/
inductive RunCall where
  | waiting
  /-- It has begun the run and goes on with it. -/
  | leading
  /-- It has found the run begun and does not know its state yet. -/
  | late
  | answered (answer : Except AppError RunReport)

/-- How far a call that cancels the run has come. -/
inductive CancelCall where
  | waiting
  | noted
  | drained
  | done

/-- A call of a coordinator. -/
inductive Call where
  | run (plan : List Job) (stage : RunCall)
  | cancel (reason : String) (stage : CancelCall)

/-- The call that leads a run has come as far as the run. It never returns from one that breaks down. -/
def RunStage.leader : RunStage → RunCall
  | .ended outcome => .answered outcome
  | _ => .leading

namespace Run

/-- The run takes a plan up, with a pool of its own. -/
def takeUp (r : Run) (control : RunControl) (plan : List Job) : Run :=
  let pool := Pool.submit? r.config.pool r.config.retry r.config.gracePeriodMs r.session.pool.draws {} r.clock plan
  { r with
    plan, control
    session := { r.session with
      pool := { pool.getD r.session.pool with cancelled := control.cancelled } } }

/-- Notes the reason of a cancellation. -/
def noteReason (r : Run) (reason : String) : Run :=
  { r with control := r.control.noteReason reason }

/-- Begins to drain if the run is running. -/
def drain (r : Run) : Run :=
  { r with control := r.control.drain }

/-- Tells the run and its pool that they are cancelled. -/
def tell (r : Run) : Run :=
  { r with
    control := r.control.tell
    session := { r.session with pool := r.session.pool.cancel } }

/-- What follows an action of a part of the run. There are no parts before the jobs are queued, but time passes. -/
def around (r : Run) : RunAction → Run
  | .elapse now => r.elapse now
  | a => if r.hasQueued then r.perform a else r

/-- A cancellation is made of three steps. -/
theorem cancel_eq (r : Run) (reason : String) : r.cancel reason = ((r.noteReason reason).drain).tell := rfl

/-- A run that takes its plan up later is the one that is made of the plan. -/
theorem takeUp_ofPlan? (config : Config) (plan : List Job) (site : Site) (draws : Nat → Nat → Nat)
    (probe : Nat → Except ProbeError MemoryReading) (control : RunControl) (huntold : control.cancelled = false) :
    (Run.ofPlan? config [] site draws probe).map (·.takeUp control plan) =
      (Run.ofPlan? config plan site draws probe).map fun r => { r with control } := by
  unfold Run.ofPlan? Pool.submit?
  cases hstart : Concurrency.start? config.pool with
  | none => rfl
  | some concurrency => simp [takeUp, Pool.submit?, clock, hstart, huntold]

end Run

/-- A coordinator with the calls that were made, in order. -/
structure Coordinator where
  run : Run
  calls : List Call := []

/-- What happens to a coordinator. -/
inductive CoordinatorAction where
  /-- It is called to run a plan. -/
  | run (plan : List Job)
  /-- It is called to cancel the run. -/
  | cancel (reason : String)
  /-- A call takes its next step. -/
  | go (n : Nat)
  /-- A part of the run goes on. -/
  | part (a : RunAction)

/-- The action comes from a caller, or from a part of the run that is no call. -/
def CoordinatorAction.IsOwn : CoordinatorAction → Prop
  | .part a => a.IsOwn ∧ ¬ a.Cancels ∧ a ≠ .poll .coordinator
  | _ => True

namespace Coordinator

/-- A coordinator that was not called yet; none if its bounds exclude each other. -/
def new? (config : Config) (site : Site) (draws : Nat → Nat → Nat) (probe : Nat → Except ProbeError MemoryReading) :
    Option Coordinator :=
  (Run.ofPlan? config [] site draws probe).map fun run => { run }

/-- The state that the coordinator shows. -/
def state (x : Coordinator) : RunState := x.run.control.state

/-- The next step of a call that runs a plan. -/
def goRun (x : Coordinator) (n : Nat) (plan : List Job) : RunCall → Coordinator
  | .waiting =>
    match x.run.control.begin with
    | .ok control => { run := x.run.takeUp control plan, calls := x.calls.set n (.run plan .leading) }
    | .error _ => { x with calls := x.calls.set n (.run plan .late) }
  | .leading => { run := x.run.advance, calls := x.calls.set n (.run plan x.run.advance.stage.leader) }
  | .late =>
    { x with calls := x.calls.set n (.run plan (.answered (.error (.run (.alreadyStarted x.state.name))))) }
  | .answered _ => x

/-- The next step of a call that cancels the run. -/
def goCancel (x : Coordinator) (n : Nat) (reason : String) : CancelCall → Coordinator
  | .waiting => { run := x.run.noteReason reason, calls := x.calls.set n (.cancel reason .noted) }
  | .noted => { run := x.run.drain, calls := x.calls.set n (.cancel reason .drained) }
  | .drained => { run := x.run.tell, calls := x.calls.set n (.cancel reason .done) }
  | .done => x

/-- What follows an action. -/
def perform (x : Coordinator) : CoordinatorAction → Coordinator
  | .run plan => { x with calls := x.calls ++ [.run plan .waiting] }
  | .cancel reason => { x with calls := x.calls ++ [.cancel reason .waiting] }
  | .go n =>
    match x.calls[n]? with
    | some (.run plan stage) => x.goRun n plan stage
    | some (.cancel reason stage) => x.goCancel n reason stage
    | none => x
  | .part a => { x with run := x.run.around a }

/-- What follows actions in order. -/
def after (x : Coordinator) (actions : List CoordinatorAction) : Coordinator :=
  actions.foldl perform x

theorem after_append (x : Coordinator) (actions more : List CoordinatorAction) :
    x.after (actions ++ more) = (x.after actions).after more :=
  List.foldl_append ..

/-- A call that nobody disturbs begins the run that is made of its plan. -/
theorem begun_eq (config : Config) (plan : List Job) (site : Site) (draws : Nat → Nat → Nat)
    (probe : Nat → Except ProbeError MemoryReading) :
    (Coordinator.new? config site draws probe).map (fun x => (x.after [.run plan, .go 0, .go 0]).run) =
      (Run.ofPlan? config plan site draws probe).map Run.begin := by
  have htaken := Run.takeUp_ofPlan? config plan site draws probe { state := .running } rfl
  calc (Coordinator.new? config site draws probe).map (fun x => (x.after [.run plan, .go 0, .go 0]).run)
      = ((Run.ofPlan? config [] site draws probe).map (·.takeUp { state := .running } plan)).map Run.enter := by
        unfold Coordinator.new? Run.ofPlan?
        cases Pool.submit? config.pool config.retry config.gracePeriodMs draws {} site.clock [] <;> rfl
    _ = ((Run.ofPlan? config plan site draws probe).map fun r => { r with control := { state := .running } }).map
          Run.enter := congrArg _ htaken
    _ = (Run.ofPlan? config plan site draws probe).map Run.begin := by
        unfold Run.ofPlan?
        cases Pool.submit? config.pool config.retry config.gracePeriodMs draws {} site.clock plan <;> rfl

end Coordinator

/-! ## What happens to the run -/

/-- A state in which a run stays. -/
def RunState.IsFinal (s : RunState) : Prop := s = .completed ∨ s = .aborted

/-- A state of a run that has begun and not ended. -/
def RunState.IsUnderway (s : RunState) : Prop := s = .running ∨ s = .draining

/-- The changes of the state. -/
inductive RunState.Next : RunState → RunState → Prop where
  | begin : Next .idle .running
  | drain : Next .running .draining
  | finish {s last : RunState} (underway : s.IsUnderway) (final : last.IsFinal) : Next s last

/-- A run that has begun has come as far as its state shows. -/
def RunStage.Fits (stage : RunStage) (s : RunState) : Prop :=
  match stage with
  | .showing _ _ _ final => s.IsUnderway ∧ final.IsFinal
  | .reporting _ _ _ final => s = final ∧ final.IsFinal
  | .ended (.ok report) => s = report.state ∧ report.state.IsFinal
  | .ended (.error e) => s = .aborted ∧ ∀ f, e ≠ .run f
  | _ => s.IsUnderway

theorem RunStage.IsOpen.fits_iff {stage : RunStage} {s : RunState} (h : stage.IsOpen) :
    stage.Fits s ↔ s.IsUnderway := by
  cases stage with
  | showing | reporting | ended | broken => exact h.elim
  | _ => exact Iff.rfl

theorem RunStage.Fits.ne_idle {stage : RunStage} {s : RunState} (h : stage.Fits s) : s ≠ .idle := by
  rintro rfl
  unfold Fits at h
  split at h <;> grind [RunState.IsUnderway, RunState.IsFinal]

namespace Run

variable {r s : Run} {a : RunAction}

/-- What a step of a call or a part does to a run that has begun. -/
inductive Evolves (r : Run) : Run → Prop where
  | stay : Evolves r r
  | advance : Evolves r r.advance
  | noteReason (reason : String) : Evolves r (r.noteReason reason)
  | drain : Evolves r r.drain
  | tell : Evolves r r.tell
  | around {a : RunAction} (own : a.IsOwn) (calm : ¬ a.Cancels) (apart : a ≠ .poll .coordinator) :
      Evolves r (r.around a)

/-! ### The parts of the run -/

theorem around_cases (r : Run) (a : RunAction) :
    r.around a = r ∧ r.hasQueued = false ∨ r.around a = r.perform a ∧
      (r.hasQueued = true ∨ ∃ now, a = .elapse now) := by
  unfold around
  split
  · exact Or.inr ⟨rfl, Or.inr ⟨_, rfl⟩⟩
  · split
    · rename_i hqueued
      exact Or.inr ⟨rfl, Or.inl hqueued⟩
    · rename_i hqueued
      exact Or.inl ⟨rfl, by simpa using hqueued⟩

/-- What the parts of a run leave alone. -/
structure KeepsCourse (r s : Run) : Prop where
  config : s.config = r.config
  plan : s.plan = r.plan
  control : s.control = r.control
  stage : s.stage = r.stage

theorem keepsCourse_pollMonitor (r : Run) : KeepsCourse r r.pollMonitor := by
  unfold pollMonitor
  split
  · split
    · exact ⟨rfl, rfl, rfl, rfl⟩
    · dsimp only
      split <;> exact ⟨rfl, rfl, rfl, rfl⟩
  · exact ⟨rfl, rfl, rfl, rfl⟩

theorem keepsCourse_around (calm : ¬ a.Cancels) (apart : a ≠ .poll .coordinator) : KeepsCourse r (r.around a) := by
  rcases r.around_cases a with ⟨he, _⟩ | ⟨he, _⟩
  · rw [he]
    exact ⟨rfl, rfl, rfl, rfl⟩
  · rw [he]
    cases a with
    | elapse | reach | disturb => exact ⟨rfl, rfl, rfl, rfl⟩
    | cancel => exact absurd trivial calm
    | poll t =>
        cases t with
        | coordinator => exact absurd rfl apart
        | monitor => exact r.keepsCourse_pollMonitor
        | part => exact ⟨rfl, rfl, rfl, rfl⟩

/-! ### The state -/

/-- The state has changed as it may, and the run has come as far as it shows. -/
def Shifts (before : RunState) (s : Run) : Prop :=
  s.stage.Fits s.control.state ∧ (s.control.state = before ∨ before.Next s.control.state)

theorem finalState_isFinal (c : RunControl) : c.finalState.IsFinal := by
  unfold RunControl.finalState
  split
  · exact Or.inr rfl
  · exact Or.inl rfl

theorem Proceeds.shifts (hr : r.Proceeds s) (h : r.stage.Fits r.control.state) : Shifts r.control.state s := by
  cases hr with
  | stay => exact ⟨h, Or.inl rfl⟩
  | refuse idle fault =>
      rw [idle] at h
      refine ⟨⟨rfl, ?_⟩, Or.inr (.finish h (Or.inr rfl))⟩
      rintro f rfl
      rcases fault with ⟨_, he, _⟩ | ⟨_, he, _⟩ <;> cases he
  | goOn before _ _ after => exact ⟨after.fits_iff.mpr (before.fits_iff.mp h), Or.inl rfl⟩
  | breakDown before | beginPooling before => exact ⟨before.fits_iff.mp h, Or.inl rfl⟩
  | decideFinal now =>
      rw [now] at h
      exact ⟨⟨h, finalState_isFinal r.control⟩, Or.inl rfl⟩
  | showFinal now =>
      rw [now] at h
      exact ⟨⟨rfl, h.2⟩, Or.inr (.finish h.1 h.2)⟩
  | report now =>
      rw [now] at h
      exact ⟨h, Or.inl rfl⟩

theorem drain_state (c : RunControl) : c.drain.state = c.state ∨ c.state = .running ∧ c.drain.state = .draining := by
  unfold RunControl.drain
  split
  · rename_i hrunning
    exact Or.inr ⟨by simpa using hrunning, rfl⟩
  · exact Or.inl rfl

theorem shifts_drain (h : r.stage.Fits r.control.state) : Shifts r.control.state r.drain := by
  rcases drain_state r.control with he | ⟨hrunning, hdraining⟩
  · refine ⟨?_, Or.inl he⟩
    show r.stage.Fits r.control.drain.state
    rw [he]
    exact h
  · refine ⟨?_, Or.inr ?_⟩
    · show r.stage.Fits r.control.drain.state
      rw [hrunning] at h
      rw [hdraining]
      -- A run that has ended is not running.
      unfold RunStage.Fits at h ⊢
      split at h <;> grind [RunState.IsUnderway, RunState.IsFinal]
    · show r.control.state.Next r.control.drain.state
      rw [hrunning, hdraining]
      exact .drain

theorem Evolves.shifts (h : r.Evolves s) (hfits : r.stage.Fits r.control.state) : Shifts r.control.state s := by
  cases h with
  | stay | noteReason | tell => exact ⟨hfits, Or.inl rfl⟩
  | advance => exact r.proceeds_advance.shifts hfits
  | drain => exact shifts_drain hfits
  | around own calm apart =>
      have hkeeps := keepsCourse_around (r := r) calm apart
      refine ⟨?_, Or.inl (congrArg _ hkeeps.control)⟩
      rw [hkeeps.stage, hkeeps.control]
      exact hfits

end Run

end PageAudit
