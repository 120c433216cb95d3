import PageAudit.Run.Coordinator

/-!
# Steps of a run

All that a step of the coordinator can do, said once: what a step keeps is shown by cases on it.
-/

namespace PageAudit

open Pool

/-- Nothing of the end of the run is decided yet. -/
def RunStage.IsOpen : RunStage → Prop
  | .showing .. | .reporting .. | .ended _ | .broken _ => False
  | _ => True

namespace Run

variable {r s : Run}

/-- Checks the configuration and the plan of a run that has begun, and begins the first sweep. -/
def enter (r : Run) : Run :=
  match r.config.validate, validatePlan r.plan with
  | .error e, _ => r.refuse (.config e)
  | .ok (), .error e => r.refuse (.plan e)
  | .ok (), .ok () =>
    let (supervisor, k) := Kills.ofSweep r.supervisor
    (r.withSupervisor supervisor).sweepOn k

/-- One step of a run that has begun. -/
def advance (r : Run) : Run :=
  match r.stage with
  | .idle => r.enter
  | _ => r.step

/-- A run begins by a step that changes the state and one that checks what it was given. -/
theorem begin_eq (r : Run) : r.begin =
    match r.control.begin with
    | .error e => r.stop (.error (.run e))
    | .ok control => ({ r with control } : Run).enter := rfl

/-- What a step of a run that has begun does. -/
inductive Proceeds (r : Run) : Run → Prop where
  | stay : Proceeds r r
  | refuse {e : AppError} (idle : r.stage = .idle)
      (fault : (∃ c, e = .config c ∧ r.config.validate = .error c) ∨
        ∃ p, e = .plan p ∧ validatePlan r.plan = .error p) : Proceeds r (r.refuse e)
  /-- Browsers are killed, and the results may be collected. -/
  | goOn (before : r.stage.IsOpen) (supervisor : Supervisor) (closing : List (Nat × ProgressEvent)) {stage : RunStage}
      (after : stage.IsOpen) : Proceeds r { r.withSupervisor supervisor with closing, stage }
  /-- The launcher breaks down in a kill. -/
  | breakDown (before : r.stage.IsOpen) (supervisor : Supervisor) (closing : List (Nat × ProgressEvent))
      (message : String) : Proceeds r (({ r with closing } : Run).withSupervisor supervisor |>.breakDown message)
  | beginPooling (before : r.stage.IsOpen) (supervisor : Supervisor) (initial : SweepReport) :
      Proceeds r ((r.withSupervisor supervisor).beginPooling initial)
  | decideFinal {initial final : SweepReport} {results : List Result} (now : r.stage = .deciding initial final results) :
      Proceeds r (r.decideFinal initial final results)
  | showFinal {initial final : SweepReport} {results : List Result} {state : RunState}
      (now : r.stage = .showing initial final results state) : Proceeds r (r.showFinal initial final results state)
  | report {initial final : SweepReport} {results : List Result} {state : RunState}
      (now : r.stage = .reporting initial final results state) : Proceeds r (r.report initial final results state)

/-- What holds of a run whose row of kills goes on, of what follows a row that is done, and of a run that breaks down in
a kill holds of a run that goes on with the row. -/
theorem killOn_induct {motive : Run → Prop} {k : Kills} {stage : Kills → RunStage} {next : Kills → Run → Run}
    (goesOn : (k.poll r.supervisor).2.isDone = false →
      motive { r.withSupervisor (k.poll r.supervisor).1 with stage := stage (k.poll r.supervisor).2 })
    (ends : (k.poll r.supervisor).2.isDone = true → (k.poll r.supervisor).2.broken = none →
      motive (next (k.poll r.supervisor).2 (r.withSupervisor (k.poll r.supervisor).1)))
    (breaks : (k.poll r.supervisor).2.isDone = true → ∀ message, (k.poll r.supervisor).2.broken = some message →
      motive ((r.withSupervisor (k.poll r.supervisor).1).breakDown message)) : motive (r.killOn k stage next) := by
  unfold killOn
  dsimp only
  split
  · rename_i hdone
    split
    · rename_i hbroken
      exact ends hdone hbroken
    · rename_i message hbroken
      exact breaks hdone message hbroken
  · rename_i hopen
    exact goesOn (by simpa using hopen)

theorem proceeds_clearOn (before : r.stage.IsOpen) (closing : List (Nat × ProgressEvent)) (supervisor : Supervisor)
    (initial : SweepReport) (results : List Result) (k : Kills) :
    Proceeds r ((({ r with closing } : Run).withSupervisor supervisor).clearOn initial results k) :=
  killOn_induct (fun _ => .goOn before _ _ trivial) (fun _ _ => .goOn before _ _ trivial) fun _ message _ =>
    .breakDown before _ _ message

theorem proceeds_releaseOn (before : r.stage.IsOpen) (closing : List (Nat × ProgressEvent)) (supervisor : Supervisor)
    (initial : SweepReport) (results : List Result) (k : Kills) :
    Proceeds r ((({ r with closing } : Run).withSupervisor supervisor).releaseOn initial results k) :=
  killOn_induct (fun _ => .goOn before _ _ trivial) (fun _ _ => proceeds_clearOn before closing _ initial results _)
    fun _ message _ => .breakDown before _ _ message

theorem proceeds_sweepOn (before : r.stage.IsOpen) (supervisor : Supervisor) (k : Kills) :
    Proceeds r ((r.withSupervisor supervisor).sweepOn k) :=
  killOn_induct (fun _ => .goOn before _ _ trivial) (fun _ _ => .beginPooling before _ _) fun _ message _ =>
    .breakDown before _ _ message

theorem proceeds_enter (idle : r.stage = .idle) : Proceeds r r.enter := by
  unfold enter
  split
  · rename_i e hconfig
    exact .refuse idle (Or.inl ⟨e, rfl, hconfig⟩)
  · rename_i e _ hplan
    exact .refuse idle (Or.inr ⟨e, rfl, hplan⟩)
  · exact proceeds_sweepOn (idle ▸ trivial) _ _

theorem proceeds_collect {initial : SweepReport} (now : r.stage = .pooling initial) :
    Proceeds r (r.collect initial) := by
  unfold collect
  split
  · exact .stay
  · exact proceeds_releaseOn (now ▸ trivial) r.missingEvents (Kills.ofAll r.supervisor).1 _ _ _

theorem proceeds_step (begun : r.stage ≠ .idle) : Proceeds r r.step := by
  unfold step
  cases hstage : r.stage with
  | idle => exact absurd hstage begun
  | sweeping k => exact proceeds_sweepOn (hstage ▸ trivial) r.supervisor k
  | pooling initial => exact proceeds_collect hstage
  | releasing initial results k =>
      exact proceeds_releaseOn (hstage ▸ trivial) r.closing r.supervisor initial results k
  | clearing initial results k =>
      exact proceeds_clearOn (hstage ▸ trivial) r.closing r.supervisor initial results k
  | deciding => exact .decideFinal hstage
  | showing => exact .showFinal hstage
  | reporting => exact .report hstage
  | ended | broken => exact .stay

theorem proceeds_advance (r : Run) : Proceeds r r.advance := by
  unfold advance
  split
  · rename_i idle
    exact proceeds_enter idle
  · rename_i begun
    exact proceeds_step begun

/-- A run proceeds by a step, once it has begun; it begins once. -/
theorem step_cases (r : Run) : r.Proceeds r.step ∨ r.stage = .idle ∧ ((∃ e, r.step = r.stop (.error (.run e))) ∨
    ({ r with control := { r.control with state := .running } } : Run).Proceeds r.step) := by
  by_cases idle : r.stage = .idle
  · refine Or.inr ⟨idle, ?_⟩
    have hstep : r.step = r.begin := by
      unfold step
      rw [idle]
    rw [hstep, begin_eq, RunControl.begin]
    split
    · rename_i he
      split at he
      · cases he
      · exact Or.inl ⟨_, rfl⟩
    · rename_i he
      split at he
      · cases he
        exact Or.inr (proceeds_enter idle)
      · cases he
  · exact Or.inl (proceeds_step idle)

end Run

end PageAudit
