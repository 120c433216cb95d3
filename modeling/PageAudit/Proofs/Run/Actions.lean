import PageAudit.Proofs.Plan
import PageAudit.Proofs.Pool.Endings
import PageAudit.Proofs.Pool.Session
import PageAudit.Proofs.Run.Steps
import PageAudit.Simulation.RunOverTime

/-!
# What happens to a run

A run goes on by polls of its tasks in any order, while time passes, anything reaches its pool between two turns, the
engine and the launcher do as they like, and it may be cancelled at any time. Its pool stays sound, and the results
are collected only once the pool has ended, so that nothing changes them afterwards.
-/

namespace PageAudit

open Pool

/-- What happens to a run. -/
inductive RunAction where
  | poll (t : RunTask)
  | elapse (now : Nat)
  | cancel (reason : String)
  /-- Something reaches the pool between two of its turns, or the pool takes just one turn. -/
  | reach (i : PoolInput)
  /-- The browsers, their launcher or the engine become other than they were. -/
  | disturb (site : Site)

namespace Run

/-- What follows an action. -/
def perform (r : Run) : RunAction → Run
  | .poll t => r.poll t
  | .elapse now => r.elapse now
  | .cancel reason => r.cancel reason
  | .reach i => { r with session := { r.session with pool := r.session.pool.step i } }
  | .disturb site => { r with session := { r.session with site } }

/-- What follows actions in order. -/
def after (r : Run) (actions : List RunAction) : Run :=
  actions.foldl perform r

/-! ## What has been collected -/

/-- The jobs for which the pool gave no result, with their positions. -/
def missing (r : Run) : List (Job × Nat) :=
  r.plan.zipIdx.filter fun x => (r.resultAt? x.2).isNone

/-- The results and the events that complete them were collected at one time after the end of the pool. -/
def Settled (r : Run) (results : List Result) : Prop :=
  r.session.pool.phase = .ended ∧ ∃ t,
    results = (r.plan.zipIdx.map fun x => (r.resultAt? x.2).getD (.cancelled x.1 t missingReason)) ∧
    r.closing = r.missing.map fun x => (t, .cancelled x.1.id x.1.attempt)

/-- What a stage promises of the results. -/
def Promised (r : Run) : RunStage → Prop
  | .idle | .sweeping _ | .pooling _ => r.closing = []
  | .releasing _ results _ | .clearing _ results _ | .deciding _ _ results | .showing _ _ results _
  | .reporting _ _ results _ => r.Settled results
  | .ended (.ok report) => r.Settled report.results
  | .ended (.error _) => True
  | .broken _ => r.closing = [] ∨ ∃ results, r.Settled results

/-- A run works through a plan with a sound pool, and it knows when that has ended. -/
structure Grounded (r : Run) (plan : List Job) : Prop where
  plan_eq : r.plan = plan
  sound : Sound plan r.session.pool
  told : Told r.session.pool
  ended : r.session.endedAt.isSome = true → r.session.pool.phase = .ended
  opening : ∀ x ∈ r.opening, x.2.isTerminal = false

/-- A run is grounded and keeps what its stage promises. -/
def Orderly (r : Run) (plan : List Job) : Prop :=
  r.Grounded plan ∧ r.Promised r.stage

variable {r s : Run} {plan : List Job} {initial final : SweepReport} {results : List Result}

/-! ## The coordinator -/

theorem missingEvents_eq (r : Run) :
    r.missingEvents = r.missing.map fun x => (r.clock, .cancelled x.1.id x.1.attempt) := by
  unfold missingEvents missing
  generalize r.plan.zipIdx = xs
  induction xs with
  | nil => rfl
  | cons x xs ih =>
      cases hx : r.resultAt? x.2 with
      | none => simp [hx, ih]
      | some result => simp [hx, ih]

theorem Grounded.withSupervisor (h : r.Grounded plan) (supervisor : Supervisor) :
    (r.withSupervisor supervisor).Grounded plan :=
  { h with }

theorem Grounded.clearOn (h : r.Grounded plan) (hs : r.Settled results) (k : Kills) :
    (r.clearOn initial results k).Orderly plan :=
  killOn_induct (motive := fun s => s.Orderly plan) (fun _ => ⟨{ h with }, hs⟩) (fun _ _ => ⟨{ h with }, hs⟩)
    fun _ _ _ => ⟨{ h with }, Or.inr ⟨results, hs⟩⟩

theorem Grounded.beginClearing (h : r.Grounded plan) (hs : r.Settled results) :
    (r.beginClearing initial results).Orderly plan := by
  unfold Run.beginClearing
  exact (h.withSupervisor (Kills.ofSweep r.supervisor).1).clearOn hs _

theorem Grounded.releaseOn (h : r.Grounded plan) (hs : r.Settled results) (k : Kills) :
    (r.releaseOn initial results k).Orderly plan :=
  killOn_induct (motive := fun s => s.Orderly plan) (fun _ => ⟨{ h with }, hs⟩)
    (fun _ _ => (h.withSupervisor _).beginClearing hs) fun _ _ _ => ⟨{ h with }, Or.inr ⟨results, hs⟩⟩

theorem Grounded.collect (h : r.Grounded plan) (hstage : r.stage = .pooling initial) (hclosing : r.closing = []) :
    (r.collect initial).Orderly plan := by
  unfold Run.collect
  split
  · exact ⟨h, by rw [hstage]; exact hclosing⟩
  · rename_i hended
    have hphase := h.ended (by simpa [Option.isSome_iff_ne_none] using hended)
    have hclosed : ({ r with closing := r.missingEvents } : Run).Grounded plan := { h with }
    have hsettled : ({ r with closing := r.missingEvents } : Run).Settled r.collected :=
      ⟨hphase, r.clock, rfl, r.missingEvents_eq⟩
    exact (hclosed.withSupervisor (Kills.ofAll r.supervisor).1).releaseOn hsettled _

theorem Grounded.beginPooling (h : r.Grounded plan) (hclosing : r.closing = []) :
    (r.beginPooling initial).Orderly plan := by
  refine ⟨?_, hclosing⟩
  exact {
    plan_eq := h.plan_eq
    sound := h.sound.news (.firstPressure _)
    told := kept_told.news h.sound h.told (.firstPressure _)
    ended := h.ended
    opening := by
      intro x hx
      obtain ⟨job, _, rfl⟩ := List.mem_map.mp hx
      rfl }

theorem Grounded.sweepOn (h : r.Grounded plan) (hclosing : r.closing = []) (k : Kills) :
    (r.sweepOn k).Orderly plan :=
  killOn_induct (motive := fun s => s.Orderly plan) (fun _ => ⟨{ h with }, hclosing⟩)
    (fun _ _ => (h.withSupervisor _).beginPooling hclosing) fun _ _ _ => ⟨{ h with }, Or.inl hclosing⟩

theorem Grounded.begin (h : r.Grounded plan) (hclosing : r.closing = []) : r.begin.Orderly plan := by
  unfold Run.begin
  split
  · exact ⟨{ h with }, trivial⟩
  · rename_i control _
    have hbegun : ({ r with control } : Run).Grounded plan := { h with }
    dsimp only
    split
    · exact ⟨{ h with }, trivial⟩
    · exact ⟨{ h with }, trivial⟩
    · exact (hbegun.withSupervisor _).sweepOn hclosing _

/-- A step of the coordinator keeps what the stages promise. -/
theorem Orderly.step (h : r.Orderly plan) : r.step.Orderly plan := by
  obtain ⟨hg, hp⟩ := h
  unfold Run.step
  cases hstage : r.stage with
  | idle =>
      rw [hstage] at hp
      exact hg.begin hp
  | sweeping k =>
      rw [hstage] at hp
      exact hg.sweepOn hp k
  | pooling initial =>
      rw [hstage] at hp
      exact hg.collect hstage hp
  | releasing initial results k =>
      rw [hstage] at hp
      exact hg.releaseOn hp k
  | clearing initial results k =>
      rw [hstage] at hp
      exact hg.clearOn hp k
  | deciding initial final results | showing initial final results state | reporting initial final results state =>
      rw [hstage] at hp
      exact ⟨{ hg with }, hp⟩
  | ended | broken => exact ⟨hg, hp⟩

/-- A poll of the coordinator is a step and some more of them. -/
theorem pollCoordinator_induct {motive : Run → Prop} (first : motive r.step)
    (next : ∀ s : Run, motive s → motive s.step) : motive r.pollCoordinator := by
  have hagain : ∀ s : Run, motive s → motive (if s.isClosing then s.step else s) := by
    intro s hs
    split
    · exact next s hs
    · exact hs
  exact hagain _ (hagain _ (hagain _ first))

theorem Orderly.pollCoordinator (h : r.Orderly plan) : r.pollCoordinator.Orderly plan :=
  pollCoordinator_induct (motive := fun s => s.Orderly plan) h.step fun _ hs => hs.step

/-! ## The other tasks -/

/-- The run is as before but for its pool, which has moved. -/
structure Aside (r s : Run) : Prop where
  plan : s.plan = r.plan
  stage : s.stage = r.stage
  opening : s.opening = r.opening
  closing : s.closing = r.closing
  moves : Moves r.session.pool s.session.pool
  endedAt : s.session.endedAt = r.session.endedAt ∨ s.session.pool.phase = .ended

/-- What was collected stays as it is while the pool moves. -/
theorem Settled.aside (h : r.Settled results) (ha : Aside r s) : s.Settled results := by
  obtain ⟨hphase, t, hresults, hclosing⟩ := h
  have hfinal := ha.moves.final hphase
  have hat : s.resultAt? = r.resultAt? := by
    funext index
    rw [resultAt?, hfinal.results, resultAt?]
  refine ⟨hfinal.phase, t, ?_, ?_⟩
  · rw [ha.plan, hat]
    exact hresults
  · rw [missing, ha.plan, hat, ha.closing]
    exact hclosing

theorem Orderly.aside (h : r.Orderly plan) (ha : Aside r s) : s.Orderly plan := by
  obtain ⟨hg, hp⟩ := h
  -- The run cannot be past the pooling with a pool that goes on: a pool whose end was noted is final.
  refine ⟨?_, ?_⟩
  · exact {
      plan_eq := ha.plan.trans hg.plan_eq
      sound := hg.sound.moves ha.moves
      told := kept_told.moves hg.sound hg.told ha.moves
      ended := by
        intro hended
        rcases ha.endedAt with he | hphase
        · exact (ha.moves.final (hg.ended (he ▸ hended))).phase
        · exact hphase
      opening := by
        rw [ha.opening]
        exact hg.opening }
  · rw [ha.stage]
    cases hstage : r.stage with
    | idle | sweeping | pooling =>
        rw [hstage] at hp
        exact ha.closing.trans hp
    | releasing | clearing | deciding | showing | reporting =>
        rw [hstage] at hp
        exact hp.aside ha
    | ended outcome =>
        rw [hstage] at hp
        cases outcome with
        | ok report => exact hp.aside ha
        | error e => trivial
    | broken =>
        rw [hstage] at hp
        exact hp.imp ha.closing.trans fun ⟨results, hs⟩ => ⟨results, hs.aside ha⟩

theorem aside_pollMonitor (r : Run) : Aside r r.pollMonitor := by
  unfold pollMonitor
  split
  · split
    · exact ⟨rfl, rfl, rfl, rfl, Relation.ReflTransGen.refl, Or.inl rfl⟩
    · dsimp only
      split
      · exact ⟨rfl, rfl, rfl, rfl, (News.pressure _).moves, Or.inl rfl⟩
      · exact ⟨rfl, rfl, rfl, rfl, Relation.ReflTransGen.refl, Or.inl rfl⟩
  · exact ⟨rfl, rfl, rfl, rfl, Relation.ReflTransGen.refl, Or.inl rfl⟩

/-- Only the coordinator takes the run to another stage; everything else moves the pool at most. -/
theorem Grounded.perform_aside (h : r.Grounded plan) (a : RunAction) :
    r.perform a = r.pollCoordinator ∨ Aside r (r.perform a) := by
  cases a with
  | elapse now => exact Or.inr ⟨rfl, rfl, rfl, rfl, (News.elapse now).moves, Or.inl rfl⟩
  | cancel reason => exact Or.inr ⟨rfl, rfl, rfl, rfl, News.cancel.moves, Or.inl rfl⟩
  | reach i => exact Or.inr ⟨rfl, rfl, rfl, rfl, h.sound.step_moves i, Or.inl rfl⟩
  | disturb site => exact Or.inr ⟨rfl, rfl, rfl, rfl, Relation.ReflTransGen.refl, Or.inl rfl⟩
  | poll t =>
      cases t with
      | coordinator => exact Or.inl rfl
      | monitor => exact Or.inr r.aside_pollMonitor
      | part t =>
          exact Or.inr ⟨rfl, rfl, rfl, rfl, PoolSession.moves_poll h.sound t, r.session.poll_endedAt t⟩

theorem Orderly.perform (h : r.Orderly plan) (a : RunAction) : (r.perform a).Orderly plan := by
  rcases h.1.perform_aside a with he | ha
  · rw [he]
    exact h.pollCoordinator
  · exact h.aside ha

theorem Orderly.after (h : r.Orderly plan) (actions : List RunAction) : (r.after actions).Orderly plan := by
  induction actions generalizing r with
  | nil => exact h
  | cons a rest ih => exact ih (h.perform a)

/-- A run of a plan that is accepted is orderly from the beginning. -/
theorem Orderly.ofPlan {config : Config} {site : Site} {draws : Nat → Nat → Nat}
    {probe : Nat → Except ProbeError MemoryReading} (h : Run.ofPlan? config plan site draws probe = some r)
    (hplan : AcceptedPlan plan) : r.Orderly plan := by
  obtain ⟨pool, hpool, rfl⟩ := Option.map_eq_some_iff.mp h
  have hsound := Sound.submit hpool ⟨hplan.queued, hplan.nodup⟩
  have htold : Told pool := by
    obtain ⟨_, _, _, rfl⟩ := submit?_eq hpool
    exact .nil
  exact ⟨⟨rfl, hsound, htold, fun he => Bool.noConfusion he, fun _ hx => absurd hx List.not_mem_nil⟩, rfl⟩

/-! ## The pool of a run -/

theorem clearOn_pool (r : Run) (k : Kills) : (r.clearOn initial results k).session.pool = r.session.pool :=
  killOn_induct (motive := fun s => s.session.pool = r.session.pool) (fun _ => rfl) (fun _ _ => rfl) fun _ _ _ => rfl

theorem releaseOn_pool (r : Run) (k : Kills) : (r.releaseOn initial results k).session.pool = r.session.pool :=
  killOn_induct (motive := fun s => s.session.pool = r.session.pool) (fun _ => rfl) (fun _ _ => clearOn_pool ..)
    fun _ _ _ => rfl

theorem collect_pool (r : Run) : (r.collect initial).session.pool = r.session.pool := by
  unfold collect
  split
  · rfl
  · exact releaseOn_pool ..

theorem sweepOn_pool (r : Run) (k : Kills) :
    ∃ pressure, (r.sweepOn k).session.pool = { r.session.pool with pressure } :=
  killOn_induct (motive := fun s => ∃ pressure, s.session.pool = { r.session.pool with pressure }) (fun _ => ⟨_, rfl⟩)
    (fun _ _ => ⟨_, rfl⟩) fun _ _ _ => ⟨_, rfl⟩

theorem begin_pool (r : Run) : ∃ pressure, r.begin.session.pool = { r.session.pool with pressure } := by
  unfold begin
  split
  · exact ⟨_, rfl⟩
  · rename_i control _
    dsimp only
    split
    · exact ⟨_, rfl⟩
    · exact ⟨_, rfl⟩
    · exact sweepOn_pool ({ r with control }.withSupervisor (Kills.ofSweep r.supervisor).1) _

theorem step_pool (r : Run) : ∃ pressure, r.step.session.pool = { r.session.pool with pressure } := by
  unfold step
  cases r.stage with
  | idle => exact r.begin_pool
  | sweeping k => exact r.sweepOn_pool k
  | pooling => exact ⟨_, r.collect_pool⟩
  | releasing _ _ k => exact ⟨_, r.releaseOn_pool k⟩
  | clearing _ _ k => exact ⟨_, r.clearOn_pool k⟩
  | deciding | showing | reporting | ended | broken => exact ⟨_, rfl⟩

/-- The coordinator leaves the pool as it is, but for the first reading of the memory. -/
theorem pollCoordinator_pool (r : Run) :
    ∃ pressure, r.pollCoordinator.session.pool = { r.session.pool with pressure } := by
  refine pollCoordinator_induct
    (motive := fun s => ∃ pressure, s.session.pool = { r.session.pool with pressure }) r.step_pool ?_
  rintro s ⟨_, hs⟩
  obtain ⟨pressure, he⟩ := s.step_pool
  exact ⟨pressure, he.trans (by rw [hs])⟩

/-- The monitor has at most news for the pool. -/
theorem pollMonitor_session (r : Run) :
    ∃ pressure fresh, r.pollMonitor.session =
      { r.session with pool := { r.session.pool with pressure, pressureFresh := fresh } } := by
  unfold pollMonitor
  split
  · split
    · exact ⟨_, _, rfl⟩
    · dsimp only
      split <;> exact ⟨_, _, rfl⟩
  · exact ⟨_, _, rfl⟩

/-- Whatever happens to a run, its pool only moves. -/
theorem Orderly.after_moves (h : r.Orderly plan) (actions : List RunAction) :
    Moves r.session.pool (r.after actions).session.pool := by
  induction actions generalizing r with
  | nil => exact Relation.ReflTransGen.refl
  | cons a rest ih =>
      refine Relation.ReflTransGen.trans ?_ (ih (h.perform a))
      rcases h.1.perform_aside a with he | ha
      · obtain ⟨pressure, hpool⟩ := r.pollCoordinator_pool
        rw [he, hpool]
        exact (News.firstPressure pressure).moves
      · exact ha.moves

end Run

/-! ## Runs over time -/

namespace RunOverTime

variable {r : Run} {x : RunOverTime}

/-- A run over time has come from a run by actions. -/
def From (r : Run) (x : RunOverTime) : Prop :=
  ∃ actions, x.run = r.after actions

theorem From.perform (h : From r x) (a : RunAction) {y : RunOverTime} (hy : y.run = x.run.perform a) :
    From r y := by
  obtain ⟨actions, he⟩ := h
  exact ⟨actions ++ [a], by rw [hy, he, Run.after, Run.after, List.foldl_append]; rfl⟩

theorem noteState_run (x : RunOverTime) : x.noteState.run = x.run := by
  unfold noteState
  dsimp only
  split <;> rfl

theorem From.poll (h : From r x) (t : TimedRunTask) : From r (x.poll t) := by
  unfold RunOverTime.poll
  cases t with
  | part t => exact h.perform (.poll t) (noteState_run _)
  | cancellation n =>
      dsimp only
      split
      · exact h.perform (.cancel _) (noteState_run _)
      · obtain ⟨actions, he⟩ := h
        exact ⟨actions, (noteState_run _).trans he⟩

/-- Whatever the order in which its tasks are polled, a run over time goes on by actions. -/
theorem From.run {e : Execution RunOverTime TimedRunTask} (h : From r e.state) (stop : RunOverTime → Bool)
    (limit : Option Nat) (fuel : Nat) : From r (e.run system stop limit fuel).state := by
  induction fuel generalizing e with
  | zero => exact h
  | succ fuel ih =>
      unfold Execution.run
      split
      · exact h
      · split
        · rename_i next hnext
          refine ih ?_
          unfold Execution.step? at hnext
          split at hnext
          · cases hnext
            exact h.poll _
          · split at hnext
            · cases hnext
            · split at hnext
              · cases hnext
              · cases hnext
                exact h.perform (.elapse _) rfl
        · exact h

end RunOverTime

end PageAudit
