import PageAudit.Proofs.Pool.Foregone
import PageAudit.Proofs.Run.Leading
import PageAudit.Proofs.Run.Parts

/-!
# Runs without audits

A run whose plan is refused does nothing at all. One that was cancelled before it began sweeps, calls all jobs off and
ends as aborted, without a browser.
-/

namespace PageAudit

open Pool Supervisor

/-- The run has not failed, and if its end is decided, it is aborted. -/
def RunStage.Aborts : RunStage → Prop
  | .showing _ _ _ state | .reporting _ _ _ state => state = .aborted
  | .ended (.ok report) => report.state = .aborted
  | .ended (.error _) => False
  | _ => True

theorem RunStage.IsOpen.aborts {stage : RunStage} (h : stage.IsOpen) : stage.Aborts := by
  cases stage with
  | showing | reporting | ended | broken => exact h.elim
  | _ => trivial

/-- No kill of the coordinator has broken down. -/
def RunStage.Unbroken : RunStage → Prop
  | .sweeping k | .releasing _ _ k | .clearing _ _ k => k.broken = none
  | .broken _ => False
  | _ => True

namespace Run

variable {start r s : Run} {plan : List Job} {a : RunAction} {e : PlanError}

/-! ## Plans that are refused -/

/-- A run of a plan that is refused has touched nothing. -/
structure Refused (r start : Run) (e : PlanError) : Prop where
  config : r.config.validate = .ok ()
  plan : validatePlan r.plan = .error e
  stage : r.stage = .idle ∨ r.stage = .ended (.error (.plan e))
  site : ∃ clock, r.session.site = start.session.site.elapse clock
  events : r.events = []

theorem Refused.advance (h : r.Refused start e) :
    r.advance.Refused start e ∧ r.advance.stage = .ended (.error (.plan e)) := by
  rcases h.stage with hstage | hstage
  · have he : r.advance = r.refuse (.plan e) := by
      unfold Run.advance
      rw [hstage]
      dsimp only
      unfold Run.enter
      rw [h.config, h.plan]
    rw [he]
    exact ⟨{ h with stage := Or.inr rfl, events := h.events }, rfl⟩
  · have he : r.advance = r := by
      unfold Run.advance
      simp only [hstage, Run.step]
    rw [he]
    exact ⟨h, hstage⟩

theorem Refused.evolves (h : r.Refused start e) (hr : r.Evolves s) : s.Refused start e := by
  cases hr with
  | stay | noteReason | drain | tell => exact { h with events := h.events }
  | advance => exact h.advance.1
  | @around a _ calm apart =>
      have hkeeps := keepsCourse_around (r := r) calm apart
      have hunqueued : r.hasQueued = false := by
        unfold hasQueued
        rcases h.stage with hs | hs <;> rw [hs]
      rcases r.around_cases a with ⟨he, _⟩ | ⟨he, hp | ⟨now, rfl⟩⟩
      · rw [he]
        exact h
      · exact Bool.noConfusion (hunqueued.symm.trans hp)
      · obtain ⟨_, hsite⟩ := h.site
        rw [he]
        refine { h with site := ⟨now, ?_⟩, events := h.events }
        show r.session.site.elapse now = _
        rw [hsite]
        rfl

theorem Refused.evolved (h : r.Refused start e) (hr : Relation.ReflTransGen Evolves r s) : s.Refused start e := by
  induction hr with
  | refl => exact h
  | tail _ hstep ih => exact ih.evolves hstep

/-! ## Runs that are cancelled before they begin -/

theorem Grounded.enter (h : r.Grounded plan) (hclosing : r.closing = []) : r.enter.Orderly plan := by
  unfold Run.enter
  split
  · exact ⟨{ h with }, trivial⟩
  · exact ⟨{ h with }, trivial⟩
  · exact (h.withSupervisor (Kills.ofSweep r.supervisor).1).sweepOn hclosing _

theorem Orderly.advance (h : r.Orderly plan) : r.advance.Orderly plan := by
  unfold Run.advance
  cases hstage : r.stage with
  | idle =>
      obtain ⟨hg, hp⟩ := h
      rw [hstage] at hp
      exact hg.enter hp
  | _ => exact h.step

theorem recedes_enter (r : Run) : Recedes r.supervisor r.enter.supervisor := by
  unfold enter
  split
  · exact .refl _
  · exact .refl _
  · exact (recedes_beginSweep _).trans (recedes_sweepOn (r.withSupervisor (Kills.ofSweep r.supervisor).1) _)

theorem recedes_advance (r : Run) : Recedes r.supervisor r.advance.supervisor := by
  unfold advance
  cases r.stage with
  | idle => exact r.recedes_enter
  | _ => exact r.recedes_step

/-- A run of an accepted plan that was cancelled before it began; `begun` is its supervisor at the beginning. -/
structure Foregone (r : Run) (begun : Supervisor) (plan : List Job) : Prop where
  config : r.config.validate = .ok ()
  accepted : validatePlan plan = .ok ()
  told : r.control.cancelled = true
  orderly : r.Orderly plan
  session : r.session.Foregone plan
  recedes : Recedes begun r.supervisor
  stage : r.stage.Aborts
  unbroken : begun.launcher.Steady → r.stage.Unbroken

variable {begun : Supervisor}

/-! ### Kills that do not break down -/

theorem unbroken_killOn {k : Kills} {stage : Kills → RunStage} {next : Kills → Run → Run}
    (hs : r.supervisor.launcher.Steady) (hk : k.broken = none) (hstage : ∀ k, k.broken = none → (stage k).Unbroken)
    (hnext : ∀ (k : Kills) (s : Run), s.supervisor.launcher.Steady → (next k s).stage.Unbroken) :
    (r.killOn k stage next).stage.Unbroken := by
  have hpolled := Kills.poll_broken hs hk
  refine killOn_induct (motive := fun s => s.stage.Unbroken) (fun _ => hstage _ hpolled) (fun _ _ => hnext _ _ ?_)
    fun _ _ hbroken => ?_
  · exact (k.recedes_poll r.supervisor).launcher ▸ hs
  · exact absurd (hpolled.symm.trans hbroken) nofun

theorem unbroken_clearOn {initial : SweepReport} {results : List Result} {k : Kills}
    (hs : r.supervisor.launcher.Steady) (hk : k.broken = none) : (r.clearOn initial results k).stage.Unbroken :=
  unbroken_killOn hs hk (fun _ h => h) fun _ _ _ => trivial

theorem unbroken_releaseOn {initial : SweepReport} {results : List Result} {k : Kills}
    (hs : r.supervisor.launcher.Steady) (hk : k.broken = none) : (r.releaseOn initial results k).stage.Unbroken :=
  unbroken_killOn hs hk (fun _ h => h) fun _ s hs =>
    unbroken_clearOn (r := s.withSupervisor (Kills.ofSweep s.supervisor).1) hs rfl

theorem unbroken_collect {initial : SweepReport} (hs : r.supervisor.launcher.Steady) (h : r.stage.Unbroken) :
    (r.collect initial).stage.Unbroken := by
  unfold Run.collect
  split
  · exact h
  · have hdrained : ({ r with closing := r.missingEvents }.withSupervisor
        (Kills.ofAll r.supervisor).1).supervisor.launcher.Steady := hs
    exact unbroken_releaseOn hdrained rfl

theorem unbroken_sweepOn {k : Kills} (hs : r.supervisor.launcher.Steady) (hk : k.broken = none) :
    (r.sweepOn k).stage.Unbroken :=
  unbroken_killOn hs hk (fun _ h => h) fun _ _ _ => trivial

theorem unbroken_advance (hs : r.supervisor.launcher.Steady) (h : r.stage.Unbroken) : r.advance.stage.Unbroken := by
  unfold Run.advance Run.step
  cases hstage : r.stage with
  | idle =>
      dsimp only
      unfold Run.enter
      split
      · trivial
      · trivial
      · exact unbroken_sweepOn (r := r.withSupervisor (Kills.ofSweep r.supervisor).1) hs rfl
  | pooling => exact unbroken_collect hs h
  | sweeping =>
      rw [hstage] at h
      exact unbroken_sweepOn hs h
  | releasing =>
      rw [hstage] at h
      exact unbroken_releaseOn hs h
  | clearing =>
      rw [hstage] at h
      exact unbroken_clearOn hs h
  | deciding | showing | reporting => trivial
  | ended | broken => exact h

/-! ### What such a run does -/

theorem Foregone.enter_eq (h : r.Foregone begun plan) :
    r.enter = (r.withSupervisor (Kills.ofSweep r.supervisor).1).sweepOn (Kills.ofSweep r.supervisor).2 := by
  unfold Run.enter
  rw [h.config, h.orderly.1.plan_eq, h.accepted]

/-- It is not refused, and it ends as aborted. -/
theorem Foregone.aborts (h : r.Foregone begun plan) (hr : r.Proceeds s) : s.stage.Aborts := by
  have hstage := h.stage
  cases hr with
  | stay => exact hstage
  | refuse _ fault =>
      rcases fault with ⟨_, _, hconfig⟩ | ⟨_, _, hplan⟩
      · cases hconfig.symm.trans h.config
      · rw [h.orderly.1.plan_eq] at hplan
        cases hplan.symm.trans h.accepted
  | goOn _ _ _ after => exact after.aborts
  | beginPooling | breakDown => trivial
  | decideFinal => exact if_pos h.told
  | showFinal now | report now =>
      rw [now] at hstage
      exact hstage

theorem Foregone.advance (h : r.Foregone begun plan) : r.advance.Foregone begun plan := by
  have hkeeps := r.proceeds_advance.keepsTask
  obtain ⟨_, hcontrol⟩ := hkeeps.control
  obtain ⟨supervisor, pressure, hsession⟩ := r.proceeds_advance.touched
  exact {
    config := hkeeps.config ▸ h.config
    accepted := h.accepted
    told := (congrArg (·.cancelled) hcontrol).trans h.told
    orderly := h.orderly.advance
    session := hsession ▸ h.session.of_pool (h.session.pool.news (.firstPressure pressure))
    recedes := h.recedes.trans r.recedes_advance
    stage := h.aborts r.proceeds_advance
    unbroken := fun hs => unbroken_advance (h.recedes.launcher ▸ hs) (h.unbroken hs) }

/-- The pool of such a run has no attempts. -/
theorem Foregone.session_perform (h : r.Foregone begun plan) (own : a.IsOwn) (calm : ¬ a.Cancels)
    (apart : a ≠ .poll .coordinator) : (r.perform a).session.Foregone plan := by
  have hnews : ∀ {p : Pool}, News r.session.pool p → ∀ site,
      ({ r.session with site, pool := p } : PoolSession).Foregone plan := fun hp _ =>
    h.session.of_pool (h.session.pool.news hp)
  cases a with
  | elapse now => exact hnews (.elapse now) (r.session.site.elapse now)
  | cancel => exact absurd trivial calm
  | disturb => exact own.elim
  | reach i =>
      cases i with
      | elapse now => exact hnews (.elapse _) r.session.site
      | cancel => exact absurd trivial calm
      | pressure m => exact hnews (.pressure m) r.session.site
      | pressureClosed => exact hnews .closed r.session.site
      | report | released | launcherBroke => exact own.elim
      | turn => exact h.session.of_pool (h.session.pool.step_turn h.orderly.1.sound)
  | poll t =>
      cases t with
      | coordinator => exact absurd rfl apart
      | monitor =>
          obtain ⟨pressure, fresh, he⟩ := r.pollMonitor_session
          show r.pollMonitor.session.Foregone plan
          rw [he]
          exact h.session.of_pool { h.session.pool with }
      | part t =>
          cases t with
          | turns => exact (h.session.pollPool h.orderly.1.sound).1
          | background => exact h.session.of_pool h.session.pool
          | attempt seq =>
              show (r.session.pollAttempt seq).Foregone plan
              rw [h.session.pollAttempt]
              exact h.session

theorem Foregone.evolves (h : r.Foregone begun plan) (hr : r.Evolves s) : s.Foregone begun plan := by
  cases hr with
  | stay | noteReason => exact { h with orderly := ⟨{ h.orderly.1 with }, h.orderly.2⟩ }
  | drain =>
      refine { h with told := ?_, orderly := ⟨{ h.orderly.1 with }, h.orderly.2⟩ }
      show r.control.drain.cancelled = true
      unfold RunControl.drain
      split <;> exact h.told
  | tell =>
      exact { h with
        told := rfl
        orderly := h.orderly.aside ⟨rfl, rfl, rfl, rfl, News.cancel.moves, Or.inl rfl⟩
        session := h.session.of_pool (h.session.pool.news .cancel) }
  | advance => exact h.advance
  | @around a own calm apart =>
      have hkeeps := keepsCourse_around (r := r) calm apart
      rcases r.around_cases a with ⟨he, _⟩ | ⟨he, _⟩
      · rw [he]
        exact h
      · have hflying : ∀ seq, r.session.pool.isInFlight seq = true → r.session.pool.hardStopped = true := by
          simp [isInFlight, h.session.pool.inFlight]
        have hundisturbed : ∀ site, a ≠ .disturb site := fun site ha => by
          subst ha
          exact own
        rw [he] at hkeeps ⊢
        exact {
          config := hkeeps.config ▸ h.config
          accepted := h.accepted
          told := hkeeps.control ▸ h.told
          orderly := h.orderly.perform a
          session := h.session_perform own calm apart
          recedes := h.recedes.trans (recedes_perform hflying a hundisturbed)
          stage := hkeeps.stage ▸ h.stage
          unbroken := hkeeps.stage ▸ h.unbroken }

theorem Foregone.evolved (h : r.Foregone begun plan) (hr : Relation.ReflTransGen Evolves r s) :
    s.Foregone begun plan := by
  induction hr with
  | refl => exact h
  | tail _ hstep ih => exact ih.evolves hstep

/-! ### The report -/

/-- Every job is called off as it was. -/
theorem Foregone.calledOff (h : r.Foregone begun plan) {report : RunReport} (hended : r.stage = .ended (.ok report)) :
    List.Forall₂ (fun job result => ∃ t reason, result = .cancelled job t reason) plan report.results := by
  have haccepted := AcceptedPlan.of_validate h.accepted
  have hplan := h.orderly.1.plan_eq
  have hpromised := h.orderly.2
  rw [hended] at hpromised
  obtain ⟨_, t, hresults, _⟩ := hpromised
  rw [hresults, hplan, List.forall₂_map_right_iff, List.forall₂_iff_get]
  refine ⟨List.length_zipIdx.symm, fun i hi hi' => ?_⟩
  simp only [List.get_eq_getElem, List.getElem_zipIdx, Nat.zero_add]
  cases hat : r.resultAt? i with
  | none => exact ⟨_, _, rfl⟩
  | some result =>
      obtain ⟨x, hx, rfl, hindex⟩ := resultAt?_some hat
      obtain ⟨job, hjob, t, reason, he⟩ := h.session.pool.results x hx
      have hposition : job.planIndex = plan[i].planIndex := by
        rw [haccepted.planIndex_eq (List.getElem?_eq_getElem hi), ← hindex, he]
        rfl
      obtain rfl := List.inj_on_of_nodup_map haccepted.nodup hjob (List.getElem_mem hi) hposition
      exact ⟨t, reason, he⟩

end Run

end PageAudit
