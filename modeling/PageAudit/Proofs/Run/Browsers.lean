import PageAudit.Proofs.Run.Draining
import PageAudit.Proofs.Run.Minding

/-!
# The browsers of a run

When a run ends it holds no browser, and every process that it started has ended, is noted for the next sweep, is still
being ended in the background, or was being ended by an attempt when the pool gave that up. The last are forgotten: the
final sweep does not know of them.
-/

namespace PageAudit

open Pool Supervisor

/-- The results have been collected. -/
def RunStage.isCollected : RunStage → Bool
  | .releasing .. | .clearing .. | .deciding .. | .showing .. | .reporting .. | .ended (.ok _) => true
  | _ => false

/-- The report of a run that has one. -/
def RunStage.report? : RunStage → Option RunReport
  | .ended (.ok report) => some report
  | _ => none

theorem RunStage.exists_report {stage : RunStage} (h : stage.report?.isSome = true) :
    ∃ report, stage = .ended (.ok report) := by
  unfold report? at h
  split at h
  · exact ⟨_, rfl⟩
  · exact Bool.noConfusion h

namespace Run

variable {r s : Run} {plan : List Job}

/-! ## Browsers that are held -/

/-- Once the results are collected, no browser is held. -/
def Cleared (r : Run) : Prop :=
  r.stage.isCollected = true → r.supervisor.registry.handles = []

theorem Cleared.of_recedes (h : r.Cleared) (hstage : s.stage.isCollected = true → r.stage.isCollected = true)
    (hrecedes : Recedes r.supervisor s.supervisor) : s.Cleared := fun hs =>
  List.sublist_nil.mp (h (hstage hs) ▸ hrecedes.handles)

theorem sweepOn_stage (r : Run) (k : Kills) : (r.sweepOn k).stage.isCollected = false :=
  killOn_induct (motive := fun s => s.stage.isCollected = false) (fun _ => rfl) (fun _ _ => rfl) fun _ _ _ => rfl

theorem begin_stage (r : Run) : r.begin.stage.isCollected = false := by
  unfold begin
  split
  · rfl
  · dsimp only
    split
    · rfl
    · rfl
    · exact sweepOn_stage ..

theorem Cleared.step (h : r.Cleared) : r.step.Cleared := by
  have hrecedes := r.recedes_step
  cases hstage : r.stage with
  | idle =>
      intro hs
      rw [Run.step, hstage] at hs
      exact Bool.noConfusion (r.begin_stage.symm.trans hs)
  | sweeping k =>
      intro hs
      rw [Run.step, hstage] at hs
      exact Bool.noConfusion ((r.sweepOn_stage k).symm.trans hs)
  | pooling initial =>
      rw [Run.step, hstage]
      dsimp only
      unfold collect
      split
      · exact h
      · intro _
        have hrelease := recedes_releaseOn
          ({ r with closing := r.missingEvents }.withSupervisor (Kills.ofAll r.supervisor).1) initial r.collected
          (Kills.ofAll r.supervisor).2
        exact List.sublist_nil.mp hrelease.handles
  | releasing | clearing | deciding | showing | reporting =>
      exact h.of_recedes (fun _ => by rw [hstage]; rfl) hrecedes
  | ended | broken =>
      rw [Run.step, hstage]
      exact h

theorem Cleared.pollCoordinator (h : r.Cleared) : r.pollCoordinator.Cleared :=
  pollCoordinator_induct (motive := Cleared) h.step fun _ hs => hs.step

theorem Orderly.ended (h : r.Orderly plan) (hr : r.stage.isCollected = true) : r.session.pool.phase = .ended := by
  have hpromised := h.2
  cases hstage : r.stage with
  | idle | sweeping | pooling | broken =>
      rw [hstage] at hr
      exact Bool.noConfusion hr
  | releasing | clearing | deciding | showing | reporting =>
      rw [hstage] at hpromised
      exact hpromised.1
  | ended outcome =>
      rw [hstage] at hr hpromised
      cases outcome with
      | ok report => exact hpromised.1
      | error e => exact Bool.noConfusion hr

theorem Cleared.perform (h : r.Cleared) (hr : r.Orderly plan) {a : RunAction} (ha : a.IsOwn) :
    (r.perform a).Cleared := by
  rcases hr.1.perform_aside a with he | haside
  · rw [he]
    exact h.pollCoordinator
  · intro hs
    rw [haside.stage] at hs
    -- The pool has ended, so no attempt is left that could get a browser.
    have hended := hr.ended hs
    have hrecedes := recedes_perform (fun seq hflying => Bool.noConfusion
      ((hr.1.sound.not_isInFlight hended seq).symm.trans hflying)) a fun site he => by
        subst he
        exact ha
    exact List.sublist_nil.mp (h hs ▸ hrecedes.handles)

theorem Cleared.after (h : r.Cleared) (hr : r.Orderly plan) {actions : List RunAction}
    (hown : ∀ a ∈ actions, a.IsOwn) : (r.after actions).Cleared := by
  induction actions generalizing r with
  | nil => exact h
  | cons a rest ih =>
      exact ih (h.perform hr (hown a List.mem_cons_self)) (hr.perform a) fun b hb =>
        hown b (List.mem_cons_of_mem _ hb)

/-! ## Whole runs -/

/-- All that is needed to mind the processes of a run. -/
structure Watched (r : Run) (plan : List Job) : Prop where
  orderly : r.Orderly plan
  braked : Braked r.session.pool
  staffed : r.session.Staffed
  manned : r.session.Manned
  cleared : r.Cleared

theorem Watched.ofPlan {config : Config} {site : Site} {draws : Nat → Nat → Nat}
    {probe : Nat → Except ProbeError MemoryReading} (h : Run.ofPlan? config plan site draws probe = some r)
    (hplan : AcceptedPlan plan) (hsite : site.supervisor.registry.Exclusive) : r.Watched plan := by
  have horderly := Orderly.ofPlan h hplan
  obtain ⟨pool, hpool, rfl⟩ := Option.map_eq_some_iff.mp h
  exact {
    orderly := horderly
    braked := Braked.submit hpool
    staffed := {
      exclusive := hsite
      reserved := fun _ ha => absurd ha List.not_mem_nil
      apart := fun _ _ _ _ hi => by simp at hi
      forcing := fun hf => Bool.noConfusion hf }
    manned := ⟨Tracked.submit hpool, Nat.zero_le _⟩
    cleared := fun hs => Bool.noConfusion hs }

theorem Watched.perform (h : r.Watched plan) {a : RunAction} (ha : a.IsOwn) : (r.perform a).Watched plan where
  orderly := h.orderly.perform a
  braked := kept_braked.moves h.orderly.1.sound h.braked (h.orderly.after_moves [a])
  staffed := (attends_perform h.staffed h.manned ha).staffed
  manned := manned_perform h.manned h.orderly.1 h.braked ha
  cleared := h.cleared.perform h.orderly ha

theorem Watched.after (h : r.Watched plan) {actions : List RunAction} (hown : ∀ a ∈ actions, a.IsOwn) :
    (r.after actions).Watched plan := by
  induction actions generalizing r with
  | nil => exact h
  | cons a rest ih => exact ih (h.perform (hown a List.mem_cons_self)) fun b hb => hown b (List.mem_cons_of_mem _ hb)

/-- In the course of actions the pool of a run gave up an attempt that was going to end a process. -/
def GaveUp (r : Run) (actions : List RunAction) (pid : Nat) : Prop :=
  ∃ before, before <+: actions ∧ (r.after before).session.GivesUp pid

/-- No process is forgotten but those that were given up, whatever happens to a run. -/
theorem Watched.tends_after (h : r.Watched plan) {actions : List RunAction} (hown : ∀ a ∈ actions, a.IsOwn) :
    Tends r.supervisor (r.after actions).supervisor r.Ends fun pid =>
      (r.after actions).Ends pid ∨ r.GaveUp actions pid := by
  induction actions generalizing r with
  | nil => exact (Tends.refl _ r.Ends).mono (fun _ hp => hp) fun _ hp => Or.inl hp
  | cons a rest ih =>
      have ha := hown a List.mem_cons_self
      have hfirst := attends_perform h.staffed h.manned ha
      have hrest := ih (h.perform ha) fun b hb => hown b (List.mem_cons_of_mem _ hb)
      refine (hfirst.tends.trans (hrest.frame r.session.GivesUp)).mono (fun _ hp => hp) fun pid hp => ?_
      rcases hp with (hp | ⟨before, hbefore, hp⟩) | hp
      · exact Or.inl hp
      · exact Or.inr ⟨a :: before, List.cons_prefix_cons.mpr ⟨rfl, hbefore⟩, hp⟩
      · exact Or.inr ⟨[], List.nil_prefix, hp⟩

/-- What is left of the browsers of a run when it has ended. -/
structure Relieved (start last : Run) (actions : List RunAction) : Prop where
  handles : last.supervisor.registry.handles = []
  /-- A process that was started and still runs is noted for the next sweep, or is being ended in the background, or it
  was being ended by an attempt that the pool gave up when it was halted, as long as no kill breaks down. -/
  started : start.supervisor.launcher.Steady → ∀ n, start.supervisor.launched ≤ n → n < last.supervisor.launched →
    start.supervisor.launcher.pid n ∈ last.supervisor.alive →
    start.supervisor.launcher.pid n ∈ last.supervisor.registry.pendingKills ∨
      start.supervisor.launcher.pid n ∈ last.session.site.backgroundPids ∨
      start.GaveUp actions (start.supervisor.launcher.pid n)

theorem Watched.relieved (h : r.Watched plan) {actions : List RunAction} (hown : ∀ a ∈ actions, a.IsOwn)
    {report : RunReport} (hended : (r.after actions).stage = .ended (.ok report)) :
    Relieved r (r.after actions) actions := by
  have hlast := h.after hown
  have hcollected : (r.after actions).stage.isCollected = true := by rw [hended]; rfl
  have hphase := hlast.orderly.ended hcollected
  have hhandles := hlast.cleared hcollected
  have htends := h.tends_after hown
  refine ⟨hhandles, fun hsteady n hle hlt halive => ?_⟩
  rcases htends.newcomers n hle hlt (htends.launcher ▸ hsteady) halive with hheld | hnoted | (hends | hstage) | hgiven
  · exact absurd hheld (by simp [Registry.pids, hhandles])
  · exact Or.inl hnoted
  · rcases hends with hattempt | hbackground | hforced
    · -- An attempt that goes on ending a process after the end of the pool was given up by it.
      obtain ⟨a, ha, hpid⟩ := List.mem_flatMap.mp hattempt
      obtain ⟨i, hi⟩ := List.mem_iff_getElem?.mp ha
      have hout := hlast.orderly.1.sound.not_isInFlight hphase (i + 1)
      have hhalted := hlast.manned.halted hi (Attempt.not_isDone_of_mem_pids hpid) hout
      exact Or.inr (Or.inr ⟨actions, List.prefix_rfl, hhalted, i, a, hi, hout, hpid⟩)
    · exact Or.inr (Or.inl hbackground)
    · cases hf : (r.after actions).session.forced with
      | none => simp [hf] at hforced
      | some k => exact absurd (hlast.staffed.forcing (by simp [hf])) (by simp [hphase])
  · simp [hended, RunStage.pids] at hstage
  · exact Or.inr (Or.inr hgiven)

/-- A run that ends with a report holds no browser, and it has forgotten no process but those of attempts that its pool
gave up. -/
theorem browsers_relieved {config : Config} {plan : List Job} (hconfig : config.validate = .ok ())
    (hplan : validatePlan plan = .ok ()) {site : Site} (hsite : site.supervisor.registry.Exclusive)
    (draws : Nat → Nat → Nat) (probe : Nat → Except ProbeError MemoryReading) :
    ∃ r, Run.ofPlan? config plan site draws probe = some r ∧ r.session.site = site ∧
      ∀ actions : List RunAction, (∀ a ∈ actions, a.IsOwn) → ∀ report : RunReport,
        (r.after actions).stage = .ended (.ok report) → Relieved r (r.after actions) actions := by
  have haccepted := AcceptedPlan.of_validate hplan
  have hpolicy := PoolPolicy.Valid.of_validate (Config.parts_of_validate hconfig).1
  obtain ⟨pool, hpool⟩ := Pool.submit?_isSome hpolicy.ordered
  have hmade : Run.ofPlan? config plan site draws probe = some _ := congrArg (Option.map _) hpool
  exact ⟨_, hmade, rfl, fun actions hown report hended =>
    (Watched.ofPlan hmade haccepted hsite).relieved hown hended⟩

/-- Two pages are audited with a browser each, one after the other. -/
def browsingActions : List RunAction :=
  [.poll .coordinator, .poll (.part .turns), .poll (.part (.attempt 1)), .poll (.part (.attempt 2)),
    .poll (.part .turns), .poll .coordinator]

theorem twoPages_browsers_relieved : Config.validate {} = .ok () ∧ validatePlan twoPages = .ok () ∧
    quietSite.supervisor.registry.Exclusive ∧ (∀ a ∈ browsingActions, a.IsOwn) ∧
    ∃ r, Run.ofPlan? {} twoPages quietSite (fun _ _ => 0) (fun _ => .ok { used := 1, free := 1 }) = some r ∧
      (r.after browsingActions).supervisor.launched = 2 ∧
      (∃ report, (r.after browsingActions).stage = .ended (.ok report)) ∧
      Relieved r (r.after browsingActions) browsingActions := by
  have hsite : quietSite.supervisor.registry.Exclusive := List.nodup_nil
  have hown : ∀ a ∈ browsingActions, a.IsOwn := by simp [browsingActions, RunAction.IsOwn]
  obtain ⟨r, hr, -, hrelieved⟩ := browsers_relieved (rfl : Config.validate {} = .ok ())
    (rfl : validatePlan twoPages = .ok ()) hsite (fun _ _ => 0) (fun _ => .ok { used := 1, free := 1 })
  obtain rfl := Option.some.inj hr
  exact ⟨rfl, rfl, hsite, hown, _, hr, rfl, ⟨_, rfl⟩, hrelieved browsingActions hown _ rfl⟩

/-- A place where every process takes a minute to end. -/
def slowSite : Site :=
  { quietSite with supervisor := { quietSite.supervisor with launcher :=
      { quietSite.supervisor.launcher with kill := fun _ _ => { delay := 60000 } } } }

/-- The run is cancelled while the browser of a page is being given back, and the kill takes longer than the
grace period and the time to settle. -/
def impatientActions : List RunAction :=
  [.poll .coordinator, .poll (.part .turns), .poll (.part (.attempt 1)), .cancel "", .poll (.part .turns),
    .elapse 10000, .poll (.part .turns), .elapse 15000, .poll (.part .turns), .poll (.part (.attempt 1)),
    .poll .coordinator]

/-- The process of an attempt that is abandoned while its kill goes on outlives the run: it is neither held nor noted nor
ended in the background, although no kill of it has failed. -/
theorem slow_kill_outlives_run : Config.validate {} = .ok () ∧ validatePlan (twoPages.take 1) = .ok () ∧
    slowSite.supervisor.registry.Exclusive ∧ (∀ a ∈ impatientActions, a.IsOwn) ∧
    ∃ r, Run.ofPlan? {} (twoPages.take 1) slowSite (fun _ _ => 0) (fun _ => .ok { used := 1, free := 1 }) = some r ∧
      let last := r.after impatientActions
      (∃ report, last.stage = .ended (.ok report)) ∧
      last.supervisor.launched = 1 ∧ last.supervisor.alive = [slowSite.supervisor.launcher.pid 0] ∧
      last.supervisor.registry = slowSite.supervisor.registry ∧ last.session.site.background = [] := by
  refine ⟨rfl, rfl, List.nodup_nil, by simp [impatientActions, RunAction.IsOwn], _, rfl, RunStage.exists_report ?_,
    ?_, ?_, ?_, ?_⟩
  all_goals decide +kernel

end Run

end PageAudit
