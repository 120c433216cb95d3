import PageAudit.Proofs.Pool.Interruptions
import PageAudit.Proofs.Run.Accounts
import PageAudit.Proofs.Run.Parts

/-!
# Runs that are not cancelled

A run that nobody cancels ends as completed, and its jobs succeed or fail for good. The exception is a job whose audit
the engine breaks off by itself: it is called off as if the run had been cancelled.
-/

namespace PageAudit

open Pool PoolSession

/-- The action cancels the run. -/
def RunAction.Cancels : RunAction → Prop
  | .cancel _ | .reach .cancel => True
  | _ => False

/-- A state in which the run ends is the one of a run that was not cancelled. -/
def RunStage.Completes : RunStage → Prop
  | .showing _ _ _ state | .reporting _ _ _ state => state = .completed
  | .ended (.ok report) => report.state = .completed
  | _ => True

theorem RunStage.IsOpen.completes {stage : RunStage} (h : stage.IsOpen) : stage.Completes := by
  cases stage with
  | showing | reporting | ended | broken => exact h.elim
  | _ => trivial

namespace Run

/-- A run that was not cancelled; `start` is its site at the beginning. -/
structure Undisturbed (start : Site) (r : Run) : Prop where
  untold : r.control.cancelled = false
  stage : r.stage.Completes
  session : r.session.Undisturbed start

variable {r s : Run} {plan : List Job} {start : Site}

/-! ## The coordinator -/

/-- The run is not cancelled and does not end in another state than a completed one. -/
def Calm (r : Run) : Prop :=
  r.control.cancelled = false ∧ r.stage.Completes

/-- The state in which a run ends is decided by whether it was cancelled. -/
theorem Calm.proceeds (h : r.Calm) (hr : r.Proceeds s) : s.Calm := by
  obtain ⟨huntold, hstage⟩ := h
  cases hr with
  | stay => exact ⟨huntold, hstage⟩
  | refuse | breakDown | beginPooling => exact ⟨huntold, trivial⟩
  | goOn _ _ _ after => exact ⟨huntold, after.completes⟩
  | decideFinal => exact ⟨huntold, if_neg (by simp [huntold])⟩
  | showFinal now | report now =>
      rw [now] at hstage
      exact ⟨huntold, hstage⟩

theorem Calm.step (h : r.Calm) : r.step.Calm := by
  rcases r.step_cases with hr | ⟨_, ⟨e, he⟩ | hr⟩
  · exact h.proceeds hr
  · rw [he]
    exact ⟨h.1, trivial⟩
  · exact Calm.proceeds (r := { r with control := { r.control with state := .running } }) h hr

theorem Calm.pollCoordinator (h : r.Calm) : r.pollCoordinator.Calm :=
  pollCoordinator_induct (motive := Calm) h.step fun _ hs => hs.step

theorem Calm.perform (h : r.Calm) {a : RunAction} (ha : ¬ a.Cancels) : (r.perform a).Calm := by
  cases a with
  | elapse | reach | disturb => exact h
  | cancel => exact absurd trivial ha
  | poll t =>
      cases t with
      | coordinator => exact h.pollCoordinator
      | part => exact h
      | monitor =>
          show r.pollMonitor.Calm
          unfold pollMonitor
          split
          · split
            · exact h
            · dsimp only
              split <;> exact h
          · exact h

/-! ## All actions -/

theorem Grounded.untold_perform (h : r.Grounded plan) (huntold : r.session.pool.cancelled = false) {a : RunAction}
    (ha : a.IsOwn) (hcalm : ¬ a.Cancels) : (r.perform a).session.pool.cancelled = false := by
  have going : r.session.pool.draining = false := by
    cases hd : r.session.pool.draining with
    | false => rfl
    | true => exact Bool.noConfusion (huntold.symm.trans (h.sound.phased.drained hd).2.2)
  cases a with
  | elapse => exact huntold
  | cancel => exact absurd trivial hcalm
  | disturb => exact ha.elim
  | reach i =>
      cases i with
      | elapse | pressure | pressureClosed => exact huntold
      | cancel => exact absurd trivial hcalm
      | report | released | launcherBroke => exact ha.elim
      | turn => exact (h.sound.step_turn.untold going huntold).2
  | poll t =>
      cases t with
      | coordinator =>
          obtain ⟨_, he⟩ := r.pollCoordinator_pool
          show r.pollCoordinator.session.pool.cancelled = false
          rw [he]
          exact huntold
      | monitor =>
          obtain ⟨_, _, he⟩ := r.pollMonitor_session
          show r.pollMonitor.session.pool.cancelled = false
          rw [he]
          exact huntold
      | part t =>
          cases t with
          | turns => exact ((acts_pollPool h.sound).untold going huntold).2
          | background => exact huntold
          | attempt seq =>
              show (r.session.pollAttempt seq).pool.cancelled = false
              rcases r.session.pollAttempt_pool seq with he | ⟨outcome, he⟩
              · rw [he]
                exact huntold
              · obtain ⟨_, _, hr, _⟩ := r.session.pool.receive_eq seq outcome
                rw [he, hr]
                exact huntold

theorem Undisturbed.perform (h : r.Undisturbed start) (hr : r.Grounded plan) {a : RunAction} (ha : a.IsOwn)
    (hcalm : ¬ a.Cancels) : (r.perform a).Undisturbed start := by
  obtain ⟨huntold, hstage⟩ := Calm.perform ⟨h.untold, h.stage⟩ hcalm
  refine ⟨huntold, hstage, ?_⟩
  rcases hr.advances_perform ha with hadvances | ⟨seq, hseq, rfl⟩ | ⟨n, rfl⟩
  · exact h.session.advance hr.sound hadvances (hr.untold_perform h.session.pool.untold ha hcalm)
  · exact h.session.pollAttempt hr.sound hseq
  · exact h.session.pollBackground n

theorem Undisturbed.after (h : r.Undisturbed start) (hr : r.Orderly plan) {actions : List RunAction}
    (hcalm : ∀ a ∈ actions, a.IsOwn ∧ ¬ a.Cancels) : (r.after actions).Undisturbed start := by
  induction actions generalizing r with
  | nil => exact h
  | cons a rest ih =>
      obtain ⟨ha, hno⟩ := hcalm a List.mem_cons_self
      exact ih (h.perform hr.1 ha hno) (hr.perform a) fun b hb => hcalm b (List.mem_cons_of_mem _ hb)

theorem Undisturbed.ofPlan {config : Config} {site : Site} {draws : Nat → Nat → Nat}
    {probe : Nat → Except ProbeError MemoryReading} (h : Run.ofPlan? config plan site draws probe = some r) :
    r.Undisturbed site := by
  obtain ⟨pool, hpool, rfl⟩ := Option.map_eq_some_iff.mp h
  obtain ⟨_, _, _, rfl⟩ := submit?_eq hpool
  exact {
    untold := rfl
    stage := trivial
    session := {
      site := .refl site
      pool := ⟨rfl, fun _ hr => absurd hr List.not_mem_nil, fun _ hx => absurd hx List.not_mem_nil⟩
      contexts := fun _ _ hi => by simp at hi
      excused := fun _ _ hi => by simp at hi } }

/-- A run that nobody cancels is completed, and every job succeeds or fails for good, unless the engine breaks an audit
of its page off: then the job may be called off. -/
theorem uncancelled_results {config : Config} {plan : List Job} (hconfig : config.validate = .ok ())
    (hplan : validatePlan plan = .ok ()) (site : Site) (draws : Nat → Nat → Nat)
    (probe : Nat → Except ProbeError MemoryReading) :
    ∃ r, Run.ofPlan? config plan site draws probe = some r ∧
      ∀ actions : List RunAction, (∀ a ∈ actions, a.IsOwn ∧ ¬ a.Cancels) → ∀ report : RunReport,
        (r.after actions).stage = .ended (.ok report) → (r.after actions).session.pool.fault = none →
        report.state = .completed ∧ ∀ result ∈ report.results,
          result.state = .succeeded ∨ result.state = .failedPermanent ∨
            result.state = .cancelled ∧ site.BrokeOff (r.after actions).session.site result.url := by
  have haccepted := AcceptedPlan.of_validate hplan
  have hpolicy := PoolPolicy.Valid.of_validate (Config.parts_of_validate hconfig).1
  obtain ⟨pool, hpool⟩ := Pool.submit?_isSome hpolicy.ordered
  have hmade : Run.ofPlan? config plan site draws probe = some _ := congrArg (Option.map _) hpool
  refine ⟨_, hmade, fun actions hcalm report hended hfault => ?_⟩
  have hbegins := Orderly.ofPlan hmade haccepted
  have hlast := hbegins.after actions
  have hundisturbed := (Undisturbed.ofPlan hmade).after hbegins hcalm
  have hstate := hundisturbed.stage
  have hsettled := hlast.2
  rw [hended] at hstate hsettled
  have hperm := hlast.results_perm haccepted hsettled hfault
  refine ⟨hstate, fun result hresult => ?_⟩
  obtain ⟨x, hx, rfl⟩ := List.mem_map.mp (hperm.mem_iff.mp hresult)
  exact hundisturbed.session.pool.results x hx

/-- A place where the engine breaks off every audit of one page. -/
def touchySite : Site :=
  { quietSite with engine :=
      { audit := fun url _ => { ending := if url == "https://a.example" then .failed .interrupted else .scored [] } } }

theorem twoPages_uncancelled_results : Config.validate {} = .ok () ∧ validatePlan twoPages = .ok () ∧
    (∀ a ∈ browsingActions, a.IsOwn ∧ ¬ a.Cancels) ∧
    ∃ r, Run.ofPlan? {} twoPages touchySite (fun _ _ => 0) (fun _ => .ok { used := 1, free := 1 }) = some r ∧
      (r.after browsingActions).session.pool.fault = none ∧
      ∃ report, (r.after browsingActions).stage = .ended (.ok report) ∧ report.state = .completed ∧
        ∀ result ∈ report.results, result.state = .succeeded ∨ result.state = .failedPermanent ∨
          result.state = .cancelled ∧ touchySite.BrokeOff (r.after browsingActions).session.site result.url := by
  have hcalm : ∀ a ∈ browsingActions, a.IsOwn ∧ ¬ a.Cancels := by
    simp [browsingActions, RunAction.IsOwn, RunAction.Cancels]
  obtain ⟨r, hr, hresults⟩ := uncancelled_results (rfl : Config.validate {} = .ok ())
    (rfl : validatePlan twoPages = .ok ()) touchySite (fun _ _ => 0) (fun _ => .ok { used := 1, free := 1 })
  have hended : (r.after browsingActions).stage.report?.isSome = true := by
    obtain rfl := Option.some.inj hr
    decide +kernel
  have hfault : (r.after browsingActions).session.pool.fault = none := by
    obtain rfl := Option.some.inj hr
    decide +kernel
  obtain ⟨report, hreport⟩ := RunStage.exists_report hended
  exact ⟨rfl, rfl, hcalm, r, hr, hfault, report, hreport, hresults browsingActions hcalm report hreport hfault⟩

/-- Nobody cancels the run, but the engine breaks an audit off: the run is completed with a job that was called off. -/
theorem interrupted_audit_cancels_job : Config.validate {} = .ok () ∧ validatePlan twoPages = .ok () ∧
    (∀ a ∈ browsingActions, a.IsOwn ∧ ¬ a.Cancels) ∧
    ∃ r, Run.ofPlan? {} twoPages touchySite (fun _ _ => 0) (fun _ => .ok { used := 1, free := 1 }) = some r ∧
      (r.after browsingActions).session.pool.fault = none ∧
      (r.after browsingActions).stage.report?.map (fun report => (report.state, report.results.map (·.state))) =
        some (.completed, [.cancelled, .succeeded]) := by
  refine ⟨rfl, rfl, by simp [browsingActions, RunAction.IsOwn, RunAction.Cancels], _, rfl, ?_, ?_⟩
  all_goals decide +kernel

end Run

end PageAudit
