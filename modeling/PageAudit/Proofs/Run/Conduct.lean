import PageAudit.Proofs.Run.Collisions
import PageAudit.Proofs.Run.Returning
import PageAudit.Proofs.Run.Shown

/-!
# How a coordinator conducts itself

Whatever calls are made of a coordinator and however their steps fall between each other, one call runs its plan, the
state goes one way, and a cancellation that came first leaves nothing to be audited.
-/

namespace PageAudit

open Pool Supervisor

/-! ## Where a run begins -/

namespace Run

variable {start r : Run} {plan : List Job} {e : PlanError} {clock : Nat} {reason : Option String} {cancelled : Bool}

/-- A run of a coordinator that was not called yet. -/
structure Uncalled (start : Run) : Prop where
  config : start.config.validate = .ok ()
  stage : start.stage = .idle
  session : ∃ site pool, start.session = { site, pool }
  events : start.events = []
  rests : ∃ clock, start = start.atRest clock none false

theorem Uncalled.ofPlan {config : Config} {site : Site} {draws : Nat → Nat → Nat}
    {probe : Nat → Except ProbeError MemoryReading} (h : Run.ofPlan? config [] site draws probe = some start)
    (hconfig : config.validate = .ok ()) : start.Uncalled := by
  obtain ⟨pool, hpool, rfl⟩ := Option.map_eq_some_iff.mp h
  obtain ⟨_, _, _, rfl⟩ := submit?_eq hpool
  exact ⟨hconfig, rfl, ⟨_, _, rfl⟩, rfl, site.clock, rfl⟩

/-- A plan is taken up with a pool of its own. -/
theorem Uncalled.takeUp_eq (h : start.Uncalled) (control : RunControl) (plan : List Job) (clock : Nat)
    (reason : Option String) (cancelled : Bool) :
    ∃ pool, submit? start.config.pool start.config.retry start.config.gracePeriodMs
        start.session.pool.draws {} clock plan = some pool ∧
      (start.atRest clock reason cancelled).takeUp control plan = { start with
        plan, control
        session := { site := start.session.site.elapse clock, pool := { pool with cancelled := control.cancelled } } } := by
  obtain ⟨pool, hpool⟩ := submit?_isSome
    (PoolPolicy.Valid.of_validate (Config.parts_of_validate h.config).1).ordered
  obtain ⟨_, _, hsession⟩ := h.session
  refine ⟨pool, hpool, ?_⟩
  unfold takeUp
  rw [show submit? (start.atRest clock reason cancelled).config.pool (start.atRest clock reason cancelled).config.retry
    (start.atRest clock reason cancelled).config.gracePeriodMs (start.atRest clock reason cancelled).session.pool.draws
    {} (start.atRest clock reason cancelled).clock plan = some pool from hpool]
  simp [atRest, hsession]

/-- A plan that is refused is taken up, and nothing else is done. -/
theorem Uncalled.refused (h : start.Uncalled) {control : RunControl} (hplan : validatePlan plan = .error e) :
    ((start.atRest clock reason cancelled).takeUp control plan).Refused start e := by
  obtain ⟨pool, hpool, he⟩ := h.takeUp_eq control plan clock reason cancelled
  obtain ⟨_, _, _, rfl⟩ := submit?_eq hpool
  rw [he]
  refine ⟨h.config, hplan, Or.inl h.stage, ⟨clock, rfl⟩, ?_⟩
  have hevents := h.events
  simp only [Run.events, List.append_eq_nil_iff] at hevents
  simp [Run.events, hevents.1.1, hevents.2]

/-- A run that was cancelled takes its plan up with a pool that was cancelled before it began. -/
theorem Uncalled.foregone (h : start.Uncalled) {control : RunControl} (htold : control.cancelled = true)
    (hplan : validatePlan plan = .ok ()) :
    ((start.atRest clock reason cancelled).takeUp control plan).Foregone (start.session.site.elapse clock).supervisor
      plan := by
  have haccepted := AcceptedPlan.of_validate hplan
  obtain ⟨pool, hpool, he⟩ := h.takeUp_eq control plan clock reason cancelled
  have hsound := Sound.submit hpool ⟨haccepted.queued, haccepted.nodup⟩
  have hforegone := Foregone.submit hpool
  have hevents := h.events
  simp only [Run.events, List.append_eq_nil_iff] at hevents
  rw [he, htold]
  exact {
    config := h.config
    accepted := hplan
    told := htold
    orderly := by
      refine ⟨⟨rfl, hsound.news .cancel, ?_, fun hended => Bool.noConfusion hended, ?_⟩, ?_⟩
      · obtain ⟨_, _, _, rfl⟩ := submit?_eq hpool
        exact .nil
      · simp [hevents.1.1]
      · show Promised _ start.stage
        rw [h.stage]
        exact hevents.2
    session := ⟨hforegone, rfl, rfl⟩
    recedes := .refl _
    stage := by
      show start.stage.Aborts
      rw [h.stage]
      trivial
    unbroken := fun _ => by
      show start.stage.Unbroken
      rw [h.stage]
      trivial }

end Run

/-! ## What is promised -/

/-- The plan of a call and what it has returned. -/
def Call.answer? : Call → Option (List Job × Except AppError RunReport)
  | .run plan (.answered answer) => some (plan, answer)
  | _ => none

theorem Call.exists_answer {c : Option Call} {plan : List Job} (h : (c.bind Call.answer?).map (·.1) = some plan) :
    ∃ answer, c = some (.run plan (.answered answer)) := by
  obtain ⟨⟨_, answer⟩, hanswer, rfl⟩ := Option.map_eq_some_iff.mp h
  obtain ⟨c, rfl, hc⟩ := Option.bind_eq_some_iff.mp hanswer
  unfold answer? at hc
  split at hc
  · cases hc
    exact ⟨answer, rfl⟩
  · cases hc

namespace Coordinator

variable {start : Run} {x : Coordinator} {n : Nat} {plan : List Job} {actions : List CoordinatorAction}

/-- A call whose plan is refused has done nothing to what the run works with. It has come to the check of its plan, or it
has returned what is wrong with the plan and left the run aborted; its next step does that. -/
structure Refuses (x y : Coordinator) (n : Nat) (plan : List Job) (e : PlanError) : Prop where
  site : ∃ clock, y.run.session.site = x.run.session.site.elapse clock
  events : y.run.events = []
  call : y.calls[n]? = some (.run plan .leading) ∧ y.state.IsUnderway ∨
    y.calls[n]? = some (.run plan (.answered (.error (.plan e)))) ∧ y.state = .aborted
  answer : (y.perform (.go n)).calls[n]? = some (.run plan (.answered (.error (.plan e)))) ∧
    (y.perform (.go n)).state = .aborted

/-- A call that runs a plan after a cancellation launches nothing and returns a report that calls every job off, with the
attempts that it had when it was handed over; it does return as long as no kill breaks down. -/
structure Forgoes (x y : Coordinator) (n : Nat) (plan : List Job) : Prop where
  launchCalls : y.run.supervisor.launchCalls = x.run.supervisor.launchCalls
  launched : y.run.supervisor.launched = x.run.supervisor.launched
  answer : ∀ answer, y.calls[n]? = some (.run plan (.answered answer)) →
    ∃ report, answer = .ok report ∧ report.state = .aborted ∧
      List.Forall₂ (fun job result => result.jobId = job.id ∧ result.state = .cancelled ∧
        result.attemptsUsed = job.attempt) plan report.results
  returns : x.run.supervisor.launcher.Steady → ∀ rounds : Nat → List CoordinatorAction,
    (∀ k, (y.afterRounds rounds k).Round n (rounds k)) →
    ∃ k report, (y.afterRounds rounds k).calls[n]? = some (.run plan (.answered (.ok report)))

/-- How a coordinator conducts itself in the course of actions. -/
structure Conduct (x : Coordinator) (actions : List CoordinatorAction) : Prop where
  /-- Only a call that runs a plan takes the coordinator out of the idle state. -/
  leaves : ∀ (before later : List CoordinatorAction) (a : CoordinatorAction), actions = before ++ a :: later →
    (x.after before).state = .idle → ((x.after before).perform a).state ≠ .idle →
    ∃ n plan, a = .go n ∧ (x.after before).calls[n]? = some (.run plan .waiting)
  /-- One call at most does so. -/
  once : ∀ n m : Nat, x.Begins actions n → x.Begins actions m → n = m
  /-- The steps of all other calls that run a plan leave the run as it is. -/
  unchanged : ∀ (before later : List CoordinatorAction) (n : Nat) (plan : List Job) (s : RunCall),
    actions = before ++ .go n :: later → ¬ x.Begins actions n → (x.after before).calls[n]? = some (.run plan s) →
    ((x.after before).perform (.go n)).run = (x.after before).run
  /-- Such a call returns that the run was started, as soon as it has taken its steps. -/
  answered : ∀ (before later : List CoordinatorAction) (n : Nat) (plan : List Job) (s : RunCall),
    actions = before ++ later → ¬ x.Begins actions n → (x.after before).calls[n]? = some (.run plan s) →
    s.stepsLeft ≤ later.countP (CoordinatorAction.goes n) →
    ∃ t : RunState, t ≠ .idle ∧
      (x.after actions).calls[n]? = some (.run plan (.answered (.error (.run (.alreadyStarted t.name)))))
  /-- The state goes one of its ways. -/
  course : ∃ course ∈ RunState.courses, (x.states actions).destutter (· ≠ ·) <+: course
  /-- It stays where the run has ended. -/
  final : ∀ before later : List CoordinatorAction, actions = before ++ later → (x.after before).state.IsFinal →
    (x.after actions).state = (x.after before).state
  /-- The reason for the cancellation is the first that was given. -/
  reason : (x.after actions).run.control.reason = (x.reasons actions).head?
  kept : ∀ (before later : List CoordinatorAction) (reason : String), actions = before ++ later →
    (x.after before).run.control.reason = some reason → (x.after actions).run.control.reason = some reason
  reported : ∀ (n : Nat) (plan : List Job) (report : RunReport) (reason : String),
    (x.after actions).calls[n]? = some (.run plan (.answered (.ok report))) → report.cancelReason = some reason →
    (x.reasons actions).head? = some reason
  /-- A plan that is not accepted is refused. -/
  refused : ∀ (n : Nat) (plan : List Job) (s : RunCall) (e : PlanError), x.Begins actions n →
    (x.after actions).calls[n]? = some (.run plan s) → validatePlan plan = .error e →
    x.Refuses (x.after actions) n plan e
  /-- A plan that is accepted after a cancellation is not worked on. -/
  foregone : ∀ (before later : List CoordinatorAction) (n : Nat) (plan : List Job) (s : RunCall),
    actions = before ++ .go n :: later → x.BeginsAfter before n →
    (∃ (m : Nat) (reason : String), (x.after before).calls[m]? = some (.cancel reason .done)) →
    (x.after actions).calls[n]? = some (.run plan s) → validatePlan plan = .ok () →
    x.Forgoes (x.after actions) n plan

/-! ## What is kept -/

theorem Leads.refuses (h : x.Leads n plan) {y : Coordinator} {e : PlanError} (hrefused : x.run.Refused y.run e) :
    y.Refuses x n plan e := by
  obtain ⟨hlast, hended⟩ := hrefused.advance
  have hrun := h.go_run
  have hnext := (h.perform (a := .go n) trivial).1
  have hcall := hnext.call
  have hfits := hnext.fits
  rw [hrun, hended] at hcall hfits
  refine ⟨hrefused.site, hrefused.events, ?_, hcall, hfits.1⟩
  have hnow := h.call
  have hstate := h.fits
  rcases hrefused.stage with hstage | hstage
  all_goals rw [hstage] at hnow hstate
  · exact Or.inl ⟨hnow, hstate⟩
  · exact Or.inr ⟨hnow, hstate.1⟩

theorem Foregone.forgoes {begun : Supervisor} (h : x.Foregone n begun plan) {y : Coordinator}
    (hlauncher : begun.launcher = y.run.supervisor.launcher) (hcalls : begun.launchCalls = y.run.supervisor.launchCalls)
    (hlaunched : begun.launched = y.run.supervisor.launched) : y.Forgoes x n plan where
  launchCalls := h.run.recedes.launchCalls.trans hcalls
  launched := h.run.recedes.launched.trans hlaunched
  answer answer hanswer := by
    have hended := h.leads.ended hanswer
    have haborts := h.run.stage
    rw [hended] at haborts
    cases answer with
    | error => exact haborts.elim
    | ok report =>
        refine ⟨report, rfl, haborts, (h.run.calledOff hended).imp ?_⟩
        rintro job result ⟨t, reason, rfl⟩
        exact ⟨rfl, rfl, rfl⟩
  returns hsteady _ hrounds := h.returns (hlauncher ▸ hsteady) hrounds

/-- A plan that is not accepted is refused. -/
theorem Rests.refuses (h : x.Rests start) (huncalled : start.Uncalled) (hown : ∀ a ∈ actions, a.IsOwn)
    (hbegins : x.Begins actions n) {s : RunCall} (hn : (x.after actions).calls[n]? = some (.run plan s)) {e : PlanError}
    (hplan : validatePlan plan = .error e) : (x.after actions).run.Refused start e ∧ (x.after actions).Leads n plan := by
  obtain ⟨before, later, rfl, hnow⟩ := hbegins
  obtain ⟨hrests, other, hleads, hevolved⟩ := h.begun hown hnow
  obtain ⟨clock, reason, cancelled, hrun⟩ := hrests.run
  obtain ⟨rfl, _⟩ : other = plan ∧ _ := by simpa using hleads.call.symm.trans hn
  rw [hrun] at hevolved
  exact ⟨(huncalled.refused hplan).evolved hevolved, hleads⟩

/-- A plan that is accepted after a cancellation is not worked on. -/
theorem Rests.forgone (h : x.Rests start) (huncalled : start.Uncalled) (htold : x.Told)
    {before later : List CoordinatorAction} (hown : ∀ a ∈ before ++ .go n :: later, a.IsOwn)
    (hnow : x.BeginsAfter before n) {m : Nat} {reason : String}
    (hdone : (x.after before).calls[m]? = some (.cancel reason .done)) {s : RunCall}
    (hn : (x.after (before ++ .go n :: later)).calls[n]? = some (.run plan s)) (hplan : validatePlan plan = .ok ()) :
    ∃ clock, (x.after (before ++ .go n :: later)).Foregone n (start.session.site.elapse clock).supervisor plan := by
  obtain ⟨hrests, other, hleads, hevolved⟩ := h.begun hown hnow
  obtain ⟨clock, reason, cancelled, hrun⟩ := hrests.run
  obtain ⟨rfl, _⟩ : other = plan ∧ _ := by simpa using hleads.call.symm.trans hn
  have hcancelled : (x.after before).run.control.cancelled = true :=
    htold.after (fun a ha => hown a (List.mem_append_left _ ha)) m _ hdone
  rw [hrun] at hevolved hcancelled
  refine ⟨clock, hleads, Run.Foregone.evolved ?_ hevolved⟩
  exact huncalled.foregone hcancelled hplan

theorem conduct_of_uncalled (h : start.Uncalled) (hown : ∀ a ∈ actions, a.IsOwn) :
    ({ run := start } : Coordinator).Conduct actions := by
  have hrests : ({ run := start } : Coordinator).Rests start :=
    ⟨h.stage, h.rests.imp fun _ he => ⟨none, false, he⟩, fun _ _ _ hn => by cases hn⟩
  have htold : ({ run := start } : Coordinator).Told := fun _ _ hn => by cases hn
  have hreason : (after { run := start } actions).run.control.reason = (reasons { run := start } actions).head? := by
    obtain ⟨_, he⟩ := h.rests
    have hnone : start.control.reason = none := by
      rw [he]
      rfl
    rw [reason_after _ hown]
    show (start.control.reason <|> _) = _
    rw [hnone]
    rfl
  exact {
    leaves := by
      rintro before later a rfl hidle hleft
      have hnow := hrests.of_idle (fun b hb => hown b (List.mem_append_left _ hb)) hidle
      obtain ⟨n, plan, ha, hn, _⟩ := (hnow.perform (hown a (by simp))).resolve_left fun h => hleft h.state_eq
      exact ⟨n, plan, ha, hn⟩
    once := fun _ _ => hrests.begins_unique hown
    unchanged := by
      rintro before later n plan s rfl hnot hn
      exact hrests.unchanged hown hnot hn
    answered := by
      rintro before later n plan s rfl hnot hn hsteps
      exact hrests.answered hown hnot hn hsteps
    course := by
      obtain ⟨rest, hrest, hchain⟩ := Steady.chain (Or.inl hrests) hown
      rw [hrests.state_eq] at hrest hchain
      rw [hrest]
      exact RunState.prefix_course hchain
    final := by
      rintro before later rfl hfinal
      have hsteady : (after { run := start } before).Steady start :=
        (hrests.after fun a ha => hown a (List.mem_append_left _ ha)).imp_right
          fun ⟨n, plan, _, hleads⟩ => ⟨n, plan, hleads⟩
      rw [after_append]
      exact hsteady.final_after hfinal fun a ha => hown a (List.mem_append_right _ ha)
    reason := hreason
    reported := by
      intro n plan report reason hn hcited
      rw [← hreason]
      exact hrests.reported hown hn hcited
    kept := by
      rintro before later reason rfl hnoted
      rw [after_append]
      exact reason_kept hnoted fun a ha => hown a (List.mem_append_right _ ha)
    refused := by
      intro n plan s e hbegins hn hplan
      obtain ⟨hrefused, hleads⟩ := hrests.refuses h hown hbegins hn hplan
      exact hleads.refuses hrefused
    foregone := by
      rintro before later n plan s rfl hnow ⟨m, reason, hdone⟩ hn hplan
      obtain ⟨clock, hforegone⟩ := hrests.forgone h htold hown hnow hdone hn hplan
      exact hforegone.forgoes rfl rfl rfl }

/-- Only one call runs its plan on a coordinator, whatever is called for and however the steps of the calls and of the run
fall between each other. -/
theorem conduct {config : Config} (hconfig : config.validate = .ok ()) (site : Site) (draws : Nat → Nat → Nat)
    (probe : Nat → Except ProbeError MemoryReading) :
    ∃ x, Coordinator.new? config site draws probe = some x ∧
      ∀ actions : List CoordinatorAction, (∀ a ∈ actions, a.IsOwn) → x.Conduct actions := by
  have hpolicy := PoolPolicy.Valid.of_validate (Config.parts_of_validate hconfig).1
  obtain ⟨pool, hpool⟩ := Pool.submit?_isSome hpolicy.ordered
  obtain ⟨start, hstart⟩ : ∃ start, Run.ofPlan? config [] site draws probe = some start :=
    ⟨_, congrArg (Option.map _) hpool⟩
  exact ⟨{ run := start }, congrArg (Option.map _) hstart, fun _ hown =>
    conduct_of_uncalled (Run.Uncalled.ofPlan hstart hconfig) hown⟩

/-- A page whose job has an attempt behind it. -/
def triedPage : List Job :=
  [{ id := "job-1", url := "https://a.example", planIndex := 0, attempt := 1, startedAt := some 0 }]

/-- Somebody cancels before the run of the page begins. -/
def cancelsFirst : List CoordinatorAction :=
  [.cancel "not today", .go 0, .go 0, .go 0, .run triedPage]

/-- The run begins, another caller asks for one in vain, and the first one goes on to the end. -/
def runsAfterwards : List CoordinatorAction :=
  .go 1 :: [.run triedPage, .go 2, .go 1, .part (.poll (.part .turns)), .go 2, .go 1, .go 1, .go 1, .go 1]

theorem own_cancelsFirst : ∀ a ∈ cancelsFirst ++ runsAfterwards, a.IsOwn := by
  simp [cancelsFirst, runsAfterwards, CoordinatorAction.IsOwn, RunAction.IsOwn, RunAction.Cancels]

theorem triedPage_conduct : Config.validate {} = .ok () ∧ validatePlan triedPage = .ok () ∧
    (∀ a ∈ cancelsFirst ++ runsAfterwards, a.IsOwn) ∧
    ∃ x, Coordinator.new? {} Run.quietSite (fun _ _ => 0) (fun _ => .ok { used := 1, free := 1 }) = some x ∧
      x.BeginsAfter cancelsFirst 1 ∧ x.Conduct (cancelsFirst ++ runsAfterwards) ∧
      x.Forgoes (x.after (cancelsFirst ++ runsAfterwards)) 1 triedPage ∧ x.run.supervisor.launcher.Steady ∧
      ∃ rounds, ∀ k, ((x.after (cancelsFirst ++ runsAfterwards)).afterRounds rounds k).Round 1 (rounds k) := by
  obtain ⟨x, hx, hconduct⟩ := conduct (rfl : Config.validate {} = .ok ()) Run.quietSite (fun _ _ => 0)
    (fun _ => .ok { used := 1, free := 1 })
  have hnow := hconduct _ own_cancelsFirst
  have hbegins : x.BeginsAfter cancelsFirst 1 := by
    obtain rfl := Option.some.inj hx
    exact ⟨by decide +kernel, by decide +kernel⟩
  have hdone : (x.after cancelsFirst).calls[0]? = some (.cancel "not today" .done) := by
    obtain rfl := Option.some.inj hx
    rfl
  have hcall : ((x.after (cancelsFirst ++ runsAfterwards)).calls[1]?.bind Call.answer?).map (·.1) = some triedPage := by
    obtain rfl := Option.some.inj hx
    decide +kernel
  have hsteady : x.run.supervisor.launcher.Steady := by
    obtain rfl := Option.some.inj hx
    exact fun _ _ => rfl
  obtain ⟨answer, hanswer⟩ := Call.exists_answer hcall
  exact ⟨rfl, rfl, own_cancelsFirst, x, hx, hbegins, hnow,
    hnow.foregone _ _ 1 triedPage _ rfl hbegins ⟨0, _, hdone⟩ hanswer rfl, hsteady, exists_rounds _ 1⟩

/-- Though the run was cancelled before it began, the result of a job tells of the attempt behind it. -/
theorem cancelled_first_tells_of_attempt : Config.validate {} = .ok () ∧ validatePlan triedPage = .ok () ∧
    (∀ a ∈ cancelsFirst ++ runsAfterwards, a.IsOwn) ∧
    ∃ x, Coordinator.new? {} Run.quietSite (fun _ _ => 0) (fun _ => .ok { used := 1, free := 1 }) = some x ∧
      (x.after cancelsFirst).calls[0]? = some (.cancel "not today" .done) ∧ x.BeginsAfter cancelsFirst 1 ∧
      ((x.after (cancelsFirst ++ runsAfterwards)).calls[1]?.bind Call.answer?).map
        (fun x => (x.1, x.2.toOption.map fun report => report.results.map (·.attemptsUsed))) =
          some (triedPage, some [1]) := by
  refine ⟨rfl, rfl, own_cancelsFirst, _, rfl, rfl, ⟨?_, ?_⟩, ?_⟩
  all_goals decide +kernel

end Coordinator

end PageAudit
