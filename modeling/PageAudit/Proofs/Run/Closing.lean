import PageAudit.Proofs.Run.Conduct

/-!
# How a run closes

A run closes in three steps: it reads whether it was told of a cancellation, shows the state that follows from that, and
reads the reason. So an aborted run always has a reason. A completed one has a reason too if a cancellation had not come
to its end when the run read the first, but had begun when it read the last.
-/

namespace PageAudit

namespace Coordinator

/-- What is known of a cancellation comes from the calls: one that is done has told the run, and one that has begun has
given a reason. -/
structure Informed (x : Coordinator) : Prop where
  told : x.run.control.cancelled = true ↔ ∃ (m : Nat) (reason : String), x.calls[m]? = some (.cancel reason .done)
  noted : ∀ (m : Nat) (reason : String) (s : CancelCall), x.calls[m]? = some (.cancel reason s) → s ≠ .waiting →
    x.run.control.reason ≠ none

/-- The moments at which a call takes the steps that close its run: when it decides how the run ends, when it shows
that, and when it writes the report. -/
structure Closes (x : Coordinator) (n : Nat) (actions : List CoordinatorAction) (report : RunReport)
    (decided shown written : List CoordinatorAction) : Prop where
  decides : decided ++ [.go n] <+: shown
  shows : shown ++ [.go n] <+: written
  writes : written ++ [.go n] <+: actions
  deciding : (x.after decided).run.stage = .deciding report.initialSweep report.finalSweep report.results
  showing : (x.after shown).run.stage = .showing report.initialSweep report.finalSweep report.results report.state
  reporting : (x.after written).run.stage = .reporting report.initialSweep report.finalSweep report.results report.state
  state : report.state = (x.after decided).run.control.finalState
  reason : report.cancelReason = (x.after written).run.control.reason

/-- The steps of a call that lie behind a run which has come to a stage. -/
def Passes (x : Coordinator) (n : Nat) (actions : List CoordinatorAction) : RunStage → Prop
  | .showing initial final results state => ∃ decided, decided ++ [.go n] <+: actions ∧
    (x.after decided).run.stage = .deciding initial final results ∧ state = (x.after decided).run.control.finalState
  | .reporting initial final results state => ∃ decided shown, decided ++ [.go n] <+: shown ∧
    shown ++ [.go n] <+: actions ∧ (x.after decided).run.stage = .deciding initial final results ∧
    (x.after shown).run.stage = .showing initial final results state ∧
    state = (x.after decided).run.control.finalState
  | .ended (.ok report) => ∃ decided shown written, x.Closes n actions report decided shown written
  | _ => True

/-- What a report tells of a cancellation, with the moments at which it was found out. -/
structure Tells (x : Coordinator) (n : Nat) (actions : List CoordinatorAction) (report : RunReport)
    (decided shown written : List CoordinatorAction) : Prop
    extends x.Closes n actions report decided shown written where
  aborted : report.state = .aborted ↔
    ∃ (m : Nat) (reason : String), (x.after decided).calls[m]? = some (.cancel reason .done)
  completed : report.state ≠ .aborted → report.state = .completed
  first : report.cancelReason = (x.reasons written).head?
  cited : report.state = .aborted → report.cancelReason ≠ none
  /-- State and reason agree, unless a cancellation that was given before the report was written came too late for the
  state. -/
  agree : (report.cancelReason ≠ none ↔ report.state = .aborted) ↔
    (∃ (m : Nat) (reason : String), (x.after decided).calls[m]? = some (.cancel reason .done)) ∨ x.reasons written = []

variable {start : Run} {x : Coordinator} {n m : Nat} {plan : List Job} {a : CoordinatorAction}
  {actions decided shown written : List CoordinatorAction} {report : RunReport} {reason : String}

/-! ## What is known of a cancellation -/

/-- A cancellation that is done stays so. -/
theorem perform_done (hm : x.calls[m]? = some (.cancel reason .done)) :
    (x.perform a).calls[m]? = some (.cancel reason .done) := by
  cases hgoes : a.goes m with
  | false => exact perform_other hgoes hm
  | true =>
      obtain rfl := CoordinatorAction.eq_go_of_goes hgoes
      simp only [perform, hm, goCancel]

theorem perform_tells (h : x.tells a = true) :
    ∃ (m : Nat) (reason : String), (x.perform a).calls[m]? = some (.cancel reason .done) := by
  unfold tells at h
  split at h
  · rename_i m
    split at h
    · rename_i reason hm
      refine ⟨m, reason, ?_⟩
      simp only [perform, hm, goCancel]
      exact List.getElem?_set_self (List.getElem?_eq_some_iff.mp hm).1
    · cases h
  · cases h

/-- A cancellation begins by the step that gives its reason. -/
theorem begun_perform {s : CancelCall} (hm : (x.perform a).calls[m]? = some (.cancel reason s)) (hs : s ≠ .waiting) :
    (∃ t, x.calls[m]? = some (.cancel reason t) ∧ t ≠ .waiting) ∨ x.gives a ≠ none := by
  have hset : ∀ {k : Nat} {c : Call}, (x.calls.set k c)[m]? = some (.cancel reason s) →
      (c = .cancel reason s → ∃ t, x.calls[k]? = some (.cancel reason t) ∧ t ≠ .waiting) →
      ∃ t, x.calls[m]? = some (.cancel reason t) ∧ t ≠ .waiting := by
    intro k c hk hc
    rcases getElem?_set_cases hk with ⟨rfl, he⟩ | ⟨_, hold⟩
    · exact hc he.symm
    · exact ⟨s, hold, hs⟩
  cases a with
  | run =>
      rcases getElem?_append_call hm with hold | he
      · exact Or.inl ⟨s, hold, hs⟩
      · cases he
  | cancel =>
      rcases getElem?_append_call hm with hold | he
      · exact Or.inl ⟨s, hold, hs⟩
      · cases he
        exact absurd rfl hs
  | part => exact Or.inl ⟨s, hm, hs⟩
  | go k =>
      cases hk : x.calls[k]? with
      | none =>
          simp only [perform, hk] at hm
          exact Or.inl ⟨s, hm, hs⟩
      | some c =>
          cases c with
          | cancel reason' t =>
              simp only [perform, hk] at hm
              cases t with
              | waiting => exact Or.inr (by simp [gives, hk])
              | noted | drained =>
                  refine Or.inl (hset hm fun he => ?_)
                  cases he
                  exact ⟨_, hk, by simp⟩
              | done => exact Or.inl ⟨s, hm, hs⟩
          | run plan t =>
              simp only [perform, hk] at hm
              cases t with
              | waiting =>
                  unfold goRun at hm
                  dsimp only at hm
                  split at hm <;> exact Or.inl (hset hm fun he => by cases he)
              | leading | late => exact Or.inl (hset hm fun he => by cases he)
              | answered => exact Or.inl ⟨s, hm, hs⟩

theorem Informed.perform (h : x.Informed) (ha : a.IsOwn) : (x.perform a).Informed := by
  obtain ⟨_, hcontrol⟩ := x.control_perform ha
  refine ⟨?_, fun m reason s hm hs => ?_⟩
  · rw [hcontrol]
    simp only [Bool.or_eq_true]
    constructor
    · rintro (htold | htells)
      · obtain ⟨m, reason, hm⟩ := h.told.mp htold
        exact ⟨m, reason, perform_done hm⟩
      · exact perform_tells htells
    · rintro ⟨m, reason, hm⟩
      exact (done_perform hm).imp_left fun hdone => h.told.mpr ⟨m, reason, hdone⟩
  · rw [hcontrol]
    rcases begun_perform hm hs with ⟨t, hold, ht⟩ | hgives
    · have hnoted := h.noted m reason t hold ht
      cases hr : x.run.control.reason with
      | none => exact absurd hr hnoted
      | some => simp
    · cases x.run.control.reason with
      | none => simpa using hgives
      | some => simp

theorem Informed.after (h : x.Informed) (hown : ∀ a ∈ actions, a.IsOwn) : (x.after actions).Informed := by
  induction actions generalizing x with
  | nil => exact h
  | cons a rest ih => exact ih (h.perform (hown a List.mem_cons_self)) fun b hb => hown b (List.mem_cons_of_mem _ hb)

/-! ## The steps that close a run -/

/-- Only the leading call changes the stage of a run. -/
theorem Leads.stage_perform (h : x.Leads n plan) (ha : a.IsOwn) (hother : a.goes n = false) :
    (x.perform a).run.stage = x.run.stage := by
  cases a with
  | run | cancel => rfl
  | part => exact (Run.keepsCourse_around ha.2.1 ha.2.2).stage
  | go m =>
      have hne : m ≠ n := by simpa [CoordinatorAction.goes] using hother
      cases hm : x.calls[m]? with
      | none => simp only [Coordinator.perform, hm]
      | some c =>
          cases c with
          | run other s =>
              obtain ⟨_, _, _, he⟩ := h.go_late hne hm
              rw [he]
          | cancel reason s =>
              simp only [Coordinator.perform, hm]
              cases s <;> rfl

theorem Closes.append (h : x.Closes n actions report decided shown written) (more : List CoordinatorAction) :
    x.Closes n (actions ++ more) report decided shown written :=
  { h with writes := h.writes.trans (List.prefix_append _ _) }

theorem Passes.append {stage : RunStage} (h : x.Passes n actions stage) (more : List CoordinatorAction) :
    x.Passes n (actions ++ more) stage := by
  unfold Passes at h ⊢
  split at h
  · obtain ⟨decided, hdecides, hrest⟩ := h
    exact ⟨decided, hdecides.trans (List.prefix_append _ _), hrest⟩
  · obtain ⟨decided, shown, hdecides, hshows, hrest⟩ := h
    exact ⟨decided, shown, hdecides, hshows.trans (List.prefix_append _ _), hrest⟩
  · obtain ⟨decided, shown, written, hcloses⟩ := h
    exact ⟨decided, shown, written, hcloses.append more⟩
  · trivial

/-- A step of the run leads from stage to stage. -/
theorem Passes.proceeds {r : Run} (h : x.Passes n actions (x.after actions).run.stage)
    (hr : (x.after actions).run.Proceeds r) : x.Passes n (actions ++ [.go n]) r.stage := by
  cases hr with
  | stay => exact h.append _
  | refuse | breakDown | beginPooling => trivial
  | @goOn _ _ _ stage after =>
      show x.Passes n _ stage
      cases stage with
      | showing | reporting | ended | broken => exact after.elim
      | _ => trivial
  | decideFinal now => exact ⟨actions, List.prefix_rfl, now, rfl⟩
  | showFinal now =>
      rw [now] at h
      obtain ⟨decided, hdecides, hdeciding, hstate⟩ := h
      exact ⟨decided, actions, hdecides, List.prefix_rfl, hdeciding, now, hstate⟩
  | report now =>
      have hnow := now
      rw [now] at h
      obtain ⟨decided, shown, hdecides, hshows, hdeciding, hshowing, hstate⟩ := h
      exact ⟨decided, shown, actions, hdecides, hshows, List.prefix_rfl, hdeciding, hshowing, hnow, hstate, rfl⟩

/-- A coordinator rests, or the steps of the leading call lie behind its run. -/
theorem Rests.passes (h : x.Rests start) (hown : ∀ a ∈ actions, a.IsOwn) : (x.after actions).Rests start ∨
    ∃ n plan, (x.after actions).Leads n plan ∧ x.Passes n actions (x.after actions).run.stage := by
  -- By the last action: the moments before it are the same, and only a step of the leading call adds one.
  induction actions using List.reverseRecOn with
  | nil => exact Or.inl h
  | append_singleton before a ih =>
      have ha : a.IsOwn := hown a (by simp)
      have hsnoc : x.after (before ++ [a]) = (x.after before).perform a := x.after_append before [a]
      rw [hsnoc]
      rcases ih fun b hb => hown b (List.mem_append_left _ hb) with hrests | ⟨n, plan, hleads, hpasses⟩
      · refine (hrests.perform ha).imp_right ?_
        rintro ⟨n, plan, _, _, hrun, hleads⟩
        refine ⟨n, plan, hleads, ?_⟩
        have hidle : ((x.after before).perform a).run.stage = .idle := by
          rw [hrun]
          exact hrests.stage_eq
        rw [hidle]
        trivial
      · refine Or.inr ⟨n, plan, (hleads.perform ha).1, ?_⟩
        cases hgoes : a.goes n with
        | false =>
            rw [hleads.stage_perform ha hgoes]
            exact hpasses.append _
        | true =>
            obtain rfl := CoordinatorAction.eq_go_of_goes hgoes
            rw [hleads.go_run]
            exact hpasses.proceeds (Run.proceeds_advance _)

/-- A call that returns a report has taken the steps that close its run. -/
theorem Rests.closes (h : x.Rests start) (hown : ∀ a ∈ actions, a.IsOwn)
    (hn : (x.after actions).calls[n]? = some (.run plan (.answered (.ok report)))) :
    ∃ decided shown written, x.Closes n actions report decided shown written := by
  rcases h.passes hown with hrests | ⟨m, other, hleads, hpasses⟩
  · cases hrests.calls n plan _ hn
  · obtain ⟨rfl, rfl⟩ := hleads.eq_of_report hn
    rw [hleads.ended hn] at hpasses
    exact hpasses

/-! ## What a report tells -/

theorem Closes.tells (h : x.Closes n actions report decided shown written) (hown : ∀ a ∈ actions, a.IsOwn)
    (hinformed : x.Informed) (hnone : x.run.control.reason = none) :
    x.Tells n actions report decided shown written := by
  have hwritten : ∀ a ∈ written, a.IsOwn := fun a ha => hown a (h.writes.subset (List.mem_append_left _ ha))
  have hshown : ∀ a ∈ shown, a.IsOwn := fun a ha => hwritten a (h.shows.subset (List.mem_append_left _ ha))
  have hdecided : ∀ a ∈ decided, a.IsOwn := fun a ha => hshown a (h.decides.subset (List.mem_append_left _ ha))
  have hknown := hinformed.after hdecided
  have haborted : report.state = .aborted ↔
      ∃ (m : Nat) (reason : String), (x.after decided).calls[m]? = some (.cancel reason .done) := by
    rw [h.state, ← hknown.told]
    unfold RunControl.finalState
    split <;> simp_all
  have hfirst : report.cancelReason = (x.reasons written).head? := by
    rw [h.reason, x.reason_after hwritten, hnone]
    rfl
  have hcited : report.state = .aborted → report.cancelReason ≠ none := by
    intro hstate
    obtain ⟨m, reason, hdone⟩ := haborted.mp hstate
    obtain ⟨cited, hcited⟩ := Option.ne_none_iff_exists'.mp (hknown.noted m reason _ hdone (by simp))
    -- The reason was noted before the decision, and it stays.
    obtain ⟨more, rfl⟩ := ((List.prefix_append _ _).trans h.decides).trans ((List.prefix_append _ _).trans h.shows)
    have hkept := reason_kept hcited fun a ha => hwritten a (List.mem_append_right _ ha)
    rw [← after_append, ← h.reason] at hkept
    simp [hkept]
  refine { h with aborted := haborted, completed := fun hstate => ?_, first := hfirst, cited := hcited, agree := ?_ }
  · rw [h.state] at hstate ⊢
    exact (Run.finalState_isFinal _).resolve_right hstate
  · rw [← haborted, hfirst]
    constructor
    · intro hagree
      by_cases hstate : report.state = .aborted
      · exact Or.inl hstate
      · simpa [hstate] using hagree
    · rintro (hstate | hnever)
      · exact ⟨fun _ => hstate, fun _ => hfirst ▸ hcited hstate⟩
      · have hempty : report.cancelReason = none := by simp [hfirst, hnever]
        simpa [hnever] using fun hstate => hcited hstate hempty

/-- A coordinator that was not called yet rests, and knows of no cancellation. -/
theorem rests_of_uncalled (h : start.Uncalled) : ({ run := start } : Coordinator).Rests start ∧
    ({ run := start } : Coordinator).Informed ∧ start.control.reason = none := by
  obtain ⟨clock, he⟩ := h.rests
  have hcontrol : start.control = {} := by
    rw [he]
    rfl
  refine ⟨⟨h.stage, ⟨clock, none, false, he⟩, fun _ _ _ hn => by cases hn⟩, ⟨?_, fun _ _ _ hn => by cases hn⟩, ?_⟩
  · simp [hcontrol]
  · rw [hcontrol]

theorem exists_uncalled {config : Config} (hconfig : config.validate = .ok ()) (site : Site) (draws : Nat → Nat → Nat)
    (probe : Nat → Except ProbeError MemoryReading) :
    ∃ start : Run, Coordinator.new? config site draws probe = some { run := start } ∧ start.Uncalled := by
  have hpolicy := PoolPolicy.Valid.of_validate (Config.parts_of_validate hconfig).1
  obtain ⟨pool, hpool⟩ := Pool.submit?_isSome hpolicy.ordered
  obtain ⟨start, hstart⟩ : ∃ start, Run.ofPlan? config [] site draws probe = some start :=
    ⟨_, congrArg (Option.map _) hpool⟩
  exact ⟨start, congrArg (Option.map _) hstart, .ofPlan hstart hconfig⟩

/-- However cancellations fall between the steps that close a run, its report tells that it was aborted exactly if one
of them was done at the first of these steps, and gives the first reason that was there at the last. -/
theorem report_tells {config : Config} (hconfig : config.validate = .ok ()) (site : Site) (draws : Nat → Nat → Nat)
    (probe : Nat → Except ProbeError MemoryReading) :
    ∃ x, Coordinator.new? config site draws probe = some x ∧
      ∀ actions : List CoordinatorAction, (∀ a ∈ actions, a.IsOwn) → ∀ n plan report,
        (x.after actions).calls[n]? = some (.run plan (.answered (.ok report))) →
        ∃ decided shown written, x.Tells n actions report decided shown written := by
  obtain ⟨start, hnew, huncalled⟩ := exists_uncalled hconfig site draws probe
  obtain ⟨hrests, hinformed, hnone⟩ := rests_of_uncalled huncalled
  refine ⟨_, hnew, fun actions hown n plan report hn => ?_⟩
  obtain ⟨decided, shown, written, hcloses⟩ := hrests.closes hown hn
  exact ⟨decided, shown, written, hcloses.tells hown hinformed hnone⟩

/-- A page as it is handed to a coordinator. -/
def freshPage : List Job := [{ id := "job-1", url := "https://a.example", planIndex := 0 }]

/-- The page is audited, and the run has everything behind it but the steps that close it. A call that cancels has been
made and has taken no step. -/
def comesToClose : List CoordinatorAction :=
  [.run freshPage, .cancel "收到 Ctrl+C", .go 0, .go 0, .part (.poll (.part .turns)), .part (.poll (.part (.attempt 1))),
    .part (.poll (.part .turns)), .go 0]

/-- The run decides how it ends, the call cancels it, and the run shows its state and writes its report. -/
def cancelsAtClose : List CoordinatorAction :=
  comesToClose ++ [.go 0, .go 1, .go 1, .go 1, .go 0, .go 0]

theorem own_cancelsAtClose : ∀ a ∈ cancelsAtClose, a.IsOwn := by
  simp [cancelsAtClose, comesToClose, CoordinatorAction.IsOwn, RunAction.IsOwn, RunAction.Cancels]

/-- The report that a call has returned. -/
def report? (x : Coordinator) (n : Nat) : Option (List Job × RunReport) :=
  match x.calls[n]? with
  | some (.run plan (.answered (.ok report))) => some (plan, report)
  | _ => none

theorem calls_of_report? (h : x.report? n = some (plan, report)) :
    x.calls[n]? = some (.run plan (.answered (.ok report))) := by
  unfold report? at h
  split at h
  · rename_i heq
    cases h
    exact heq
  · cases h

theorem freshPage_report_tells : Config.validate {} = .ok () ∧ validatePlan freshPage = .ok () ∧
    (∀ a ∈ cancelsAtClose, a.IsOwn) ∧
    ∃ x, Coordinator.new? {} Run.quietSite (fun _ _ => 0) (fun _ => .ok { used := 1, free := 1 }) = some x ∧
      ∃ plan report, (x.after cancelsAtClose).calls[0]? = some (.run plan (.answered (.ok report))) ∧
        ∃ decided shown written, x.Tells 0 cancelsAtClose report decided shown written := by
  obtain ⟨x, hx, htells⟩ := report_tells (rfl : Config.validate {} = .ok ()) Run.quietSite (fun _ _ => 0)
    (fun _ => .ok { used := 1, free := 1 })
  have hreturned : ((x.after cancelsAtClose).report? 0).isSome = true := by
    obtain rfl := Option.some.inj hx
    decide +kernel
  obtain ⟨⟨plan, report⟩, hreport⟩ := Option.isSome_iff_exists.mp hreturned
  have hcall := calls_of_report? hreport
  exact ⟨rfl, rfl, own_cancelsAtClose, x, hx, plan, report, hcall, htells _ own_cancelsAtClose 0 plan report hcall⟩

/-- A cancellation between the first and the last of the closing steps leaves a completed run with a reason for its
cancellation. -/
theorem cancel_at_close_disagrees : Config.validate {} = .ok () ∧ validatePlan freshPage = .ok () ∧
    (∀ a ∈ cancelsAtClose, a.IsOwn) ∧
    ∃ x, Coordinator.new? {} Run.quietSite (fun _ _ => 0) (fun _ => .ok { used := 1, free := 1 }) = some x ∧
      ∃ plan report, (x.after cancelsAtClose).calls[0]? = some (.run plan (.answered (.ok report))) ∧
        report.results.map (·.state) = [.succeeded] ∧ report.state = .completed ∧
        report.cancelReason = some "收到 Ctrl+C" ∧ ¬(report.cancelReason ≠ none ↔ report.state = .aborted) := by
  refine ⟨rfl, rfl, own_cancelsAtClose, _, rfl, ?_⟩
  generalize hx : (after _ cancelsAtClose) = y
  have hshown : (y.report? 0).map (fun r => (r.2.results.map (·.state), r.2.state, r.2.cancelReason)) =
      some ([.succeeded], .completed, some "收到 Ctrl+C") := by
    rw [← hx]
    decide +kernel
  obtain ⟨⟨plan, report⟩, hreport, hfacts⟩ := Option.map_eq_some_iff.mp hshown
  simp only [Prod.mk.injEq] at hfacts
  obtain ⟨hresults, hstate, hreason⟩ := hfacts
  exact ⟨plan, report, calls_of_report? hreport, hresults, hstate, hreason, by simp [hstate, hreason]⟩

end Coordinator

end PageAudit
