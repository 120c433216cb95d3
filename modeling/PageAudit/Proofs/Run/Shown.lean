import PageAudit.Proofs.Run.Leading
import Mathlib.Data.List.Destutter

/-!
# What a coordinator shows

The state of a coordinator goes one way, and the reason that it gives for a cancellation is the first that it was given.
-/

namespace PageAudit

namespace RunState

/-- All ways that the state of a run can take. -/
def courses : List (List RunState) :=
  [[.idle, .running, .completed], [.idle, .running, .aborted],
    [.idle, .running, .draining, .completed], [.idle, .running, .draining, .aborted]]

variable {s t : RunState} {l : List RunState}

theorem Next.not_isFinal (h : s.Next t) : ¬ s.IsFinal := by
  cases h <;> grind [IsFinal, IsUnderway]

theorem eq_nil_of_isFinal (hs : s.IsFinal) (h : (s :: l).IsChain Next) : l = [] := by
  cases l with
  | nil => rfl
  | cons t l => exact absurd hs (List.isChain_cons_cons.mp h).1.not_isFinal

theorem Next.of_idle (h : idle.Next t) : t = .running := by
  cases h with
  | begin => rfl
  | finish underway => rcases underway with he | he <;> cases he

theorem Next.of_running (h : running.Next t) : t = .draining ∨ t.IsFinal := by
  cases h with
  | drain => exact Or.inl rfl
  | finish _ final => exact Or.inr final

theorem Next.of_draining (h : draining.Next t) : t.IsFinal := by
  cases h with
  | finish _ final => exact final

/-- A way from the idle state is one of those, as far as it goes. -/
theorem prefix_course (h : (idle :: l).IsChain Next) : ∃ course ∈ courses, idle :: l <+: course := by
  -- The way branches after the second state and ends after a final one.
  cases l with
  | nil => exact ⟨[.idle, .running, .completed], by decide, by decide⟩
  | cons s l =>
      obtain ⟨hs, hl⟩ := List.isChain_cons_cons.mp h
      obtain rfl := hs.of_idle
      cases l with
      | nil => exact ⟨[.idle, .running, .completed], by decide, by decide⟩
      | cons t l =>
          obtain ⟨ht, hl⟩ := List.isChain_cons_cons.mp hl
          rcases ht.of_running with rfl | hfinal
          · cases l with
            | nil => exact ⟨[.idle, .running, .draining, .completed], by decide, by decide⟩
            | cons u l =>
                obtain ⟨hu, hl⟩ := List.isChain_cons_cons.mp hl
                obtain rfl := eq_nil_of_isFinal hu.of_draining hl
                rcases hu.of_draining with rfl | rfl
                · exact ⟨[.idle, .running, .draining, .completed], by decide, List.prefix_rfl⟩
                · exact ⟨[.idle, .running, .draining, .aborted], by decide, List.prefix_rfl⟩
          · obtain rfl := eq_nil_of_isFinal hfinal hl
            rcases hfinal with rfl | rfl
            · exact ⟨[.idle, .running, .completed], by decide, List.prefix_rfl⟩
            · exact ⟨[.idle, .running, .aborted], by decide, List.prefix_rfl⟩

end RunState

namespace Run

variable {r s : Run}

/-- The report tells of no other reason for a cancellation than the one that is noted. -/
def Cites (r : Run) : Prop :=
  ∀ report : RunReport, r.stage = .ended (.ok report) → ∀ reason, report.cancelReason = some reason →
    r.control.reason = some reason

theorem drain_reason (c : RunControl) : c.drain.reason = c.reason := by
  unfold RunControl.drain
  split <;> rfl

theorem Cites.evolves (h : r.Cites) (hr : r.Evolves s) : s.Cites := by
  intro report hs reason hreason
  cases hr with
  | stay | tell => exact h report hs reason hreason
  | noteReason =>
      have hnoted := h report hs reason hreason
      simp [Run.noteReason, RunControl.noteReason, hnoted]
  | drain => exact (drain_reason r.control).trans (h report hs reason hreason)
  | advance =>
      rcases r.proceeds_advance.writes hs with he | ⟨_, _, _, _, _, he⟩
      · rw [he] at hs ⊢
        exact h report hs reason hreason
      · rw [he] at hs ⊢
        cases hs
        exact hreason
  | around _ calm apart =>
      have hkeeps := keepsCourse_around (r := r) calm apart
      rw [hkeeps.control]
      exact h report (hkeeps.stage ▸ hs) reason hreason

theorem Cites.evolved (h : r.Cites) (hr : Relation.ReflTransGen Evolves r s) : s.Cites := by
  induction hr with
  | refl => exact h
  | tail _ hstep ih => exact ih.evolves hstep

end Run

namespace Coordinator

variable {start : Run} {x : Coordinator} {n m : Nat} {plan : List Job} {a : CoordinatorAction}
  {actions : List CoordinatorAction}

/-! ## The state -/

/-- All states that are shown in the course of actions. -/
def states (x : Coordinator) : List CoordinatorAction → List RunState
  | [] => [x.state]
  | a :: rest => x.state :: (x.perform a).states rest

theorem states_eq_cons (x : Coordinator) (actions : List CoordinatorAction) :
    ∃ rest, x.states actions = x.state :: rest := by
  cases actions <;> exact ⟨_, rfl⟩

/-- An action leaves the state as it is or takes it one step on its way. -/
theorem Rests.state_perform (h : x.Rests start) (ha : a.IsOwn) :
    (x.perform a).state = x.state ∨ x.state.Next (x.perform a).state := by
  rcases h.perform ha with hrests | ⟨n, plan, rfl, hn, hrun, _⟩
  · exact Or.inl (hrests.state_eq.trans h.state_eq.symm)
  · refine Or.inr ?_
    rw [h.state_eq, state, hrun]
    exact .begin

theorem Leads.state_perform (h : x.Leads n plan) (ha : a.IsOwn) :
    (x.perform a).state = x.state ∨ x.state.Next (x.perform a).state :=
  ((h.perform ha).2.shifts h.fits).2

/-- A coordinator rests, or a call leads. -/
def Steady (start : Run) (x : Coordinator) : Prop := x.Rests start ∨ ∃ n plan, x.Leads n plan

theorem Steady.perform (h : x.Steady start) (ha : a.IsOwn) : (x.perform a).Steady start ∧
    ((x.perform a).state = x.state ∨ x.state.Next (x.perform a).state) := by
  rcases h with hrests | ⟨n, plan, hleads⟩
  · exact ⟨(hrests.perform ha).imp_right fun ⟨n, plan, _, _, _, hleads⟩ => ⟨n, plan, hleads⟩, hrests.state_perform ha⟩
  · exact ⟨Or.inr ⟨n, plan, (hleads.perform ha).1⟩, hleads.state_perform ha⟩

/-- A state in which a run has ended is never left. -/
theorem Steady.final_after (h : x.Steady start) (hfinal : x.state.IsFinal) (hown : ∀ a ∈ actions, a.IsOwn) :
    (x.after actions).state = x.state := by
  induction actions generalizing x with
  | nil => rfl
  | cons a rest ih =>
      obtain ⟨hsteady, hstate⟩ := h.perform (hown a List.mem_cons_self)
      have hsame := hstate.resolve_right fun hnext => hnext.not_isFinal hfinal
      exact (ih hsteady (hsame ▸ hfinal) fun b hb => hown b (List.mem_cons_of_mem _ hb)).trans hsame

/-- The states that are shown, without repetitions, follow each other as they may. -/
theorem Steady.chain (h : x.Steady start) (hown : ∀ a ∈ actions, a.IsOwn) :
    ∃ rest, (x.states actions).destutter (· ≠ ·) = x.state :: rest ∧
      (x.state :: rest).IsChain RunState.Next := by
  induction actions generalizing x with
  | nil => exact ⟨[], rfl, List.isChain_singleton _⟩
  | cons a rest ih =>
      obtain ⟨hsteady, hstate⟩ := h.perform (hown a List.mem_cons_self)
      obtain ⟨later, hlater, hchain⟩ := ih hsteady fun b hb => hown b (List.mem_cons_of_mem _ hb)
      obtain ⟨shown, hshown⟩ := (x.perform a).states_eq_cons rest
      rw [hshown, List.destutter_cons'] at hlater
      rw [states, hshown, List.destutter_cons']
      by_cases hsame : x.state = (x.perform a).state
      · rw [List.destutter'_cons_neg _ (by simpa using hsame), hsame]
        exact ⟨later, hlater, hchain⟩
      · rw [List.destutter'_cons_pos _ hsame, hlater]
        exact ⟨_, rfl, List.isChain_cons_cons.mpr ⟨hstate.resolve_left (Ne.symm hsame), hchain⟩⟩

/-! ## The cancellation -/

/-- The reason that an action gives for a cancellation. -/
def gives (x : Coordinator) : CoordinatorAction → Option String
  | .go n =>
    match x.calls[n]? with
    | some (.cancel reason .waiting) => some reason
    | _ => none
  | _ => none

/-- The action tells the run that it is cancelled. -/
def tells (x : Coordinator) : CoordinatorAction → Bool
  | .go n =>
    match x.calls[n]? with
    | some (.cancel _ .drained) => true
    | _ => false
  | _ => false

/-- All reasons that are given in the course of actions, in order. -/
def reasons (x : Coordinator) : List CoordinatorAction → List String
  | [] => []
  | a :: rest => (x.gives a).toList ++ (x.perform a).reasons rest

/-- A reason is noted if there is none, and a cancellation stays. -/
theorem control_perform (x : Coordinator) (ha : a.IsOwn) :
    ∃ state, (x.perform a).run.control =
      { state, reason := x.run.control.reason <|> x.gives a, cancelled := x.run.control.cancelled || x.tells a } := by
  have hsame : ∀ state, ({ x.run.control with state } : RunControl) =
      { state, reason := x.run.control.reason <|> none, cancelled := x.run.control.cancelled || false } := by simp
  cases a with
  | run | cancel => exact ⟨_, hsame _⟩
  | part a => exact ⟨_, (Run.keepsCourse_around ha.2.1 ha.2.2).control.trans (hsame _)⟩
  | go n =>
      cases hn : x.calls[n]? with
      | none =>
          simp only [perform, gives, tells, hn]
          exact ⟨_, hsame _⟩
      | some c =>
          cases c with
          | cancel reason s =>
              simp only [perform, gives, tells, hn]
              cases s with
              | waiting => exact ⟨x.run.control.state, by simp [goCancel, Run.noteReason, RunControl.noteReason]⟩
              | noted =>
                  refine ⟨x.run.control.drain.state, Eq.trans ?_ (hsame _)⟩
                  show x.run.control.drain = _
                  unfold RunControl.drain
                  split <;> rfl
              | drained => exact ⟨x.run.control.state, by simp [goCancel, Run.tell, RunControl.tell]⟩
              | done => exact ⟨_, hsame _⟩
          | run plan s =>
              simp only [perform, gives, tells, hn]
              cases s with
              | waiting =>
                  unfold goRun
                  dsimp only
                  split
                  · rename_i control hbegun
                    unfold RunControl.begin at hbegun
                    split at hbegun
                    · cases hbegun
                      exact ⟨_, hsame _⟩
                    · cases hbegun
                  · exact ⟨_, hsame _⟩
              | leading =>
                  obtain ⟨_, hcontrol⟩ := x.run.proceeds_advance.keepsTask.control
                  exact ⟨_, hcontrol.trans (hsame _)⟩
              | late | answered => exact ⟨_, hsame _⟩

/-- The reason is the first one that was given. -/
theorem reason_after (x : Coordinator) (hown : ∀ a ∈ actions, a.IsOwn) :
    (x.after actions).run.control.reason = (x.run.control.reason <|> (x.reasons actions).head?) := by
  induction actions generalizing x with
  | nil => simp [after, reasons]
  | cons a rest ih =>
      have hrest := ih (x.perform a) fun b hb => hown b (List.mem_cons_of_mem _ hb)
      obtain ⟨_, hcontrol⟩ := x.control_perform (hown a List.mem_cons_self)
      rw [hcontrol] at hrest
      refine hrest.trans ?_
      cases x.run.control.reason <;> cases hg : x.gives a <;> simp [reasons, hg]

/-- Once there is a reason, it stays. -/
theorem reason_kept {reason : String} (hnoted : x.run.control.reason = some reason) (hown : ∀ a ∈ actions, a.IsOwn) :
    (x.after actions).run.control.reason = some reason := by
  rw [x.reason_after hown, hnoted]
  rfl

/-- What a report tells of the reason for a cancellation was noted. -/
theorem Rests.reported (h : x.Rests start) (hown : ∀ a ∈ actions, a.IsOwn) {report : RunReport} {reason : String}
    (hn : (x.after actions).calls[n]? = some (.run plan (.answered (.ok report))))
    (hreason : report.cancelReason = some reason) : (x.after actions).run.control.reason = some reason := by
  rcases h.after hown with hrests | ⟨m, other, ⟨before, later, rfl, hnow⟩, hleads⟩
  · cases hrests.calls n plan _ hn
  · obtain ⟨rfl, rfl⟩ := hleads.eq_of_report hn
    obtain ⟨hrests, taken, _, hevolved⟩ := h.begun hown hnow
    have hbegun : Run.Cites ((x.after before).run.takeUp { (x.after before).run.control with state := .running } taken) :=
      fun _ hs => by cases hrests.stage_eq.symm.trans hs
    exact hbegun.evolved hevolved report (hleads.ended hn) reason hreason

/-- When a cancellation is done, the run has been told. -/
def Told (x : Coordinator) : Prop :=
  ∀ (n : Nat) (reason : String), x.calls[n]? = some (.cancel reason .done) → x.run.control.cancelled = true

/-- A cancellation is done by the step that tells the run. -/
theorem done_perform {reason : String} (hn : (x.perform a).calls[n]? = some (.cancel reason .done)) :
    x.calls[n]? = some (.cancel reason .done) ∨ x.tells a = true := by
  have hset : ∀ {m : Nat} {c : Call}, (x.calls.set m c)[n]? = some (.cancel reason .done) →
      c ≠ .cancel reason .done → x.calls[n]? = some (.cancel reason .done) := by
    intro m c hm hc
    rcases getElem?_set_cases hm with ⟨_, he⟩ | ⟨_, hold⟩
    · exact absurd he.symm hc
    · exact hold
  cases a with
  | run | cancel =>
      rcases getElem?_append_call hn with hold | he
      · exact Or.inl hold
      · cases he
  | part => exact Or.inl hn
  | go m =>
      cases hm : x.calls[m]? with
      | none =>
          simp only [perform, hm] at hn
          exact Or.inl hn
      | some c =>
          cases c with
          | cancel reason' s =>
              simp only [perform, hm] at hn
              cases s with
              | waiting | noted => exact Or.inl (hset hn (by simp))
              | drained => exact Or.inr (by simp [tells, hm])
              | done => exact Or.inl hn
          | run plan s =>
              simp only [perform, hm] at hn
              cases s with
              | waiting =>
                  unfold goRun at hn
                  dsimp only at hn
                  split at hn <;> exact Or.inl (hset hn (by simp))
              | leading | late => exact Or.inl (hset hn (by simp))
              | answered => exact Or.inl hn

theorem Told.perform (h : x.Told) (ha : a.IsOwn) : (x.perform a).Told := by
  intro n reason hn
  obtain ⟨_, hcontrol⟩ := x.control_perform ha
  rw [hcontrol]
  rcases done_perform hn with hdone | htells
  · simp [h n reason hdone]
  · simp [htells]

theorem Told.after (h : x.Told) (hown : ∀ a ∈ actions, a.IsOwn) : (x.after actions).Told := by
  induction actions generalizing x with
  | nil => exact h
  | cons a rest ih =>
      exact ih (h.perform (hown a List.mem_cons_self)) fun b hb => hown b (List.mem_cons_of_mem _ hb)

end Coordinator

end PageAudit
