import PageAudit.Proofs.Run.Calls

/-!
# Who leads a run

A coordinator rests until one of its calls begins the run. From then on that call leads, every other call that runs a plan
is late, and the state never becomes idle again.
-/

namespace PageAudit

/-- A call that has not begun the run: it was told at most that the run is under way or over. -/
def RunCall.IsLate : RunCall → Prop
  | .waiting | .late => True
  | .leading => False
  | .answered answer => ∃ s : RunState, s ≠ .idle ∧ answer = .error (.run (.alreadyStarted s.name))

/-- The steps that a late call takes until it is answered. -/
def RunCall.stepsLeft : RunCall → Nat
  | .waiting => 2
  | .late => 1
  | .leading | .answered _ => 0

/-- The action is a step of a given call. -/
def CoordinatorAction.goes (n : Nat) : CoordinatorAction → Bool
  | .go m => m == n
  | _ => false

theorem CoordinatorAction.eq_go_of_goes {a : CoordinatorAction} {n : Nat} (h : a.goes n = true) : a = .go n := by
  cases a with
  | go m => exact congrArg go (beq_iff_eq.mp h)
  | run | cancel | part => cases h

theorem RunStage.Fits.not_isLate {stage : RunStage} {s : RunState} (h : stage.Fits s) : ¬ stage.leader.IsLate := by
  intro hlate
  unfold leader at hlate
  split at hlate
  · obtain ⟨_, _, rfl⟩ := hlate
    exact h.2 _ rfl
  · exact hlate

namespace Run

/-- The run before it begins: time has passed, and something may be known of a cancellation. -/
def atRest (start : Run) (clock : Nat) (reason : Option String) (cancelled : Bool) : Run :=
  { start with
    control := { reason, cancelled }
    session := { start.session with
      site := start.session.site.elapse clock
      pool := { start.session.pool with clock, cancelled } } }

/-- What a run was given stays as it is, and so does what is known of a cancellation. -/
structure KeepsTask (r s : Run) : Prop where
  config : s.config = r.config
  plan : s.plan = r.plan
  control : ∃ state, s.control = { r.control with state }

theorem Proceeds.keepsTask {r s : Run} (h : r.Proceeds s) : KeepsTask r s := by
  cases h with
  | refuse => exact ⟨rfl, rfl, .aborted, rfl⟩
  | @showFinal _ _ _ state => exact ⟨rfl, rfl, state, rfl⟩
  | _ => exact ⟨rfl, rfl, r.control.state, rfl⟩

end Run

namespace Coordinator

/-- No call has begun the run yet. -/
structure Rests (start : Run) (x : Coordinator) : Prop where
  stage : start.stage = .idle
  run : ∃ clock reason cancelled, x.run = start.atRest clock reason cancelled
  calls : ∀ (n : Nat) (plan : List Job) (s : RunCall), x.calls[n]? = some (.run plan s) → s = .waiting

/-- A call has begun the run and goes on with it, and all others are late. -/
structure Leads (n : Nat) (plan : List Job) (x : Coordinator) : Prop where
  call : x.calls[n]? = some (.run plan x.run.stage.leader)
  plan_eq : x.run.plan = plan
  fits : x.run.stage.Fits x.state
  others : ∀ m, m ≠ n → ∀ (other : List Job) (s : RunCall), x.calls[m]? = some (.run other s) → s.IsLate

variable {start : Run} {x : Coordinator} {n m : Nat} {plan : List Job} {a : CoordinatorAction}
  {actions : List CoordinatorAction}

theorem Rests.state_eq (h : x.Rests start) : x.state = .idle := by
  obtain ⟨_, _, _, he⟩ := h.run
  rw [state, he]
  rfl

theorem Rests.stage_eq (h : x.Rests start) : x.run.stage = .idle := by
  obtain ⟨_, _, _, he⟩ := h.run
  rw [he]
  exact h.stage

theorem Leads.state_ne (h : x.Leads n plan) : x.state ≠ .idle := h.fits.ne_idle

theorem Leads.unique {other : List Job} (h : x.Leads n plan) (h' : x.Leads m other) : n = m := by
  by_contra hne
  exact h'.fits.not_isLate (h.others m (Ne.symm hne) _ _ h'.call)

/-- When the call that leads has returned, the run has ended. -/
theorem Leads.ended (h : x.Leads n plan) {answer : Except AppError RunReport}
    (hn : x.calls[n]? = some (.run plan (.answered answer))) : x.run.stage = .ended answer := by
  have hcall := h.call.symm.trans hn
  cases hstage : x.run.stage <;> rw [hstage] at hcall <;> cases hcall
  rfl

/-- No other call returns a report. -/
theorem Leads.eq_of_report {other : List Job} {report : RunReport} (h : x.Leads n plan)
    (hm : x.calls[m]? = some (.run other (.answered (.ok report)))) : m = n ∧ other = plan := by
  by_cases hne : m = n
  · subst hne
    have hcall := h.call.symm.trans hm
    injection hcall with hcall
    injection hcall with hplan
    exact ⟨rfl, hplan.symm⟩
  · obtain ⟨_, _, he⟩ := h.others m hne other _ hm
    cases he

/-! ## One action -/

theorem getElem?_append_call {calls : List Call} {c d : Call} (h : (calls ++ [c])[n]? = some d) :
    calls[n]? = some d ∨ d = c := by
  rw [List.getElem?_append] at h
  split at h
  · exact Or.inl h
  · exact Or.inr (List.mem_singleton.mp (List.mem_of_getElem? h))

theorem getElem?_append_of_some {calls : List Call} {c d : Call} (h : calls[n]? = some c) :
    (calls ++ [d])[n]? = some c := by
  rw [List.getElem?_append_left (List.getElem?_eq_some_iff.mp h).1]
  exact h

theorem perform_begin (hidle : x.state = .idle) (hn : x.calls[n]? = some (.run plan .waiting)) :
    x.perform (.go n) =
      { run := x.run.takeUp { x.run.control with state := .running } plan
        calls := x.calls.set n (.run plan .leading) } := by
  have hbegin : x.run.control.begin = .ok { x.run.control with state := .running } :=
    if_pos (by simpa [state] using hidle)
  simp only [perform, hn, goRun, hbegin]

/-- An action of a coordinator at rest leaves it at rest, or it is the step with which a call begins the run. -/
theorem Rests.perform (h : x.Rests start) (ha : a.IsOwn) :
    (x.perform a).Rests start ∨ ∃ n plan, a = .go n ∧ x.calls[n]? = some (.run plan .waiting) ∧
      (x.perform a).run = x.run.takeUp { x.run.control with state := .running } plan ∧
      (x.perform a).Leads n plan := by
  have hstage := h.stage_eq
  have hstate := h.state_eq
  obtain ⟨clock, reason, cancelled, hrun⟩ := h.run
  have hset : ∀ {n : Nat} {reason : String} {s : CancelCall} (plan : List Job) (m : Nat) (t : RunCall),
      (x.calls.set n (.cancel reason s))[m]? = some (.run plan t) → t = .waiting := by
    intro n reason s plan m t hm
    rcases getElem?_set_cases hm with ⟨_, he⟩ | ⟨_, hm⟩
    · cases he
    · exact h.calls m plan t hm
  cases a with
  | run plan =>
      refine Or.inl ⟨h.stage, h.run, fun n other s hn => ?_⟩
      rcases getElem?_append_call hn with hn | he
      · exact h.calls n other s hn
      · cases he
        rfl
  | cancel reason =>
      refine Or.inl ⟨h.stage, h.run, fun n other s hn => ?_⟩
      rcases getElem?_append_call hn with hn | he
      · exact h.calls n other s hn
      · cases he
  | part a =>
      refine Or.inl ⟨h.stage, ?_, h.calls⟩
      show ∃ clock reason cancelled, x.run.around a = _
      rcases x.run.around_cases a with ⟨he, _⟩ | ⟨he, hpool | ⟨now, rfl⟩⟩
      · exact ⟨clock, reason, cancelled, he.trans hrun⟩
      · simp [Run.hasQueued, hstage] at hpool
      · rw [he, hrun]
        exact ⟨now, reason, cancelled, rfl⟩
  | go n =>
      cases hn : x.calls[n]? with
      | none =>
          simp only [perform, hn]
          exact Or.inl h
      | some c =>
          cases c with
          | cancel reason' s =>
              refine Or.inl ?_
              simp only [perform, hn]
              cases s with
              | waiting => exact ⟨h.stage, ⟨clock, _, cancelled, congrArg (·.noteReason reason') hrun⟩, fun m p => hset p m⟩
              | noted => exact ⟨h.stage, ⟨clock, reason, cancelled, congrArg Run.drain hrun⟩, fun m p => hset p m⟩
              | drained => exact ⟨h.stage, ⟨clock, reason, true, congrArg Run.tell hrun⟩, fun m p => hset p m⟩
              | done => exact h
          | run plan s =>
              obtain rfl := h.calls n plan s hn
              have hlt := (List.getElem?_eq_some_iff.mp hn).1
              rw [perform_begin hstate hn]
              refine Or.inr ⟨n, plan, rfl, hn, rfl, ?_⟩
              have hleader : (x.run.takeUp { x.run.control with state := .running } plan).stage = .idle := hstage
              refine ⟨?_, rfl, ?_, fun m hm other s hother => ?_⟩
              · rw [hleader]
                exact List.getElem?_set_self hlt
              · rw [hleader]
                exact Or.inl rfl
              · rcases getElem?_set_cases hother with ⟨he, _⟩ | ⟨_, hother⟩
                · exact absurd he hm
                · obtain rfl := h.calls m other s hother
                  trivial

/-- What the run and the calls become when a call other than the leading one is set to another stage. -/
theorem Leads.set (h : x.Leads n plan) (hm : m ≠ n) {r : Run} {c : Call} (hr : x.run.Evolves r)
    (hstage : r.stage = x.run.stage) (hplan : r.plan = x.run.plan)
    (hc : ∀ other s, c = .run other s → s.IsLate) : ({ run := r, calls := x.calls.set m c } : Coordinator).Leads n plan where
  call := by
    show (x.calls.set m c)[n]? = some (.run plan r.stage.leader)
    rw [List.getElem?_set_ne hm, hstage]
    exact h.call
  plan_eq := hplan.trans h.plan_eq
  fits := (hr.shifts h.fits).1
  others k hk other s hs := by
    rcases getElem?_set_cases hs with ⟨_, he⟩ | ⟨_, hs⟩
    · exact hc other s he.symm
    · exact h.others k hk other s hs

theorem Leads.add (h : x.Leads n plan) {c : Call} (hc : ∀ other s, c = .run other s → s.IsLate) :
    ({ x with calls := x.calls ++ [c] } : Coordinator).Leads n plan where
  call := getElem?_append_of_some h.call
  plan_eq := h.plan_eq
  fits := h.fits
  others k hk other s hs := by
    rcases getElem?_append_call hs with hs | he
    · exact h.others k hk other s hs
    · exact hc other s he.symm

theorem Leads.advance (h : x.Leads n plan) :
    ({ run := x.run.advance, calls := x.calls.set n (.run plan x.run.advance.stage.leader) } : Coordinator).Leads n
      plan where
  call := List.getElem?_set_self (List.getElem?_eq_some_iff.mp h.call).1
  plan_eq := x.run.proceeds_advance.keepsTask.plan.trans h.plan_eq
  fits := (Run.Evolves.advance.shifts h.fits).1
  others k hk other s hs := by
    rcases getElem?_set_cases hs with ⟨he, _⟩ | ⟨_, hs⟩
    · exact absurd he hk
    · exact h.others k hk other s hs

/-- A late call leaves the run as it is. -/
theorem Leads.go_late (h : x.Leads n plan) (hne : m ≠ n) {other : List Job} {s : RunCall}
    (hm : x.calls[m]? = some (.run other s)) :
    ∃ t : RunCall, t.IsLate ∧ t.stepsLeft = s.stepsLeft - 1 ∧
      x.perform (.go m) = { x with calls := x.calls.set m (.run other t) } := by
  have hlate := h.others m hne other s hm
  simp only [Coordinator.perform, hm]
  cases s with
  | waiting =>
      have hbegun : x.run.control.begin = .error (.alreadyStarted x.run.control.state.name) :=
        if_neg (by simpa [state] using h.state_ne)
      simp only [goRun, hbegun]
      exact ⟨.late, trivial, rfl, rfl⟩
  | leading => exact hlate.elim
  | late => exact ⟨.answered _, ⟨x.state, h.state_ne, rfl⟩, rfl, rfl⟩
  | answered answer =>
      obtain ⟨hlt, hat⟩ := List.getElem?_eq_some_iff.mp hm
      refine ⟨.answered answer, hlate, rfl, ?_⟩
      rw [← hat, List.set_getElem_self]
      rfl

/-- The call that leads goes on leading, and the run evolves step by step. -/
theorem Leads.perform (h : x.Leads n plan) (ha : a.IsOwn) :
    (x.perform a).Leads n plan ∧ x.run.Evolves (x.perform a).run := by
  cases a with
  | run other =>
      refine ⟨h.add fun _ s he => ?_, .stay⟩
      cases he
      trivial
  | cancel reason => exact ⟨h.add fun _ _ he => (by cases he), .stay⟩
  | part a =>
      have hevolves : x.run.Evolves (x.run.around a) := .around ha.1 ha.2.1 ha.2.2
      have hkeeps := Run.keepsCourse_around (r := x.run) ha.2.1 ha.2.2
      refine ⟨⟨?_, hkeeps.plan.trans h.plan_eq, (hevolves.shifts h.fits).1, h.others⟩, hevolves⟩
      show x.calls[n]? = some (.run plan (x.run.around a).stage.leader)
      rw [hkeeps.stage]
      exact h.call
  | go m =>
      cases hm : x.calls[m]? with
      | none =>
          simp only [Coordinator.perform, hm]
          exact ⟨h, .stay⟩
      | some c =>
          cases c with
          | cancel reason s =>
              have hne : m ≠ n := fun he => by
                rw [he, h.call] at hm
                cases hm
              have hset : ∀ {r : Run} (s : CancelCall), x.run.Evolves r → r.stage = x.run.stage →
                  r.plan = x.run.plan →
                  ({ run := r, calls := x.calls.set m (.cancel reason s) } : Coordinator).Leads n plan ∧
                    x.run.Evolves r := fun s hr hstage hplan =>
                ⟨h.set hne hr hstage hplan fun _ _ he => (by cases he), hr⟩
              simp only [Coordinator.perform, hm]
              cases s with
              | waiting => exact hset _ (.noteReason reason) rfl rfl
              | noted => exact hset _ .drain rfl rfl
              | drained => exact hset _ .tell rfl rfl
              | done => exact ⟨h, .stay⟩
          | run other s =>
              simp only [Coordinator.perform, hm]
              by_cases hne : m = n
              · subst hne
                have he := h.call.symm.trans hm
                injection he with he
                injection he with hplan hs
                subst hplan
                cases hstage : x.run.stage with
                | ended outcome =>
                    rw [hstage] at hs
                    rw [← hs]
                    exact ⟨h, .stay⟩
                | _ =>
                    rw [hstage] at hs
                    rw [← hs]
                    exact ⟨h.advance, .advance⟩
              · obtain ⟨t, ht, _, he⟩ := h.go_late hne hm
                simp only [Coordinator.perform, hm] at he
                rw [he]
                exact ⟨h.set hne .stay rfl rfl fun _ _ heq => (by cases heq; exact ht), .stay⟩

/-- A step of the leading call is a step of the run. -/
theorem Leads.go_run (h : x.Leads n plan) : (x.perform (.go n)).run = x.run.advance := by
  have hcall := h.call
  unfold RunStage.leader at hcall
  split at hcall
  · rename_i outcome hstage
    simp only [Coordinator.perform, hcall, goRun]
    unfold Run.advance
    simp only [hstage, Run.step]
  · simp only [Coordinator.perform, hcall, goRun]

/-! ## All actions -/

theorem Leads.after (h : x.Leads n plan) (hown : ∀ a ∈ actions, a.IsOwn) :
    (x.after actions).Leads n plan ∧ Relation.ReflTransGen Run.Evolves x.run (x.after actions).run := by
  induction actions generalizing x with
  | nil => exact ⟨h, .refl⟩
  | cons a rest ih =>
      obtain ⟨hleads, hevolves⟩ := h.perform (hown a List.mem_cons_self)
      obtain ⟨hlast, hrest⟩ := ih hleads fun b hb => hown b (List.mem_cons_of_mem _ hb)
      exact ⟨hlast, .head hevolves hrest⟩

/-- After given actions the next step of a call takes the coordinator out of the idle state. -/
def BeginsAfter (x : Coordinator) (before : List CoordinatorAction) (n : Nat) : Prop :=
  (x.after before).state = .idle ∧ ((x.after before).perform (.go n)).state ≠ .idle

/-- In the course of actions a call takes the coordinator out of the idle state. -/
def Begins (x : Coordinator) (actions : List CoordinatorAction) (n : Nat) : Prop :=
  ∃ before later, actions = before ++ .go n :: later ∧ x.BeginsAfter before n

theorem Begins.append (h : x.Begins actions n) (more : List CoordinatorAction) : x.Begins (actions ++ more) n := by
  obtain ⟨before, later, rfl, hbegins⟩ := h
  exact ⟨before, later ++ more, by simp, hbegins⟩

theorem Rests.after_snoc {before : List CoordinatorAction} (h : (x.after before).Rests start) (ha : a.IsOwn) :
    (x.after (before ++ [a])).Rests start ∨ ∃ n plan, a = .go n ∧ x.BeginsAfter before n ∧
      (x.after (before ++ [a])).Leads n plan := by
  rw [show x.after (before ++ [a]) = (x.after before).perform a from x.after_append before [a]]
  refine (h.perform ha).imp_right ?_
  rintro ⟨n, plan, rfl, _, _, hleads⟩
  exact ⟨n, plan, rfl, ⟨h.state_eq, hleads.state_ne⟩, hleads⟩

/-- A coordinator rests until a call begins the run, and then that call leads. -/
theorem Rests.after (h : x.Rests start) (hown : ∀ a ∈ actions, a.IsOwn) :
    (x.after actions).Rests start ∨ ∃ n plan, x.Begins actions n ∧ (x.after actions).Leads n plan := by
  induction actions using List.reverseRecOn with
  | nil => exact Or.inl h
  | append_singleton before a ih =>
      have ha : a.IsOwn := hown a (by simp)
      rcases ih fun b hb => hown b (List.mem_append_left _ hb) with hrests | ⟨n, plan, hbegins, hleads⟩
      · refine (hrests.after_snoc ha).imp_right ?_
        rintro ⟨n, plan, rfl, hbegins, hleads⟩
        exact ⟨n, plan, ⟨before, [], rfl, hbegins⟩, hleads⟩
      · refine Or.inr ⟨n, plan, hbegins.append _, ?_⟩
        rw [after_append]
        exact (hleads.after fun b hb => List.mem_singleton.mp hb ▸ ha).1

theorem Rests.of_idle (h : x.Rests start) (hown : ∀ a ∈ actions, a.IsOwn) (hidle : (x.after actions).state = .idle) :
    (x.after actions).Rests start :=
  (h.after hown).resolve_right fun ⟨_, _, _, hleads⟩ => hleads.state_ne hidle

/-- The call that begins the run leads it, and the run evolves from there. -/
theorem Rests.begun (h : x.Rests start) {before later : List CoordinatorAction}
    (hown : ∀ a ∈ before ++ .go n :: later, a.IsOwn) (hbegins : x.BeginsAfter before n) :
    (x.after before).Rests start ∧ ∃ plan, (x.after (before ++ .go n :: later)).Leads n plan ∧
      Relation.ReflTransGen Run.Evolves
        ((x.after before).run.takeUp { (x.after before).run.control with state := .running } plan)
        (x.after (before ++ .go n :: later)).run := by
  obtain ⟨hidle, hleft⟩ := hbegins
  have hrests := h.of_idle (fun a ha => hown a (List.mem_append_left _ ha)) hidle
  rcases hrests.perform (a := .go n) trivial with hnow | ⟨m, plan, he, _, hrun, hleads⟩
  · exact absurd hnow.state_eq hleft
  · cases he
    refine ⟨hrests, plan, ?_⟩
    rw [after_append, ← hrun]
    exact hleads.after fun a ha => hown a (by simp [ha])

theorem Rests.leads_of_begins (h : x.Rests start) (hown : ∀ a ∈ actions, a.IsOwn) (hbegins : x.Begins actions n) :
    ∃ plan, (x.after actions).Leads n plan := by
  obtain ⟨before, later, rfl, hnow⟩ := hbegins
  obtain ⟨_, plan, hleads, _⟩ := h.begun hown hnow
  exact ⟨plan, hleads⟩

/-- One call at most begins the run. -/
theorem Rests.begins_unique (h : x.Rests start) (hown : ∀ a ∈ actions, a.IsOwn) (hn : x.Begins actions n)
    (hm : x.Begins actions m) : n = m := by
  obtain ⟨_, hleads⟩ := h.leads_of_begins hown hn
  obtain ⟨_, hleads'⟩ := h.leads_of_begins hown hm
  exact hleads.unique hleads'

/-! ## Calls that are late -/

/-- Only its own steps take a call further. -/
theorem perform_other (hn : a.goes n = false) {c : Call} (hc : x.calls[n]? = some c) :
    (x.perform a).calls[n]? = some c := by
  have hset : ∀ {m : Nat} {d : Call}, m ≠ n → (x.calls.set m d)[n]? = some c := fun hne =>
    (List.getElem?_set_ne hne).trans hc
  cases a with
  | run | cancel => exact getElem?_append_of_some hc
  | part => exact hc
  | go m =>
      have hne : m ≠ n := by simpa [CoordinatorAction.goes] using hn
      cases hm : x.calls[m]? with
      | none =>
          simp only [perform, hm]
          exact hc
      | some d =>
          cases d with
          | run plan s =>
              simp only [perform, hm]
              cases s with
              | waiting =>
                  unfold goRun
                  dsimp only
                  split <;> exact hset hne
              | leading | late => exact hset hne
              | answered => exact hc
          | cancel reason s =>
              simp only [perform, hm]
              cases s with
              | waiting | noted | drained => exact hset hne
              | done => exact hc

/-- Two steps of a late call answer it, whatever happens between them. -/
theorem Leads.answered (h : x.Leads n plan) (hown : ∀ a ∈ actions, a.IsOwn) (hne : m ≠ n) {other : List Job}
    {s : RunCall} (hm : x.calls[m]? = some (.run other s)) (hsteps : s.stepsLeft ≤ actions.countP (CoordinatorAction.goes m)) :
    ∃ t : RunState, t ≠ .idle ∧
      (x.after actions).calls[m]? = some (.run other (.answered (.error (.run (.alreadyStarted t.name))))) := by
  induction actions generalizing x s with
  | nil =>
      have hlate := h.others m hne other s hm
      cases s with
      | waiting | late => simp [RunCall.stepsLeft] at hsteps
      | leading => exact hlate.elim
      | answered =>
          obtain ⟨t, ht, rfl⟩ := hlate
          exact ⟨t, ht, hm⟩
  | cons a rest ih =>
      have hleads := (h.perform (hown a List.mem_cons_self)).1
      have hrest : ∀ b ∈ rest, b.IsOwn := fun b hb => hown b (List.mem_cons_of_mem _ hb)
      cases hgoes : a.goes m with
      | false =>
          rw [List.countP_cons_of_neg (by simp [hgoes])] at hsteps
          exact ih hleads hrest (perform_other hgoes hm) hsteps
      | true =>
          rw [List.countP_cons_of_pos hgoes] at hsteps
          obtain rfl := CoordinatorAction.eq_go_of_goes hgoes
          obtain ⟨t, _, hleft, he⟩ := h.go_late hne hm
          refine ih hleads hrest (s := t) ?_ (by omega)
          rw [he]
          exact List.getElem?_set_self (List.getElem?_eq_some_iff.mp hm).1

/-- A call that has not begun the run finds it at rest, where its next step begins it, or led by another call. -/
theorem Rests.begins_or_led (h : x.Rests start) {before : List CoordinatorAction} (hown : ∀ a ∈ before, a.IsOwn)
    (hnot : ¬ x.Begins before n) {s : RunCall} (hn : (x.after before).calls[n]? = some (.run plan s)) :
    (x.after before).Rests start ∧ s = .waiting ∧ x.BeginsAfter before n ∨
      ∃ m other, m ≠ n ∧ (x.after before).Leads m other := by
  rcases h.after hown with hrests | ⟨m, other, hbegins, hleads⟩
  · obtain rfl := hrests.calls n plan s hn
    refine Or.inl ⟨hrests, rfl, hrests.state_eq, ?_⟩
    rw [perform_begin hrests.state_eq hn]
    exact RunState.noConfusion
  · exact Or.inr ⟨m, other, fun he => hnot (he ▸ hbegins), hleads⟩

/-- A call that does not begin the run leaves it as it is. -/
theorem Rests.unchanged (h : x.Rests start) {before later : List CoordinatorAction}
    (hown : ∀ a ∈ before ++ .go n :: later, a.IsOwn) (hnot : ¬ x.Begins (before ++ .go n :: later) n) {s : RunCall}
    (hn : (x.after before).calls[n]? = some (.run plan s)) :
    ((x.after before).perform (.go n)).run = (x.after before).run := by
  rcases h.begins_or_led (fun a ha => hown a (List.mem_append_left _ ha)) (fun hb => hnot (hb.append _)) hn with
    ⟨_, _, hbegins⟩ | ⟨m, other, hne, hleads⟩
  · exact absurd ⟨before, later, rfl, hbegins⟩ hnot
  · obtain ⟨_, _, _, he⟩ := hleads.go_late (Ne.symm hne) hn
    rw [he]

/-- A call that does not begin the run is answered as soon as it has taken the steps that it takes. -/
theorem Rests.answered (h : x.Rests start) {before later : List CoordinatorAction}
    (hown : ∀ a ∈ before ++ later, a.IsOwn) (hnot : ¬ x.Begins (before ++ later) n) {s : RunCall}
    (hn : (x.after before).calls[n]? = some (.run plan s))
    (hsteps : s.stepsLeft ≤ later.countP (CoordinatorAction.goes n)) :
    ∃ t : RunState, t ≠ .idle ∧ (x.after (before ++ later)).calls[n]? =
      some (.run plan (.answered (.error (.run (.alreadyStarted t.name))))) := by
  induction later generalizing before with
  | nil =>
      rw [List.append_nil] at hown hnot ⊢
      rcases h.begins_or_led hown hnot hn with ⟨_, rfl, _⟩ | ⟨m, other, hne, hleads⟩
      · simp [RunCall.stepsLeft] at hsteps
      · have hanswered := hleads.answered (List.forall_mem_nil CoordinatorAction.IsOwn) (Ne.symm hne) hn hsteps
        exact hanswered
  | cons a rest ih =>
      have hrest : ∀ b ∈ a :: rest, b.IsOwn := fun b hb => hown b (List.mem_append_right _ hb)
      rcases h.begins_or_led (fun b hb => hown b (List.mem_append_left _ hb)) (fun hb => hnot (hb.append _)) hn with
        ⟨_, _, hbegins⟩ | ⟨m, other, hne, hleads⟩
      · cases hgoes : a.goes n with
        | true =>
            obtain rfl := CoordinatorAction.eq_go_of_goes hgoes
            exact absurd ⟨before, rest, rfl, hbegins⟩ hnot
        | false =>
            rw [List.append_cons] at hown hnot ⊢
            refine ih hown hnot ?_ ?_
            · rw [after_append]
              exact perform_other hgoes hn
            · rwa [List.countP_cons_of_neg (by simp [hgoes])] at hsteps
      · rw [after_append]
        exact hleads.answered hrest (Ne.symm hne) hn hsteps

end Coordinator

end PageAudit
