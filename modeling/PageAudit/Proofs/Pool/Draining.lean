import PageAudit.Proofs.Pool.Runs
import PageAudit.Proofs.Pool.Session

/-!
# Draining

As soon as a pool takes notice of a cancellation it calls off the jobs that wait, in plan order. From then on it starts
nothing, and what it still does ends jobs. Attempts that do not end in time are abandoned, and then the pool ends.
-/

namespace PageAudit

/-- An event after which its job goes on. -/
def ProgressEvent.goesOn : ProgressEvent → Bool
  | .started .. | .retried .. => true
  | _ => false

theorem Result.event_goesOn (r : Result) (reason : FinalizeReason) : (r.event reason).goesOn = false := by
  unfold Result.event
  split <;> rfl

namespace Pool

variable {jobs : List Job} {p q s : Pool}

/-! ## After a pool began to drain -/

/-- A draining pool goes on draining: what it tells of jobs ends them, and results are added to those there are. -/
structure Drains (p q : Pool) : Prop where
  draining : q.draining = true
  hardStopped : p.hardStopped = true → q.hardStopped = true
  events : ∃ es, q.events = p.events ++ es ∧ ∀ x ∈ es, x.2.goesOn = false
  results : ∃ rs, q.results = p.results ++ rs

theorem Drains.of_eq (hd : q.draining = true) (hstop : p.hardStopped = true → q.hardStopped = true)
    (hevents : q.events = p.events) (hresults : q.results = p.results) : Drains p q :=
  ⟨hd, hstop, ⟨[], by simp [hevents]⟩, ⟨[], by simp [hresults]⟩⟩

theorem Drains.refl (hd : p.draining = true) : Drains p p :=
  .of_eq hd id rfl rfl

theorem Drains.trans (h : Drains p q) (h' : Drains q s) : Drains p s := by
  obtain ⟨es, hes, hends⟩ := h.events
  obtain ⟨es', hes', hends'⟩ := h'.events
  obtain ⟨rs, hrs⟩ := h.results
  obtain ⟨rs', hrs'⟩ := h'.results
  refine ⟨h'.draining, fun hp => h'.hardStopped (h.hardStopped hp), ⟨es ++ es', ?_, fun x hx => ?_⟩, rs ++ rs', ?_⟩
  · rw [hes', hes, List.append_assoc]
  · exact (List.mem_append.mp hx).elim (hends x) (hends' x)
  · rw [hrs', hrs, List.append_assoc]

theorem Drains.emit (hd : p.draining = true) (r : Result) (reason : FinalizeReason) :
    Drains p (p.emit r reason) := by
  refine ⟨hd, id, ⟨[(p.clock, r.event reason)], rfl, fun x hx => ?_⟩, [(p.clock, r)], rfl⟩
  rw [List.mem_singleton.mp hx]
  exact r.event_goesOn reason

theorem Drains.calledOff (hd : p.draining = true) (reason : String) (js : List Job) :
    Drains p (p.calledOff reason js) := by
  refine ⟨hd, id, ⟨_, rfl, fun x hx => ?_⟩, _, rfl⟩
  obtain ⟨j, _, rfl⟩ := List.mem_map.mp hx
  rfl

theorem Drains.changed (hd : p.draining = true) (hq : q.draining = p.draining ∧ q.hardStopped = p.hardStopped)
    (hresults : q.results = p.results) {before after : Nat} {reason : String}
    (hevents : q.events = p.events ++ [(p.clock, .concurrencyChanged before after reason)]) : Drains p q := by
  refine ⟨hq.1.trans hd, fun hp => hq.2.trans hp, ⟨_, hevents, fun x hx => ?_⟩, [], by simp [hresults]⟩
  rw [List.mem_singleton.mp hx]
  rfl

theorem Drains.taken {r : SlotReport} {held : Bool} {job : Job} (hd : p.draining = true)
    (ht : p.Taken r held job q) (o : AttemptOutcome) : Drains p (q.recordOutcome o) := by
  obtain ⟨_, _, _, _, _, _, _, he⟩ := ht.recordOutcome_eq o
  rw [he]
  exact .of_eq hd id rfl rfl

/-- An act of a draining pool starts nothing and repeats nothing. -/
theorem Act.drains (hact : Act p q) (hd : p.draining = true) : Drains p q := by
  cases hact with
  | @succeed _ r _ _ _ _ taken =>
      have htaken := Drains.taken hd taken r.outcome
      exact htaken.trans (.emit htaken.draining ..)
  | @giveUp _ r _ _ _ _ _ taken =>
      have htaken := Drains.taken hd taken r.outcome
      exact htaken.trans (.emit htaken.draining ..)
  | @callOff _ r _ _ _ _ taken =>
      have htaken := Drains.taken hd taken r.outcome
      exact htaken.trans (.calledOff htaken.draining ..)
  | postpone _ _ _ going | requeue _ _ _ going | drain _ going | launch _ going =>
      exact Bool.noConfusion (going.symm.trans hd)
  | shrink | grow => exact .changed hd ⟨rfl, rfl⟩ rfl rfl
  | force => exact .of_eq hd (fun _ => rfl) rfl rfl
  | abandon =>
      have hcleared : Drains p { p with
          reapDeadline := none
          inFlight := []
          reports := []
          slots := p.slots.map fun _ => none
          occupied := 0
          running := []
          preempted := [] } := .of_eq hd id rfl rfl
      exact hcleared.trans (.calledOff hcleared.draining ..)
  | _ => exact .of_eq hd id rfl rfl

theorem receive_draining (p : Pool) (seq : Nat) (outcome : AttemptOutcome) :
    (p.receive seq outcome).draining = p.draining := by
  obtain ⟨_, _, he, _⟩ := p.receive_eq seq outcome
  rw [he]

theorem Move.drains (hmove : Move p q) (hd : p.draining = true) : Drains p q := by
  cases hmove with
  | act hact => exact hact.drains hd
  | news hnews => cases hnews <;> exact .of_eq hd id rfl rfl
  | receive seq outcome =>
      obtain ⟨_, _, he, _⟩ := p.receive_eq seq outcome
      rw [he]
      exact .of_eq hd id rfl rfl

theorem Moves.drains (hmoves : Moves p q) (hd : p.draining = true) : Drains p q := by
  induction hmoves with
  | refl => exact .refl hd
  | tail _ hmove ih => exact ih.trans (hmove.drains ih.draining)

/-! ## Taking notice of a cancellation -/

/-- Only a pool that was told of a cancellation begins to drain, and nothing that it does takes that back. -/
theorem Act.untold (hact : Act p q) (going : p.draining = false) (untold : p.cancelled = false) :
    q.draining = false ∧ q.cancelled = false := by
  cases hact with
  | succeed _ taken | giveUp _ taken | postpone _ taken | callOff _ _ taken =>
      obtain ⟨_, _, _, _, _, _, _, he⟩ := taken.recordOutcome_eq _
      rw [he]
      exact ⟨going, untold⟩
  | requeue _ taken =>
      cases taken with
      | preempted => exact ⟨going, untold⟩
  | drain _ _ told => exact Bool.noConfusion (untold.symm.trans told)
  | _ => exact ⟨going, untold⟩

theorem Acts.untold (hacts : Acts p q) (going : p.draining = false) (untold : p.cancelled = false) :
    q.draining = false ∧ q.cancelled = false := by
  induction hacts with
  | refl => exact ⟨going, untold⟩
  | tail _ hact ih => exact hact.untold ih.1 ih.2

theorem Acts.told (hacts : Acts p q) (going : p.draining = false) (hd : q.draining = true) : p.cancelled = true := by
  cases htold : p.cancelled with
  | true => rfl
  | false => exact Bool.noConfusion ((hacts.untold going htold).1.symm.trans hd)

theorem Sound.prepare_of_told (h : Sound jobs p) (busy : p.phase = .waiting) (going : p.draining = false)
    (told : p.cancelled = true) : p.prepare = p.drained.prepare := by
  have hdrained : p.drained.draining = true := rfl
  unfold Pool.prepare
  rw [h.beginDrain_eq busy]
  simp [going, told, hdrained]

theorem Sound.turn?_of_told (h : Sound jobs p) (busy : p.phase = .waiting) (going : p.draining = false)
    (told : p.cancelled = true) : p.turn? = some p.drained.prepare := by
  have hphase : p.drained.phase = .waiting := busy
  unfold turn? handle?
  rw [h.beginDrain_eq busy]
  simp [busy, going, told, hphase]

/-- The pool before it drains: since an earlier state it may have told of changes of the number of attempts. -/
structure Alike (p q : Pool) : Prop where
  clock : q.clock = p.clock
  ready : q.ready = p.ready
  delayed : q.delayed = p.delayed
  results : q.results = p.results
  events : ∃ changes, q.events = p.events ++ changes ∧ ∀ x ∈ changes, x.2.jobId? = none

theorem Alike.refl (p : Pool) : Alike p p :=
  ⟨rfl, rfl, rfl, rfl, [], by simp, by simp⟩

theorem settleOnMemory_idle (hidle : p.occupied = 0) (m : MemoryPressure) (fuel : Nat) :
    let s := p.concurrency.settleOnMemory m fuel
    ∃ report changes, (∀ x ∈ changes, x.2.jobId? = none) ∧
      s.2.foldl applyChange { p with concurrency := s.1 } =
        { p with concurrency := s.1, report, events := p.events ++ changes } := by
  induction fuel generalizing p with
  | zero => exact ⟨p.report, [], by simp, by simp [Concurrency.settleOnMemory]⟩
  | succ fuel ih =>
      unfold Concurrency.settleOnMemory
      split
      · exact ⟨p.report, [], by simp, by simp⟩
      · rename_i c change _ _
        obtain ⟨report, changes, hnone, happly⟩ := applyChange_idle hidle change
        obtain ⟨report', changes', hnone', hrest⟩ :=
          @ih { p with concurrency := c, report, events := p.events ++ changes } hidle
        refine ⟨report', changes ++ changes', fun x hx => ?_, ?_⟩
        · exact (List.mem_append.mp hx).elim (hnone x) (hnone' x)
        · dsimp only [List.foldl_cons] at hrest ⊢
          rw [happly, hrest, List.append_assoc]

/-- At the beginning a pool follows the memory and then makes itself ready to wait. -/
theorem Sound.start_eq (h : Sound jobs p) (fresh : p.phase = .fresh) : ∃ concurrency report changes,
    (∀ x ∈ changes, x.2.jobId? = none) ∧
      let q : Pool := { p with
        concurrency, report, events := p.events ++ changes, pressureFresh := false, phase := .waiting }
      Sound jobs q ∧ p.start = q.prepare := by
  obtain ⟨hacts, hphase⟩ := h.shrinkFirst fresh
  obtain ⟨report, changes, hnone, he⟩ := @settleOnMemory_idle { p with pressureFresh := false, phase := .waiting }
    (h.idle_of_fresh fresh) p.pressure (p.allowed + 1)
  dsimp only at hacts hphase he
  rw [he] at hacts
  refine ⟨_, report, changes, hnone, h.acts hacts, ?_⟩
  unfold Pool.start
  exact congrArg Pool.prepare he

theorem Sound.start_alike (h : Sound jobs p) (fresh : p.phase = .fresh) : ∃ q, Sound jobs q ∧ Alike p q ∧
    q.phase = .waiting ∧ q.draining = p.draining ∧ q.cancelled = p.cancelled ∧ p.start = q.prepare := by
  obtain ⟨_, _, changes, hnone, hsound, he⟩ := h.start_eq fresh
  exact ⟨_, hsound, ⟨rfl, rfl, rfl, rfl, changes, rfl, hnone⟩, rfl, rfl, rfl, he⟩

/-- A turn in which a pool begins to drain does so first of all, and so does a poll. -/
theorem Sound.drains_first (h : Sound jobs p) (going : p.draining = false)
    (hq : q = p.step .turn ∨ q = p.poll) (hd : q.draining = true) :
    ∃ m, Sound jobs m ∧ Alike p m ∧ m.phase = .waiting ∧ m.draining = false ∧ m.cancelled = true ∧
      Acts m.drained q := by
  have hacts : Acts p q := by
    rcases hq with rfl | rfl
    · exact h.step_turn
    · exact h.poll
  have told := hacts.told going hd
  cases hphase : p.phase with
  | fresh =>
      obtain ⟨m, hm, halike, busy, hgoing, htold, hstart⟩ := h.start_alike hphase
      have hdrained := hm.act (.drain busy (hgoing.trans going) (htold.trans told))
      have hprepared := hdrained.prepare busy
      rw [← hm.prepare_of_told busy (hgoing.trans going) (htold.trans told), ← hstart] at hprepared
      refine ⟨m, hm, halike, busy, hgoing.trans going, htold.trans told, ?_⟩
      rcases hq with rfl | rfl
      · simpa [step, hphase] using hprepared
      · have hpoll : p.poll = p.start.turns p.turnBound := by rw [Pool.poll, hphase]
        rw [hpoll]
        exact hprepared.trans ((hdrained.acts hprepared).turns _)
  | waiting =>
      have hdrained := h.act (.drain hphase going told)
      have hprepared := hdrained.prepare hphase
      have hturn := h.turn?_of_told hphase going told
      refine ⟨p, h, .refl p, hphase, going, told, ?_⟩
      rcases hq with rfl | rfl
      · simpa [step, hphase, hturn] using hprepared
      · have hpoll : p.poll = p.drained.prepare.turns (p.reports.length + 7) := by
          rw [Pool.poll, hphase]
          show p.turns (p.reports.length + 7 + 1) = _
          rw [Pool.turns, hturn]
        rw [hpoll]
        exact hprepared.trans ((hdrained.acts hprepared).turns _)
  | forcing => exact Bool.noConfusion (going.symm.trans (h.phased.forcing hphase))
  | ended =>
      have hsame : q = p := by
        rcases hq with rfl | rfl
        · simp [step, turn?, hphase]
        · simp [Pool.poll, hphase]
      rw [hsame] at hd
      exact Bool.noConfusion (going.symm.trans hd)

/-- What holds of a pool at any time after it began to drain; `p` is the pool that took notice of the
cancellation. -/
structure DrainedSince (p q : Pool) : Prop where
  draining : q.draining = true
  ready : q.ready = []
  delayed : q.delayed = []
  /-- The jobs that waited were called off at once, in plan order, with the attempts that they had used. -/
  calledOff : ∃ waiting : List Job, waiting.Perm (p.ready ++ p.delayed.map (·.job)) ∧ InPlanOrder waiting ∧
    (∃ rest, q.results = p.results ++
      (waiting.map fun j => (p.clock, .cancelled (j.enter .cancelled) p.clock "运行已取消")) ++ rest) ∧
    ∃ changes rest, q.events = p.events ++ changes ++
      (waiting.map fun j => (p.clock, .cancelled j.id j.attempt)) ++ rest ∧
      (∀ x ∈ changes, x.2.jobId? = none) ∧ ∀ x ∈ rest, x.2.goesOn = false

theorem Alike.drainedSince {m : Pool} (halike : Alike p m) (hm : Sound jobs m) (hq : Sound jobs q)
    (hmoves : Moves m.drained q) : DrainedSince p q := by
  have hdrains := hmoves.drains rfl
  obtain ⟨hready, hdelayed, _⟩ := hq.phased.drained hdrains.draining
  obtain ⟨hclock, hpready, hpdelayed, hresults, changes, hevents, hnone⟩ := halike
  obtain ⟨es, hes, hends⟩ := hdrains.events
  obtain ⟨rs, hrs⟩ := hdrains.results
  have hdistinct : ((m.ready ++ m.delayed.map (·.job)).map (·.planIndex)).Nodup :=
    (List.perm_append_comm.map _).nodup_iff.mpr hm.placed.waiting_nodup
  refine ⟨hdrains.draining, hready, hdelayed, sortByPlan (m.ready ++ m.delayed.map (·.job)), ?_, .sort hdistinct,
    ⟨rs, ?_⟩, changes, es, ?_, hnone, hends⟩
  · rw [← hpready, ← hpdelayed]
    exact sortByPlan_perm _
  · rw [hrs, ← hclock, ← hresults]
    rfl
  · rw [hes, ← hclock, ← hevents]
    rfl

/-! ## The end of the time to settle -/

/-- A pool that makes all its attempts end has no grace left, and gives them time only then. -/
structure Braked (p : Pool) : Prop where
  grace : p.hardStopped = true → p.graceDeadline = none
  forced : p.reapDeadline.isSome = true ∨ p.phase = .forcing → p.hardStopped = true

theorem Braked.act (h : Braked p) (hs : Sound jobs p) (hact : Act p q) : Braked q := by
  cases hact with
  | succeed _ taken | giveUp _ taken | postpone _ taken | callOff _ _ taken =>
      obtain ⟨_, _, _, _, _, _, _, he⟩ := taken.recordOutcome_eq _
      rw [he]
      exact { h with }
  | requeue _ taken =>
      cases taken with
      | preempted => exact { h with }
  | begin | breakDown | collapse | close =>
      exact ⟨h.grace, fun hf => h.forced (Or.inl (hf.resolve_right fun hphase => by cases hphase))⟩
  | drain _ going =>
      refine ⟨fun hstop => ?_, h.forced⟩
      exact Bool.noConfusion (going.symm.trans (hs.phased.pressing (Or.inr (Or.inr hstop))))
  | force => exact ⟨fun _ => rfl, fun _ => rfl⟩
  | resume _ forcing =>
      have hstop := h.forced (Or.inr forcing)
      exact ⟨fun _ => h.grace hstop, fun _ => hstop⟩
  | reap busy => exact ⟨h.grace, fun hf => h.forced (Or.inr (hf.resolve_left fun hnone => by cases hnone))⟩
  | abandon busy => exact ⟨h.grace, fun hf => h.forced (Or.inr (hf.resolve_left fun hnone => by cases hnone))⟩
  | _ => exact { h with }

theorem kept_braked : Kept jobs Braked where
  act := fun hs h hact => h.act hs hact
  news := by
    intro p q _ h hnews
    cases hnews <;> exact { h with }
  receive := fun _ _ h => { h with }

theorem Braked.submit {policy : PoolPolicy} {retry : RetryPolicy} {gracePeriod clock : Nat} {draws : Nat → Nat → Nat}
    {pressure : MemoryPressure} (h : submit? policy retry gracePeriod draws pressure clock jobs = some p) :
    Braked p := by
  obtain ⟨_, _, _, rfl⟩ := submit?_eq h
  exact ⟨fun _ => rfl, fun hf => by simp at hf⟩

theorem Sound.abandon_finished (h : Sound jobs p) (busy : p.phase = .waiting) (hd : p.draining = true) :
    p.abandon.isFinished = true := by
  obtain ⟨hready, hdelayed, _⟩ := h.phased.drained hd
  by_cases landed : p.inFlight = []
  · obtain ⟨hrunning, hpreempted⟩ := h.inFlight_nil_iff.mp landed
    simp [Pool.abandon, isFinished, landed, hready, hdelayed, hrunning, hpreempted]
  · rw [h.abandon_eq busy landed]
    simp [abandoned, calledOff, isFinished, hready, hdelayed]

/-- A draining pool with nothing left ends. -/
theorem prepare_eq_of_finished (hfault : p.fault = none) (hd : p.draining = true) (hfinished : p.isFinished = true) :
    p.prepare = p.promoteDue.publish.close ∧ p.promoteDue.publish.isFinished = true := by
  have hpromoted : p.promoteDue.publish.isFinished = true := by
    simp only [isFinished, Bool.and_eq_true, List.isEmpty_iff] at hfinished
    obtain ⟨⟨⟨⟨hready, hdelayed⟩, hrunning⟩, hpreempted⟩, hflight⟩ := hfinished
    simp [isFinished, promoteDue, publish, hready, hdelayed, hrunning, hpreempted, hflight]
  have hdraining : p.promoteDue.draining = true := hd
  have hnone : p.promoteDue.fault = none := hfault
  exact ⟨by simp [prepare, andThen, hd, hfault, hdraining, hnone, hpromoted], hpromoted⟩

theorem prepare_of_finished (hfault : p.fault = none) (hd : p.draining = true) (hfinished : p.isFinished = true) :
    p.prepare.phase = .ended ∧ p.prepare.isFinished = true := by
  obtain ⟨he, hpromoted⟩ := prepare_eq_of_finished hfault hd hfinished
  rw [he]
  exact ⟨rfl, hpromoted⟩

/-- When the time to settle is over, the next turn abandons the attempts that are left and ends the pool. -/
theorem Sound.reaped (h : Sound jobs p) (hb : Braked p) (busy : p.phase = .waiting)
    (passed : p.reapDeadline.any (· ≤ p.clock) = true) :
    (p.step .turn).phase = .ended ∧ (p.step .turn).isFinished = true := by
  have hd := h.phased.draining_of_due (Or.inr passed)
  have hstop : p.hardStopped = true := hb.forced (Or.inl (by cases hr : p.reapDeadline <;> simp_all))
  have hact := h.abandon busy passed
  have hdrains := hact.drains hd
  have hphase : p.abandon.phase = .waiting := by
    by_cases landed : p.inFlight = []
    · simpa [Pool.abandon, landed] using busy
    · rw [h.abandon_eq busy landed]
      exact busy
  have hturn : p.turn? = some p.abandon.prepare := by
    simp [turn?, handle?, busy, hd, hb.grace hstop, passed, hphase]
  have hstep : p.step .turn = p.abandon.prepare := by simp [step, busy, hturn]
  rw [hstep]
  exact prepare_of_finished ((h.act hact).phased.busy_no_fault hphase) hdrains.draining
    (h.abandon_finished busy hd)

end Pool

end PageAudit
