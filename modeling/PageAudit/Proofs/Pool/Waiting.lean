import PageAudit.Proofs.Pool.Runs

/-!
# What a pool waits for

A pool waits only while there is something left to be done, and only for something that is sure to come: an attempt
in flight, a delay or a deadline. As many attempts run as are allowed as long as jobs are ready.
-/

namespace PageAudit.Pool

variable {jobs : List Job} {p q : Pool}

/-! ## Deadlines -/

/-- A pool that drains with attempts in flight has a deadline, or sets one when it goes on, unless it has broken
down. -/
def Pressed (p : Pool) : Prop :=
  p.draining = true → p.inFlight ≠ [] →
    p.graceDeadline.isSome = true ∨ p.reapDeadline.isSome = true ∨ p.phase = .forcing ∨ p.phase = .ended

theorem Pressed.take {r : SlotReport} {held : Bool} {job : Job} (h : Pressed p) (ht : p.Taken r held job q)
    (o : AttemptOutcome) : Pressed (q.recordOutcome o) := by
  obtain ⟨window, he⟩ := q.recordOutcome_eq o
  rw [he]
  cases ht with
  | running | preempted =>
      intro hdraining hflying
      refine h hdraining fun hnone => hflying ?_
      simp [withoutRunning, withoutPreempted, hnone]

theorem Pressed.act (h : Pressed p) (hact : Act p q) : Pressed q := by
  cases hact with
  | succeed _ taken | giveUp _ taken | postpone _ taken | callOff _ _ taken => exact h.take taken _
  | requeue _ taken => exact h.take taken .interrupted
  | begin fresh =>
      intro hdraining hflying
      have hpressed := h hdraining hflying
      rw [fresh] at hpressed
      exact hpressed.imp_right (Or.imp_right fun hphase => by rcases hphase with hphase | hphase <;> cases hphase)
  | breakDown | collapse | close => exact fun _ _ => Or.inr (Or.inr (Or.inr rfl))
  | drain =>
      intro _ hflying
      have hsome : p.inFlight.isEmpty = false := by
        rw [List.isEmpty_eq_false_iff]
        exact hflying
      simp [drained, calledOff, hsome]
  | force => exact fun _ _ => Or.inr (Or.inr (Or.inl rfl))
  | resume => exact fun _ _ => Or.inr (Or.inl rfl)
  | reap _ _ landed => exact fun _ hflying => absurd landed hflying
  | abandon => exact fun _ hflying => absurd rfl hflying
  | launch _ going => exact fun hdraining => Bool.noConfusion (going.symm.trans hdraining)
  | _ => exact h

theorem kept_pressed : Kept jobs Pressed where
  act := fun _ h hact => h.act hact
  news := by
    intro p q _ h hnews
    cases hnews <;> exact h
  receive := fun _ _ h => h

/-! ## Starting all that may be started -/

/-- Ready jobs are left only when as many attempts run as are allowed. -/
theorem Sound.dispatch_full {ready : List Job} (h : Sound jobs p) (busy : p.phase = .waiting)
    (going : p.draining = false) (hready : p.ready = ready) (hleft : (Pool.dispatch ready p).ready ≠ []) :
    (Pool.dispatch ready p).occupied = (Pool.dispatch ready p).allowed := by
  induction ready generalizing p with
  | nil => exact absurd rfl hleft
  | cons job rest ih =>
      unfold Pool.dispatch at hleft ⊢
      cases hfree : p.slots.findIdx? Option.isNone with
      | none =>
          dsimp only
          refine Nat.le_antisymm h.slotted.within (Nat.not_lt.mp fun room => ?_)
          obtain ⟨slotId, hslot⟩ := h.slotted.exists_free room
          exact absurd (hfree.symm.trans hslot) (Option.some_ne_none _).symm
      | some slotId =>
          rw [hfree] at hleft
          dsimp only at hleft ⊢
          by_cases room : p.occupied < p.allowed
          · have hact := Act.launch busy going hready hfree room
            have hsound := h.act hact
            rw [if_pos room, launch_eq (h.placed.ready job (hready ▸ List.mem_cons_self)) room, andThen,
              hsound.phased.busy_no_fault busy] at hleft ⊢
            exact ih hsound busy going rfl hleft
          · rw [if_neg room]
            exact Nat.le_antisymm h.slotted.within (Nat.not_lt.mp room)

/-! ## Being ready to wait -/

/-- While a pool waits, something is left to be done, and ready jobs wait for a slot. -/
def Poised (p : Pool) : Prop :=
  p.phase = .waiting → p.isFinished = false ∧ (p.ready ≠ [] → p.occupied = p.allowed)

theorem Sound.prepare_poised (h : Sound jobs p) (busy : p.phase = .waiting) : Poised p.prepare := by
  obtain ⟨hdrain, hbusy⟩ := h.drainFirst busy
  unfold Pool.prepare
  dsimp only at hdrain hbusy ⊢
  generalize (if (!p.draining && p.cancelled) = true then p.beginDrain else p) = s at hdrain hbusy ⊢
  have hs := h.acts hdrain
  have hs' := hs.act (.promote hbusy)
  obtain ⟨hfill, hbusy'⟩ := hs'.fill hbusy
  have hfull : let t := if s.promoteDue.draining = true then s.promoteDue
      else Pool.dispatch s.promoteDue.ready s.promoteDue
      t.ready ≠ [] → t.occupied = t.allowed := by
    dsimp only
    split
    · rename_i hdraining
      exact fun hleft => absurd (hs'.phased.drained hdraining).1 hleft
    · rename_i hgoing
      exact hs'.dispatch_full hbusy (by simpa using hgoing) rfl
  rw [andThen, hs.phased.busy_no_fault hbusy]
  simp only [Option.isSome_none, Bool.false_eq_true, ↓reduceIte]
  generalize (if s.promoteDue.draining = true then s.promoteDue
    else Pool.dispatch s.promoteDue.ready s.promoteDue) = t at hfill hbusy' hfull ⊢
  rw [andThen, (hs'.acts hfill).phased.busy_no_fault hbusy']
  simp only [Option.isSome_none, Bool.false_eq_true, ↓reduceIte]
  split
  · exact fun hphase => by cases hphase
  · rename_i hgoes
    exact fun _ => ⟨by simpa using hgoes, hfull⟩

theorem Poised.of_not_waiting (h : p.phase ≠ .waiting) : Poised p :=
  fun hphase => absurd hphase h

theorem Sound.start_poised (h : Sound jobs p) (fresh : p.phase = .fresh) : Poised p.start := by
  obtain ⟨hacts, hphase⟩ := h.shrinkFirst fresh
  exact (h.acts hacts).prepare_poised hphase

theorem Sound.turn_poised (h : Sound jobs p) (hq : p.turn? = some q) : Poised q := by
  unfold turn? at hq
  split at hq
  · rename_i hphase
    obtain ⟨s, hs, rfl⟩ := Option.map_eq_some_iff.mp hq
    have hacts := h.handle (by simpa using hphase) hs
    split
    · rename_i hphase'
      exact (h.acts hacts).prepare_poised (by simpa using hphase')
    · rename_i hphase'
      exact .of_not_waiting (by simpa using hphase')
  · cases hq

theorem Poised.step (hp : Poised p) (h : Sound jobs p) (i : PoolInput) : Poised (p.step i) := by
  cases i with
  | elapse | cancel | pressure | pressureClosed => exact hp
  | report seq outcome =>
      obtain ⟨_, _, he, _⟩ := p.receive_eq seq outcome
      show Poised (p.receive seq outcome)
      rw [he]
      exact hp
  | released count =>
      show Poised (p.released count)
      unfold Pool.released
      split
      · rename_i hforcing
        have hact := Act.resume count (by simpa using hforcing : p.phase = .forcing)
        exact (h.act hact).prepare_poised rfl
      · exact hp
  | launcherBroke message =>
      show Poised (p.launcherBroke message)
      unfold Pool.launcherBroke
      split
      · exact .of_not_waiting PoolPhase.noConfusion
      · exact hp
  | turn =>
      unfold Pool.step
      dsimp only
      split
      · rename_i hfresh
        exact h.start_poised (by simpa using hfresh)
      · cases hq : p.turn? with
        | none => exact hp
        | some q => exact h.turn_poised hq

theorem Poised.after (hp : Poised p) (h : Sound jobs p) (inputs : List PoolInput) : Poised (p.after inputs) := by
  induction inputs generalizing p with
  | nil => exact hp
  | cons i rest ih => exact ih (hp.step h i) (h.moves (h.step_moves i))

/-! ## Going on -/

/-- A pool that does not go on has taken all reports, and none of its times has come. -/
theorem handle?_eq_none (h : p.handle? = none) :
    p.reports = [] ∧ ∀ t, t ∈ p.graceDeadline.toList ++ p.reapDeadline.toList ++ p.delayed.map (·.due) →
      p.clock < t := by
  unfold handle? at h
  split at h
  · cases h
  split at h
  · cases h
  rename_i hgrace
  split at h
  · cases h
  rename_i hreap
  split at h
  · cases h
  split at h
  · cases h
  split at h
  · cases h
  rename_i hreports
  split at h
  · cases h
  rename_i hdelayed
  refine ⟨hreports, fun t ht => Nat.not_le.mp fun hle => ?_⟩
  rcases List.mem_append.mp ht with ht | ht
  · rcases List.mem_append.mp ht with ht | ht
    · rw [Option.mem_toList.mp ht] at hgrace
      simp [hle] at hgrace
    · rw [Option.mem_toList.mp ht] at hreap
      simp [hle] at hreap
  · obtain ⟨d, hd, rfl⟩ := List.mem_map.mp ht
    exact hdelayed (List.any_eq_true.mpr ⟨d, hd, by simpa using hle⟩)

theorem turn?_isSome (busy : p.phase = .waiting) (h : p.handle? ≠ none) : p.turn?.isSome = true := by
  obtain ⟨q, hq⟩ := Option.ne_none_iff_exists'.mp h
  simp [turn?, busy, hq]

theorem turn?_overdue {t : Nat} (ht : p.due? = some t) (hover : t ≤ p.clock) : p.turn?.isSome = true := by
  unfold due? at ht
  split at ht
  · rename_i hphase
    refine turn?_isSome (by simpa using hphase) fun hnone => ?_
    have hlate := (handle?_eq_none hnone).2 t (List.min?_mem ht)
    omega
  · cases ht

theorem receive_reports {f : Flight} (hf : f ∈ p.inFlight) (outcome : AttemptOutcome) :
    (p.receive f.seq outcome).reports ≠ [] := by
  unfold receive
  split
  · split
    · rename_i hknown
      intro hnone
      simp [hnone] at hknown
    · split <;> simp
  · rename_i hnone
    exact absurd (List.find?_eq_none.mp hnone f hf) (by simp)

/-! ## No stall -/

/-- What a pool that waits can be sure of. -/
structure Expectant (p : Pool) : Prop where
  going : p.draining = false → p.inFlight ≠ [] ∨ p.delayed ≠ []
  full : p.draining = false → p.ready ≠ [] → p.occupied = p.allowed ∧ 1 ≤ p.allowed
  draining : p.draining = true → p.inFlight ≠ [] ∧ (p.graceDeadline.isSome = true ∨ p.reapDeadline.isSome = true)
  /-- It wakes up in time for every delay. -/
  timely : ∀ d ∈ p.delayed, ∃ t, p.due? = some t ∧ t ≤ d.due
  armed : p.isArmed = true
  /-- It goes on with the report of any attempt, and at any of its times. -/
  reported : ∀ f ∈ p.inFlight, ∀ outcome, (p.receive f.seq outcome).turn?.isSome = true
  overdue : ∀ t, p.due? = some t → t ≤ p.clock → p.turn?.isSome = true

theorem Sound.left_over (h : Sound jobs p) (hleft : p.isFinished = false) :
    p.inFlight ≠ [] ∨ p.delayed ≠ [] ∨ p.ready ≠ [] := by
  by_contra hnone
  simp only [ne_eq, not_or, not_not] at hnone
  obtain ⟨hflight, hdelayed, hready⟩ := hnone
  obtain ⟨hrunning, hpreempted⟩ := h.inFlight_nil_iff.mp hflight
  simp [isFinished, hflight, hdelayed, hready, hrunning, hpreempted] at hleft

theorem due?_le (busy : p.phase = .waiting) {t : Nat}
    (ht : t ∈ p.graceDeadline.toList ++ p.reapDeadline.toList ++ p.delayed.map (·.due)) :
    ∃ first, p.due? = some first ∧ first ≤ t := by
  simp only [due?, busy, BEq.rfl, ↓reduceIte]
  cases hmin : (p.graceDeadline.toList ++ p.reapDeadline.toList ++ p.delayed.map (·.due)).min? with
  | none => exact absurd (List.min?_eq_none_iff.mp hmin) (List.ne_nil_of_mem ht)
  | some first => exact ⟨first, rfl, (List.min?_eq_some_iff.mp hmin).2 t ht⟩

theorem Sound.expectant (h : Sound jobs p) (hpoised : Poised p) (hpressed : Pressed p) (hleast : 1 ≤ p.allowed)
    (busy : p.phase = .waiting) : Expectant p := by
  obtain ⟨hleft, hfull⟩ := hpoised busy
  -- Ready jobs wait only for slots, and a slot is held by an attempt in flight.
  have hsome : p.inFlight ≠ [] ∨ p.delayed ≠ [] := by
    rcases h.left_over hleft with hflight | hdelayed | hready
    · exact Or.inl hflight
    · exact Or.inr hdelayed
    · refine Or.inl fun hnone => ?_
      have hoccupied := h.slotted.occupied
      rw [(h.inFlight_nil_iff.mp hnone).1, hfull hready, List.length_nil] at hoccupied
      omega
  have hdraining : p.draining = true → p.inFlight ≠ [] ∧
      (p.graceDeadline.isSome = true ∨ p.reapDeadline.isSome = true) := by
    intro hd
    have hflight := hsome.resolve_right fun hdelayed => hdelayed (h.phased.drained hd).2.1
    refine ⟨hflight, ?_⟩
    rcases hpressed hd hflight with hgrace | hreap | hphase | hphase
    · exact Or.inl hgrace
    · exact Or.inr hreap
    · exact absurd (busy.symm.trans hphase) (by decide)
    · exact absurd (busy.symm.trans hphase) (by decide)
  refine {
    going := fun _ => hsome
    full := fun _ hready => ⟨hfull hready, hleast⟩
    draining := hdraining
    timely := fun d hd => due?_le busy (List.mem_append_right _ (List.mem_map_of_mem hd))
    armed := ?_
    reported := fun f hf outcome => ?_
    overdue := fun _ => turn?_overdue }
  · cases hd : p.draining with
    | false => simp [isArmed, hd]
    | true => simp [isArmed, (hdraining hd).1]
  · obtain ⟨roster, reports, he, _⟩ := p.receive_eq f.seq outcome
    have hreports := receive_reports hf outcome
    rw [he] at hreports ⊢
    exact turn?_isSome busy fun hnone => hreports (handle?_eq_none hnone).1

variable {policy : PoolPolicy} {retry : RetryPolicy} {gracePeriod clock : Nat} {draws : Nat → Nat → Nat}
  {pressure : MemoryPressure}

/-- Whatever comes to a pool, it waits only for what is sure to come, and it ends with nothing left. -/
theorem never_stalls (hpolicy : policy.validate = .ok ())
    (hjobs : ∀ j ∈ jobs, j.state = .queued ∨ j.state = .awaitingRetry)
    (hsubmit : submit? policy retry gracePeriod draws pressure clock jobs = some p) (inputs : List PoolInput) :
    ((p.after inputs).phase = .waiting → Expectant (p.after inputs)) ∧
    ((p.after inputs).phase = .ended → (p.after inputs).fault = none → (p.after inputs).isFinished = true) := by
  have hsound := Sound.submit_startable hsubmit hjobs
  have hafter := hsound.after inputs
  have hvalid := PoolPolicy.Valid.of_validate hpolicy
  obtain ⟨_, _, _, rfl⟩ := submit?_eq hsubmit
  have hpoised := Poised.after (.of_not_waiting (by simp)) hsound inputs
  have hpressed := kept_pressed.after hsound (fun hd => by cases hd) inputs
  have hsame := (kept_policy policy).after hsound rfl inputs
  refine ⟨fun busy => hafter.expectant hpoised hpressed ?_ busy, fun hended hfault =>
    (hafter.phased.ended hended hfault).1⟩
  have hleast := hafter.slotted.least
  rw [hsame] at hleast
  exact Nat.le_trans hvalid.positive hleast

/-- One attempt at a time; the first one fails and will be repeated while the second one runs. -/
theorem twoPages_never_stalls : PoolPolicy.validate { maxConcurrency := 1 } = .ok () ∧
    (∀ j ∈ twoPages, j.state = .queued ∨ j.state = .awaitingRetry) ∧
    ∃ p, submit? { maxConcurrency := 1 } {} 0 (fun _ _ => 0) {} 0 twoPages = some p ∧
      (p.after [.turn, .report 1 (.failed (.audit (.network ""))), .turn]).phase = .waiting ∧
      Expectant (p.after [.turn, .report 1 (.failed (.audit (.network ""))), .turn]) := by
  have hpolicy : PoolPolicy.validate { maxConcurrency := 1 } = .ok () := rfl
  have hjobs : ∀ j ∈ twoPages, j.state = .queued ∨ j.state = .awaitingRetry := by decide
  obtain ⟨p, hp⟩ := submit?_isSome (PoolPolicy.Valid.of_validate hpolicy).ordered
  obtain ⟨hwaits, _⟩ := never_stalls hpolicy hjobs hp [.turn, .report 1 (.failed (.audit (.network ""))), .turn]
  obtain rfl := Option.some.inj hp
  exact ⟨hpolicy, hjobs, _, hp, rfl, hwaits rfl⟩

end PageAudit.Pool
