import PageAudit.Proofs.Pool.Settling

/-!
# Turns as acts

A turn of a sound pool is a row of acts, and so is the release of all browsers. A pool is never left while jobs
wait: as long as there are any it is armed.
-/

namespace PageAudit.Pool

variable {jobs : List Job} {p q : Pool}

/-! ## Draining and abandoning -/

theorem Placed.waiting_not_terminal {hand : List Job} (h : Placed jobs hand p) :
    ∀ j ∈ sortByPlan (p.ready ++ p.delayed.map (·.job)), j.state.isTerminal = false := by
  intro j hj
  rcases List.mem_append.mp (mem_sortByPlan.mp hj) with hj | hj
  · rcases h.ready j hj with hs | hs <;> rw [hs] <;> rfl
  · obtain ⟨d, hd, rfl⟩ := List.mem_map.mp hj
    rw [h.delayed d hd]
    rfl

theorem Placed.busy_not_terminal {hand : List Job} (h : Placed jobs hand p) :
    ∀ j ∈ sortByPlan (p.running.map (·.job) ++ p.preempted), j.state.isTerminal = false := by
  intro j hj
  rcases List.mem_append.mp (mem_sortByPlan.mp hj) with hj | hj
  · obtain ⟨e, he, rfl⟩ := List.mem_map.mp hj
    rw [(h.running e he).1]
    rfl
  · rw [(h.preempted j hj).1]
    rfl

theorem Sound.beginDrain_eq (h : Sound jobs p) (busy : p.phase = .waiting) : p.beginDrain = p.drained := by
  have hf := h.phased.busy_no_fault busy
  have hcalled := cancelJobs_eq { p with draining := true, ready := [], delayed := [] } "运行已取消" hf
    h.placed.waiting_not_terminal
  unfold beginDrain drained
  dsimp only
  rw [hcalled, andThen]
  simp only [calledOff, hf, Option.isSome_none, Bool.false_eq_true, ↓reduceIte]
  split <;> rfl

theorem Sound.abandon_eq (h : Sound jobs p) (busy : p.phase = .waiting) (flying : p.inFlight ≠ []) :
    p.abandon = p.abandoned := by
  have hcalled := cancelJobs_eq
    { p with
      reapDeadline := none
      inFlight := []
      reports := []
      slots := p.slots.map fun _ => none
      occupied := 0
      running := []
      preempted := [] }
    "执行被强制中止" (h.phased.busy_no_fault busy) h.placed.busy_not_terminal
  unfold Pool.abandon
  rw [if_neg (by simpa using flying)]
  exact hcalled

theorem Sound.abandon (h : Sound jobs p) (busy : p.phase = .waiting)
    (passed : p.reapDeadline.any (· ≤ p.clock) = true) : Act p p.abandon := by
  by_cases landed : p.inFlight = []
  · have he : p.abandon = { p with reapDeadline := none } := by simp [Pool.abandon, landed]
    exact he ▸ .reap busy passed landed
  · exact h.abandon_eq busy landed ▸ .abandon busy passed landed

/-! ## Starting attempts -/

theorem launch_eq {job : Job} {rest : List Job} {slotId : Nat}
    (h : job.state = .queued ∨ job.state = .awaitingRetry) (room : p.occupied < p.allowed) :
    { p with ready := rest }.launch job slotId = p.launched job rest slotId := by
  have hroom : ¬ p.concurrency.allowed < p.occupied + 1 := Nat.not_lt.mpr room
  simp only [launch, Job.begin_eq h, allowed, hroom, ↓reduceIte, notify]
  rfl

theorem Sound.dispatch {ready : List Job} (h : Sound jobs p) (busy : p.phase = .waiting)
    (going : p.draining = false) (hready : p.ready = ready) :
    Acts p (dispatch ready p) ∧ (dispatch ready p).phase = .waiting := by
  induction ready generalizing p with
  | nil =>
      have hsame : Pool.dispatch [] p = p := by
        show { p with ready := [] } = p
        rw [← hready]
      rw [hsame]
      exact ⟨Relation.ReflTransGen.refl, busy⟩
  | cons job rest ih =>
      have hsame : { p with ready := job :: rest } = p := by rw [← hready]
      unfold Pool.dispatch
      cases hfree : p.slots.findIdx? Option.isNone with
      | none =>
          dsimp only
          rw [hsame]
          exact ⟨Relation.ReflTransGen.refl, busy⟩
      | some slotId =>
          dsimp only
          by_cases room : p.occupied < p.allowed
          · have hact := Act.launch busy going hready hfree room
            have hsound := h.act hact
            obtain ⟨hacts, hphase⟩ := ih hsound busy going rfl
            rw [if_pos room, launch_eq (h.placed.ready job (hready ▸ List.mem_cons_self)) room, andThen,
              hsound.phased.busy_no_fault busy]
            exact ⟨Relation.ReflTransGen.head hact hacts, hphase⟩
          · rw [if_neg room, hsame]
            exact ⟨Relation.ReflTransGen.refl, busy⟩

/-! ## Getting ready to wait -/

theorem Sound.drainFirst (h : Sound jobs p) (busy : p.phase = .waiting) :
    let s := if !p.draining && p.cancelled then p.beginDrain else p
    Acts p s ∧ s.phase = .waiting := by
  dsimp only
  split
  · rename_i htold
    simp only [Bool.and_eq_true, Bool.not_eq_true'] at htold
    rw [h.beginDrain_eq busy]
    exact ⟨Relation.ReflTransGen.single (.drain busy htold.1 htold.2), busy⟩
  · exact ⟨Relation.ReflTransGen.refl, busy⟩

theorem Sound.fill (h : Sound jobs p) (busy : p.phase = .waiting) :
    let s := if p.draining then p else Pool.dispatch p.ready p
    Acts p s ∧ s.phase = .waiting := by
  dsimp only
  split
  · exact ⟨Relation.ReflTransGen.refl, busy⟩
  · rename_i hgoing
    exact h.dispatch busy (by simpa using hgoing) rfl

/-- The state is shown, and the pool ends if nothing is left. -/
theorem Acts.show_and_end (busy : p.phase = .waiting) :
    Acts p (if p.publish.isFinished then p.publish.close else p.publish) := by
  have hshow := Relation.ReflTransGen.single (Act.publish busy)
  split
  · rename_i hfinished
    exact hshow.tail (.close busy hfinished)
  · exact hshow

theorem Sound.prepare (h : Sound jobs p) (busy : p.phase = .waiting) : Acts p p.prepare := by
  obtain ⟨hdrain, hbusy⟩ := h.drainFirst busy
  unfold Pool.prepare
  dsimp only at hdrain hbusy ⊢
  generalize (if (!p.draining && p.cancelled) = true then p.beginDrain else p) = s at hdrain hbusy ⊢
  have hs := h.acts hdrain
  have hpromote := Act.promote hbusy
  have hs' := hs.act hpromote
  obtain ⟨hfill, hbusy'⟩ := hs'.fill hbusy
  rw [andThen, hs.phased.busy_no_fault hbusy]
  simp only [Option.isSome_none, Bool.false_eq_true, ↓reduceIte]
  generalize (if s.promoteDue.draining = true then s.promoteDue
    else Pool.dispatch s.promoteDue.ready s.promoteDue) = t at hfill hbusy' ⊢
  rw [andThen, (hs'.acts hfill).phased.busy_no_fault hbusy']
  exact ((hdrain.tail hpromote).trans hfill).trans (Acts.show_and_end hbusy')

/-! ## Turns -/

/-- A pool that is not armed has nothing left to do. -/
theorem Sound.finished_of_unarmed (h : Sound jobs p) (hp : p.isArmed = false) :
    p.ready = [] ∧ p.delayed = [] ∧ p.running = [] ∧ p.preempted = [] ∧ p.inFlight = [] := by
  simp only [isArmed, Bool.or_eq_false_iff, Bool.not_eq_false', List.isEmpty_iff] at hp
  obtain ⟨⟨⟨⟨⟨hdraining, _⟩, _⟩, _⟩, hflight⟩, hdelayed⟩ := hp
  have hplaces := h.flown.places.length_eq
  simp only [hflight, List.map_nil, List.length_nil, List.length_append, List.length_map] at hplaces
  exact ⟨(h.phased.drained hdraining).1, hdelayed, List.length_eq_zero_iff.mp (by omega),
    List.length_eq_zero_iff.mp (by omega), hflight⟩

theorem Sound.leave (h : Sound jobs p) (busy : p.phase = .waiting) (hp : p.isArmed = false) : Act p p.leave := by
  obtain ⟨hready, hdelayed, hrunning, hpreempted, hflight⟩ := h.finished_of_unarmed hp
  have hfinished : p.isFinished = true := by
    simp [isFinished, hready, hdelayed, hrunning, hpreempted, hflight]
  have hnone : sortByPlan (p.ready ++ p.delayed.map (·.job) ++ p.running.map (·.job) ++ p.preempted) = [] := by
    simp [hready, hdelayed, hrunning, hpreempted, sortByPlan]
  have hsame : { p with ready := [], delayed := [], running := [], preempted := [] } = p := by
    cases p
    simp_all
  unfold Pool.leave
  dsimp only
  rw [hnone, cancelJobs, hsame, andThen, h.phased.busy_no_fault busy]
  exact .close busy hfinished

theorem Sound.handle (h : Sound jobs p) (busy : p.phase = .waiting) (hq : p.handle? = some q) : Acts p q := by
  unfold handle? at hq
  split at hq
  · rename_i htold
    simp only [Bool.and_eq_true, Bool.not_eq_true'] at htold
    cases hq
    rw [h.beginDrain_eq busy]
    exact Relation.ReflTransGen.single (.drain busy htold.1 htold.2)
  split at hq
  · rename_i hover
    cases hq
    exact Relation.ReflTransGen.single (.force busy hover)
  split at hq
  · rename_i hover
    cases hq
    exact Relation.ReflTransGen.single (h.abandon busy hover)
  split at hq
  · cases hq
    exact h.adaptToMemory busy
  split at hq
  · cases hq
    exact Relation.ReflTransGen.single (.note p.pressureFresh false p.roster)
  split at hq
  · rename_i r rest hreports
    cases hq
    exact h.onReport busy hreports
  split at hq
  · cases hq
    exact Relation.ReflTransGen.refl
  split at hq
  · cases hq
  · rename_i harmed
    cases hq
    exact Relation.ReflTransGen.single (h.leave busy (by simpa using harmed))

theorem Sound.turn (h : Sound jobs p) (hq : p.turn? = some q) : Acts p q := by
  unfold turn? at hq
  split at hq
  · rename_i hphase
    obtain ⟨s, hs, rfl⟩ := Option.map_eq_some_iff.mp hq
    have hacts := h.handle (by simpa using hphase) hs
    split
    · rename_i hphase'
      exact hacts.trans ((h.acts hacts).prepare (by simpa using hphase'))
    · exact hacts
  · cases hq

/-! ## The beginning -/

/-- While no attempt runs, following a change counts it and tells of it, and of no job. -/
theorem applyChange_idle (hidle : p.occupied = 0) (change : ConcurrencyChange) :
    ∃ report changes, (∀ x ∈ changes, x.2.jobId? = none) ∧
      ∀ c, { p with concurrency := c }.applyChange change =
        { p with concurrency := c, report, events := p.events ++ changes } := by
  cases change with
  | unchanged => exact ⟨p.report, [], by simp, by simp [applyChange]⟩
  | shrunk before after reason =>
      refine ⟨(p.applyChange (.shrunk before after reason)).report,
        [(p.clock, .concurrencyChanged before after reason.name)], by simp [ProgressEvent.jobId?], fun c => ?_⟩
      simp only [applyChange, hidle, Nat.zero_sub, preemptExcess]
      rfl
  | grew before after =>
      exact ⟨(p.applyChange (.grew before after)).report,
        [(p.clock, .concurrencyChanged before after "window_healthy")], by simp [ProgressEvent.jobId?], fun _ => rfl⟩

/-- The steps that memory asks for at the beginning are acts, one for each. -/
theorem Sound.settleOnMemory (h : Sound jobs p) (busy : p.phase = .waiting) (hidle : p.occupied = 0)
    (m : MemoryPressure) (fuel : Nat) :
    let s := p.concurrency.settleOnMemory m fuel
    Acts p (s.2.foldl applyChange { p with concurrency := s.1 }) ∧
      (s.2.foldl applyChange { p with concurrency := s.1 }).phase = .waiting := by
  induction fuel generalizing p with
  | zero => exact ⟨Relation.ReflTransGen.refl, busy⟩
  | succ fuel ih =>
      unfold Concurrency.settleOnMemory
      have hchanged := Concurrency.onMemory_changed h.slotted.least m
      split
      · rename_i c heq
        rw [heq] at hchanged
        exact ⟨h.follow busy hchanged, busy⟩
      · rename_i c change _ heq
        rw [heq] at hchanged
        obtain ⟨report, changes, _, happly⟩ := applyChange_idle hidle change
        have hfirst := h.follow busy hchanged
        dsimp only at hfirst
        rw [happly] at hfirst
        obtain ⟨hrest, hphase⟩ := ih (h.acts hfirst) busy hidle
        dsimp only [List.foldl_cons]
        rw [happly]
        exact ⟨hfirst.trans hrest, hphase⟩

theorem Sound.idle_of_fresh (h : Sound jobs p) (fresh : p.phase = .fresh) : p.occupied = 0 := by
  have hnone : p.inFlight = [] := by
    refine List.eq_nil_iff_forall_not_mem.mpr fun f hf => ?_
    have hb := h.flown.bound f hf
    have := h.phased.fresh fresh
    omega
  have hplaces := h.flown.places.length_eq
  simp only [hnone, List.map_nil, List.length_nil, List.length_append, List.length_map] at hplaces
  have := h.slotted.occupied
  omega

/-- The pool has shrunk as the memory asks for before it starts the first jobs. -/
theorem Sound.shrinkFirst (h : Sound jobs p) (fresh : p.phase = .fresh) :
    let s := p.concurrency.settleOnMemory p.pressure (p.allowed + 1)
    let t := s.2.foldl applyChange { p with concurrency := s.1, pressureFresh := false, phase := .waiting }
    Acts p t ∧ t.phase = .waiting := by
  have hnote : Act p { p with pressureFresh := false } := .note false p.pressureOpen p.roster
  have hbegin : Act { p with pressureFresh := false } { p with pressureFresh := false, phase := .waiting } :=
    .begin fresh
  obtain ⟨hshrinks, hphase⟩ := ((h.act hnote).act hbegin).settleOnMemory rfl (h.idle_of_fresh fresh) p.pressure
    (p.allowed + 1)
  exact ⟨(Relation.ReflTransGen.single hnote).tail hbegin |>.trans hshrinks, hphase⟩

theorem Sound.start (h : Sound jobs p) (fresh : p.phase = .fresh) : Acts p p.start := by
  obtain ⟨hstart, hphase⟩ := h.shrinkFirst fresh
  exact hstart.trans ((h.acts hstart).prepare hphase)

theorem Sound.released (h : Sound jobs p) (count : Nat) : Acts p (p.released count) := by
  unfold Pool.released
  split
  · rename_i hforcing
    have hact := Act.resume count (by simpa using hforcing : p.phase = .forcing)
    exact Relation.ReflTransGen.head hact ((h.act hact).prepare rfl)
  · exact Relation.ReflTransGen.refl

theorem acts_launcherBroke (p : Pool) (message : String) : Acts p (p.launcherBroke message) := by
  unfold launcherBroke
  split
  · rename_i hforcing
    exact Relation.ReflTransGen.single (.collapse message (by simpa using hforcing))
  · exact Relation.ReflTransGen.refl

end PageAudit.Pool
