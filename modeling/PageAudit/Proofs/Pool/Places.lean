import Mathlib.Data.List.Perm.Subperm
import PageAudit.Proofs.Pool.Act

/-!
# Where jobs stand

Every job of the plan stands in one place: it is ready, delayed, running, preempted or finished, or a handler has
it in hand. Taking a report puts its job into the hand, and everything that can follow takes it out again.
-/

namespace PageAudit

/-- The entries of other keys than that of a member are all entries but that member. -/
theorem perm_cons_filter_key {α : Type} {key : α → Nat} {l : List α} {a : α} (h : (l.map key).Nodup)
    (ha : a ∈ l) : l.Perm (a :: l.filter fun b => key b != key a) := by
  induction l with
  | nil => cases ha
  | cons b l ih =>
      simp only [List.map_cons, List.nodup_cons] at h
      rcases List.mem_cons.mp ha with rfl | ha
      · have hall : l.filter (fun b => key b != key a) = l := by
          refine List.filter_eq_self.mpr fun b hb => ?_
          simp only [bne_iff_ne, ne_eq]
          exact fun he => h.1 (he ▸ List.mem_map_of_mem hb)
        simp [hall]
      · have hne : key b ≠ key a := fun he => h.1 (he ▸ List.mem_map_of_mem ha)
        simp only [List.filter_cons, bne_iff_ne, ne_eq, hne, not_false_eq_true, ↓reduceIte]
        exact ((ih h.2 ha).cons b).trans (List.Perm.swap a b _)

namespace Pool

/-- The places of all jobs: those that are ready, delayed, running, preempted and finished. -/
def places (p : Pool) : List JobPlace :=
  p.ready.map Job.place ++ (p.delayed.map (·.job.place) ++ (p.running.map (·.job.place) ++
    (p.preempted.map Job.place ++ p.results.map (·.2.place))))

/-- Every job of a plan stands in one place or is in hand, in a state that fits. -/
structure Placed (jobs hand : List Job) (p : Pool) : Prop where
  distinct : (jobs.map (·.planIndex)).Nodup
  accounted : (hand.map Job.place ++ p.places).Perm (jobs.map Job.place)
  order : InPlanOrder p.ready
  ready : ∀ j ∈ p.ready, j.state = .queued ∨ j.state = .awaitingRetry
  delayed : ∀ d ∈ p.delayed, d.job.state = .awaitingRetry
  running : ∀ e ∈ p.running, e.job.state = .running ∧ 1 ≤ e.job.attempt
  preempted : ∀ j ∈ p.preempted, j.state = .running ∧ 1 ≤ j.attempt

variable {jobs hand : List Job} {p q : Pool}

theorem Placed.nodup (h : Placed jobs hand p) :
    (hand.map (·.planIndex) ++ (p.ready.map (·.planIndex) ++ (p.delayed.map (·.job.planIndex) ++
      (p.running.map (·.job.planIndex) ++ (p.preempted.map (·.planIndex) ++
        p.results.map (·.2.planIndex)))))).Nodup := by
  have hjobs : ((jobs.map Job.place).map JobPlace.index).Nodup := by
    rw [List.map_map]
    exact h.distinct
  have hall := (h.accounted.map JobPlace.index).nodup_iff.mpr hjobs
  simp only [places, List.map_append, List.map_map] at hall
  exact hall

theorem Placed.running_nodup (h : Placed jobs hand p) : (p.running.map (·.job.planIndex)).Nodup :=
  h.nodup.of_append_right.of_append_right.of_append_right.of_append_left

theorem Placed.preempted_nodup (h : Placed jobs hand p) : (p.preempted.map (·.planIndex)).Nodup :=
  h.nodup.of_append_right.of_append_right.of_append_right.of_append_right.of_append_left

theorem Placed.apart (h : Placed jobs hand p) {e : RunningJob} {j : Job} (he : e ∈ p.running)
    (hj : j ∈ p.preempted) : e.job.planIndex ≠ j.planIndex := by
  have hd := List.disjoint_of_nodup_append h.nodup.of_append_right.of_append_right.of_append_right
  intro heq
  exact hd (List.mem_map_of_mem he) (List.mem_append_left _ (heq ▸ List.mem_map_of_mem hj))

theorem Placed.waiting_nodup (h : Placed jobs hand p) :
    ((p.delayed.map (·.job) ++ p.ready).map (·.planIndex)).Nodup := by
  have hn := h.nodup.of_append_right
  rw [← List.append_assoc] at hn
  rw [List.map_append, List.map_map]
  exact List.perm_append_comm.nodup_iff.mp hn.of_append_left

theorem Placed.hand_not_ready {j : Job} (h : Placed jobs [j] p) : j.planIndex ∉ p.ready.map (·.planIndex) := by
  have hd := (List.nodup_cons.mp h.nodup).1
  exact fun hm => hd (List.mem_append_right _ (List.mem_append_left _ hm))

/-- No more jobs stand in places than there are in the plan. -/
theorem Placed.length (h : Placed jobs hand p) :
    hand.length + p.ready.length + p.delayed.length + p.running.length + p.preempted.length + p.results.length =
      jobs.length := by
  have := h.accounted.length_eq
  simp only [places, List.length_append, List.length_map] at this
  omega

/-! ## Results -/

theorem Placed.results_nodup (h : Placed jobs hand p) : (p.results.map (·.2.planIndex)).Nodup :=
  h.nodup.of_append_right.of_append_right.of_append_right.of_append_right.of_append_right

theorem Placed.exists_job (h : Placed jobs hand p) {x : Nat × Result} (hx : x ∈ p.results) :
    ∃ j ∈ jobs, j.place = x.2.place := by
  have hmem : x.2.place ∈ hand.map Job.place ++ p.places := by
    refine List.mem_append_right _ ?_
    simp only [places, List.mem_append]
    exact Or.inr (Or.inr (Or.inr (Or.inr (List.mem_map_of_mem (f := fun x : Nat × Result => x.2.place) hx))))
  exact List.mem_map.mp (h.accounted.mem_iff.mp hmem)

/-- As many results as jobs are one for each job. -/
theorem Placed.results_perm (h : Placed jobs [] p) (hlength : p.results.length = jobs.length) :
    (p.results.map (·.2.place)).Perm (jobs.map Job.place) := by
  have hall := h.length
  simp only [List.length_nil, Nat.zero_add] at hall
  have hready := List.length_eq_zero_iff.mp (by omega : p.ready.length = 0)
  have hdelayed := List.length_eq_zero_iff.mp (by omega : p.delayed.length = 0)
  have hrunning := List.length_eq_zero_iff.mp (by omega : p.running.length = 0)
  have hpreempted := List.length_eq_zero_iff.mp (by omega : p.preempted.length = 0)
  have haccounted := h.accounted
  simp only [places, hready, hdelayed, hrunning, hpreempted, List.map_nil, List.nil_append] at haccounted
  exact haccounted

/-- Every job has a result exactly when there are as many results as jobs. -/
theorem Placed.all_ended_iff (h : Placed jobs [] p) :
    (∀ j ∈ jobs, ∃ x ∈ p.results, x.2.place = j.place) ↔ p.results.length = jobs.length := by
  constructor
  · intro hall
    have hnodup : (jobs.map Job.place).Nodup := by
      refine List.Nodup.of_map JobPlace.index ?_
      rw [List.map_map]
      exact h.distinct
    have hsub : jobs.map Job.place ⊆ p.results.map (·.2.place) := by
      intro a ha
      obtain ⟨j, hj, rfl⟩ := List.mem_map.mp ha
      obtain ⟨x, hx, hplace⟩ := hall j hj
      exact List.mem_map.mpr ⟨x, hx, hplace⟩
    have hle := (List.subperm_of_subset hnodup hsub).length_le
    have hlength := h.length
    simp only [List.length_map] at hle
    omega
  · intro hlength j hj
    exact List.mem_map.mp ((h.results_perm hlength).mem_iff.mpr (List.mem_map_of_mem hj))

theorem Placed.results_length (h : Placed jobs [] p) (hfinished : p.isFinished = true) :
    p.results.length = jobs.length := by
  simp only [isFinished, Bool.and_eq_true, List.isEmpty_iff] at hfinished
  obtain ⟨⟨⟨⟨hready, hdelayed⟩, hrunning⟩, hpreempted⟩, _⟩ := hfinished
  have hlength := h.length
  simp only [hready, hdelayed, hrunning, hpreempted, List.length_nil] at hlength
  omega

/-! ## Jobs under way -/

theorem Placed.busy_job {job : Job} (h : Placed jobs [] p)
    (hjob : job ∈ p.running.map (·.job) ++ p.preempted) : ∃ k ∈ jobs, k.place = job.place := by
  have hmem : job.place ∈ p.places := by
    simp only [places, List.mem_append]
    rcases List.mem_append.mp hjob with hjob | hjob
    · obtain ⟨e, he, rfl⟩ := List.mem_map.mp hjob
      exact Or.inr (Or.inr (Or.inl (List.mem_map_of_mem (f := fun e : RunningJob => e.job.place) he)))
    · exact Or.inr (Or.inr (Or.inr (Or.inl (List.mem_map_of_mem hjob))))
  exact List.mem_map.mp (h.accounted.mem_iff.mp hmem)

theorem Placed.busy_unfinished {job : Job} (h : Placed jobs [] p)
    (hjob : job ∈ p.running.map (·.job) ++ p.preempted) {x : Nat × Result} (hx : x ∈ p.results) :
    x.2.planIndex ≠ job.planIndex := by
  have hn := h.nodup.of_append_right.of_append_right.of_append_right
  rw [← List.append_assoc] at hn
  intro hindex
  refine List.disjoint_of_nodup_append hn (?_ : job.planIndex ∈ _)
    (List.mem_map.mpr ⟨x, hx, hindex⟩)
  rcases List.mem_append.mp hjob with hjob | hjob
  · obtain ⟨e, he, rfl⟩ := List.mem_map.mp hjob
    exact List.mem_append_left _ (List.mem_map.mpr ⟨e, he, rfl⟩)
  · exact List.mem_append_right _ (List.mem_map_of_mem hjob)

/-! ## Taking a report -/

theorem Placed.take {r : SlotReport} {held : Bool} {job : Job} (h : Placed jobs [] p)
    (ht : p.Taken r held job q) : Placed jobs [job] q ∧ job.state = .running ∧ 1 ≤ job.attempt := by
  -- The job goes from its list into the hand: every place is counted as often as before.
  cases ht with
  | running first mem place =>
      rename_i e rest
      refine ⟨{ h with accounted := ?_, running := fun x hx => h.running x (List.mem_of_mem_filter hx) },
        h.running e mem⟩
      have hsplit := (perm_cons_filter_key h.running_nodup mem).map (·.job.place)
      refine List.Perm.trans ?_ h.accounted
      rw [List.perm_iff_count] at hsplit ⊢
      intro a
      have := hsplit a
      simp only [places, withoutRunning, ← place, List.map_cons, List.map_nil, List.nil_append, List.cons_append,
        List.count_cons, List.count_append] at this ⊢
      omega
  | preempted first mem place =>
      rename_i rest
      refine ⟨{ h with accounted := ?_, preempted := fun x hx => h.preempted x (List.mem_of_mem_filter hx) },
        h.preempted job mem⟩
      have hsplit := (perm_cons_filter_key h.preempted_nodup mem).map Job.place
      refine List.Perm.trans ?_ h.accounted
      rw [List.perm_iff_count] at hsplit ⊢
      intro a
      have := hsplit a
      simp only [places, withoutPreempted, ← place, List.map_cons, List.map_nil, List.nil_append, List.cons_append,
        List.count_cons, List.count_append] at this ⊢
      omega

/-! ## Placing what is in hand -/

theorem recordOutcome_eq (p : Pool) (o : AttemptOutcome) :
    ∃ window, p.recordOutcome o = { p with concurrency := { p.concurrency with window } } := by
  cases o with
  | completed => exact ⟨_, rfl⟩
  | interrupted => exact ⟨_, rfl⟩
  | failed e =>
      by_cases hk : (e.kind == .resource) = true
      · exact ⟨p.concurrency.window, by simp [recordOutcome, hk]⟩
      · exact ⟨p.concurrency.window.record .failure, by simp [recordOutcome, hk, record, Concurrency.record]⟩

/-- Taking a report and counting its outcome touches nothing but the attempts, their slots and the window. -/
theorem Taken.recordOutcome_eq {r : SlotReport} {held : Bool} {job : Job} (ht : p.Taken r held job q)
    (o : AttemptOutcome) : ∃ window reports inFlight running preempted slots occupied, q.recordOutcome o =
      { p with
        concurrency := { p.concurrency with window }
        reports, inFlight, running, preempted, slots, occupied } := by
  obtain ⟨window, he⟩ := q.recordOutcome_eq o
  rw [he]
  cases ht with
  | running => exact ⟨_, _, _, _, _, _, _, rfl⟩
  | preempted => exact ⟨_, _, _, _, _, _, _, rfl⟩

theorem Placed.recordOutcome (h : Placed jobs hand p) (o : AttemptOutcome) :
    Placed jobs hand (p.recordOutcome o) := by
  obtain ⟨window, he⟩ := p.recordOutcome_eq o
  rw [he]
  exact { h with }

theorem Placed.emit {j : Job} {r : Result} {reason : FinalizeReason} (h : Placed jobs [j] p)
    (hr : r.place = j.place) : Placed jobs [] (p.emit r reason) := by
  refine { h with accounted := List.Perm.trans ?_ h.accounted }
  rw [List.perm_iff_count]
  intro a
  simp only [places, Pool.emit, notify, hr, List.map_cons, List.map_nil, List.map_append, List.nil_append,
    List.cons_append, List.count_cons, List.count_append, List.count_nil]
  omega

theorem Placed.calledOff {js : List Job} {reason : String} (h : Placed jobs js p) :
    Placed jobs [] (p.calledOff reason js) := by
  refine { h with accounted := List.Perm.trans ?_ h.accounted }
  have hp : ((js.map fun j => (p.clock, Result.cancelled (j.enter .cancelled) p.clock reason)).map
      (·.2.place)) = js.map Job.place := by
    rw [List.map_map]
    exact List.map_congr_left fun j _ => rfl
  rw [List.perm_iff_count]
  intro a
  simp only [places, Pool.calledOff, hp, List.map_nil, List.map_append, List.nil_append, List.count_append]
  omega

theorem Placed.postponed {j : Job} {delayMs : Nat} {classification : Classification} {e : AttemptError}
    (h : Placed jobs [j] p) : Placed jobs [] (p.postponed j delayMs classification e) := by
  refine { h with accounted := List.Perm.trans ?_ h.accounted, delayed := fun d hd => ?_ }
  · rw [List.perm_iff_count]
    intro a
    have hj : (j.enter .awaitingRetry).place = j.place := rfl
    simp only [places, Pool.postponed, hj, List.map_cons, List.map_nil, List.map_append, List.nil_append,
      List.cons_append, List.count_cons, List.count_append, List.count_nil]
    omega
  · rcases List.mem_append.mp hd with hd | hd
    · exact h.delayed d hd
    · rw [List.mem_singleton.mp hd]
      rfl

theorem Placed.requeued {j : Job} (h : Placed jobs [j] p) :
    Placed jobs [] { p with ready := insertByPlan j.yielded p.ready } := by
  refine { h with accounted := List.Perm.trans ?_ h.accounted, order := h.order.insert, ready := fun k hk => ?_ }
  · have hp := (insertByPlan_perm (j := j.yielded) h.hand_not_ready).map Job.place
    rw [List.perm_iff_count] at hp ⊢
    intro a
    have := hp a
    have hj : j.yielded.place = j.place := rfl
    simp only [places, hj, List.map_cons, List.map_nil, List.nil_append, List.cons_append, List.count_cons,
      List.count_append] at this ⊢
    omega
  · rcases mem_insertByPlan hk with rfl | hk
    · exact Or.inl rfl
    · exact h.ready k hk

/-! ## Moves from place to place -/

/-- The first of the ready jobs is taken in hand. -/
theorem Placed.takeFirst {job : Job} {rest : List Job} (h : Placed jobs [] p) (first : p.ready = job :: rest) :
    Placed jobs [job] { p with ready := rest } := by
  have horder := h.order
  rw [first] at horder
  refine { h with
    accounted := ?_, order := (List.pairwise_cons.mp horder).2
    ready := fun j hj => h.ready j (first ▸ List.mem_cons_of_mem _ hj) }
  have haccounted := h.accounted
  simp only [places, first, List.map_cons, List.map_nil, List.nil_append, List.cons_append] at haccounted ⊢
  exact haccounted

theorem Placed.launched {job : Job} {rest : List Job} {slotId : Nat} (h : Placed jobs [] p)
    (first : p.ready = job :: rest) : Placed jobs [] (p.launched job rest slotId) := by
  have hfirst := h.takeFirst first
  refine { hfirst with accounted := List.Perm.trans ?_ hfirst.accounted, running := ?_ }
  · rw [List.perm_iff_count]
    intro a
    have hj : (job.begun p.clock).place = job.place := rfl
    simp only [places, Pool.launched, hj, List.map_cons, List.map_nil, List.map_append, List.nil_append,
      List.cons_append, List.count_cons, List.count_append, List.count_nil]
    omega
  · intro e he
    rcases List.mem_append.mp he with he | he
    · exact h.running e he
    · rw [List.mem_singleton.mp he]
      exact ⟨rfl, Nat.le_add_left 1 _⟩

theorem promoteDue_ready (p : Pool) :
    p.promoteDue.ready = insertAllByPlan ((p.delayed.filter (·.due ≤ p.clock)).map (·.job)) p.ready := by
  simp [promoteDue, insertAllByPlan, List.foldl_map]

theorem delayed_split (p : Pool) :
    (p.delayed.filter (·.due ≤ p.clock) ++ p.delayed.filter (p.clock < ·.due)).Perm p.delayed := by
  have h := List.filter_append_perm (fun d : DelayedJob => d.due ≤ p.clock) p.delayed
  have hnot : (p.delayed.filter fun d => !decide (d.due ≤ p.clock)) = p.delayed.filter (p.clock < ·.due) :=
    List.filter_congr fun d _ => by rw [← decide_not, decide_eq_decide]; omega
  rwa [hnot] at h

theorem Placed.due_nodup (h : Placed jobs hand p) :
    (((p.delayed.filter (·.due ≤ p.clock)).map (·.job) ++ p.ready).map (·.planIndex)).Nodup := by
  refine h.waiting_nodup.sublist (List.Sublist.map _ ?_)
  exact (List.filter_sublist.map _).append (List.Sublist.refl _)

theorem Placed.promoted (h : Placed jobs [] p) : Placed jobs [] p.promoteDue := by
  refine { h with accounted := List.Perm.trans ?_ h.accounted, order := ?_, ready := ?_, delayed := ?_ }
  · have hp := (insertAllByPlan_perm h.due_nodup).map Job.place
    have hs := p.delayed_split.map (·.job.place)
    rw [List.perm_iff_count] at hp hs ⊢
    intro a
    have hpa := hp a
    have hsa := hs a
    have hd : p.promoteDue.delayed = p.delayed.filter (p.clock < ·.due) := rfl
    have hrest : p.promoteDue.running = p.running ∧ p.promoteDue.preempted = p.preempted ∧
        p.promoteDue.results = p.results := ⟨rfl, rfl, rfl⟩
    simp only [places, promoteDue_ready, hd, hrest, List.map_nil, List.nil_append, List.count_append,
      List.map_append, List.map_map, Function.comp_def] at hpa hsa ⊢
    omega
  · rw [promoteDue_ready]
    exact h.order.insertAll
  · intro j hj
    rw [promoteDue_ready] at hj
    rcases mem_insertAllByPlan hj with hj | hj
    · obtain ⟨d, hd, rfl⟩ := List.mem_map.mp hj
      exact Or.inr (h.delayed d (List.mem_of_mem_filter hd))
    · exact h.ready j hj
  · exact fun d hd => h.delayed d (List.mem_of_mem_filter hd)

theorem victims_perm (p : Pool) (target : Nat) : (p.running.take target ++ p.victims target).Perm p.running := by
  have h := (List.reverse_perm (p.running.drop target)).append_left (p.running.take target)
  rwa [List.take_append_drop] at h

theorem Placed.shrunk {target : Nat} {reason : ShrinkReason} {roster : List Nat} (h : Placed jobs [] p) :
    Placed jobs [] (p.shrunk target reason roster) := by
  refine { h with accounted := List.Perm.trans ?_ h.accounted, running := ?_, preempted := ?_ }
  · have hv := (p.victims_perm target).map (·.job.place)
    rw [List.perm_iff_count] at hv ⊢
    intro a
    have := hv a
    simp only [places, Pool.shrunk, List.map_append, List.map_map, Function.comp_def, List.nil_append, List.map_nil,
      List.count_append] at this ⊢
    omega
  · exact fun e he => h.running e (List.mem_of_mem_take he)
  · intro j hj
    rcases List.mem_append.mp hj with hj | hj
    · exact h.preempted j hj
    · obtain ⟨e, he, rfl⟩ := List.mem_map.mp hj
      exact h.running e (List.mem_of_mem_drop (List.mem_reverse.mp he))

/-- The jobs that wait are taken in hand. -/
theorem Placed.takeWaiting (h : Placed jobs [] p) (graceDeadline : Option Nat) :
    Placed jobs (sortByPlan (p.ready ++ p.delayed.map (·.job)))
      { p with draining := true, ready := [], delayed := [], graceDeadline } := by
  refine { h with
    accounted := List.Perm.trans ?_ h.accounted, order := List.Pairwise.nil
    ready := fun _ hj => absurd hj List.not_mem_nil, delayed := fun _ hd => absurd hd List.not_mem_nil }
  have hs := (sortByPlan_perm (p.ready ++ p.delayed.map (·.job))).map Job.place
  rw [List.perm_iff_count] at hs ⊢
  intro a
  have := hs a
  simp only [places, List.map_append, List.map_map, Function.comp_def, List.nil_append, List.map_nil,
    List.count_append] at this ⊢
  omega

theorem Placed.drained (h : Placed jobs [] p) : Placed jobs [] p.drained :=
  (h.takeWaiting _).calledOff

/-- The jobs that are under way are taken in hand. -/
theorem Placed.takeBusy (h : Placed jobs [] p) : Placed jobs (sortByPlan (p.running.map (·.job) ++ p.preempted))
    { p with
      reapDeadline := none
      inFlight := []
      reports := []
      slots := p.slots.map fun _ => none
      occupied := 0
      running := []
      preempted := [] } := by
  refine { h with
    accounted := List.Perm.trans ?_ h.accounted
    running := fun _ he => absurd he List.not_mem_nil, preempted := fun _ hj => absurd hj List.not_mem_nil }
  have hs := (sortByPlan_perm (p.running.map (·.job) ++ p.preempted)).map Job.place
  rw [List.perm_iff_count] at hs ⊢
  intro a
  have := hs a
  simp only [places, List.map_append, List.map_map, Function.comp_def, List.nil_append, List.map_nil,
    List.count_append] at this ⊢
  omega

theorem Placed.abandoned (h : Placed jobs [] p) : Placed jobs [] p.abandoned :=
  h.takeBusy.calledOff

/-! ## Every act -/

/-- An act leaves every job in one place. -/
theorem Placed.act (h : Placed jobs [] p) (hact : Act p q) : Placed jobs [] q := by
  cases hact with
  | note => exact { h with }
  | begin => exact { h with }
  | succeed _ taken => exact ((h.take taken).1.recordOutcome _).emit rfl
  | giveUp _ taken => exact ((h.take taken).1.recordOutcome _).emit rfl
  | postpone _ taken => exact ((h.take taken).1.recordOutcome _).postponed
  | callOff _ _ taken => exact ((h.take taken).1.recordOutcome _).calledOff
  | requeue _ taken => exact (h.take taken).1.requeued
  | shrink => exact h.shrunk
  | grow => exact { h with }
  | breakDown | collapse => exact { h with }
  | drain => exact h.drained
  | force => exact { h with }
  | resume => exact { h with }
  | reap => exact { h with }
  | abandon => exact h.abandoned
  | promote => exact h.promoted
  | launch _ _ first => exact h.launched first
  | publish => exact { h with }
  | close => exact { h with }

end Pool

end PageAudit
