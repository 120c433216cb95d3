import PageAudit.Proofs.Pool.Bounds

/-!
# Attempts that are taken back

An attempt that loses its slot before it has ended is taken back: its job queues again and does not count it. Every
attempt that was started is either counted by its job or taken back, and no attempt is both.
-/

namespace PageAudit.Pool

/-- The job of an attempt waits to be started, or has ended, without having counted the attempt. -/
def CountsLess (p : Pool) (c : AttemptContext) : Prop :=
  (∃ j ∈ p.ready, j.planIndex = c.planIndex ∧ j.attempt < c.attempt) ∨
    ∃ x ∈ p.results, x.2.planIndex = c.planIndex ∧ x.2.attemptsUsed < c.attempt

instance (p : Pool) (c : AttemptContext) : Decidable (p.CountsLess c) :=
  inferInstanceAs (Decidable (_ ∨ _))

/-- The number that an attempt had is free again, or a later attempt of its job has it. -/
def GaveBack (p : Pool) (seq : Nat) : Prop :=
  ∃ c ∈ p.started[seq - 1]?,
    (∃ d ∈ p.started.drop seq, d.planIndex = c.planIndex ∧ d.attempt = c.attempt) ∨ p.CountsLess c

instance (p : Pool) (seq : Nat) : Decidable (p.GaveBack seq) :=
  inferInstanceAs (Decidable (∃ c ∈ _, _))

/-- The attempts that lost their slot and whose jobs queued again. -/
def requeued (p : Pool) : List Nat :=
  p.stopped.filter fun seq => p.GaveBack seq

/-- The attempts of a job have numbers up to a given one. -/
def Within (p : Pool) (j : Job) (most : Nat) : Prop :=
  ∀ c ∈ p.started, c.planIndex = j.planIndex → c.attempt ≤ most

/-- The attempts of every job are numbered up to the number that it counts; only one that was taken back may go beyond
it. The attempt in flight is the latest of its job. -/
structure Numbered (p : Pool) : Prop where
  ready : ∀ j ∈ p.ready, p.Within j (j.attempt + 1)
  delayed : ∀ d ∈ p.delayed, p.Within d.job d.job.attempt
  running : ∀ e ∈ p.running, p.Within e.job e.job.attempt
  preempted : ∀ j ∈ p.preempted, p.Within j j.attempt
  latest : ∀ f ∈ p.inFlight, ∀ c ∈ p.started.drop f.seq, c.planIndex ≠ f.planIndex
  once : p.stopped.Nodup
  positive : ∀ s ∈ p.stopped, 0 < s

variable {jobs hand : List Job} {p q : Pool}

/-! ## Numbers of attempts -/

theorem Numbered.taken {r : SlotReport} {held : Bool} {job : Job} (h : Numbered p) (ht : p.Taken r held job q)
    (o : AttemptOutcome) : Numbered (q.recordOutcome o) ∧ (q.recordOutcome o).Within job job.attempt := by
  obtain ⟨window, he⟩ := q.recordOutcome_eq o
  rw [he]
  cases ht with
  | running _ mem =>
      exact ⟨{ h with
        running := fun x hx => h.running x (List.mem_of_mem_filter hx)
        latest := fun f hf => h.latest f (List.mem_of_mem_filter hf) }, h.running _ mem⟩
  | preempted _ mem =>
      exact ⟨{ h with
        preempted := fun x hx => h.preempted x (List.mem_of_mem_filter hx)
        latest := fun f hf => h.latest f (List.mem_of_mem_filter hf) }, h.preempted _ mem⟩

theorem Numbered.postponed {j : Job} {delayMs : Nat} {classification : Classification} {e : AttemptError}
    (h : Numbered p) (hj : p.Within j j.attempt) : Numbered (p.postponed j delayMs classification e) := by
  refine { h with delayed := fun d hd => ?_ }
  rcases List.mem_append.mp hd with hd | hd
  · exact h.delayed d hd
  · rw [List.mem_singleton.mp hd]
    exact hj

theorem Numbered.requeued {j : Job} (h : Numbered p) (hj : p.Within j j.attempt) :
    Numbered { p with ready := insertByPlan j.yielded p.ready } := by
  refine { h with ready := fun k hk => ?_ }
  rcases mem_insertByPlan hk with rfl | hk
  · exact fun c hc hindex => Nat.le_trans (hj c hc hindex) (Nat.le_add_of_sub_le (Nat.le_refl _))
  · exact h.ready k hk

theorem Numbered.promoted (h : Numbered p) : Numbered p.promoteDue := by
  refine { h with ready := fun j hj => ?_, delayed := fun d hd => h.delayed d (List.mem_of_mem_filter hd) }
  rw [promoteDue_ready] at hj
  rcases mem_insertAllByPlan hj with hj | hj
  · obtain ⟨d, hd, rfl⟩ := List.mem_map.mp hj
    exact fun c hc hindex => Nat.le_succ_of_le (h.delayed d (List.mem_of_mem_filter hd) c hc hindex)
  · exact h.ready j hj

theorem Numbered.shrunk {target : Nat} {reason : ShrinkReason} {roster : List Nat} (h : Numbered p) (hf : Flown p) :
    Numbered (p.shrunk target reason roster) := by
  have hsub : ∀ e ∈ p.victims target, e ∈ p.running := fun e he =>
    List.mem_of_mem_drop (List.mem_reverse.mp he)
  have hvictims : ((p.victims target).map (·.seq)).Nodup := by
    rw [victims, List.map_reverse, List.nodup_reverse]
    have horder : (p.running.map (·.seq)).Nodup := List.pairwise_map.mpr (hf.order.imp Nat.ne_of_lt)
    exact horder.sublist ((List.drop_sublist _ _).map _)
  refine { h with running := fun e he => h.running e (List.mem_of_mem_take he), preempted := ?_, once := ?_, positive := ?_ }
  · intro j hj
    rcases List.mem_append.mp hj with hj | hj
    · exact h.preempted j hj
    · obtain ⟨e, he, rfl⟩ := List.mem_map.mp hj
      exact h.running e (hsub e he)
  · refine h.once.append hvictims fun s hs hv => ?_
    obtain ⟨e, he, rfl⟩ := List.mem_map.mp hv
    exact (hf.running e (hsub e he)).2.1 hs
  · intro s hs
    rcases List.mem_append.mp hs with hs | hs
    · exact h.positive s hs
    · obtain ⟨e, he, rfl⟩ := List.mem_map.mp hs
      exact (hf.bound _ (hf.running e (hsub e he)).1).1

/-- No two jobs that wait or are under way have one position. -/
theorem Placed.ready_not_busy (h : Placed jobs hand p) {j k : Job} (hj : j ∈ p.ready)
    (hk : k ∈ p.running.map (·.job) ++ p.preempted) : j.planIndex ≠ k.planIndex := by
  have hd := List.disjoint_of_nodup_append h.nodup.of_append_right
  intro he
  refine hd (List.mem_map_of_mem hj) (he ▸ List.mem_append_right _ ?_)
  rcases List.mem_append.mp hk with hk | hk
  · obtain ⟨e, hr, rfl⟩ := List.mem_map.mp hk
    exact List.mem_append_left _ (List.mem_map.mpr ⟨e, hr, rfl⟩)
  · exact List.mem_append_right _ (List.mem_append_left _ (List.mem_map_of_mem hk))

theorem Flown.exists_busy (h : Flown p) {f : Flight} (hf : f ∈ p.inFlight) :
    ∃ k ∈ p.running.map (·.job) ++ p.preempted, k.planIndex = f.planIndex := by
  have hmem := h.places.mem_iff.mp (List.mem_map_of_mem hf)
  rcases List.mem_append.mp hmem with hmem | hmem
  · obtain ⟨e, he, hindex⟩ := List.mem_map.mp hmem
    exact ⟨e.job, List.mem_append_left _ (List.mem_map_of_mem he), hindex⟩
  · obtain ⟨k, hk, hindex⟩ := List.mem_map.mp hmem
    exact ⟨k, List.mem_append_right _ hk, hindex⟩

theorem Numbered.launched {job : Job} {rest : List Job} {slotId : Nat} (h : Numbered p) (hs : Sound jobs p)
    (first : p.ready = job :: rest) : Numbered (p.launched job rest slotId) := by
  have hjob : job ∈ p.ready := first ▸ List.mem_cons_self
  have hother : ∀ k ∈ p.running.map (·.job) ++ p.preempted, job.planIndex ≠ k.planIndex := fun k =>
    hs.placed.ready_not_busy hjob
  have hkeep : ∀ {k : Job} {most : Nat}, job.planIndex ≠ k.planIndex → p.Within k most →
      (p.launched job rest slotId).Within k most := by
    intro k most hne hk c hc hindex
    rcases List.mem_append.mp hc with hc | hc
    · exact hk c hc hindex
    · rw [List.mem_singleton.mp hc] at hindex
      exact absurd hindex hne
  have hn := hs.placed.nodup.of_append_right
  rw [first, List.map_cons, List.cons_append, List.nodup_cons] at hn
  refine { h with ready := ?_, delayed := ?_, running := ?_, preempted := ?_, latest := ?_ }
  · exact fun j hj => hkeep (fun he => hn.1 (List.mem_append_left _ (he ▸ List.mem_map_of_mem hj)))
      (h.ready j (first ▸ List.mem_cons_of_mem _ hj))
  · exact fun d hd => hkeep (fun he => hn.1 (List.mem_append_right _ (List.mem_append_left _
      (List.mem_map.mpr ⟨d, hd, he.symm⟩)))) (h.delayed d hd)
  · intro e he
    rcases List.mem_append.mp he with he | he
    · exact hkeep (hother _ (List.mem_append_left _ (List.mem_map_of_mem he))) (h.running e he)
    · rw [List.mem_singleton.mp he]
      intro c hc hindex
      rcases List.mem_append.mp hc with hc | hc
      · exact h.ready job hjob c hc hindex
      · rw [List.mem_singleton.mp hc]
        exact Nat.le_refl _
  · exact fun j hj => hkeep (hother j (List.mem_append_right _ hj)) (h.preempted j hj)
  · intro f hf c hc
    rcases List.mem_append.mp hf with hf | hf
    · rw [show (p.launched job rest slotId).started = p.started ++ [_] from rfl,
        List.drop_append_of_le_length (hs.flown.started ▸ (hs.flown.bound f hf).2)] at hc
      rcases List.mem_append.mp hc with hc | hc
      · exact h.latest f hf c hc
      · obtain ⟨k, hk, hindex⟩ := hs.flown.exists_busy hf
        rw [List.mem_singleton.mp hc, ← hindex]
        exact hother k hk
    · -- Nothing was started after the new attempt.
      rw [List.mem_singleton.mp hf, List.drop_eq_nil_of_le] at hc
      · exact absurd hc List.not_mem_nil
      · simp [Pool.launched, hs.flown.started]

theorem Numbered.act (h : Numbered p) (hs : Sound jobs p) (hact : Act p q) : Numbered q := by
  cases hact with
  | succeed _ taken | giveUp _ taken | callOff _ _ taken => exact { (h.taken taken _).1 with }
  | postpone _ taken => exact (h.taken taken _).1.postponed (h.taken taken _).2
  | requeue _ taken => exact (h.taken taken .interrupted).1.requeued (h.taken taken .interrupted).2
  | shrink => exact h.shrunk hs.flown
  | drain =>
      exact { h with
        ready := fun _ hj => absurd hj List.not_mem_nil
        delayed := fun _ hd => absurd hd List.not_mem_nil }
  | abandon =>
      exact { h with
        running := fun _ he => absurd he List.not_mem_nil
        preempted := fun _ hj => absurd hj List.not_mem_nil
        latest := fun _ hf => absurd hf List.not_mem_nil }
  | promote => exact h.promoted
  | launch _ _ first => exact h.launched hs first
  | _ => exact { h with }

/-! ## What is taken back -/

/-- As long as no attempts are started or told to end, it depends on the jobs that wait and have ended what was taken
back. -/
theorem requeued_congr (hstarted : q.started = p.started) (hstopped : q.stopped = p.stopped)
    (h : ∀ c ∈ p.started, q.CountsLess c ↔ p.CountsLess c) : q.requeued = p.requeued := by
  rw [requeued, hstopped]
  refine List.filter_congr fun s _ => decide_eq_decide.mpr ?_
  rw [GaveBack, hstarted]
  refine exists_congr fun c => and_congr_right fun hc => or_congr_right (h c ?_)
  exact List.mem_of_getElem? (Option.mem_def.mp hc)

theorem requeued_of_eq (hstarted : q.started = p.started) (hstopped : q.stopped = p.stopped)
    (hready : q.ready = p.ready) (hresults : q.results = p.results) : q.requeued = p.requeued :=
  requeued_congr hstarted hstopped fun c _ => by rw [CountsLess, hready, hresults, CountsLess]

theorem requeued_taken {r : SlotReport} {held : Bool} {job : Job} (ht : p.Taken r held job q) (o : AttemptOutcome) :
    (q.recordOutcome o).requeued = p.requeued := by
  obtain ⟨_, _, _, _, _, _, _, he⟩ := ht.recordOutcome_eq o
  rw [he]
  exact requeued_of_eq rfl rfl rfl rfl

/-- A job that ends with all attempts counted takes none back. -/
theorem requeued_ended (ended : List (Nat × Result)) (hstarted : q.started = p.started)
    (hstopped : q.stopped = p.stopped) (hready : q.ready = p.ready) (hresults : q.results = p.results ++ ended)
    (hall : ∀ x ∈ ended, ∀ c ∈ p.started, c.planIndex = x.2.planIndex → c.attempt ≤ x.2.attemptsUsed) :
    q.requeued = p.requeued := by
  refine requeued_congr hstarted hstopped fun c hc => ?_
  rw [CountsLess, hready, hresults]
  refine or_congr_right ⟨fun ⟨x, hx, hindex, hlt⟩ => ?_, fun ⟨x, hx, hless⟩ => ⟨x, List.mem_append_left _ hx, hless⟩⟩
  rcases List.mem_append.mp hx with hx | hx
  · exact ⟨x, hx, hindex, hlt⟩
  · exact absurd hlt (Nat.not_lt.mpr (hall x hx c hc hindex.symm))

theorem requeued_emit {j : Job} {r : Result} {reason : FinalizeReason} (h : p.Within j j.attempt)
    (hindex : r.planIndex = j.planIndex) (hused : r.attemptsUsed = j.attempt) :
    (p.emit r reason).requeued = p.requeued :=
  requeued_ended [(p.clock, r)] rfl rfl rfl rfl fun x hx c hc hplace => by
    rw [List.mem_singleton.mp hx] at hplace ⊢
    exact hused ▸ h c hc (hplace.trans hindex)

theorem requeued_calledOff {js : List Job} {reason : String} (h : ∀ j ∈ js, p.Within j j.attempt) :
    (p.calledOff reason js).requeued = p.requeued :=
  requeued_ended (js.map fun j => (p.clock, .cancelled (j.enter .cancelled) p.clock reason)) rfl rfl rfl rfl
    fun x hx c hc hplace => by
      obtain ⟨j, hj, rfl⟩ := List.mem_map.mp hx
      exact h j hj c hc hplace

theorem requeued_drained (h : Numbered p) : p.drained.requeued = p.requeued := by
  refine requeued_congr rfl rfl fun c hc => ⟨fun hless => ?_, fun hless => ?_⟩
  · rcases hless with ⟨j, hj, _⟩ | ⟨x, hx, hindex, hlt⟩
    · exact absurd hj List.not_mem_nil
    · rcases List.mem_append.mp hx with hx | hx
      · exact Or.inr ⟨x, hx, hindex, hlt⟩
      · obtain ⟨j, hj, rfl⟩ := List.mem_map.mp hx
        rcases List.mem_append.mp (mem_sortByPlan.mp hj) with hj | hj
        · exact Or.inl ⟨j, hj, hindex, hlt⟩
        · obtain ⟨d, hd, rfl⟩ := List.mem_map.mp hj
          exact absurd hlt (Nat.not_lt.mpr (h.delayed d hd c hc hindex.symm))
  · rcases hless with ⟨j, hj, hless⟩ | ⟨x, hx, hless⟩
    · exact Or.inr ⟨_, List.mem_append_right _ (List.mem_map_of_mem
        (mem_sortByPlan.mpr (List.mem_append_left _ hj))), hless⟩
    · exact Or.inr ⟨x, List.mem_append_left _ hx, hless⟩

theorem requeued_abandoned (h : Numbered p) : p.abandoned.requeued = p.requeued := by
  refine (requeued_calledOff fun j hj => ?_).trans (requeued_of_eq rfl rfl rfl rfl)
  rcases List.mem_append.mp (mem_sortByPlan.mp hj) with hj | hj
  · obtain ⟨e, he, rfl⟩ := List.mem_map.mp hj
    exact h.running e he
  · exact h.preempted j hj

theorem requeued_promoted (h : Numbered p) (hp : Placed jobs [] p) : p.promoteDue.requeued = p.requeued := by
  refine requeued_congr rfl rfl fun c hc => or_congr_left ⟨fun ⟨j, hj, hindex, hlt⟩ => ?_, fun ⟨j, hj, hless⟩ => ?_⟩
  · rw [promoteDue_ready] at hj
    rcases mem_insertAllByPlan hj with hj | hj
    · obtain ⟨d, hd, rfl⟩ := List.mem_map.mp hj
      exact absurd hlt (Nat.not_lt.mpr (h.delayed d (List.mem_of_mem_filter hd) c hc hindex.symm))
    · exact ⟨j, hj, hindex, hlt⟩
  · refine ⟨j, ?_, hless⟩
    rw [promoteDue_ready]
    exact (insertAllByPlan_perm hp.due_nodup).mem_iff.mpr (List.mem_append_right _ hj)

/-- An attempt of a job that is under way, the latest one, has not been taken back. -/
theorem Numbered.not_gaveBack (h : Numbered p) (hp : Placed jobs hand p) {f : Flight} {job : Job}
    {c : AttemptContext} (hf : f ∈ p.inFlight) (hjob : job ∈ p.running.map (·.job) ++ p.preempted)
    (hindex : f.planIndex = job.planIndex) (hc : p.started[f.seq - 1]? = some c)
    (hplace : c.planIndex = job.planIndex) (hresults : ∀ x ∈ p.results, x.2.planIndex ≠ job.planIndex) :
    ¬ p.GaveBack f.seq := by
  rintro ⟨d, hd, hback⟩
  obtain rfl := Option.some.inj (hc.symm.trans (Option.mem_def.mp hd))
  rcases hback with ⟨b, hb, hsame, _⟩ | ⟨j, hj, hsame, _⟩ | ⟨x, hx, hsame, _⟩
  · exact h.latest f hf b hb (hsame.trans (hplace.trans hindex.symm))
  · exact hp.ready_not_busy hj hjob (hsame.trans hplace)
  · exact hresults x hx (hsame.trans hplace)

theorem requeued_shrunk {target : Nat} {reason : ShrinkReason} {roster : List Nat} (h : Numbered p)
    (hs : Sound jobs p) : (p.shrunk target reason roster).requeued = p.requeued := by
  have hvictims : ((p.victims target).map (·.seq)).filter (fun s => p.GaveBack s) = [] := by
    refine List.filter_eq_nil_iff.mpr fun s hseq => ?_
    obtain ⟨e, he, rfl⟩ := List.mem_map.mp hseq
    have he : e ∈ p.running := List.mem_of_mem_drop (List.mem_reverse.mp he)
    obtain ⟨hfly, _, hctx⟩ := hs.flown.running e he
    have hbusy : e.job ∈ p.running.map (·.job) ++ p.preempted := List.mem_append_left _ (List.mem_map_of_mem he)
    simpa using h.not_gaveBack hs.placed hfly hbusy rfl hctx rfl fun x hx => hs.placed.busy_unfinished hbusy hx
  have hsame : ∀ s, (p.shrunk target reason roster).GaveBack s ↔ p.GaveBack s := fun _ => Iff.rfl
  simp only [requeued, hsame]
  rw [show (p.shrunk target reason roster).stopped = p.stopped ++ (p.victims target).map (·.seq) from rfl,
    List.filter_append, hvictims, List.append_nil]

theorem requeued_launched {job : Job} {rest : List Job} {slotId : Nat} (h : Numbered p) (hf : Flown p)
    (first : p.ready = job :: rest) : (p.launched job rest slotId).requeued = p.requeued := by
  refine List.filter_congr fun s hstopped => decide_eq_decide.mpr ?_
  have hpos := h.positive s hstopped
  have hle : s ≤ p.started.length := hf.started ▸ hf.stopped s hstopped
  have hstarted : (p.launched job rest slotId).started =
      p.started ++ [⟨job.id, job.url, job.planIndex, job.attempt + 1, slotId⟩] := rfl
  rw [GaveBack, hstarted, List.getElem?_append_left (by omega), List.drop_append_of_le_length hle]
  refine exists_congr fun c => and_congr_right fun hc => ?_
  have hwithin := h.ready job (first ▸ List.mem_cons_self) c (List.mem_of_getElem? (Option.mem_def.mp hc))
  -- The number that the job has free is the one that the new attempt gets.
  have hnumber : job.planIndex = c.planIndex → (job.attempt < c.attempt ↔ job.attempt + 1 = c.attempt) := by
    intro hindex
    have := hwithin hindex.symm
    omega
  have hless : p.CountsLess c ↔
      (job.planIndex = c.planIndex ∧ job.attempt < c.attempt) ∨ (p.launched job rest slotId).CountsLess c := by
    simp only [CountsLess, first, List.mem_cons, exists_eq_or_imp, or_assoc]
    rfl
  rw [hless, and_congr_right hnumber, ← or_assoc]
  refine or_congr_left ?_
  simp only [List.mem_append, List.mem_singleton, or_and_right, exists_or, exists_eq_left]

/-! ## Taking an attempt back -/

theorem length_filter_or_eq {P : Nat → Prop} [DecidablePred P] {l : List Nat} {n : Nat} (hl : l.Nodup) (hn : n ∈ l)
    (hP : ¬ P n) : (l.filter fun s => P s ∨ s = n).length = (l.filter fun s => P s).length + 1 := by
  have hperm := List.perm_cons_erase hn
  have hrest : (l.erase n).filter (fun s => P s ∨ s = n) = (l.erase n).filter fun s => P s := by
    refine List.filter_congr fun s hs => decide_eq_decide.mpr (or_iff_left fun he => ?_)
    exact hl.not_mem_erase (he ▸ hs)
  rw [(hperm.filter _).length_eq, (hperm.filter fun s => decide (P s)).length_eq, List.filter_cons_of_pos (by simp),
    List.filter_cons_of_neg (by simpa using hP), hrest, List.length_cons]

/-- The attempt of a preempted job was told to end. -/
theorem Flown.taken_stopped {r : SlotReport} {job : Job} (h : Flown p) (hp : Placed jobs [] p)
    (ht : p.Taken r false job q) : r.flight.seq ∈ p.stopped := by
  have hr := h.reports r ht.mem
  cases ht with
  | preempted first mem place =>
      obtain ⟨f, hf, hindex, hstop, _⟩ := h.preempted job mem
      rwa [h.eq_of_planIndex hp hr hf (place.symm.trans hindex.symm)]

theorem countsLess_requeued {job : Job} {c : AttemptContext} (hready : q.ready = insertByPlan job.yielded p.ready)
    (hresults : q.results = p.results) (hfree : job.planIndex ∉ p.ready.map (·.planIndex)) :
    q.CountsLess c ↔ (job.planIndex = c.planIndex ∧ job.attempt - 1 < c.attempt) ∨ p.CountsLess c := by
  have hinsert : (insertByPlan job.yielded p.ready).Perm (job.yielded :: p.ready) := insertByPlan_perm hfree
  simp only [CountsLess, hready, hresults, hinsert.mem_iff, List.mem_cons, exists_eq_or_imp, or_assoc]
  rfl

/-- An attempt with the number of the one in flight was taken back before, unless it is that one. -/
theorem Numbered.gaveBack_or_eq (h : Numbered p) {f : Flight} {b c : AttemptContext} {s : Nat} (hf : f ∈ p.inFlight)
    (hpos : 0 < f.seq) (hb : p.started[f.seq - 1]? = some b) (hc : p.started[s - 1]? = some c)
    (hindex : c.planIndex = f.planIndex) (hplace : b.planIndex = c.planIndex) (hnumber : b.attempt = c.attempt) :
    p.GaveBack s ∨ s = f.seq := by
  rcases Nat.lt_trichotomy s f.seq with hbefore | heq | hafter
  · refine Or.inl ⟨c, hc, Or.inl ⟨b, List.mem_of_getElem? (i := f.seq - 1 - s) ?_, hplace, hnumber⟩⟩
    rw [List.getElem?_drop, show s + (f.seq - 1 - s) = f.seq - 1 by omega]
    exact hb
  · exact Or.inr heq
  · refine absurd hindex (h.latest f hf c (List.mem_of_getElem? (i := s - 1 - f.seq) ?_))
    rw [List.getElem?_drop, show f.seq + (s - 1 - f.seq) = s - 1 by omega]
    exact hc

/-- A job that queues again takes back its last attempt and no other. -/
theorem requeued_requeued {r : SlotReport} {job : Job} (h : Numbered p) (hs : Sound jobs p)
    (ht : p.Taken r false job q) :
    ({ q with ready := insertByPlan job.yielded q.ready } : Pool).requeued.length = p.requeued.length + 1 := by
  obtain ⟨⟨b, hb, hindex, hnumber⟩, hpos, _⟩ := hs.flown.taken_context hs.placed ht
  have hstop := hs.flown.taken_stopped hs.placed ht
  have hone := (hs.placed.take ht).2.2
  have hfly := hs.flown.reports r ht.mem
  cases ht with
  | @preempted _ rest first mem place =>
      have hbusy : job ∈ p.running.map (·.job) ++ p.preempted := List.mem_append_right _ mem
      have hfree : job.planIndex ∉ p.ready.map (·.planIndex) := fun hm => by
        obtain ⟨j, hj, he⟩ := List.mem_map.mp hm
        exact hs.placed.ready_not_busy hj hbusy he
      have hnot := h.not_gaveBack hs.placed hfly hbusy place.symm hb hindex fun x hx =>
        hs.placed.busy_unfinished hbusy hx
      have hless : ∀ c, ({ p.withoutPreempted r rest with
          ready := insertByPlan job.yielded (p.withoutPreempted r rest).ready } : Pool).CountsLess c ↔ _ := fun c =>
        countsLess_requeued (p := p) rfl rfl hfree
      rw [requeued, requeued, ← length_filter_or_eq (P := p.GaveBack) h.once hstop hnot]
      refine congrArg List.length (List.filter_congr fun s _ => decide_eq_decide.mpr ⟨?_, ?_⟩)
      · rintro ⟨c, hc, hback⟩
        rw [hless] at hback
        rcases hback with hlater | ⟨hsame, hlt⟩ | hback
        · exact Or.inl ⟨c, hc, Or.inl hlater⟩
        · -- The attempt has the last number that the job had.
          have hmost := h.preempted job mem c (List.mem_of_getElem? hc) hsame.symm
          exact h.gaveBack_or_eq hfly hpos hb hc (hsame.symm.trans place) (hindex.trans hsame) (by omega)
        · exact Or.inl ⟨c, hc, Or.inr hback⟩
      · rintro (⟨c, hc, hback⟩ | rfl)
        · refine ⟨c, hc, hback.imp_right fun hback => ?_⟩
          rw [hless]
          exact Or.inr hback
        · refine ⟨b, hb, Or.inr ?_⟩
          rw [hless]
          exact Or.inl ⟨hindex.symm, by omega⟩

/-! ## All attempts -/

/-- A job weighs the attempts that it counts. -/
def countWeights : Weights where
  waiting := (·.attempt)
  running := (·.attempt)
  preempted := (·.attempt)
  ended := (·.attemptsUsed)
  lost := 0

/-- Every attempt that was started is counted by its job or was taken back. -/
structure Counted (p : Pool) : Prop where
  numbered : Numbered p
  total : p.started.length = p.weight countWeights + p.requeued.length

theorem Sound.weight_counted {r : SlotReport} {held : Bool} {job : Job} (hs : Sound jobs p)
    (ht : p.Taken r held job q) (o : AttemptOutcome) :
    (q.recordOutcome o).weight countWeights + job.attempt = p.weight countWeights := by
  have htake := hs.placed.weight_take countWeights ht
  rw [weight_recordOutcome]
  cases held <;> exact htake

theorem Counted.taken {r : SlotReport} {held : Bool} {job : Job} (h : Counted p) (hs : Sound jobs p)
    (ht : p.Taken r held job q) (o : AttemptOutcome) :
    (q.recordOutcome o).started.length =
      (q.recordOutcome o).weight countWeights + job.attempt + p.requeued.length := by
  obtain ⟨_, _, _, _, _, _, _, he⟩ := ht.recordOutcome_eq o
  rw [hs.weight_counted ht o, he]
  exact h.total

theorem Counted.act (h : Counted p) (hs : Sound jobs p) (hact : Act p q) : Counted q := by
  refine ⟨h.numbered.act hs hact, ?_⟩
  have htotal := h.total
  cases hact with
  | succeed _ taken | giveUp _ taken =>
      rw [weight_emit, requeued_emit (h.numbered.taken taken _).2 rfl rfl, requeued_taken taken]
      exact h.taken hs taken _
  | @postpone _ r _ _ _ _ _ _ taken =>
      have htaken := h.taken hs taken r.outcome
      rw [← requeued_taken taken r.outcome] at htaken
      rw [weight_postponed]
      exact htaken
  | callOff _ _ taken =>
      rw [weight_calledOff, requeued_calledOff, requeued_taken taken]
      · exact h.taken hs taken _
      · exact fun j hj => List.mem_singleton.mp hj ▸ (h.numbered.taken taken _).2
  | requeue _ taken =>
      obtain ⟨hplaced, _, hone⟩ := hs.placed.take taken
      have htaken := h.taken hs taken .interrupted
      rw [requeued_requeued h.numbered hs taken, hplaced.weight_requeued countWeights]
      simp only [recordOutcome, countWeights, Job.yielded] at htaken ⊢
      omega
  | shrink =>
      rename_i target reason roster _ _ _
      have hweight := p.weight_shrunk countWeights target reason roster
      rw [requeued_shrunk h.numbered hs]
      simp only [countWeights] at hweight htotal ⊢
      show p.started.length = _
      omega
  | drain =>
      have hweight := p.weight_drained countWeights
      rw [requeued_drained h.numbered]
      exact htotal.trans (congrArg (· + _) (Nat.add_right_cancel hweight).symm)
  | abandon =>
      have hweight := p.weight_abandoned countWeights
      rw [requeued_abandoned h.numbered]
      simp only [List.map_append, List.map_map, List.sum_append, Function.comp_def] at hweight
      exact htotal.trans (congrArg (· + _) (Nat.add_right_cancel hweight).symm)
  | promote =>
      rw [requeued_promoted h.numbered hs.placed, hs.placed.weight_promoted]
      exact htotal
  | @launch job rest slotId _ _ first =>
      have hweight := weight_launched countWeights slotId first
      rw [requeued_launched h.numbered hs.flown first]
      show (p.started ++ [_]).length = _
      rw [List.length_append, List.length_singleton, htotal]
      simp only [countWeights, Job.begun] at hweight ⊢
      omega
  | _ => exact htotal

theorem kept_counted : Kept jobs Counted where
  act := fun hs h hact => h.act hs hact
  news := by
    intro p q _ h hnews
    cases hnews <;> exact ⟨{ h.numbered with }, h.total⟩
  receive := fun _ _ h => ⟨{ h.numbered with }, h.total⟩

theorem Counted.submit {policy : PoolPolicy} {retry : RetryPolicy} {gracePeriod clock : Nat}
    {draws : Nat → Nat → Nat} {pressure : MemoryPressure}
    (h : submit? policy retry gracePeriod draws pressure clock jobs = some p)
    (hfresh : ∀ j ∈ jobs, j.attempt = 0) : Counted p := by
  obtain ⟨_, _, _, rfl⟩ := submit?_eq h
  have hready : ∀ j ∈ insertAllByPlan jobs [], j.attempt = 0 := fun j hj =>
    hfresh j ((mem_insertAllByPlan hj).resolve_right List.not_mem_nil)
  refine ⟨{
    ready := fun _ _ _ hc => absurd hc List.not_mem_nil
    delayed := fun _ hd => absurd hd List.not_mem_nil
    running := fun _ he => absurd he List.not_mem_nil
    preempted := fun _ hj => absurd hj List.not_mem_nil
    latest := fun _ hf => absurd hf List.not_mem_nil
    once := List.nodup_nil
    positive := fun _ hs => absurd hs List.not_mem_nil }, ?_⟩
  have hsum : ((insertAllByPlan jobs []).map (·.attempt)).sum = 0 :=
    List.sum_eq_zero fun n hn => by
      obtain ⟨j, hj, rfl⟩ := List.mem_map.mp hn
      exact hready j hj
  show 0 = ((insertAllByPlan jobs []).map (·.attempt)).sum + 0 + 0 + 0 + 0 + 0 * 0 + 0
  rw [hsum]

/-- Once nothing is left to be done, the attempts that were started are those of the results and those taken back. -/
theorem Counted.started_length (h : Counted p) (hfinished : p.isFinished = true) :
    p.started.length = (p.results.map (·.2.attemptsUsed)).sum + p.requeued.length := by
  simp only [isFinished, Bool.and_eq_true, List.isEmpty_iff] at hfinished
  obtain ⟨⟨⟨⟨hready, hdelayed⟩, hrunning⟩, hpreempted⟩, _⟩ := hfinished
  have htotal := h.total
  simp only [weight, countWeights, hready, hdelayed, hrunning, hpreempted, List.map_nil, List.sum_nil] at htotal
  omega

end PageAudit.Pool
