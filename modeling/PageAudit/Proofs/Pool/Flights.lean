import PageAudit.Proofs.Pool.Places

/-!
# Attempts in flight

The attempts in flight are those of the running and of the preempted jobs, one for each. Their numbers tell which
attempt of which job each of them is, and only those of preempted jobs were told to end.
-/

namespace PageAudit

/-- What was said of a running attempt when it was started. -/
def RunningJob.context (e : RunningJob) : AttemptContext :=
  ⟨e.job.id, e.job.url, e.job.planIndex, e.job.attempt, e.slotId⟩

namespace Pool

/-- The attempts in flight belong to the running and the preempted jobs. -/
structure Flown (p : Pool) : Prop where
  seqs : (p.inFlight.map (·.seq)).Nodup
  bound : ∀ f ∈ p.inFlight, 0 < f.seq ∧ f.seq ≤ p.nextSeq
  places : (p.inFlight.map (·.planIndex)).Perm
    (p.running.map (·.job.planIndex) ++ p.preempted.map (·.planIndex))
  order : p.running.Pairwise fun a b => a.seq < b.seq
  reports : ∀ r ∈ p.reports, r.flight ∈ p.inFlight
  once : (p.reports.map (·.flight.seq)).Nodup
  started : p.started.length = p.nextSeq
  stopped : ∀ s ∈ p.stopped, s ≤ p.nextSeq
  running : ∀ e ∈ p.running, ⟨e.seq, e.job.planIndex⟩ ∈ p.inFlight ∧ e.seq ∉ p.stopped ∧
    p.started[e.seq - 1]? = some e.context
  preempted : ∀ j ∈ p.preempted, ∃ f ∈ p.inFlight, f.planIndex = j.planIndex ∧ f.seq ∈ p.stopped ∧
    ∃ c, p.started[f.seq - 1]? = some c ∧ c.planIndex = j.planIndex ∧ c.attempt = j.attempt

variable {jobs hand : List Job} {p q : Pool}

theorem Flown.eq_of_seq (h : Flown p) {f g : Flight} (hf : f ∈ p.inFlight) (hg : g ∈ p.inFlight)
    (hs : f.seq = g.seq) : f = g :=
  List.inj_on_of_nodup_map h.seqs hf hg hs

theorem Flown.eq_of_planIndex (h : Flown p) (hp : Placed jobs hand p) {f g : Flight} (hf : f ∈ p.inFlight)
    (hg : g ∈ p.inFlight) (hs : f.planIndex = g.planIndex) : f = g := by
  have hn := hp.nodup.of_append_right.of_append_right.of_append_right
  rw [← List.append_assoc] at hn
  exact List.inj_on_of_nodup_map (h.places.nodup_iff.mpr hn.of_append_left) hf hg hs

/-- The attempts that stay in flight once the one of a report is taken away. -/
theorem Flown.perm_cons_filter (h : Flown p) {f : Flight} (hf : f ∈ p.inFlight) :
    p.inFlight.Perm (f :: p.inFlight.filter (·.seq != f.seq)) :=
  perm_cons_filter_key h.seqs hf

theorem Flown.mem_filter (h : Flown p) {f g : Flight} (hf : f ∈ p.inFlight) (hg : g ∈ p.inFlight)
    (hne : g.planIndex ≠ f.planIndex) : g ∈ p.inFlight.filter (·.seq != f.seq) := by
  refine List.mem_filter.mpr ⟨hg, ?_⟩
  simp only [bne_iff_ne, ne_eq]
  exact fun hs => hne (by rw [h.eq_of_seq hg hf hs])

theorem Flown.rest {r : SlotReport} {rest : List SlotReport} (h : Flown p) (first : p.reports = r :: rest) :
    (∀ x ∈ rest, x.flight ∈ p.inFlight.filter (·.seq != r.flight.seq)) ∧
      (rest.map (·.flight.seq)).Nodup := by
  have honce := h.once
  rw [first, List.map_cons, List.nodup_cons] at honce
  refine ⟨fun x hx => List.mem_filter.mpr ⟨h.reports x (first ▸ List.mem_cons_of_mem _ hx), ?_⟩, honce.2⟩
  simp only [bne_iff_ne, ne_eq]
  exact fun hs => honce.1 (List.mem_map.mpr ⟨x, hx, hs⟩)

theorem Flown.take {r : SlotReport} {held : Bool} {job : Job} (h : Flown p) (hp : Placed jobs [] p)
    (ht : p.Taken r held job q) : Flown q := by
  have hr := h.reports r ht.mem
  have hfilter := List.Sublist.map (·.seq) (List.filter_sublist (p := (·.seq != r.flight.seq)) (l := p.inFlight))
  cases ht with
  | running first mem place =>
      rename_i e rest
      refine { h with
        seqs := h.seqs.sublist hfilter
        bound := fun f hf => h.bound f (List.mem_of_mem_filter hf)
        places := ?_
        order := h.order.sublist List.filter_sublist
        reports := (h.rest first).1
        once := (h.rest first).2
        running := ?_
        preempted := ?_ }
      · have hf := (h.perm_cons_filter hr).map (·.planIndex)
        have he := ((perm_cons_filter_key hp.running_nodup mem).map (·.job.planIndex)).append_right
          (p.preempted.map (·.planIndex))
        have hall := (hf.symm.trans h.places).trans he
        simp only [List.map_cons, List.cons_append, place] at hall
        exact hall.cons_inv
      · intro x hx
        obtain ⟨hx, hne⟩ := List.mem_filter.mp hx
        obtain ⟨hfly, hrest⟩ := h.running x hx
        exact ⟨h.mem_filter hr hfly (by simpa using hne), hrest⟩
      · intro j hj
        obtain ⟨f, hf, hplace, hrest⟩ := h.preempted j hj
        refine ⟨f, h.mem_filter hr hf ?_, hplace, hrest⟩
        rw [hplace, ← place]
        exact (hp.apart mem hj).symm
  | preempted first mem place =>
      rename_i rest
      refine { h with
        seqs := h.seqs.sublist hfilter
        bound := fun f hf => h.bound f (List.mem_of_mem_filter hf)
        places := ?_
        reports := (h.rest first).1
        once := (h.rest first).2
        running := ?_
        preempted := ?_ }
      · have hf := (h.perm_cons_filter hr).map (·.planIndex)
        have hj := ((perm_cons_filter_key hp.preempted_nodup mem).map (·.planIndex)).append_left
          (p.running.map (·.job.planIndex))
        have hall := ((hf.symm.trans h.places).trans hj).trans List.perm_middle
        simp only [List.map_cons, place] at hall
        exact hall.cons_inv
      · intro x hx
        obtain ⟨hfly, hrest⟩ := h.running x hx
        exact ⟨h.mem_filter hr hfly (by rw [← place]; exact hp.apart hx mem), hrest⟩
      · intro j hj
        obtain ⟨hj, hne⟩ := List.mem_filter.mp hj
        obtain ⟨f, hf, hplace, hrest⟩ := h.preempted j hj
        exact ⟨f, h.mem_filter hr hf (by rw [hplace]; simpa using hne), hplace, hrest⟩

/-- A report is about the attempt of the job that is taken with it, and one that held its slot was not told to
end. -/
theorem Flown.taken_context {r : SlotReport} {held : Bool} {job : Job} (h : Flown p) (hp : Placed jobs [] p)
    (ht : p.Taken r held job q) :
    (∃ c, p.started[r.flight.seq - 1]? = some c ∧ c.planIndex = job.planIndex ∧ c.attempt = job.attempt) ∧
      0 < r.flight.seq ∧ (held = true → r.flight.seq ∉ p.stopped) := by
  have hr := h.reports r ht.mem
  cases ht with
  | running first mem place =>
      rename_i e rest
      obtain ⟨hfly, hstop, hctx⟩ := h.running e mem
      have he := h.eq_of_planIndex hp hr hfly place.symm
      have hseq : r.flight.seq = e.seq := by rw [he]
      rw [hseq]
      exact ⟨⟨_, hctx, rfl, rfl⟩, hseq ▸ (h.bound _ hr).1, fun _ => hstop⟩
  | preempted first mem place =>
      obtain ⟨f, hf, hplace, _, hctx⟩ := h.preempted job mem
      have hfr := h.eq_of_planIndex hp hr hf (by rw [hplace, place])
      rw [hfr]
      exact ⟨hctx, (h.bound f hf).1, fun hheld => by cases hheld⟩

theorem Flown.recordOutcome (h : Flown p) (o : AttemptOutcome) : Flown (p.recordOutcome o) := by
  obtain ⟨window, he⟩ := p.recordOutcome_eq o
  rw [he]
  exact { h with }

theorem Flown.launched {job : Job} {rest : List Job} {slotId : Nat} (h : Flown p) :
    Flown (p.launched job rest slotId) := by
  have hold : ∀ s, 0 < s → s ≤ p.nextSeq →
      (p.launched job rest slotId).started[s - 1]? = p.started[s - 1]? := by
    intro s hpos hle
    exact List.getElem?_append_left (by have := h.started; omega)
  refine { h with
    seqs := ?_, bound := ?_, places := ?_, order := ?_, reports := ?_, started := ?_, stopped := ?_
    running := ?_, preempted := ?_ }
  · rw [Pool.launched, List.map_append]
    refine List.nodup_append.mpr ⟨h.seqs, by simp, ?_⟩
    intro a ha b hb hab
    obtain ⟨f, hf, rfl⟩ := List.mem_map.mp ha
    simp only [List.map_cons, List.map_nil, List.mem_singleton] at hb
    have := (h.bound f hf).2
    omega
  · intro f hf
    rcases List.mem_append.mp hf with hf | hf
    · have := h.bound f hf
      exact ⟨this.1, Nat.le_succ_of_le this.2⟩
    · rw [List.mem_singleton.mp hf]
      exact ⟨Nat.succ_pos _, Nat.le_refl _⟩
  · simp only [Pool.launched, List.map_append, List.map_cons, List.map_nil]
    refine (h.places.append_right _).trans ?_
    rw [List.append_assoc, List.append_assoc]
    exact List.perm_append_comm.append_left _
  · refine List.pairwise_append.mpr ⟨h.order, by simp, ?_⟩
    intro a ha b hb
    rw [List.mem_singleton.mp hb]
    exact Nat.lt_succ_of_le (h.bound _ (h.running a ha).1).2
  · exact fun r hr => List.mem_append_left _ (h.reports r hr)
  · simp [Pool.launched, h.started]
  · exact fun s hs => Nat.le_succ_of_le (h.stopped s hs)
  · intro e he
    rcases List.mem_append.mp he with he | he
    · obtain ⟨hfly, hstop, hctx⟩ := h.running e he
      have hb := h.bound _ hfly
      exact ⟨List.mem_append_left _ hfly, hstop, by rw [hold _ hb.1 hb.2]; exact hctx⟩
    · rw [List.mem_singleton.mp he]
      refine ⟨List.mem_append_right _ (List.mem_singleton.mpr rfl), ?_, ?_⟩
      · exact fun hs => absurd (h.stopped _ hs) (Nat.not_succ_le_self _)
      · simp [Pool.launched, ← h.started, RunningJob.context, Job.begun]
  · intro j hj
    obtain ⟨f, hf, hplace, hstop, hctx⟩ := h.preempted j hj
    have hb := h.bound f hf
    exact ⟨f, List.mem_append_left _ hf, hplace, hstop, by rw [hold _ hb.1 hb.2]; exact hctx⟩

theorem Flown.shrunk {target : Nat} {reason : ShrinkReason} {roster : List Nat} (h : Flown p) :
    Flown (p.shrunk target reason roster) := by
  refine { h with places := ?_, order := ?_, stopped := ?_, running := ?_, preempted := ?_ }
  · have hv := (p.victims_perm target).map (·.job.planIndex)
    have hplaces := h.places
    rw [List.perm_iff_count] at hv hplaces ⊢
    intro a
    have hva := hv a
    have hpa := hplaces a
    simp only [Pool.shrunk, List.map_append, List.map_map, Function.comp_def, List.count_append] at hva hpa ⊢
    omega
  · exact h.order.sublist (List.take_sublist _ _)
  · intro s hs
    rcases List.mem_append.mp hs with hs | hs
    · exact h.stopped s hs
    · obtain ⟨e, he, rfl⟩ := List.mem_map.mp hs
      exact (h.bound _ (h.running e (List.mem_of_mem_drop (List.mem_reverse.mp he))).1).2
  · intro e he
    obtain ⟨hfly, hstop, hctx⟩ := h.running e (List.mem_of_mem_take he)
    refine ⟨hfly, fun hs => ?_, hctx⟩
    rcases List.mem_append.mp hs with hs | hs
    · exact hstop hs
    · obtain ⟨v, hv, hseq⟩ := List.mem_map.mp hs
      have hlt := (List.pairwise_append.mp (List.take_append_drop target p.running ▸ h.order)).2.2 e he v
        (List.mem_reverse.mp hv)
      omega
  · intro j hj
    rcases List.mem_append.mp hj with hj | hj
    · obtain ⟨f, hf, hplace, hstop, hctx⟩ := h.preempted j hj
      exact ⟨f, hf, hplace, List.mem_append_left _ hstop, hctx⟩
    · obtain ⟨e, he, rfl⟩ := List.mem_map.mp hj
      obtain ⟨hfly, _, hctx⟩ := h.running e (List.mem_of_mem_drop (List.mem_reverse.mp he))
      exact ⟨_, hfly, rfl, List.mem_append_right _ (List.mem_map_of_mem he), _, hctx, rfl, rfl⟩

theorem Flown.abandoned (h : Flown p) : Flown p.abandoned :=
  { h with
    seqs := List.nodup_nil
    bound := fun _ hf => absurd hf List.not_mem_nil
    places := List.Perm.refl _
    order := List.Pairwise.nil
    reports := fun _ hr => absurd hr List.not_mem_nil
    once := List.nodup_nil
    running := fun _ he => absurd he List.not_mem_nil
    preempted := fun _ hj => absurd hj List.not_mem_nil }

/-- An act leaves the attempts in flight to the running and the preempted jobs. -/
theorem Flown.act (h : Flown p) (hp : Placed jobs [] p) (hact : Act p q) : Flown q := by
  cases hact with
  | note => exact { h with }
  | begin => exact { h with }
  | succeed _ taken => exact { (h.take hp taken).recordOutcome _ with }
  | giveUp _ taken => exact { (h.take hp taken).recordOutcome _ with }
  | postpone _ taken => exact { (h.take hp taken).recordOutcome _ with }
  | callOff _ _ taken => exact { (h.take hp taken).recordOutcome _ with }
  | requeue _ taken => exact { h.take hp taken with }
  | shrink => exact h.shrunk
  | grow => exact { h with }
  | breakDown | collapse => exact { h with }
  | drain => exact { h with }
  | force => exact { h with }
  | resume => exact { h with }
  | reap => exact { h with }
  | abandon => exact h.abandoned
  | promote => exact { h with }
  | launch => exact h.launched
  | publish => exact { h with }
  | close => exact { h with }

theorem Flown.receive (h : Flown p) (seq : Nat) (outcome : AttemptOutcome) : Flown (p.receive seq outcome) := by
  unfold Pool.receive
  split
  · rename_i flight hfind
    have hmem := List.mem_of_find?_eq_some hfind
    split
    · exact h
    · rename_i hnone
      have hseq : flight.seq = seq := by simpa using List.find?_some hfind
      have hnew : ∀ r ∈ p.reports, r.flight.seq ≠ seq := by simpa using hnone
      have hreports : ∀ x ∈ p.reports ++ [⟨flight, outcome⟩], x.flight ∈ p.inFlight := by
        intro x hx
        rcases List.mem_append.mp hx with hx | hx
        · exact h.reports x hx
        · rw [List.mem_singleton.mp hx]
          exact hmem
      have honce : ((p.reports ++ [(⟨flight, outcome⟩ : SlotReport)]).map (·.flight.seq)).Nodup := by
        rw [List.map_append]
        refine List.nodup_append.mpr ⟨h.once, by simp, ?_⟩
        intro a ha b hb hab
        obtain ⟨r, hr, rfl⟩ := List.mem_map.mp ha
        simp only [List.map_cons, List.map_nil, List.mem_singleton] at hb
        exact hnew r hr (by omega)
      split
      · exact { h with reports := hreports, once := honce }
      · exact { h with reports := hreports, once := honce }
  · exact h

end Pool

end PageAudit
