import Mathlib.Data.List.MinMax
import PageAudit.Proofs.Pool.Hearing
import PageAudit.Proofs.Pool.Parts

/-!
# Attempts that lose their slots

When more attempts run than are still allowed, those that were started last lose their slots, and nothing happens to
the others. What such an attempt reports is settled as the report of any other attempt, unless it was broken off: then
it is taken back, and its job queues again as if the attempt had never been started.
-/

namespace PageAudit.Pool

variable {jobs hand : List Job} {p q s : Pool} {r : SlotReport} {rest : List SlotReport} {job : Job} {target : Nat}

/-! ## The latest attempts -/

/-- The attempts that are found when `n` times the one with the greatest number is looked for and taken out. -/
def newest : Nat → List RunningJob → List RunningJob
  | 0, _ => []
  | n + 1, es =>
    match es.argmax (·.seq) with
    | none => []
    | some e => e :: newest n (es.erase e)

theorem argmax_seq_eq {es rs : List RunningJob} {e : RunningJob}
    (order : (rs ++ [e]).Pairwise fun a b => a.seq < b.seq) (h : es.Perm (rs ++ [e])) :
    es.argmax (·.seq) = some e := by
  have hlast : ∀ a ∈ es, a = e ∨ a.seq < e.seq := by
    intro a ha
    rcases List.mem_append.mp (h.mem_iff.mp ha) with ha | ha
    · exact Or.inr ((List.pairwise_append.mp order).2.2 a ha e (List.mem_singleton.mpr rfl))
    · exact Or.inl (List.mem_singleton.mp ha)
  refine List.argmax_eq_some_iff.mpr ⟨h.mem_iff.mpr (by simp), fun a ha => ?_, fun a ha hle => ?_⟩
  · rcases hlast a ha with rfl | hlt
    · exact Nat.le_refl _
    · exact Nat.le_of_lt hlt
  · rcases hlast a ha with rfl | hlt
    · exact Nat.le_refl _
    · exact absurd hle (Nat.not_le.mpr hlt)

/-- In whatever order the attempts are looked through, the latest ones are found, the last one first. -/
theorem newest_eq {n : Nat} {es rs : List RunningJob} (order : rs.Pairwise fun a b => a.seq < b.seq)
    (h : es.Perm rs) : newest n es = (rs.drop (rs.length - n)).reverse := by
  induction n generalizing es rs with
  | zero => simp [newest]
  | succ n ih =>
      rcases List.eq_nil_or_concat rs with rfl | ⟨rs, e, rfl⟩
      · rw [List.perm_nil.mp h]
        simp [newest]
      · rw [List.concat_eq_append] at order h ⊢
        have herase : (es.erase e).Perm rs := by
          refine (h.erase e).trans ?_
          have hnot : e ∉ rs := fun he =>
            Nat.lt_irrefl _ ((List.pairwise_append.mp order).2.2 e he e (List.mem_singleton.mpr rfl))
          simp [List.erase_append_right _ hnot]
        have hlength : (rs ++ [e]).length - (n + 1) = rs.length - n := by simp
        rw [newest, argmax_seq_eq order h, hlength, List.drop_append_of_le_length (Nat.sub_le ..),
          List.reverse_append]
        exact congrArg (e :: ·) (ih (List.pairwise_append.mp order).1 herase)

theorem Flown.newest_eq {es : List RunningJob} (h : Flown p) (hes : es.Perm p.running) (target : Nat) :
    newest (p.running.length - target) es = p.victims target := by
  rw [Pool.newest_eq h.order hes, victims]
  rcases Nat.le_total target p.running.length with hle | hle
  · rw [Nat.sub_sub_self hle]
  · simp [Nat.sub_eq_zero_of_le hle, List.drop_eq_nil_of_le hle]

/-! ## Losing slots -/

/-- The attempts that were started last have lost their slots, so that `target` attempts still run. -/
structure GivesWay (p : Pool) (target : Nat) (q : Pool) : Prop where
  /-- Those that were started first go on as they are. -/
  running : q.running = p.running.take target
  occupied : q.occupied = target ∧ q.running.length = target
  gone : (p.victims target).length = p.occupied - target
  parted : (q.running ++ p.victims target).Perm p.running
  latest : ∀ e ∈ q.running, ∀ v ∈ p.victims target, e.seq < v.seq
  /-- They are the ones that are found when the latest attempt is looked for again and again, in any order. -/
  found : ∀ es, es.Perm p.running → newest (p.occupied - target) es = p.victims target
  stopped : q.stopped = p.stopped ++ (p.victims target).map (·.seq)
  told : ∀ v ∈ p.victims target, (q.signals v.seq).stop = true ∧ v.seq ∉ p.stopped
  /-- The others are told nothing. Only the stop that all attempts get at once, when the grace period is over, reaches
  them. -/
  spared : ∀ e ∈ q.running, e.seq ∉ q.stopped ∧ (q.signals e.seq).stop = p.hardStopped
  freed : ∀ v ∈ p.victims target, p.slots[v.slotId]? = some (some v.job.id) ∧ q.slots[v.slotId]? = some none
  others : ∀ i, i ∉ (p.victims target).map (·.slotId) → q.slots[i]? = p.slots[i]?
  preempted : q.preempted = p.preempted ++ (p.victims target).map (·.job)
  /-- All of them are in flight until they report. -/
  inFlight : q.inFlight = p.inFlight ∧ q.reports = p.reports
  waiting : q.ready = p.ready ∧ q.delayed = p.delayed ∧ q.results = p.results

theorem freed_of_none {slots : List (Option String)} {i : Nat} (es : List RunningJob)
    (h : slots[i]? = some none) : (freed slots es)[i]? = some none := by
  induction es generalizing slots with
  | nil => exact h
  | cons e es ih =>
      refine ih ?_
      rcases eq_or_ne e.slotId i with rfl | hne
      · exact List.getElem?_set_self (List.getElem?_eq_some_iff.mp h).1
      · rw [List.getElem?_set_ne hne]
        exact h

theorem freed_of_mem {slots : List (Option String)} {es : List RunningJob} {e : RunningJob} (h : e ∈ es)
    (hlt : e.slotId < slots.length) : (freed slots es)[e.slotId]? = some none := by
  induction es generalizing slots with
  | nil => cases h
  | cons a es ih =>
      rcases List.mem_cons.mp h with rfl | h
      · exact freed_of_none es (List.getElem?_set_self hlt)
      · exact ih h (by rwa [List.length_set])

/-- Following a fall of the number allowed takes slots away from the latest attempts, and from no others. -/
theorem Slotted.applyChange_fewer (h : Slotted p) (c : Concurrency) (before : Nat) (reason : ShrinkReason) :
    ∃ roster report events, { p with concurrency := c }.applyChange (.shrunk before c.allowed reason) = { p with
      concurrency := c
      running := p.running.take c.allowed
      stopped := p.stopped ++ (p.victims c.allowed).map (·.seq)
      slots := Pool.freed p.slots (p.victims c.allowed)
      occupied := min p.occupied c.allowed
      preempted := p.preempted ++ (p.victims c.allowed).map (·.job)
      roster, report, events } := by
  let p' : Pool := { p with
    concurrency := c
    report := { p.report with shrinkEvents := p.report.shrinkEvents + 1 } }
  have hn : p'.occupied ≤ p'.allowed + (p.occupied - c.allowed) := by
    show p.occupied ≤ c.allowed + (p.occupied - c.allowed)
    omega
  obtain ⟨roster, he⟩ := p'.preemptExcess_eq h.occupied hn
  refine ⟨roster, p'.report.observe c.allowed,
    p.events ++ [(p.clock, .concurrencyChanged before c.allowed reason.name)], ?_⟩
  show (preemptExcess (p.occupied - c.allowed) p').noteChange before c.allowed reason.name = _
  rw [he]
  rfl

theorem Sound.givesWay {c : Concurrency} (h : Sound jobs p) (hc : c.allowed = target) (fewer : target < p.occupied)
    (before : Nat) (reason : ShrinkReason) :
    GivesWay p target ({ p with concurrency := c }.applyChange (.shrunk before target reason)) := by
  obtain ⟨roster, report, events, he⟩ := h.slotted.applyChange_fewer c before reason
  rw [hc] at he
  rw [he]
  have hocc := h.slotted.occupied
  have hmem : ∀ v ∈ p.victims target, v ∈ p.running := fun v hv =>
    List.mem_of_mem_drop (List.mem_reverse.mp hv)
  have hlatest : ∀ e ∈ p.running.take target, ∀ v ∈ p.victims target, e.seq < v.seq := fun e he v hv =>
    (List.pairwise_append.mp (List.take_append_drop target p.running ▸ h.flown.order)).2.2 e he v
      (List.mem_reverse.mp hv)
  have hspared : ∀ e ∈ p.running.take target, e.seq ∉ p.stopped ++ (p.victims target).map (·.seq) := by
    intro e he hs
    rcases List.mem_append.mp hs with hs | hs
    · exact (h.flown.running e (List.mem_of_mem_take he)).2.1 hs
    · obtain ⟨v, hv, hseq⟩ := List.mem_map.mp hs
      exact Nat.ne_of_lt (hlatest e he v hv) hseq.symm
  exact {
    running := rfl
    occupied := ⟨Nat.min_eq_right (Nat.le_of_lt fewer), by
      show (p.running.take target).length = target
      rw [List.length_take]
      omega⟩
    gone := by simp [victims, hocc]
    parted := p.victims_perm target
    latest := hlatest
    found := fun es hes => hocc ▸ h.flown.newest_eq hes target
    stopped := rfl
    told := fun v hv => by
      refine ⟨?_, (h.flown.running v (hmem v hv)).2.1⟩
      have hseq : v.seq ∈ (p.victims target).map (·.seq) := List.mem_map_of_mem hv
      simp [signals, hseq]
    spared := fun e he => ⟨hspared e he, by simp [signals, hspared e he]⟩
    freed := fun v hv => by
      have hmarked := h.slotted.marked v (hmem v hv)
      exact ⟨hmarked, freed_of_mem hv (List.getElem?_eq_some_iff.mp hmarked).1⟩
    others := fun i hi => freed_getElem? _ hi
    preempted := rfl
    inFlight := ⟨rfl, rfl⟩
    waiting := ⟨rfl, rfl, rfl⟩ }

/-! ## The report of an attempt that lost its slot -/

/-- The pool after it took the first report. -/
def answered (p : Pool) (r : SlotReport) (rest : List SlotReport) : Pool :=
  { p with reports := rest, inFlight := p.inFlight.filter (·.seq != r.flight.seq) }.onReport r

/-- The pool as it would be if the attempt of a job that lost its slot ran in the slot `slotId`. -/
def readmitted (p : Pool) (job : Job) (slotId seq : Nat) : Pool :=
  { p with
    preempted := p.preempted.filter (·.planIndex != job.planIndex)
    running := p.running ++ [⟨job, slotId, seq⟩]
    slots := p.slots.set slotId (some job.id)
    occupied := p.occupied + 1 }

theorem handle?_answered (calm : p.isUrged = false) (first : p.reports = r :: rest) :
    p.handle? = some (p.answered r rest) := by
  simp only [isUrged, Bool.or_eq_false_iff] at calm
  obtain ⟨⟨⟨⟨hdrain, hgrace⟩, hreap⟩, hfresh⟩, hclosed⟩ := calm
  simp [handle?, hdrain, hgrace, hreap, hfresh, hclosed, first, answered]

/-- The entry of a key is found by the key. -/
theorem find?_key {α : Type} {key : α → Nat} {l : List α} {a : α} {k : Nat} (h : (l.map key).Nodup) (ha : a ∈ l)
    (hk : key a = k) : l.find? (fun b => key b == k) = some a := by
  cases hf : l.find? (fun b => key b == k) with
  | none => exact absurd hk (by simpa using List.find?_eq_none.mp hf a ha)
  | some b =>
      have hb : key b = k := by simpa using List.find?_some hf
      rw [List.inj_on_of_nodup_map h (List.mem_of_find?_eq_some hf) ha (hb.trans hk.symm)]

theorem Placed.answered_preempted (h : Placed jobs hand p) (mem : job ∈ p.preempted)
    (place : job.planIndex = r.flight.planIndex) :
    p.answered r rest = (p.withoutPreempted r rest).settlePreempted job r.outcome := by
  have hfind : p.preempted.find? (·.planIndex == r.flight.planIndex) = some job :=
    find?_key h.preempted_nodup mem place
  simp only [answered, onReport, hfind]
  rfl

theorem Placed.answered_running {e : RunningJob} (h : Placed jobs hand p) (mem : e ∈ p.running)
    (place : e.job.planIndex = r.flight.planIndex) :
    p.answered r rest = ((p.withoutRunning r rest e).settle e.job r.outcome).strike e.seq := by
  have hnone : p.preempted.find? (·.planIndex == r.flight.planIndex) = none :=
    List.find?_eq_none.mpr fun j hj => by simpa [← place] using (h.apart mem hj).symm
  have hfind : p.running.find? (·.job.planIndex == r.flight.planIndex) = some e :=
    find?_key h.running_nodup mem place
  simp only [answered, onReport, hnone, hfind]
  rfl

/-- Without its report and its attempt, nothing tells whether the attempt held a slot. -/
theorem Placed.answered_readmitted {slotId : Nat} (h : Placed jobs hand p) (mem : job ∈ p.preempted)
    (place : job.planIndex = r.flight.planIndex) (free : p.slots[slotId]? = some none) (seq : Nat) :
    (p.readmitted job slotId seq).answered r rest =
      ((p.withoutPreempted r rest).settle job r.outcome).strike seq := by
  have hnone : (p.preempted.filter (·.planIndex != job.planIndex)).find?
      (·.planIndex == r.flight.planIndex) = none :=
    List.find?_eq_none.mpr fun j hj => by simpa [place] using (List.mem_filter.mp hj).2
  have hother : ∀ e ∈ p.running, e.job.planIndex ≠ r.flight.planIndex := fun e he =>
    place ▸ h.apart he mem
  have hfind : (p.running ++ [(⟨job, slotId, seq⟩ : RunningJob)]).find?
      (·.job.planIndex == r.flight.planIndex) = some ⟨job, slotId, seq⟩ := by
    rw [List.find?_append, List.find?_eq_none.mpr fun e he => by simpa using hother e he]
    simp [place]
  have hrunning : (p.running ++ [(⟨job, slotId, seq⟩ : RunningJob)]).filter
      (·.job.planIndex != r.flight.planIndex) = p.running := by
    rw [List.filter_append, List.filter_eq_self.mpr fun e he => by simpa using hother e he]
    simp [place]
  have hslots : (p.slots.set slotId (some job.id)).set slotId none = p.slots := by
    obtain ⟨hlt, hget⟩ := List.getElem?_eq_some_iff.mp free
    rw [List.set_set, ← hget, List.set_getElem_self]
  simp only [answered, onReport, readmitted, hnone, hfind, hrunning, hslots, Nat.add_sub_cancel]
  simp only [withoutPreempted, place]

theorem Moves.prolongs (h : Moves p q) : Prolongs p q := by
  induction h with
  | refl => exact .of_eq rfl rfl id
  | tail _ hmove ih =>
      cases hmove with
      | act hact => exact ih.trans hact.prolongs
      | news hnews => exact ih.trans hnews.prolongs
      | receive seq outcome =>
          obtain ⟨roster, reports, he, _⟩ := Pool.receive_eq _ seq outcome
          rw [he]
          exact ih.trans (.of_eq rfl rfl id)

/-- How the report of an attempt is taken whose job lost its slot. -/
structure TakesVictim (p : Pool) (r : SlotReport) (rest : List SlotReport) (job : Job) : Prop where
  /-- An attempt that was broken off is taken back: its job queues again, and nothing else is noted of it. -/
  back : r.outcome = .interrupted → p.draining = false →
    p.answered r rest = { p.withoutPreempted r rest with ready := insertByPlan job.yielded p.ready }
  ready : r.outcome = .interrupted → p.draining = false →
    (p.answered r rest).ready.Perm (job.yielded :: p.ready) ∧
      (p.answered r rest).concurrency.window = p.concurrency.window ∧
      (p.answered r rest).report.retries = p.report.retries
  /-- Any other report is settled, and as if the attempt still ran in a slot. -/
  counted : r.outcome ≠ .interrupted → p.answered r rest = (p.withoutPreempted r rest).settle job r.outcome
  alike : r.outcome ≠ .interrupted → ∀ slotId seq, p.slots[slotId]? = some none →
    (p.readmitted job slotId seq).answered r rest = (p.answered r rest).strike seq

theorem Placed.takesVictim (h : Placed jobs [] p) (first : p.reports = r :: rest) (mem : job ∈ p.preempted)
    (place : job.planIndex = r.flight.planIndex) : TakesVictim p r rest job := by
  obtain ⟨hhand, hrun, _⟩ := h.take (.preempted first mem place)
  have hanswered : p.answered r rest = (p.withoutPreempted r rest).settlePreempted job r.outcome :=
    h.answered_preempted mem place
  have hback (ho : r.outcome = .interrupted) (going : p.draining = false) : p.answered r rest =
      { p.withoutPreempted r rest with ready := insertByPlan job.yielded p.ready } := by
    have hgoing : (p.withoutPreempted r rest).draining = false := going
    rw [hanswered, ho]
    simp only [settlePreempted, hgoing, Job.yield_eq hrun, Bool.false_eq_true, ↓reduceIte]
    rfl
  have hcounted (ho : r.outcome ≠ .interrupted) :
      p.answered r rest = (p.withoutPreempted r rest).settle job r.outcome := by
    rw [hanswered]
    cases hr : r.outcome with
    | interrupted => exact absurd hr ho
    | completed | failed => rfl
  refine ⟨hback, fun ho going => ?_, hcounted, fun ho slotId seq free => ?_⟩
  · rw [hback ho going]
    exact ⟨insertByPlan_perm (j := job.yielded) hhand.hand_not_ready, rfl, rfl⟩
  · rw [h.answered_readmitted mem place free, hcounted ho]

/-! ## Before the attempt -/

/-- Whatever changes a pool gives no number to an attempt, or it starts the first of the ready jobs. -/
theorem Move.nextSeq (h : Move p q) :
    q.nextSeq = p.nextSeq ∨ ∃ job others slotId, p.ready = job :: others ∧ q = p.launched job others slotId := by
  cases h with
  | act hact =>
      cases hact with
      | launch _ _ first => exact Or.inr ⟨_, _, _, first, rfl⟩
      | succeed _ taken | giveUp _ taken | postpone _ taken | callOff _ _ taken =>
          obtain ⟨_, _, _, _, _, _, _, he⟩ := taken.recordOutcome_eq _
          rw [he]
          exact Or.inl rfl
      | requeue _ taken =>
          cases taken with
          | preempted => exact Or.inl rfl
      | _ => exact Or.inl rfl
  | news hnews => cases hnews <;> exact Or.inl rfl
  | receive seq outcome =>
      obtain ⟨roster, reports, he, _⟩ := p.receive_eq seq outcome
      rw [he]
      exact Or.inl rfl

/-- Every number was given when an attempt was started. -/
theorem Moves.dispatched (h : Moves p q) {n : Nat} (hp : p.nextSeq ≤ n) (hn : n < q.nextSeq) :
    ∃ a before others slotId, Moves p a ∧ a.ready = before :: others ∧ a.nextSeq = n ∧
      Moves (a.launched before others slotId) q := by
  induction h with
  | refl => exact absurd hn (Nat.not_lt.mpr hp)
  | @tail b c hmoves hmove ih =>
      by_cases hb : n < b.nextSeq
      · obtain ⟨a, before, others, slotId, hto, first, hseq, hfrom⟩ := ih hb
        exact ⟨a, before, others, slotId, hto, first, hseq, hfrom.tail hmove⟩
      · rcases hmove.nextSeq with hsame | ⟨job, others, slotId, first, rfl⟩
        · omega
        · have hnext : (b.launched job others slotId).nextSeq = b.nextSeq + 1 := rfl
          exact ⟨b, job, others, slotId, hmoves, first, by omega, Relation.ReflTransGen.refl⟩

theorem Placed.place_eq {p' : Pool} {hand' : List Job} (h : Placed jobs hand p) (h' : Placed jobs hand' p') {j k : Job}
    (hj : j.place ∈ p.places) (hk : k.place ∈ p'.places) (hindex : j.planIndex = k.planIndex) : j.place = k.place := by
  obtain ⟨a, ha, hja⟩ := List.mem_map.mp (h.accounted.mem_iff.mp (List.mem_append_right _ hj))
  obtain ⟨b, hb, hkb⟩ := List.mem_map.mp (h'.accounted.mem_iff.mp (List.mem_append_right _ hk))
  have hab : a.planIndex = b.planIndex :=
    ((congrArg JobPlace.index hja).trans hindex).trans (congrArg JobPlace.index hkb).symm
  rw [← hja, ← hkb, List.inj_on_of_nodup_map h.distinct ha hb hab]

/-- A job that queues again is the one whose attempt was started, and counts as many attempts as it did then. -/
theorem Sound.yielded_eq {a : Pool} {before : Job} {others : List Job} {slotId : Nat} (h : Sound jobs p)
    (ha : Sound jobs a) (hready : a.ready = before :: others) (hmoves : Moves (a.launched before others slotId) p)
    (first : p.reports = r :: rest) (mem : job ∈ p.preempted) (place : job.planIndex = r.flight.planIndex)
    (hseq : r.flight.seq = a.nextSeq + 1) :
    before.place = job.yielded.place ∧ before.attempt = job.yielded.attempt := by
  obtain ⟨⟨c, hc, hindex, hattempt⟩, _⟩ := h.flown.taken_context h.placed (.preempted first mem place)
  have hstarted : (a.launched before others slotId).started[r.flight.seq - 1]? =
      some ⟨before.id, before.url, before.planIndex, before.attempt + 1, slotId⟩ := by
    simp [Pool.launched, hseq, ← ha.flown.started]
  obtain rfl := Option.some.inj ((hmoves.prolongs.started_eq hstarted).symm.trans hc)
  dsimp only at hindex hattempt
  refine ⟨ha.placed.place_eq h.placed ?_ ?_ hindex, by simp only [Job.yielded]; omega⟩
  · simp [places, hready]
  · have hjob : job.place ∈ p.preempted.map Job.place := List.mem_map_of_mem mem
    simp only [places, List.mem_append]
    exact Or.inr (Or.inr (Or.inr (Or.inl hjob)))

/-! ## Every shrink, and every report after it -/

theorem shrunk_allowed {c d : Concurrency} {before : Nat} {reason : ShrinkReason}
    (h : c.Changed (d, .shrunk before target reason)) : d.allowed = target := by
  cases h
  rfl

theorem Sound.adapt_givesWay {c : Concurrency} {before : Nat} {reason : ShrinkReason} {resourceExhausted : Bool}
    (h : Sound jobs p) (hc : p.concurrency.recompute? p.pressure resourceExhausted =
      some (c, .shrunk before target reason)) (fewer : target < p.occupied) :
    GivesWay p target (p.adapt resourceExhausted) := by
  rcases Concurrency.recompute?_changed h.slotted.least p.pressure resourceExhausted with
    ⟨hnone, _⟩ | ⟨change, hsome, hchanged⟩
  · exact absurd (hnone.symm.trans hc) (by simp)
  · obtain rfl := Option.some.inj (hsome.symm.trans hc)
    rw [Pool.adapt, hc]
    exact h.givesWay (shrunk_allowed hchanged) fewer before reason

theorem Sound.adaptToMemory_givesWay {c : Concurrency} {before : Nat} {reason : ShrinkReason} (h : Sound jobs p)
    (hc : p.concurrency.onMemory p.pressure = (c, .shrunk before target reason)) (fewer : target < p.occupied) :
    GivesWay p target p.adaptToMemory := by
  have hchanged := Concurrency.onMemory_changed h.slotted.least p.pressure
  rw [hc] at hchanged
  have hnote : Act p { p with pressureFresh := false } := .note false p.pressureOpen p.roster
  rw [Pool.adaptToMemory, hc]
  exact { (h.act hnote).givesWay (shrunk_allowed hchanged) fewer before reason with }

/-- Who gives way when the number allowed falls below the number of attempts that run, and what becomes of them. -/
structure Preempts (start p : Pool) : Prop where
  follow : ∀ c before target reason, c.allowed = target → target < p.occupied →
    GivesWay p target ({ p with concurrency := c }.applyChange (.shrunk before target reason))
  /-- After an attempt has ended. -/
  adapt : ∀ resourceExhausted c before target reason,
    p.concurrency.recompute? p.pressure resourceExhausted = some (c, .shrunk before target reason) →
    target < p.occupied → GivesWay p target (p.adapt resourceExhausted)
  /-- After news of the memory. -/
  memory : ∀ c before target reason, p.concurrency.onMemory p.pressure = (c, .shrunk before target reason) →
    target < p.occupied → GivesWay p target p.adaptToMemory
  /-- The report that is heard when nothing is more urgent. -/
  heard : ∀ r rest, p.reports = r :: rest → p.isUrged = false → p.handle? = some (p.answered r rest)
  running : ∀ r rest e, p.reports = r :: rest → e ∈ p.running → e.job.planIndex = r.flight.planIndex →
    p.answered r rest = ((p.withoutRunning r rest e).settle e.job r.outcome).strike e.seq
  victim : ∀ r rest job, p.reports = r :: rest → job ∈ p.preempted → job.planIndex = r.flight.planIndex →
    TakesVictim p r rest job
  /-- A job that queues again counts as many attempts as before the one that it lost was started. -/
  count : ∀ r rest job, p.reports = r :: rest → job ∈ p.preempted → job.planIndex = r.flight.planIndex →
    ∃ a before others slotId, Moves start a ∧ a.ready = before :: others ∧
      r.flight.seq = a.nextSeq + 1 ∧ Moves (a.launched before others slotId) p ∧
      before.place = job.yielded.place ∧ before.attempt = job.yielded.attempt

variable {policy : PoolPolicy} {retry : RetryPolicy} {gracePeriod clock : Nat} {draws : Nat → Nat → Nat}
  {pressure : MemoryPressure} {start : Pool}

/-- When fewer attempts are allowed than run, the ones that were started last give way and no others. One that was
broken off is taken back, and any other is settled as if it still ran. -/
theorem shrink_preempts_newest
    (hsubmit : submit? policy retry gracePeriod draws pressure clock jobs = some start) (hjobs : Submittable jobs)
    (hmoves : Moves start p) : Preempts start p := by
  have hstart := Sound.submit hsubmit hjobs
  have h := hstart.moves hmoves
  have hzero : start.nextSeq = 0 := by
    obtain ⟨_, _, _, rfl⟩ := submit?_eq hsubmit
    rfl
  refine {
    follow := fun c before target reason hc fewer => h.givesWay hc fewer before reason
    adapt := fun resourceExhausted c before target reason hc fewer => h.adapt_givesWay hc fewer
    memory := fun c before target reason hc fewer => h.adaptToMemory_givesWay hc fewer
    heard := fun r rest first calm => handle?_answered calm first
    running := fun r rest e first mem place => h.placed.answered_running mem place
    victim := fun r rest job first mem place => h.placed.takesVictim first mem place
    count := fun r rest job first mem place => ?_ }
  have hflight := h.flown.bound _ (h.flown.reports r (first ▸ List.mem_cons_self))
  obtain ⟨a, before, others, slotId, hto, hready, hseq, hfrom⟩ :=
    hmoves.dispatched (n := r.flight.seq - 1) (by omega) (by omega)
  have hnumber : r.flight.seq = a.nextSeq + 1 := by omega
  exact ⟨a, before, others, slotId, hto, hready, hnumber, hfrom,
    h.yielded_eq (hstart.moves hto) hready hfrom first mem place hnumber⟩

/-- Memory in use at the watermark of the default policy. -/
def scarce : MemoryPressure := { used := 8 * 1024 * 1024 * 1024 }

theorem onMemory_scarce {c : Concurrency} {m : MemoryPressure} (hpolicy : c.policy = { maxConcurrency := 2 })
    (hallowed : c.allowed = 2) (hm : m.used = scarce.used) :
    c.onMemory m = ({ c with allowed := 1 }, .shrunk 2 1 .memoryPressure) := by
  -- The product with the factor does not matter: between 1 and 2 there is only one step.
  obtain ⟨scaled, hscaled⟩ := exists_shrinkTarget_eq 2 1 0.5
  have hcut := cut_of_lt (by decide : 1 < 2) scaled
  have htarget : shrinkTarget 2 1 0.5 = 1 := by omega
  simp [Concurrency.onMemory, Concurrency.atWatermark, Concurrency.shrink, hm, scarce, hpolicy, hallowed, htarget]

/-- A pool that runs the two pages at once. -/
def pairPool : Pool where
  retry := {}
  gracePeriod := 0
  draws := fun _ _ => 0
  concurrency := ⟨{ maxConcurrency := 2 }, 2, .ofSize 10⟩
  clock := 0
  slots := [none, none]
  ready := twoPages
  pressure := {}
  report := { minObservedConcurrency := 2, maxObservedConcurrency := 2 }

theorem submit?_pairPool :
    submit? { maxConcurrency := 2 } {} 0 (fun _ _ => 0) {} 0 twoPages = some pairPool := rfl

theorem pairPool_sound : Sound twoPages pairPool := Sound.submit submit?_pairPool twoPages_submittable

/-- Both attempts run, and memory is scarce. -/
def pairStrained : Pool := pairPool.after [.turn, .pressure scarce]

/-- Both attempts were told to stop, since the grace period after a cancellation is over, before memory is scarce. -/
def pairStopped : Pool := pairPool.after [.turn, .cancel, .turn, .turn, .released 0, .pressure scarce]

/-- The attempt that keeps its slot when the other one gives way has been told to stop all the same. -/
theorem pairStopped_spares_stopped : Moves pairPool pairStopped ∧ pairStopped.hardStopped = true ∧
    pairStopped.handle? = some pairStopped.adaptToMemory ∧ pairStopped.running.map (·.job.id) = ["job-1", "job-2"] ∧
    ∃ e, pairStopped.adaptToMemory.running = [e] ∧ e.job.id = "job-1" ∧
      (pairStopped.adaptToMemory.signals e.seq).stop = true := by
  have hto : Moves pairPool pairStopped := pairPool_sound.after_moves _
  have hscarce : pairStopped.concurrency.onMemory pairStopped.pressure =
      ({ pairStopped.concurrency with allowed := 1 }, .shrunk 2 1 .memoryPressure) :=
    onMemory_scarce (by with_unfolding_all rfl) (by with_unfolding_all rfl) rfl
  have hgives : GivesWay pairStopped 1 pairStopped.adaptToMemory :=
    (pairPool_sound.moves hto).adaptToMemory_givesWay hscarce (by decide +kernel)
  have hstop : pairStopped.hardStopped = true := by with_unfolding_all rfl
  obtain ⟨e, htake, hid⟩ : ∃ e, pairStopped.running.take 1 = [e] ∧ e.job.id = "job-1" :=
    ⟨_, by with_unfolding_all rfl, rfl⟩
  have hkept : pairStopped.adaptToMemory.running = [e] := hgives.running.trans htake
  have hspared := hgives.spared e (hkept ▸ List.mem_singleton_self e)
  exact ⟨hto, hstop, by with_unfolding_all rfl, by with_unfolding_all rfl, e, hkept, hid, hspared.2.trans hstop⟩

/-- The second attempt gives way, and is broken off. -/
theorem pairStrained_preempts : Moves pairPool pairStrained ∧
    GivesWay pairStrained 1 pairStrained.adaptToMemory ∧
    let q := pairStrained.adaptToMemory.receive 2 .interrupted
    Moves pairPool q ∧ Preempts pairPool q ∧ q.preempted.map (·.id) = ["job-2"] ∧
      q.reports.map (·.flight) = [⟨2, 1⟩] := by
  have hpreempts := fun q => shrink_preempts_newest (p := q) submit?_pairPool twoPages_submittable
  have hto : Moves pairPool pairStrained := pairPool_sound.after_moves _
  have hgives : GivesWay pairStrained 1 pairStrained.adaptToMemory :=
    (hpreempts _ hto).memory _ _ _ _ (onMemory_scarce rfl rfl rfl) (by decide)
  have hreceived := hto.trans (((pairPool_sound.moves hto).adaptToMemory rfl).moves.tail (.receive 2 .interrupted))
  refine ⟨hto, hgives, hreceived, hpreempts _ hreceived, ?_, ?_⟩
  · obtain ⟨roster, reports, he, _⟩ := Pool.receive_eq pairStrained.adaptToMemory 2 .interrupted
    rw [he]
    dsimp only
    rw [hgives.preempted]
    rfl
  · have hflight : pairStrained.inFlight.find? (·.seq == 2) = some ⟨2, 1⟩ := rfl
    have hnew : pairStrained.reports = [] := rfl
    have hrunning : (pairStrained.running.take 1).any (·.seq == 2) = false := rfl
    simp only [receive, hgives.inFlight.1, hgives.inFlight.2, hgives.running, hflight, hnew, hrunning, List.any_nil,
      Bool.false_eq_true, ↓reduceIte, strike]
    rfl

end PageAudit.Pool
