import PageAudit.Proofs.Concurrency.Changes
import PageAudit.Proofs.Pool.Sound

/-!
# Settling as acts

What follows the end of an attempt is an act that places its job, and then the acts that adapt the number of
attempts allowed. No transition of a job fails on the way.
-/

namespace PageAudit.Pool

variable {jobs : List Job} {p q : Pool}

/-! ## Ending jobs -/

theorem conclude_eq {job : Job} {target : JobState} {reason : FinalizeReason} (p : Pool) (result : Job → Result)
    (h : job.state = .running) (ht : target.isTerminal = true) :
    p.conclude job target result reason = p.emit (result (job.enter target)) reason := by
  rw [conclude, Job.finish_eq h ht]

theorem cancelJob_eq {job : Job} (p : Pool) (reason : String) (h : job.state.isTerminal = false) :
    p.cancelJob reason job = p.calledOff reason [job] := by
  rw [cancelJob, conclude, Job.finish_cancelled_eq h]
  rfl

theorem calledOff_nil (p : Pool) (reason : String) : p.calledOff reason [] = p := by
  simp [calledOff]

theorem calledOff_append (p : Pool) (reason : String) (js ks : List Job) :
    (p.calledOff reason js).calledOff reason ks = p.calledOff reason (js ++ ks) := by
  simp [calledOff, Nat.add_assoc]

theorem cancelJobs_eq {js : List Job} (p : Pool) (reason : String) (hf : p.fault = none)
    (h : ∀ j ∈ js, j.state.isTerminal = false) : cancelJobs reason js p = p.calledOff reason js := by
  induction js generalizing p with
  | nil => exact (p.calledOff_nil reason).symm
  | cons j js ih =>
      have hone := p.cancelJob_eq reason (h j List.mem_cons_self)
      have hgoes : (p.calledOff reason [j]).fault = none := hf
      rw [cancelJobs, hone, andThen, hgoes]
      exact (ih _ hgoes fun k hk => h k (List.mem_cons_of_mem _ hk)).trans (p.calledOff_append reason [j] js)

/-! ## Taking slots away -/

theorem preemptNewest_eq {es : List RunningJob} {e : RunningJob} (h : p.running = es ++ [e]) :
    ∃ roster, p.preemptNewest = { p with
      running := es
      stopped := p.stopped ++ [e.seq]
      slots := p.slots.set e.slotId none
      occupied := p.occupied - 1
      preempted := p.preempted ++ [e.job]
      roster } := by
  have hlast : p.running.getLast? = some e := by simp [h]
  have hrest : p.running.dropLast = es := by simp [h]
  by_cases hr : (p.reports.any (·.flight.seq == e.seq)) = true
  · exact ⟨removeBySwap p.roster e.seq, by simp only [preemptNewest, hlast, hr, strike, hrest, ↓reduceIte]⟩
  · exact ⟨p.roster, by simp only [preemptNewest, hlast, hr, hrest, Bool.false_eq_true, ↓reduceIte]⟩

/-- The latest attempts lose their slots until no more run than are allowed. -/
theorem preemptExcess_eq {n : Nat} (p : Pool) (hocc : p.occupied = p.running.length)
    (hn : p.occupied ≤ p.allowed + n) :
    ∃ roster, preemptExcess n p = { p with
      running := p.running.take p.allowed
      stopped := p.stopped ++ (p.victims p.allowed).map (·.seq)
      slots := (p.victims p.allowed).foldl (fun slots e => slots.set e.slotId none) p.slots
      occupied := min p.occupied p.allowed
      preempted := p.preempted ++ (p.victims p.allowed).map (·.job)
      roster } := by
  induction n generalizing p with
  | zero =>
      have hall : p.running.length ≤ p.allowed := by omega
      refine ⟨p.roster, ?_⟩
      simp [preemptExcess, victims, List.take_of_length_le hall, List.drop_of_length_le hall,
        Nat.min_eq_left (hocc ▸ hall : p.occupied ≤ p.allowed)]
  | succ n ih =>
      by_cases hlt : p.allowed < p.occupied
      · have hne : p.running ≠ [] := by
          intro hnil
          rw [hocc, hnil] at hlt
          exact absurd hlt (Nat.not_lt_zero _)
        obtain ⟨es, e, hes⟩ : ∃ es e, p.running = es ++ [e] :=
          ⟨_, _, (List.dropLast_concat_getLast hne).symm⟩
        have hlen : es.length + 1 = p.running.length := by simp [hes]
        obtain ⟨roster, hone⟩ := preemptNewest_eq hes
        have hallow : p.allowed ≤ es.length := by omega
        have hcount : p.preemptNewest.occupied = p.preemptNewest.running.length := by
          rw [hone]
          show p.occupied - 1 = es.length
          omega
        have hfuel : p.preemptNewest.occupied ≤ p.preemptNewest.allowed + n := by
          rw [hone]
          show p.occupied - 1 ≤ p.allowed + n
          omega
        obtain ⟨roster', hmore⟩ := ih _ hcount hfuel
        have hstill : p.preemptNewest.allowed = p.allowed := by
          rw [hone]
          rfl
        refine ⟨roster', ?_⟩
        rw [preemptExcess, if_pos hlt, hmore, hstill, hone]
        have hvictims : p.victims p.allowed = e :: (es.drop p.allowed).reverse := by
          rw [victims, hes, List.drop_append_of_le_length hallow, List.reverse_append]
          rfl
        have hrun : p.running.take p.allowed = es.take p.allowed := by
          rw [hes, List.take_append_of_le_length hallow]
        have hmin : min (p.occupied - 1) p.allowed = min p.occupied p.allowed := by omega
        have hvictims' : p.preemptNewest.victims p.allowed = (es.drop p.allowed).reverse := by
          rw [hone]
          rfl
        rw [hone] at hvictims'
        simp only [hvictims, hvictims', hrun, hmin, List.map_cons, List.foldl_cons, List.append_assoc,
          List.cons_append, List.nil_append]
      · have hall : p.running.length ≤ p.allowed := by omega
        refine ⟨p.roster, ?_⟩
        simp [preemptExcess, hlt, victims, List.take_of_length_le hall, List.drop_of_length_le hall,
          Nat.min_eq_left (Nat.not_lt.mp hlt)]

/-! ## Adapting the number of attempts allowed -/

theorem Slotted.applyChange_shrunk (h : Slotted p) (target : Nat) (reason : ShrinkReason) :
    ∃ roster, { p with concurrency := { p.concurrency with allowed := target } }.applyChange
      (.shrunk p.allowed target reason) = p.shrunk target reason roster := by
  let p' : Pool := { p with
    concurrency := { p.concurrency with allowed := target }
    report := { p.report with shrinkEvents := p.report.shrinkEvents + 1 } }
  have hn : p'.occupied ≤ p'.allowed + (p.occupied - target) := by
    show p.occupied ≤ target + (p.occupied - target)
    omega
  obtain ⟨roster, he⟩ := p'.preemptExcess_eq h.occupied hn
  refine ⟨roster, ?_⟩
  show (preemptExcess (p.occupied - target) p').noteChange p.allowed target reason.name = _
  rw [he]
  rfl

theorem Sound.follow {change : Concurrency × ConcurrencyChange} (h : Sound jobs p) (busy : p.phase = .waiting)
    (hc : p.concurrency.Changed change) : Acts p ({ p with concurrency := change.1 }.applyChange change.2) := by
  cases hc with
  | unchanged => exact Relation.ReflTransGen.refl
  | shrunk reason least less =>
      obtain ⟨roster, he⟩ := h.slotted.applyChange_shrunk _ reason
      exact Relation.ReflTransGen.single (he ▸ .shrink roster busy least less)
  | grew full healthy sum more => exact Relation.ReflTransGen.single (.grow busy full healthy sum more)

theorem Sound.adapt (h : Sound jobs p) (busy : p.phase = .waiting) (resourceExhausted : Bool) :
    Acts p (p.adapt resourceExhausted) := by
  unfold Pool.adapt
  rcases Concurrency.recompute?_changed h.slotted.least p.pressure resourceExhausted with
    ⟨he, full, healthy, beyond⟩ | ⟨change, he, hc⟩
  · rw [he]
    exact Relation.ReflTransGen.single (.breakDown busy full healthy beyond)
  · rw [he]
    exact h.follow busy hc

/-- Looking at the memory is a note, and an act if the pool shrinks. -/
theorem Sound.adaptToMemory (h : Sound jobs p) (busy : p.phase = .waiting) : Acts p p.adaptToMemory := by
  have hnote : Act p { p with pressureFresh := false } := .note false p.pressureOpen p.roster
  exact Relation.ReflTransGen.head hnote
    ((h.act hnote).follow busy (Concurrency.onMemory_changed h.slotted.least p.pressure))

/-! ## Settling a job in hand -/

theorem Taken.frame {r : SlotReport} {held : Bool} {job : Job} (ht : p.Taken r held job q) (o : AttemptOutcome) :
    let s := q.recordOutcome o
    s.retry = p.retry ∧ s.draws = p.draws ∧ s.draining = p.draining ∧ s.clock = p.clock ∧
      s.phase = p.phase := by
  obtain ⟨_, _, _, _, _, _, _, he⟩ := ht.recordOutcome_eq o
  rw [he]
  exact ⟨rfl, rfl, rfl, rfl, rfl⟩

theorem Sound.settleFailure {r : SlotReport} {held : Bool} {job : Job} {e : AttemptError} (h : Sound jobs p)
    (busy : p.phase = .waiting) (ht : p.Taken r held job q) (outcome : r.outcome = .failed e) :
    Act p ((q.recordOutcome r.outcome).settleFailure job e) ∧
      ((q.recordOutcome r.outcome).settleFailure job e).phase = .waiting := by
  have hrun := (h.placed.take ht).2.1
  obtain ⟨hretry, hdraws, hdraining, hclock, hphase⟩ := ht.frame r.outcome
  have hbusy := hphase.trans busy
  unfold Pool.settleFailure
  rw [hretry, hdraws]
  cases hd : p.retry.decide job.attempt (p.draws job.planIndex job.attempt) e with
  | requeue delayMs classification =>
      dsimp only
      by_cases hdr : p.draining = true
      · rw [hdraining, if_pos hdr, cancelJob_eq _ _ (by rw [hrun]; rfl)]
        exact ⟨.callOff _ busy ht (Or.inr ⟨hdr, e, delayMs, classification, outcome, hd⟩), hbusy⟩
      · rw [hdraining, if_neg hdr, delay, Job.awaitRetry_eq hrun]
        exact ⟨.postpone busy ht outcome (by simpa using hdr) hd, hbusy⟩
  | finalize reason =>
      dsimp only
      rw [conclude_eq _ _ hrun rfl, hclock]
      exact ⟨.giveUp busy ht outcome hd, hbusy⟩

/-- Settling a job in hand is an act and an adaptation; a job that lost its slot is not settled for an attempt
that was broken off. -/
theorem Sound.settle {r : SlotReport} {held : Bool} {job : Job} (h : Sound jobs p) (busy : p.phase = .waiting)
    (ht : p.Taken r held job q) (counted : r.outcome = .interrupted → held = true) :
    Acts p (q.settle job r.outcome) := by
  have hrun := (h.placed.take ht).2.1
  obtain ⟨_, _, _, hclock, hphase⟩ := ht.frame r.outcome
  have hbusy := hphase.trans busy
  have hnext : ∀ {s : Pool} (b : Bool), Act p s → s.phase = .waiting → Acts p (s.andThen (Pool.adapt b)) := by
    intro s b hact hs
    have hsound := h.act hact
    rw [andThen, hsound.phased.busy_no_fault hs]
    exact Relation.ReflTransGen.head hact (hsound.adapt hs b)
  cases ho : r.outcome with
  | completed metrics =>
      rw [ho] at hclock hbusy
      rw [Pool.settle, conclude_eq _ _ hrun rfl]
      have hact := Act.succeed busy ht ho
      rw [ho, ← hclock] at hact
      exact hnext false hact hbusy
  | interrupted =>
      rw [ho] at hbusy
      have hact := Act.callOff "执行被取消" busy ht (Or.inl ⟨ho, Or.inl (counted ho)⟩)
      rw [ho] at hact
      rw [Pool.settle, cancelJob_eq _ _ (by rw [hrun]; rfl)]
      exact hnext false hact hbusy
  | failed e =>
      obtain ⟨hact, hs⟩ := h.settleFailure busy ht ho
      rw [ho] at hact hs
      rw [Pool.settle]
      by_cases hk : (e.kind == .resource) = true
      · rw [recordOutcome, if_pos hk] at hact hs
        rw [if_pos hk]
        exact hnext true hact hs
      · rw [recordOutcome, if_neg hk] at hact hs
        rw [if_neg hk]
        exact hnext false hact hs

/-- Settling a job that lost its slot puts it back if its attempt was broken off for that alone. -/
theorem Sound.settlePreempted {r : SlotReport} {job : Job} (h : Sound jobs p) (busy : p.phase = .waiting)
    (ht : p.Taken r false job q) : Acts p (q.settlePreempted job r.outcome) := by
  have hrun := (h.placed.take ht).2.1
  have hdraining : q.draining = p.draining := (h.phased.take busy ht .interrupted).2.2
  cases ho : r.outcome with
  | completed metrics =>
      have hacts := h.settle busy ht (by simp [ho])
      rwa [ho] at hacts
  | failed e =>
      have hacts := h.settle busy ht (by simp [ho])
      rwa [ho] at hacts
  | interrupted =>
      unfold Pool.settlePreempted
      dsimp only
      by_cases hdr : p.draining = true
      · have hact := Act.callOff "执行被取消" busy ht (Or.inl ⟨ho, Or.inr hdr⟩)
        rw [ho] at hact
        rw [if_pos (hdraining.trans hdr), cancelJob_eq _ _ (by rw [hrun]; rfl)]
        exact Relation.ReflTransGen.single hact
      · rw [if_neg (by rwa [hdraining]), Job.yield_eq hrun]
        exact Relation.ReflTransGen.single (.requeue busy ht ho (by simpa using hdr))

theorem Acts.strike (h : Acts p q) (seq : Nat) : Acts p (q.strike seq) :=
  h.tail (.note q.pressureFresh q.pressureOpen _)

theorem Sound.report_known {r : SlotReport} (h : Sound jobs p) (hr : r ∈ p.reports) :
    (∃ e ∈ p.running, e.job.planIndex = r.flight.planIndex) ∨
      ∃ j ∈ p.preempted, j.planIndex = r.flight.planIndex := by
  have hmem := h.flown.places.mem_iff.mp (List.mem_map_of_mem (f := fun f : Flight => f.planIndex)
    (h.flown.reports r hr))
  rcases List.mem_append.mp hmem with hm | hm
  · exact Or.inl (List.mem_map.mp hm)
  · exact Or.inr (List.mem_map.mp hm)

theorem Sound.onReport {r : SlotReport} {rest : List SlotReport} (h : Sound jobs p) (busy : p.phase = .waiting)
    (first : p.reports = r :: rest) :
    Acts p ({ p with reports := rest, inFlight := p.inFlight.filter (·.seq != r.flight.seq) }.onReport r) := by
  unfold Pool.onReport
  dsimp only
  cases hpre : p.preempted.find? (·.planIndex == r.flight.planIndex) with
  | some job =>
      have hmem := List.mem_of_find?_eq_some hpre
      have hplace : job.planIndex = r.flight.planIndex := by simpa using List.find?_some hpre
      exact h.settlePreempted busy (.preempted first hmem hplace)
  | none =>
      cases hrun : p.running.find? (·.job.planIndex == r.flight.planIndex) with
      | some e =>
          have hmem := List.mem_of_find?_eq_some hrun
          have hplace : e.job.planIndex = r.flight.planIndex := by simpa using List.find?_some hrun
          exact (h.settle busy (.running first hmem hplace) fun _ => rfl).strike e.seq
      | none =>
          simp only [List.find?_eq_none, beq_iff_eq] at hpre hrun
          rcases h.report_known (first ▸ List.mem_cons_self) with ⟨e, he, hplace⟩ | ⟨j, hj, hplace⟩
          · exact absurd hplace (hrun e he)
          · exact absurd hplace (hpre j hj)

end PageAudit.Pool
