import PageAudit.Proofs.Pool.Attempts
import PageAudit.Proofs.Retry.Alone

/-!
# Results do not depend on scheduling

As long as a run is not cancelled and what an attempt reports depends on nothing but its job and its number, a job
comes to what it would have come to on its own, whatever is preempted, delayed or started in between.
-/

namespace PageAudit.Pool

/-- What every attempt of every job gives, by the job's position in the plan. -/
abbrev Answers := Nat → Nat → Except AttemptError Metrics

/-- An attempt reports what it gives, or that it was broken off after it lost its slot. -/
def Honest (out : Answers) (p : Pool) (seq : Nat) (outcome : AttemptOutcome) : Prop :=
  (outcome = .interrupted ∧ seq ∈ p.stopped) ∨
    ∃ c, p.started[seq - 1]? = some c ∧ outcome = reported (out c.planIndex c.attempt)

/-- A cancellation does not come, and reports are honest. -/
def Admits (out : Answers) (p : Pool) : PoolInput → Prop
  | .cancel => False
  | .report seq outcome => p.Honest out seq outcome
  | _ => True

/-- Nothing is cancelled, and every attempt reports honestly. -/
def Faithful (out : Answers) : Pool → List PoolInput → Prop
  | _, [] => True
  | p, i :: rest => p.Admits out i ∧ Faithful out (p.step i) rest

/-- Every job has come as far as it would have come on its own. -/
structure Following (out : Answers) (p : Pool) : Prop where
  uncancelled : p.cancelled = false
  reports : ∀ r ∈ p.reports, p.Honest out r.flight.seq r.outcome
  ready : ∀ j ∈ p.ready, p.retry.Undecided (out j.planIndex) (j.attempt + 1)
  delayed : ∀ d ∈ p.delayed, p.retry.Undecided (out d.job.planIndex) (d.job.attempt + 1)
  running : ∀ e ∈ p.running, p.retry.Undecided (out e.job.planIndex) e.job.attempt
  preempted : ∀ j ∈ p.preempted, p.retry.Undecided (out j.planIndex) j.attempt
  ended : ∀ x ∈ p.results, x.2.ending = p.retry.alone (out x.2.planIndex)

variable {jobs : List Job} {p q : Pool} {out : Answers}

/-! ## Taking a report -/

theorem Following.take {r : SlotReport} {held : Bool} {job : Job} (h : Following out p)
    (ht : p.Taken r held job q) (o : AttemptOutcome) : Following out (q.recordOutcome o) := by
  obtain ⟨window, he⟩ := q.recordOutcome_eq o
  rw [he]
  cases ht with
  | running first =>
      exact { h with
        reports := fun x hx => h.reports x (first ▸ List.mem_cons_of_mem _ hx)
        running := fun x hx => h.running x (List.mem_of_mem_filter hx) }
  | preempted first =>
      exact { h with
        reports := fun x hx => h.reports x (first ▸ List.mem_cons_of_mem _ hx)
        preempted := fun j hj => h.preempted j (List.mem_of_mem_filter hj) }

theorem Following.taken_undecided {r : SlotReport} {held : Bool} {job : Job} (h : Following out p)
    (ht : p.Taken r held job q) : p.retry.Undecided (out job.planIndex) job.attempt := by
  cases ht with
  | running _ mem => exact h.running _ mem
  | preempted _ mem => exact h.preempted _ mem

/-- What is taken for a job is what its attempt gives, unless it lost its slot. -/
theorem Following.taken_honest {r : SlotReport} {held : Bool} {job : Job} (h : Following out p)
    (hs : Sound jobs p) (ht : p.Taken r held job q) :
    (r.outcome = .interrupted ∧ held = false) ∨ r.outcome = reported (out job.planIndex job.attempt) := by
  obtain ⟨⟨c, hc, hplace, hattempt⟩, _, hheld⟩ := hs.flown.taken_context hs.placed ht
  rcases h.reports r ht.mem with ⟨ho, hstopped⟩ | ⟨c', hc', ho⟩
  · refine Or.inl ⟨ho, ?_⟩
    cases held with
    | true => exact absurd hstopped (hheld rfl)
    | false => rfl
  · obtain rfl : c' = c := Option.some.inj (hc'.symm.trans hc)
    exact Or.inr (by rw [ho, hplace, hattempt])

theorem Following.not_draining (h : Following out p) (hs : Sound jobs p) : p.draining = false := by
  cases hd : p.draining with
  | false => rfl
  | true => exact Bool.noConfusion (h.uncancelled.symm.trans (hs.phased.drained hd).2.2)

/-! ## Acts -/

theorem Following.emit {x : Result} {reason : FinalizeReason} (h : Following out p)
    (hx : x.ending = p.retry.alone (out x.planIndex)) : Following out (p.emit x reason) := by
  refine { h with ended := fun y hy => ?_ }
  rcases List.mem_append.mp hy with hy | hy
  · exact h.ended y hy
  · rw [List.mem_singleton.mp hy]
    exact hx

theorem Following.succeed {r : SlotReport} {held : Bool} {job : Job} {metrics : Metrics} (h : Following out p)
    (hs : Sound jobs p) (ha : Attempted p) (ht : p.Taken r held job q) (outcome : r.outcome = .completed metrics)
    (now : Nat) (reason : FinalizeReason) :
    Following out ((q.recordOutcome r.outcome).emit (.succeeded (job.enter .succeeded) now metrics) reason) := by
  have hout : out job.planIndex job.attempt = .ok metrics := by
    rcases h.taken_honest hs ht with ⟨ho, _⟩ | ho
    · rw [outcome] at ho
      cases ho
    · exact ok_of_reported (ho.symm.trans outcome)
  have halone := (h.taken_undecided ht).alone_of_ok (hs.placed.take ht).2.2 (ha.taken_le ht) hout
  refine (h.take ht r.outcome).emit ?_
  rw [(ht.frame r.outcome).1]
  exact halone.symm

theorem Following.taken_error {r : SlotReport} {held : Bool} {job : Job} {e : AttemptError} (h : Following out p)
    (hs : Sound jobs p) (ht : p.Taken r held job q) (outcome : r.outcome = .failed e) :
    out job.planIndex job.attempt = .error e := by
  rcases h.taken_honest hs ht with ⟨ho, _⟩ | ho
  · rw [outcome] at ho
    cases ho
  · exact error_of_reported (ho.symm.trans outcome)

theorem Following.giveUp {r : SlotReport} {held : Bool} {job : Job} {e : AttemptError} {reason : FinalizeReason}
    {draw : Nat} (h : Following out p) (hs : Sound jobs p) (ha : Attempted p) (ht : p.Taken r held job q)
    (outcome : r.outcome = .failed e) (final : p.retry.decide job.attempt draw e = .finalize reason) (now : Nat) :
    Following out ((q.recordOutcome r.outcome).emit
      (.failed (job.enter .failedPermanent) now e.kind e.message) reason) := by
  have hout := h.taken_error hs ht outcome
  have halone := (h.taken_undecided ht).alone_of_finalize (hs.placed.take ht).2.2 (ha.taken_le ht) hout final
  refine (h.take ht r.outcome).emit ?_
  rw [(ht.frame r.outcome).1]
  exact halone.symm

theorem Following.postpone {r : SlotReport} {held : Bool} {job : Job} {e : AttemptError} {draw delayMs : Nat}
    {classification : Classification} (h : Following out p) (hs : Sound jobs p) (ht : p.Taken r held job q)
    (outcome : r.outcome = .failed e)
    (again : p.retry.decide job.attempt draw e = .requeue delayMs classification) :
    Following out ((q.recordOutcome r.outcome).postponed job delayMs classification e) := by
  have hout := h.taken_error hs ht outcome
  have hnext := (h.taken_undecided ht).succ (by rw [hout]; exact RetryPolicy.decides_of_requeue again)
  have hq := h.take ht r.outcome
  refine { hq with delayed := fun d hd => ?_ }
  rcases List.mem_append.mp hd with hd | hd
  · exact hq.delayed d hd
  · rw [List.mem_singleton.mp hd]
    show (q.recordOutcome r.outcome).retry.Undecided _ _
    rw [(ht.frame r.outcome).1]
    exact hnext

theorem Following.requeue {r : SlotReport} {job : Job} (h : Following out p) (hs : Sound jobs p)
    (ht : p.Taken r false job q) : Following out { q with ready := insertByPlan job.yielded q.ready } := by
  have hone := (hs.placed.take ht).2.2
  have hundecided := h.taken_undecided ht
  have hq : Following out q := h.take ht .interrupted
  have hretry : q.retry = p.retry := (ht.frame .interrupted).1
  refine { hq with ready := fun j hj => ?_ }
  rcases mem_insertByPlan hj with rfl | hj
  · have hsame : job.yielded.attempt + 1 = job.attempt := Nat.sub_add_cancel hone
    show q.retry.Undecided _ _
    rw [hsame, hretry]
    exact hundecided
  · exact hq.ready j hj

theorem Honest.mono {seq : Nat} {o : AttemptOutcome} (h : p.Honest out seq o) (hstopped : p.stopped ⊆ q.stopped)
    (hstarted : p.started <+: q.started) : q.Honest out seq o := by
  rcases h with ⟨ho, hs⟩ | ⟨c, hc, ho⟩
  · exact Or.inl ⟨ho, hstopped hs⟩
  · obtain ⟨more, hmore⟩ := hstarted
    refine Or.inr ⟨c, ?_, ho⟩
    rw [← hmore, List.getElem?_append_left (List.getElem?_eq_some_iff.mp hc).1]
    exact hc

theorem Following.launched {job : Job} {rest : List Job} {slotId : Nat} (h : Following out p)
    (first : p.ready = job :: rest) : Following out (p.launched job rest slotId) := by
  refine { h with
    reports := fun r hr => (h.reports r hr).mono (List.Subset.refl _) (List.prefix_append _ _)
    ready := fun j hj => h.ready j (first ▸ List.mem_cons_of_mem _ hj)
    running := fun e he => ?_ }
  rcases List.mem_append.mp he with he | he
  · exact h.running e he
  · rw [List.mem_singleton.mp he]
    exact h.ready job (first ▸ List.mem_cons_self)

theorem Following.shrunk {target : Nat} {reason : ShrinkReason} {roster : List Nat} (h : Following out p) :
    Following out (p.shrunk target reason roster) := by
  refine { h with
    reports := fun r hr => (h.reports r hr).mono (List.subset_append_left _ _) (List.prefix_refl _)
    running := fun e he => h.running e (List.mem_of_mem_take he)
    preempted := fun j hj => ?_ }
  rcases List.mem_append.mp hj with hj | hj
  · exact h.preempted j hj
  · obtain ⟨e, he, rfl⟩ := List.mem_map.mp hj
    exact h.running e (List.mem_of_mem_drop (List.mem_reverse.mp he))

theorem Following.promoted (h : Following out p) : Following out p.promoteDue := by
  refine { h with ready := fun j hj => ?_, delayed := fun d hd => h.delayed d (List.mem_of_mem_filter hd) }
  rw [promoteDue_ready] at hj
  rcases mem_insertAllByPlan hj with hj | hj
  · obtain ⟨d, hd, rfl⟩ := List.mem_map.mp hj
    exact h.delayed d (List.mem_of_mem_filter hd)
  · exact h.ready j hj

/-- An act of an uncancelled pool takes every job as far as it would have come on its own. -/
theorem Following.act (h : Following out p) (hs : Sound jobs p) (ha : Attempted p) (hact : Act p q) :
    Following out q := by
  -- Draining, forcing, reaping and abandoning need a cancellation, which did not come.
  have hgoing := h.not_draining hs
  cases hact with
  | succeed _ taken outcome => exact h.succeed hs ha taken outcome _ _
  | giveUp _ taken outcome final => exact h.giveUp hs ha taken outcome final _
  | postpone _ taken outcome _ again => exact h.postpone hs taken outcome again
  | callOff _ _ taken why =>
      rcases why with ⟨ho, hheld | hdraining⟩ | ⟨hdraining, _⟩
      · rcases h.taken_honest hs taken with ⟨_, hnot⟩ | hreported
        · rw [hheld] at hnot
          cases hnot
        · exact absurd (hreported.symm.trans ho) (reported_ne_interrupted _)
      · exact Bool.noConfusion (hgoing.symm.trans hdraining)
      · exact Bool.noConfusion (hgoing.symm.trans hdraining)
  | requeue _ taken => exact h.requeue hs taken
  | shrink => exact h.shrunk
  | drain _ _ told => exact Bool.noConfusion (h.uncancelled.symm.trans told)
  | force _ passed => exact Bool.noConfusion (hgoing.symm.trans (hs.phased.draining_of_due (Or.inl passed)))
  | resume _ forcing => exact Bool.noConfusion (hgoing.symm.trans (hs.phased.forcing forcing))
  | reap _ passed | abandon _ passed =>
      exact Bool.noConfusion (hgoing.symm.trans (hs.phased.draining_of_due (Or.inr passed)))
  | promote => exact h.promoted
  | launch _ _ first => exact h.launched first
  | _ => exact { h with }

/-! ## Whole runs -/

theorem Following.acts (h : Following out p) (hs : Sound jobs p) (ha : Attempted p) (hacts : Acts p q) :
    Following out q := by
  induction hacts with
  | refl => exact h
  | tail hacts hact ih => exact ih.act (hs.acts hacts) (kept_attempted.moves hs ha (Acts.moves hacts)) hact

theorem Following.receive {seq : Nat} {outcome : AttemptOutcome} (h : Following out p)
    (ho : p.Honest out seq outcome) : Following out (p.receive seq outcome) := by
  obtain ⟨roster, reports, he, hnew⟩ := p.receive_eq seq outcome
  rw [he]
  refine { h with reports := fun r hr => ?_ }
  rcases hnew r hr with hr | ⟨rfl, rfl⟩
  · exact h.reports r hr
  · exact ho

theorem Following.step {i : PoolInput} (h : Following out p) (hs : Sound jobs p) (ha : Attempted p)
    (hi : p.Admits out i) : Following out (p.step i) := by
  cases i with
  | elapse => exact { h with }
  | cancel => exact hi.elim
  | pressure => exact { h with }
  | pressureClosed => exact { h with }
  | report seq outcome => exact h.receive hi
  | released count => exact h.acts hs ha (hs.released count)
  | launcherBroke message => exact h.acts hs ha (p.acts_launcherBroke message)
  | turn => exact h.acts hs ha hs.step_turn

theorem Following.after {inputs : List PoolInput} (h : Following out p) (hs : Sound jobs p) (ha : Attempted p)
    (hi : Faithful out p inputs) : Following out (p.after inputs) := by
  induction inputs generalizing p with
  | nil => exact h
  | cons i rest ih =>
      have hmoves := hs.step_moves i
      exact ih (h.step hs ha hi.1) (hs.moves hmoves) (kept_attempted.moves hs ha hmoves) hi.2

/-- A pool that has broken down could not add its step to the number of attempts allowed. -/
def OverflowsIfBroken (p : Pool) : Prop :=
  p.fault = some .additionOverflow → Decimal.wordMax 64 < p.allowed + p.concurrency.policy.growStep

theorem kept_overflowsIfBroken : Kept jobs OverflowsIfBroken where
  act := by
    intro p q hs hi hact
    cases hact with
    | succeed _ taken | giveUp _ taken | postpone _ taken | callOff _ _ taken =>
        obtain ⟨_, _, _, _, _, _, _, he⟩ := taken.recordOutcome_eq _
        rw [he]
        exact hi
    | requeue _ taken =>
        cases taken with
        | preempted => exact hi
    | shrink _ busy | grow busy =>
        intro hf
        exact absurd ((hs.phased.busy_no_fault busy).symm.trans hf) (Option.some_ne_none _).symm
    | breakDown _ _ _ beyond => exact fun _ => beyond
    | collapse => exact fun hf => nomatch hf
    | _ => exact hi
  news := by
    intro p q _ hi hnews
    cases hnews <;> exact hi
  receive := fun _ _ hi => hi

variable {retry : RetryPolicy}

/-- The end of a run that was not cancelled and in which all attempts reported honestly. -/
def IsEnd (out : Answers) (retry : RetryPolicy) (jobs : List Job) (p : Pool) : Prop :=
  ∃ policy gracePeriod draws pressure clock p₀ inputs, PoolPolicy.validate policy = .ok () ∧
    submit? policy retry gracePeriod draws pressure clock jobs = some p₀ ∧ Faithful out p₀ inputs ∧
    p₀.after inputs = p ∧ p.phase = .ended

theorem Following.submit {policy : PoolPolicy} {gracePeriod clock : Nat} {draws : Nat → Nat → Nat}
    {pressure : MemoryPressure} (h : submit? policy retry gracePeriod draws pressure clock jobs = some p)
    (hfresh : ∀ j ∈ jobs, j.attempt = 0) (out : Answers) : Following out p := by
  obtain ⟨_, _, _, rfl⟩ := submit?_eq h
  have hready : ∀ j ∈ insertAllByPlan jobs [], retry.Undecided (out j.planIndex) (j.attempt + 1) := by
    intro j hj a hone hlt
    rcases mem_insertAllByPlan hj with hj | hj
    · have := hfresh j hj
      omega
    · cases hj
  exact {
    uncancelled := rfl
    reports := fun _ hr => absurd hr List.not_mem_nil
    ready := hready
    delayed := fun _ hd => absurd hd List.not_mem_nil
    running := fun _ he => absurd he List.not_mem_nil
    preempted := fun _ hj => absurd hj List.not_mem_nil
    ended := fun _ hx => absurd hx List.not_mem_nil }

theorem IsEnd.facts (h : IsEnd out retry jobs p) (hretry : retry.validate = .ok ()) (hjobs : Submittable jobs)
    (hfresh : ∀ j ∈ jobs, j.attempt = 0) :
    Sound jobs p ∧ Following out p ∧ OverflowsIfBroken p ∧ p.retry = retry := by
  obtain ⟨policy, gracePeriod, draws, pressure, clock, p₀, inputs, hpolicy, hp, hfaithful, rfl, _⟩ := h
  have hs := Sound.submit hp hjobs
  have ha := Attempted.submit hp (RetryPolicy.one_le_of_validate hretry) hfresh
  have hf := Following.submit hp hfresh out
  have hunbroken : OverflowsIfBroken p₀ ∧ p₀.retry = retry := by
    obtain ⟨_, _, _, rfl⟩ := submit?_eq hp
    exact ⟨fun hbroken => (Option.some_ne_none _ hbroken.symm).elim, rfl⟩
  refine ⟨hs.after inputs, hf.after hs ha hfaithful, kept_overflowsIfBroken.after hs hunbroken.1 inputs, ?_⟩
  exact (kept_retry retry).after hs hunbroken.2 inputs

/-- A run that was not cancelled gives every job what the job would have come to on its own, unless the pool broke
down over the sum with its step before all jobs had ended; two such runs never contradict each other. -/
theorem ended_like_alone (hretry : retry.validate = .ok ()) (hjobs : Submittable jobs)
    (hfresh : ∀ j ∈ jobs, j.attempt = 0) (h : IsEnd out retry jobs p) :
    (∀ x ∈ p.results, x.2.ending = retry.alone (out x.2.planIndex)) ∧
    (p.results.map (·.2.planIndex)).Nodup ∧
    ((∀ j ∈ jobs, ∃ x ∈ p.results, x.2.place = j.place ∧ x.2.ending = retry.alone (out j.planIndex)) ↔
      p.results.length = jobs.length) ∧
    (p.results.length ≠ jobs.length → p.fault = some .additionOverflow ∧
      Decimal.wordMax 64 < p.allowed + p.concurrency.policy.growStep) ∧
    (p.concurrency.policy.maxConcurrency + p.concurrency.policy.growStep ≤ Decimal.wordMax 64 →
      p.results.length = jobs.length) ∧
    ∀ q, IsEnd out retry jobs q → ∀ x ∈ p.results, ∀ y ∈ q.results, x.2.planIndex = y.2.planIndex →
      x.2.ending = y.2.ending := by
  obtain ⟨hs, hf, hover, hsame⟩ := h.facts hretry hjobs hfresh
  have hending : ∀ x ∈ p.results, x.2.ending = retry.alone (out x.2.planIndex) := hsame ▸ hf.ended
  have hbroken : p.results.length ≠ jobs.length → p.fault = some .additionOverflow ∧
      Decimal.wordMax 64 < p.allowed + p.concurrency.policy.growStep := by
    intro hmissing
    rcases hs.phased.fault with hfault | ⟨-, hfault | ⟨hdraining, -⟩⟩
    · obtain ⟨_, _, _, _, _, _, _, _, _, _, _, hphase⟩ := h
      exact absurd (hs.placed.results_length (hs.phased.ended hphase hfault).1) hmissing
    · exact ⟨hfault, hover hfault⟩
    · -- Only a pool that drains releases all browsers, and it drains only when it is cancelled.
      exact Bool.noConfusion (hf.uncancelled.symm.trans (hs.phased.drained hdraining).2.2)
  refine ⟨hending, hs.placed.results_nodup, ?_, hbroken, ?_, ?_⟩
  · rw [← hs.placed.all_ended_iff]
    constructor
    · intro hall j hj
      obtain ⟨x, hx, hplace, _⟩ := hall j hj
      exact ⟨x, hx, hplace⟩
    · intro hall j hj
      obtain ⟨x, hx, hplace⟩ := hall j hj
      have hindex : x.2.planIndex = j.planIndex := congrArg JobPlace.index hplace
      exact ⟨x, hx, hplace, hindex ▸ hending x hx⟩
  · intro hfits
    by_contra hmissing
    have hlarge := (hbroken hmissing).2
    have hmost := hs.slotted.most
    omega
  · intro q hq x hx y hy hindex
    obtain ⟨_, hfq, _, hsameq⟩ := hq.facts hretry hjobs hfresh
    rw [hending x hx, hfq.ended y hy, hsameq, hindex]

theorem twoPages_ended_like_alone : RetryPolicy.validate {} = .ok () ∧ Submittable twoPages ∧
    (∀ j ∈ twoPages, j.attempt = 0) ∧ ∃ p, IsEnd (fun _ _ => .ok []) {} twoPages p ∧
      ∀ x ∈ p.results, x.2.ending = RetryPolicy.alone {} fun _ => .ok [] := by
  have hend : ∃ p, IsEnd (fun _ _ => .ok []) {} twoPages p := by
    refine ⟨_, {}, 0, fun _ _ => 0, {}, 0, _,
      [.turn, .report 1 (.completed []), .report 2 (.completed []), .turn, .turn], rfl, rfl, ?_, rfl, rfl⟩
    exact ⟨trivial, Or.inr ⟨_, rfl, rfl⟩, Or.inr ⟨_, rfl, rfl⟩, trivial, trivial, trivial⟩
  obtain ⟨p, hp⟩ := hend
  have halike := ended_like_alone rfl twoPages_submittable (by decide) hp
  exact ⟨rfl, twoPages_submittable, by decide, p, hp, halike.1⟩

/-- A valid policy whose step and number of attempts allowed are together no word. -/
def hastyPolicy : PoolPolicy :=
  { maxConcurrency := 2, initialConcurrency := some 1, windowSize := 1, growStep := Decimal.wordMax 64 }

/-- The first success breaks the pool down, and the second page never gets the result that it would have got on its
own. -/
theorem hasty_run_loses_second_page : ∃ p, hastyPolicy.validate = .ok () ∧
    IsEnd (fun _ _ => .ok []) {} twoPages p ∧ p.fault = some .additionOverflow ∧
    ¬ ∀ j ∈ twoPages, ∃ x ∈ p.results,
      x.2.place = j.place ∧ x.2.ending = RetryPolicy.alone {} fun _ => .ok [] := by
  have hend : ∃ p, IsEnd (fun _ _ => .ok []) {} twoPages p ∧ p.fault = some .additionOverflow ∧
      p.results.map (·.2.planIndex) = [0] := by
    refine ⟨_, ⟨hastyPolicy, 0, fun _ _ => 0, {}, 0, _,
      [.turn, .report 1 (.completed []), .turn], rfl, rfl, ?_, rfl, rfl⟩, rfl, rfl⟩
    exact ⟨trivial, Or.inr ⟨_, rfl, rfl⟩, trivial, trivial⟩
  obtain ⟨p, hp, hfault, hresults⟩ := hend
  refine ⟨p, rfl, hp, hfault, fun hall => ?_⟩
  obtain ⟨x, hx, hplace, _⟩ := hall _ (List.mem_cons_of_mem _ List.mem_cons_self)
  have hone : x.2.planIndex = 1 := congrArg JobPlace.index hplace
  have hmem := hresults ▸ List.mem_map_of_mem (f := fun x : Nat × Result => x.2.planIndex) hx
  rw [List.mem_singleton, hone] at hmem
  cases hmem

end PageAudit.Pool
