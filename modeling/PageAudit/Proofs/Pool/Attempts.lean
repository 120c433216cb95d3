import PageAudit.Proofs.Pool.Runs

/-!
# Numbers of attempts

A job that waits has an attempt left, and no job ever goes beyond the number of attempts that its policy gives.
-/

namespace PageAudit

theorem RetryPolicy.lt_of_requeue {retry : RetryPolicy} {attempt draw delayMs : Nat} {e : AttemptError}
    {classification : Classification} (h : retry.decide attempt draw e = .requeue delayMs classification) :
    attempt < retry.maxAttempts := by
  unfold RetryPolicy.decide at h
  split at h
  · cases h
  · split at h
    · cases h
    · omega

namespace Pool

/-- No job goes beyond the attempts that it has. -/
structure Attempted (p : Pool) : Prop where
  ready : ∀ j ∈ p.ready, j.attempt < p.retry.maxAttempts
  delayed : ∀ d ∈ p.delayed, d.job.attempt < p.retry.maxAttempts
  running : ∀ e ∈ p.running, e.job.attempt ≤ p.retry.maxAttempts
  preempted : ∀ j ∈ p.preempted, j.attempt ≤ p.retry.maxAttempts
  ended : ∀ x ∈ p.results, x.2.attemptsUsed ≤ p.retry.maxAttempts

variable {jobs : List Job} {p q : Pool}

theorem Attempted.take {r : SlotReport} {held : Bool} {job : Job} (h : Attempted p) (ht : p.Taken r held job q)
    (o : AttemptOutcome) : Attempted (q.recordOutcome o) := by
  obtain ⟨window, he⟩ := q.recordOutcome_eq o
  rw [he]
  cases ht with
  | running => exact { h with running := fun x hx => h.running x (List.mem_of_mem_filter hx) }
  | preempted => exact { h with preempted := fun j hj => h.preempted j (List.mem_of_mem_filter hj) }

theorem Attempted.taken_le {r : SlotReport} {held : Bool} {job : Job} (h : Attempted p)
    (ht : p.Taken r held job q) : job.attempt ≤ p.retry.maxAttempts := by
  cases ht with
  | running first mem => exact h.running _ mem
  | preempted first mem => exact h.preempted _ mem

theorem Attempted.emit {r : Result} {reason : FinalizeReason} (h : Attempted p)
    (hr : r.attemptsUsed ≤ p.retry.maxAttempts) : Attempted (p.emit r reason) := by
  refine { h with ended := fun x hx => ?_ }
  rcases List.mem_append.mp hx with hx | hx
  · exact h.ended x hx
  · rw [List.mem_singleton.mp hx]
    exact hr

theorem Attempted.calledOff {js : List Job} {reason : String} (h : Attempted p)
    (hjs : ∀ j ∈ js, j.attempt ≤ p.retry.maxAttempts) : Attempted (p.calledOff reason js) := by
  refine { h with ended := fun x hx => ?_ }
  rcases List.mem_append.mp hx with hx | hx
  · exact h.ended x hx
  · obtain ⟨j, hj, rfl⟩ := List.mem_map.mp hx
    exact hjs j hj

theorem Attempted.postponed {j : Job} {delayMs : Nat} {classification : Classification} {e : AttemptError}
    (h : Attempted p) (hj : j.attempt < p.retry.maxAttempts) :
    Attempted (p.postponed j delayMs classification e) := by
  refine { h with delayed := fun d hd => ?_ }
  rcases List.mem_append.mp hd with hd | hd
  · exact h.delayed d hd
  · rw [List.mem_singleton.mp hd]
    exact hj

theorem Attempted.requeued {j : Job} (h : Attempted p) (hone : 1 ≤ j.attempt)
    (hj : j.attempt ≤ p.retry.maxAttempts) : Attempted { p with ready := insertByPlan j.yielded p.ready } := by
  refine { h with ready := fun k hk => ?_ }
  rcases mem_insertByPlan hk with rfl | hk
  · show j.attempt - 1 < p.retry.maxAttempts
    omega
  · exact h.ready k hk

theorem Attempted.launched {job : Job} {rest : List Job} {slotId : Nat} (h : Attempted p)
    (first : p.ready = job :: rest) : Attempted (p.launched job rest slotId) := by
  refine { h with ready := fun j hj => h.ready j (first ▸ List.mem_cons_of_mem _ hj), running := fun e he => ?_ }
  rcases List.mem_append.mp he with he | he
  · exact h.running e he
  · rw [List.mem_singleton.mp he]
    exact h.ready job (first ▸ List.mem_cons_self)

theorem Attempted.promoted (h : Attempted p) : Attempted p.promoteDue := by
  refine { h with ready := fun j hj => ?_, delayed := fun d hd => h.delayed d (List.mem_of_mem_filter hd) }
  rw [promoteDue_ready] at hj
  rcases mem_insertAllByPlan hj with hj | hj
  · obtain ⟨d, hd, rfl⟩ := List.mem_map.mp hj
    exact h.delayed d (List.mem_of_mem_filter hd)
  · exact h.ready j hj

theorem Attempted.shrunk {target : Nat} {reason : ShrinkReason} {roster : List Nat} (h : Attempted p) :
    Attempted (p.shrunk target reason roster) := by
  refine { h with running := fun e he => h.running e (List.mem_of_mem_take he), preempted := fun j hj => ?_ }
  rcases List.mem_append.mp hj with hj | hj
  · exact h.preempted j hj
  · obtain ⟨e, he, rfl⟩ := List.mem_map.mp hj
    exact h.running e (List.mem_of_mem_drop (List.mem_reverse.mp he))

theorem Attempted.drained (h : Attempted p) : Attempted p.drained := by
  refine Attempted.calledOff { h with
    ready := fun _ hj => absurd hj List.not_mem_nil
    delayed := fun _ hd => absurd hd List.not_mem_nil } fun j hj => ?_
  rcases List.mem_append.mp (mem_sortByPlan.mp hj) with hj | hj
  · exact Nat.le_of_lt (h.ready j hj)
  · obtain ⟨d, hd, rfl⟩ := List.mem_map.mp hj
    exact Nat.le_of_lt (h.delayed d hd)

theorem Attempted.abandoned (h : Attempted p) : Attempted p.abandoned := by
  refine Attempted.calledOff { h with
    running := fun _ he => absurd he List.not_mem_nil
    preempted := fun _ hj => absurd hj List.not_mem_nil } fun j hj => ?_
  rcases List.mem_append.mp (mem_sortByPlan.mp hj) with hj | hj
  · obtain ⟨e, he, rfl⟩ := List.mem_map.mp hj
    exact h.running e he
  · exact h.preempted j hj

/-- No act takes a job beyond the attempts that it has. -/
theorem Attempted.act (h : Attempted p) (hs : Sound jobs p) (hact : Act p q) : Attempted q := by
  cases hact with
  | succeed _ taken | giveUp _ taken =>
      have hle := h.taken_le taken
      refine (h.take taken _).emit ?_
      rw [(taken.frame _).1]
      exact hle
  | postpone _ taken _ _ again =>
      refine (h.take taken _).postponed ?_
      rw [(taken.frame _).1]
      exact RetryPolicy.lt_of_requeue again
  | callOff _ _ taken =>
      refine (h.take taken _).calledOff fun k hk => ?_
      rw [List.mem_singleton.mp hk, (taken.frame _).1]
      exact h.taken_le taken
  | requeue _ taken =>
      have hretry := congrArg RetryPolicy.maxAttempts (taken.frame .interrupted).1
      exact Attempted.requeued (h.take taken .interrupted) (hs.placed.take taken).2.2
        (Nat.le_trans (h.taken_le taken) (Nat.le_of_eq hretry.symm))
  | shrink => exact h.shrunk
  | drain => exact h.drained
  | abandon => exact h.abandoned
  | promote => exact h.promoted
  | launch _ _ first => exact h.launched first
  | _ => exact { h with }

theorem kept_attempted : Kept jobs Attempted where
  act := fun hs h hact => h.act hs hact
  news := by
    intro p q _ h hnews
    cases hnews <;> exact { h with }
  receive := fun _ _ h => { h with }

theorem Attempted.submit {policy : PoolPolicy} {retry : RetryPolicy} {gracePeriod clock : Nat}
    {draws : Nat → Nat → Nat} {pressure : MemoryPressure}
    (h : submit? policy retry gracePeriod draws pressure clock jobs = some p) (hone : 1 ≤ retry.maxAttempts)
    (hfresh : ∀ j ∈ jobs, j.attempt = 0) : Attempted p := by
  obtain ⟨_, _, _, rfl⟩ := submit?_eq h
  refine { ready := fun j hj => ?_, delayed := ?_, running := ?_, preempted := ?_, ended := ?_ }
  · rcases mem_insertAllByPlan hj with hj | hj
    · have := hfresh j hj
      show j.attempt < retry.maxAttempts
      omega
    · cases hj
  all_goals exact fun _ hm => absurd hm List.not_mem_nil

end Pool

end PageAudit
