import PageAudit.Proofs.Pool.Runs

/-!
# Consistency

Between two steps of any run the jobs, slots, counts and attempts in flight of a pool agree, no transition of a
job fails, and no more attempts run than are allowed, which is also what the pool shows.
-/

namespace PageAudit

/-- As many jobs run as slots are occupied, and no more than are allowed. -/
def PoolSnapshot.Fits (s : PoolSnapshot) : Prop :=
  s.occupied = s.running.length ∧ s.occupied ≤ s.allowedConcurrency

namespace Pool

/-- The jobs, slots, counts and attempts in flight of a pool agree. -/
structure Consistent (jobs : List Job) (p : Pool) : Prop where
  bounds : p.concurrency.policy.minConcurrency ≤ p.allowed ∧ p.allowed ≤ p.concurrency.policy.maxConcurrency
  occupied : p.occupied = p.running.length ∧ p.occupied = p.slots.countP Option.isSome ∧ p.occupied ≤ p.allowed
  distinct : (p.running.map (·.slotId)).Nodup
  marked : ∀ e ∈ p.running, p.slots[e.slotId]? = some (some e.job.id)
  /-- Every job stands in exactly one place, and nothing else does. -/
  placed : p.places.Perm (jobs.map Job.place) ∧ (p.places.map JobPlace.index).Nodup
  /-- One attempt is in flight for each running and each preempted job. -/
  inFlight : (p.inFlight.map (·.planIndex)).Perm
    (p.running.map (·.job.planIndex) ++ p.preempted.map (·.planIndex))
  running : ∀ e ∈ p.running, e.job.state = .running
  preempted : ∀ j ∈ p.preempted, j.state = .running
  ready : ∀ j ∈ p.ready, j.state = .queued ∨ j.state = .awaitingRetry
  delayed : ∀ d ∈ p.delayed, d.job.state = .awaitingRetry
  /-- No transition of a job has failed, and never have more attempts run than allowed. -/
  unbroken : (∀ e, p.fault ≠ some (.job e)) ∧ p.fault ≠ some .overcommitted
  shown : p.snapshot.Fits ∧ p.currentSnapshot.Fits

variable {jobs : List Job} {p q : Pool} {policy : PoolPolicy} {retry : RetryPolicy} {gracePeriod clock : Nat}
  {draws : Nat → Nat → Nat} {pressure : MemoryPressure}

theorem Slotted.currentSnapshot_fits (h : Slotted p) : p.currentSnapshot.Fits := by
  refine ⟨?_, h.within⟩
  simp [currentSnapshot, (sortByPlan_perm _).length_eq, h.occupied]

theorem Act.snapshot (hact : Act p q) : q.snapshot = p.snapshot ∨ q.snapshot = p.currentSnapshot := by
  cases hact with
  | succeed _ taken | giveUp _ taken | postpone _ taken | callOff _ _ taken =>
      obtain ⟨_, _, _, _, _, _, _, he⟩ := taken.recordOutcome_eq _
      rw [he]
      exact Or.inl rfl
  | requeue _ taken =>
      cases taken with
      | preempted => exact Or.inl rfl
  | publish | close => exact Or.inr rfl
  | _ => exact Or.inl rfl

/-- Whatever a pool shows fits, since it is a state that it was in. -/
theorem kept_snapshot_fits : Kept jobs (fun p => p.snapshot.Fits) where
  act := by
    intro p q h hi hact
    rcases hact.snapshot with hs | hs
    · exact hs ▸ hi
    · exact hs ▸ h.slotted.currentSnapshot_fits
  news := by
    intro p q _ hi hnews
    cases hnews <;> exact hi
  receive := fun _ _ hi => hi

theorem Sound.consistent (h : Sound jobs p) (hs : p.snapshot.Fits) : Consistent jobs p where
  bounds := ⟨h.slotted.least, h.slotted.most⟩
  occupied := ⟨h.slotted.occupied, h.slotted.occupied.trans h.slotted.taken.symm, h.slotted.within⟩
  distinct := h.slotted.distinct
  marked := h.slotted.marked
  placed := by
    have hperm : p.places.Perm (jobs.map Job.place) := h.placed.accounted
    refine ⟨hperm, (hperm.map JobPlace.index).nodup_iff.mpr ?_⟩
    rw [List.map_map]
    exact h.placed.distinct
  inFlight := h.flown.places
  running := fun e he => (h.placed.running e he).1
  preempted := fun j hj => (h.placed.preempted j hj).1
  ready := h.placed.ready
  delayed := h.placed.delayed
  unbroken := by
    rcases h.phased.fault with hf | ⟨-, hf | ⟨-, _, hf⟩⟩ <;> simp [hf]
  shown := ⟨hs, h.slotted.currentSnapshot_fits⟩

/-- A pool with a valid policy can be submitted, and is consistent between any two steps of any run. -/
theorem after_consistent (hpolicy : policy.validate = .ok ()) (hjobs : Submittable jobs) (inputs : List PoolInput) :
    ∃ p, submit? policy retry gracePeriod draws pressure clock jobs = some p ∧
      Consistent jobs (p.after inputs) := by
  obtain ⟨p, hp⟩ := submit?_isSome (PoolPolicy.Valid.of_validate hpolicy).ordered
  have hsound := Sound.submit hp hjobs
  have hfresh : p.snapshot.Fits := by
    obtain ⟨_, _, _, rfl⟩ := submit?_eq hp
    exact ⟨rfl, Nat.le_refl _⟩
  exact ⟨p, hp, (hsound.after inputs).consistent (kept_snapshot_fits.after hsound hfresh inputs)⟩

theorem twoPages_after_consistent : PoolPolicy.validate {} = .ok () ∧ Submittable twoPages ∧
    ∃ p, submit? {} {} 0 (fun _ _ => 0) {} 0 twoPages = some p ∧
      Consistent twoPages (p.after [.turn, .report 1 (.completed []), .turn, .cancel, .turn]) :=
  ⟨rfl, twoPages_submittable, after_consistent rfl twoPages_submittable _⟩

end Pool

end PageAudit
