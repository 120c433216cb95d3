import PageAudit.Proofs.Pool.Parts

/-!
# Pools that are cancelled before they begin

A pool that knows of a cancellation when it is polled for the first time calls all jobs off at once, without an attempt.
-/

namespace PageAudit

namespace Pool

/-- A pool that was cancelled has started nothing, and all its results tell of jobs that were called off as they
were. -/
structure Unused (jobs : List Job) (p : Pool) : Prop where
  told : p.cancelled = true
  inFlight : p.inFlight = []
  started : p.started = []
  waiting : ∀ j ∈ p.ready ++ p.delayed.map (·.job), j ∈ jobs
  results : ∀ x ∈ p.results, ∃ j ∈ jobs, ∃ t reason, x.2 = .cancelled j t reason

/-- The pool was cancelled before it began: it has not begun yet, or it has ended. -/
structure Foregone (jobs : List Job) (p : Pool) : Prop extends Unused jobs p where
  phase : p.phase = .fresh ∧ p.draining = false ∨ p.phase = .ended

variable {jobs : List Job} {p q : Pool}

theorem Foregone.news (h : Foregone jobs p) (hnews : News p q) : Foregone jobs q := by
  cases hnews with
  | cancel => exact { h with told := rfl }
  | _ => exact { h with }

/-- Such a pool drains and ends as soon as it makes itself ready to wait. -/
theorem Unused.prepare (h : Unused jobs p) (hs : Sound jobs p) (busy : p.phase = .waiting)
    (going : p.draining = false) : Unused jobs p.prepare ∧ p.prepare.phase = .ended := by
  obtain ⟨hrunning, hpreempted⟩ := hs.inFlight_nil_iff.mp h.inFlight
  have hfinished : p.drained.isFinished = true := by
    simp [isFinished, drained, calledOff, hrunning, hpreempted, h.inFlight]
  have hfault : p.drained.fault = none := hs.phased.busy_no_fault busy
  rw [hs.prepare_of_told busy going h.told, (prepare_eq_of_finished hfault rfl hfinished).1]
  refine ⟨{ h with waiting := fun j hj => ?_, results := fun x hx => ?_ }, rfl⟩
  · simp [close, publish, promoteDue, drained, calledOff] at hj
  · rcases List.mem_append.mp hx with hx | hx
    · exact h.results x hx
    · obtain ⟨j, hj, rfl⟩ := List.mem_map.mp hx
      exact ⟨j, h.waiting j (mem_sortByPlan.mp hj), _, _, rfl⟩

theorem Foregone.start (h : Foregone jobs p) (hs : Sound jobs p) (fresh : p.phase = .fresh) (going : p.draining = false) :
    Foregone jobs p.start ∧ p.start.phase = .ended := by
  obtain ⟨concurrency, report, changes, _, hsound, hstart⟩ := hs.start_eq fresh
  have hready : Unused jobs { p with
      concurrency, report, events := p.events ++ changes, pressureFresh := false, phase := .waiting } := { h with }
  obtain ⟨hunused, hended⟩ := hready.prepare hsound rfl going
  rw [hstart]
  exact ⟨{ hunused with phase := Or.inr hended }, hended⟩

theorem turns_of_ended (h : p.phase = .ended) (n : Nat) : p.turns n = p := by
  cases n with
  | zero => rfl
  | succ n => simp [Pool.turns, turn?, h]

/-- A poll ends the pool. -/
theorem Foregone.poll (h : Foregone jobs p) (hs : Sound jobs p) : Foregone jobs p.poll ∧ p.poll.phase = .ended := by
  rcases h.phase with ⟨fresh, going⟩ | hended
  · obtain ⟨hforegone, hended⟩ := h.start hs fresh going
    have hpoll : p.poll = p.start := by
      rw [Pool.poll, fresh]
      exact turns_of_ended hended _
    exact hpoll ▸ ⟨hforegone, hended⟩
  · have hpoll : p.poll = p := by simp [Pool.poll, hended]
    exact hpoll.symm ▸ ⟨h, hended⟩

theorem Foregone.step_turn (h : Foregone jobs p) (hs : Sound jobs p) : Foregone jobs (p.step .turn) := by
  rcases h.phase with ⟨fresh, going⟩ | hended
  · simpa [step, fresh] using (h.start hs fresh going).1
  · simpa [step, turn?, hended] using h

theorem Foregone.submit {policy : PoolPolicy} {retry : RetryPolicy} {gracePeriod clock : Nat}
    {draws : Nat → Nat → Nat} {pressure : MemoryPressure}
    (h : submit? policy retry gracePeriod draws pressure clock jobs = some p) :
    Foregone jobs { p with cancelled := true } := by
  obtain ⟨_, _, _, rfl⟩ := submit?_eq h
  refine ⟨⟨rfl, rfl, rfl, fun j hj => ?_, fun _ hx => absurd hx List.not_mem_nil⟩, Or.inl ⟨rfl, rfl⟩⟩
  rw [List.map_nil, List.append_nil] at hj
  exact (mem_insertAllByPlan hj).resolve_right List.not_mem_nil

end Pool

namespace PoolSession

open Pool Supervisor

/-- A pool at work that was cancelled before it began. -/
structure Foregone (jobs : List Job) (x : PoolSession) : Prop where
  pool : x.pool.Foregone jobs
  attempts : x.attempts = []
  forced : x.forced = none

variable {jobs : List Job} {x : PoolSession}

theorem Foregone.of_pool (h : x.Foregone jobs) {site : Site} {p : Pool} (hp : p.Foregone jobs) :
    ({ x with site, pool := p } : PoolSession).Foregone jobs :=
  ⟨hp, h.attempts, h.forced⟩

/-- The first poll of the pool ends it, and its end is noted. -/
theorem Foregone.pollPool (h : x.Foregone jobs) (hs : Sound jobs x.pool) :
    x.pollPool.Foregone jobs ∧ x.pollPool.endedAt.isSome = true ∧ x.pollPool.site = x.site := by
  obtain ⟨hpool, hended⟩ := h.pool.poll hs
  have hturned : x.turnOn = { x with pool := x.pool.poll } := by
    simp [turnOn, hended]
  have hpolled : x.pollPool = (({ x with pool := x.pool.poll } : PoolSession).ignore .turns).hire.noteEnd := by
    simp [PoolSession.pollPool, h.forced, hturned, hended]
  have hhired : (({ x with pool := x.pool.poll } : PoolSession).ignore .turns).hire.attempts = [] := by
    simp [hire, ignore, hpool.started, h.attempts]
  rw [hpolled]
  refine ⟨⟨?_, ?_, ?_⟩, ?_, noteEnd_site _⟩
  · rw [noteEnd_pool]
    exact hpool
  · unfold noteEnd
    split <;> exact hhired
  · unfold noteEnd
    split <;> exact h.forced
  · unfold noteEnd
    split
    · rfl
    · rename_i hnoted
      have hphase : (({ x with pool := x.pool.poll } : PoolSession).ignore .turns).hire.pool.phase = .ended := hended
      simpa [hphase, Option.isSome_iff_ne_none] using hnoted

theorem Foregone.pollAttempt (h : x.Foregone jobs) (seq : Nat) : x.pollAttempt seq = x := by
  simp [PoolSession.pollAttempt, h.attempts]

end PoolSession

end PageAudit
