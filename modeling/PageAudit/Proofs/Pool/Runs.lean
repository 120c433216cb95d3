import PageAudit.Proofs.Config.Validity
import PageAudit.Proofs.Pool.Turns

/-!
# Runs of a pool

A pool is sound from the beginning and stays so whatever comes to it. A property that acts, news and reports keep
holds all along.
-/

namespace PageAudit

/-- Jobs as they are handed to a pool. -/
structure Submittable (jobs : List Job) : Prop where
  queued : ∀ j ∈ jobs, j.state = .queued
  distinct : (jobs.map (·.planIndex)).Nodup

/-- Two pages as they are handed to a pool. -/
def twoPages : List Job :=
  [{ id := "job-1", url := "https://a.example", planIndex := 0 },
    { id := "job-2", url := "https://b.example", planIndex := 1 }]

theorem twoPages_submittable : Submittable twoPages := ⟨by decide, by decide⟩

namespace Pool

variable {jobs : List Job} {p q : Pool} {policy : PoolPolicy} {retry : RetryPolicy} {gracePeriod clock : Nat}
  {draws : Nat → Nat → Nat} {pressure : MemoryPressure}

/-! ## The beginning -/

theorem submit?_isSome (h : policy.minConcurrency ≤ policy.maxConcurrency) :
    ∃ p, submit? policy retry gracePeriod draws pressure clock jobs = some p := by
  simp [submit?, Concurrency.start?, PoolPolicy.starting?, h]

theorem submit?_eq (h : submit? policy retry gracePeriod draws pressure clock jobs = some p) :
    ∃ allowed, policy.minConcurrency ≤ allowed ∧ allowed ≤ policy.maxConcurrency ∧ p = {
      retry, gracePeriod, draws, clock, pressure
      concurrency := ⟨policy, allowed, .ofSize policy.windowSize⟩
      slots := List.replicate policy.maxConcurrency none
      ready := insertAllByPlan jobs []
      report := { minObservedConcurrency := allowed, maxObservedConcurrency := allowed } } := by
  obtain ⟨c, hc, rfl⟩ := Option.map_eq_some_iff.mp h
  obtain ⟨n, hn, rfl⟩ := Option.map_eq_some_iff.mp hc
  unfold PoolPolicy.starting? at hn
  split at hn
  · cases hn
    exact ⟨_, by omega, by omega, rfl⟩
  · cases hn

/-- A pool takes one job for each position, the last one of them. -/
theorem Sound.submit_startable (h : submit? policy retry gracePeriod draws pressure clock jobs = some p)
    (hjobs : ∀ j ∈ jobs, j.state = .queued ∨ j.state = .awaitingRetry) : Sound (insertAllByPlan jobs []) p := by
  obtain ⟨allowed, hleast, hmost, rfl⟩ := submit?_eq h
  have horder : InPlanOrder (insertAllByPlan jobs []) := InPlanOrder.insertAll List.Pairwise.nil
  refine ⟨?_, ?_, ?_, ?_⟩
  · exact {
      distinct := horder.nodup
      accounted := by simp [places]
      order := horder
      ready := fun j hj => hjobs j ((mem_insertAllByPlan hj).resolve_right List.not_mem_nil)
      delayed := fun _ hd => absurd hd List.not_mem_nil
      running := fun _ he => absurd he List.not_mem_nil
      preempted := fun _ hj => absurd hj List.not_mem_nil }
  · exact {
      seqs := List.nodup_nil
      bound := fun _ hf => absurd hf List.not_mem_nil
      places := List.Perm.refl _
      order := List.Pairwise.nil
      reports := fun _ hr => absurd hr List.not_mem_nil
      once := List.nodup_nil
      started := rfl
      stopped := fun _ hs => absurd hs List.not_mem_nil
      running := fun _ he => absurd he List.not_mem_nil
      preempted := fun _ hj => absurd hj List.not_mem_nil }
  · exact {
      length := List.length_replicate
      distinct := List.nodup_nil
      marked := fun _ he => absurd he List.not_mem_nil
      taken := by simp [List.countP_replicate]
      occupied := rfl
      within := Nat.zero_le _
      least := hleast
      most := hmost }
  · exact {
      fault := Or.inl rfl
      drained := fun hd => by cases hd
      pressing := fun hd => by simp at hd
      forcing := fun hp => by cases hp
      fresh := fun _ => rfl
      ended := fun hp => by cases hp }

theorem Sound.submit (h : submit? policy retry gracePeriod draws pressure clock jobs = some p)
    (hjobs : Submittable jobs) : Sound jobs p := by
  have hperm : (insertAllByPlan jobs []).Perm (jobs ++ []) :=
    insertAllByPlan_perm (by simpa using hjobs.distinct)
  rw [List.append_nil] at hperm
  have hsound := Sound.submit_startable h fun j hj => Or.inl (hjobs.queued j hj)
  exact { hsound with
    placed := { hsound.placed with
      distinct := hjobs.distinct
      accounted := hsound.placed.accounted.trans (hperm.map Job.place) } }

/-! ## Moves -/

/-- Anything that changes a pool. -/
inductive Move : Pool → Pool → Prop where
  | act {p q : Pool} (h : Act p q) : Move p q
  | news {p q : Pool} (h : News p q) : Move p q
  | receive {p : Pool} (seq : Nat) (outcome : AttemptOutcome) : Move p (p.receive seq outcome)

/-- Anything that changes a pool, in a row. -/
abbrev Moves : Pool → Pool → Prop := Relation.ReflTransGen Move

theorem Acts.moves (h : Acts p q) : Moves p q := by
  induction h with
  | refl => exact Relation.ReflTransGen.refl
  | tail _ hact ih => exact ih.tail (.act hact)

theorem News.moves (h : News p q) : Moves p q := Relation.ReflTransGen.single (.news h)

theorem Sound.move (h : Sound jobs p) (hmove : Move p q) : Sound jobs q := by
  cases hmove with
  | act hact => exact h.act hact
  | news hnews => exact h.news hnews
  | receive seq outcome => exact h.receive seq outcome

theorem Sound.moves (h : Sound jobs p) (hmoves : Moves p q) : Sound jobs q := by
  induction hmoves with
  | refl => exact h
  | tail _ hmove ih => exact ih.move hmove

/-- A property of sound pools that everything keeps. -/
structure Kept (jobs : List Job) (Inv : Pool → Prop) : Prop where
  act : ∀ {p q : Pool}, Sound jobs p → Inv p → Act p q → Inv q
  news : ∀ {p q : Pool}, Sound jobs p → Inv p → News p q → Inv q
  receive : ∀ {p : Pool} (roster : List Nat) (reports : List SlotReport), Inv p → Inv { p with roster, reports }

variable {Inv : Pool → Prop}

theorem Kept.moves (hk : Kept jobs Inv) (h : Sound jobs p) (hi : Inv p) (hmoves : Moves p q) : Inv q := by
  induction hmoves with
  | refl => exact hi
  | tail hmoves hmove ih =>
      have hs := h.moves hmoves
      cases hmove with
      | act hact => exact hk.act hs ih hact
      | news hnews => exact hk.news hs ih hnews
      | receive seq outcome =>
          obtain ⟨roster, reports, he, _⟩ := Pool.receive_eq _ seq outcome
          rw [he]
          exact hk.receive roster reports ih

/-! ## Whole runs -/

theorem Sound.step_turn (h : Sound jobs p) : Acts p (p.step .turn) := by
  unfold Pool.step
  dsimp only
  split
  · rename_i hfresh
    exact h.start (by simpa using hfresh)
  · cases hq : p.turn? with
    | none => exact Relation.ReflTransGen.refl
    | some q => exact h.turn hq

theorem Sound.step_moves (h : Sound jobs p) (i : PoolInput) : Moves p (p.step i) := by
  cases i with
  | elapse now => exact (News.elapse _).moves
  | cancel => exact News.cancel.moves
  | pressure m => exact (News.pressure m).moves
  | pressureClosed => exact News.closed.moves
  | report seq outcome => exact Relation.ReflTransGen.single (.receive seq outcome)
  | released count => exact (h.released count).moves
  | launcherBroke message => exact (p.acts_launcherBroke message).moves
  | turn => exact h.step_turn.moves

theorem Sound.after_moves (h : Sound jobs p) (inputs : List PoolInput) : Moves p (p.after inputs) := by
  induction inputs generalizing p with
  | nil => exact Relation.ReflTransGen.refl
  | cons i rest ih =>
      have hfirst := h.step_moves i
      exact hfirst.trans (ih (h.moves hfirst))

theorem Sound.after (h : Sound jobs p) (inputs : List PoolInput) : Sound jobs (p.after inputs) :=
  h.moves (h.after_moves inputs)

/-- What holds at the beginning and is kept holds all along. -/
theorem Kept.after (hk : Kept jobs Inv) (h : Sound jobs p) (hi : Inv p) (inputs : List PoolInput) :
    Inv (p.after inputs) :=
  hk.moves h hi (h.after_moves inputs)

theorem Act.settings (hact : Act p q) : q.concurrency.policy = p.concurrency.policy ∧ q.retry = p.retry := by
  cases hact with
  | succeed _ taken | giveUp _ taken | postpone _ taken | callOff _ _ taken =>
      obtain ⟨_, _, _, _, _, _, _, he⟩ := taken.recordOutcome_eq _
      rw [he]
      exact ⟨rfl, rfl⟩
  | requeue _ taken =>
      cases taken with
      | preempted => exact ⟨rfl, rfl⟩
  | _ => exact ⟨rfl, rfl⟩

theorem kept_policy (policy : PoolPolicy) : Kept jobs (fun p => p.concurrency.policy = policy) where
  act := fun _ hi hact => hact.settings.1.trans hi
  news := by
    intro p q _ hi hnews
    cases hnews <;> exact hi
  receive := fun _ _ hi => hi

theorem kept_retry (retry : RetryPolicy) : Kept jobs (fun p => p.retry = retry) where
  act := fun _ hi hact => hact.settings.2.trans hi
  news := by
    intro p q _ hi hnews
    cases hnews <;> exact hi
  receive := fun _ _ hi => hi

end Pool

end PageAudit
