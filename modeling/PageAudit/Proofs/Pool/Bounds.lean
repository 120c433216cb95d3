import PageAudit.Proofs.Concurrency.Window
import PageAudit.Proofs.Pool.Attempts
import PageAudit.Proofs.Pool.Weights

/-!
# Bounded work

However the memory and the attempts behave, a pool repeats, preempts and starts attempts only so often. Successes
pay for growths, growths and the number to start with pay for shrinks, and shrinks pay for preempted attempts,
the only ones that a job does not count.
-/

namespace PageAudit

/-- A change in the number of attempts allowed, before and after it. -/
def ProgressEvent.change? : ProgressEvent → Option (Nat × Nat)
  | .concurrencyChanged before after _ => some (before, after)
  | _ => none

theorem Result.event_change? (r : Result) (reason : FinalizeReason) : (r.event reason).change? = none := by
  unfold Result.event
  split <;> rfl

theorem PoolReport.countFinal_eq (r : PoolReport) (e : ProgressEvent) :
    ∃ succeeded failed cancelled, r.countFinal e = { r with succeeded, failed, cancelled } := by
  cases e <;> exact ⟨_, _, _, rfl⟩

namespace Pool

/-- The changes in the number of attempts allowed that a pool has told of. -/
def changes (p : Pool) : List (Nat × Nat) :=
  p.events.filterMap (·.2.change?)

/-- By how much all shrinks together lowered the number of attempts allowed. -/
def lowered (p : Pool) : Nat := (p.changes.map fun c => c.1 - c.2).sum

/-- By how much all growths together raised the number of attempts allowed. -/
def raised (p : Pool) : Nat := (p.changes.map fun c => c.2 - c.1).sum

variable {jobs : List Job} {p q : Pool}

/-! ## Changes -/

theorem changes_emit (p : Pool) (r : Result) (reason : FinalizeReason) : (p.emit r reason).changes = p.changes := by
  simp [changes, emit, notify, Result.event_change?]

theorem changes_calledOff (p : Pool) (reason : String) (js : List Job) :
    (p.calledOff reason js).changes = p.changes := by
  simp [changes, calledOff, ProgressEvent.change?]

theorem changes_postponed (p : Pool) (j : Job) (delayMs : Nat) (classification : Classification)
    (e : AttemptError) : (p.postponed j delayMs classification e).changes = p.changes := by
  simp [changes, postponed, ProgressEvent.change?]

theorem changes_launched (p : Pool) (job : Job) (rest : List Job) (slotId : Nat) :
    (p.launched job rest slotId).changes = p.changes := by
  simp [changes, launched, ProgressEvent.change?]

/-- What a pool has told of changes, with what it may do by now. -/
structure Steady (p q : Pool) : Prop where
  changes : q.changes = p.changes
  allowed : q.allowed = p.allowed
  policy : q.concurrency.policy = p.concurrency.policy
  stopped : q.stopped = p.stopped
  growEvents : q.report.growEvents = p.report.growEvents

/-- An act leaves the number of attempts allowed as it is, or shrinks, or grows. -/
inductive Shifted (p q : Pool) : Prop where
  | steady (h : Steady p q)
  | shrunk {target : Nat} {reason : ShrinkReason} {roster : List Nat} (least : target < p.allowed)
      (eq : q = p.shrunk target reason roster)
  | grown {target : Nat} (full : p.concurrency.window.isFull = true)
      (healthy : p.concurrency.window.allSuccesses = true)
      (sum : target = min (p.allowed + p.concurrency.policy.growStep) p.concurrency.policy.maxConcurrency)
      (eq : q = p.grown target)

theorem Steady.emit {r : Result} {reason : FinalizeReason} (h : Steady p q) : Steady p (q.emit r reason) := by
  obtain ⟨_, _, _, he⟩ := q.report.countFinal_eq (r.event reason)
  refine { h with changes := (changes_emit ..).trans h.changes, growEvents := ?_ }
  simp only [Pool.emit, he, notify]
  exact h.growEvents

theorem Steady.taken {r : SlotReport} {held : Bool} {job : Job} (ht : p.Taken r held job q) (o : AttemptOutcome) :
    Steady p (q.recordOutcome o) := by
  obtain ⟨_, _, _, _, _, _, _, he⟩ := ht.recordOutcome_eq o
  rw [he]
  exact ⟨rfl, rfl, rfl, rfl, rfl⟩

theorem Act.shifted (hact : Act p q) : Shifted p q := by
  cases hact with
  | succeed _ taken | giveUp _ taken => exact .steady (Steady.taken taken _).emit
  | postpone _ taken =>
      exact .steady { Steady.taken taken _ with
        changes := (changes_postponed ..).trans (Steady.taken taken _).changes }
  | callOff _ _ taken =>
      exact .steady { Steady.taken taken _ with
        changes := (changes_calledOff ..).trans (Steady.taken taken _).changes }
  | requeue _ taken => exact .steady { Steady.taken taken .interrupted with }
  | shrink _ _ _ less => exact .shrunk less rfl
  | grow _ full healthy sum => exact .grown full healthy sum rfl
  | drain | abandon => exact .steady ⟨changes_calledOff .., rfl, rfl, rfl, rfl⟩
  | launch => exact .steady ⟨changes_launched .., rfl, rfl, rfl, rfl⟩
  | _ => exact .steady ⟨rfl, rfl, rfl, rfl, rfl⟩

/-- Shrinks pay for preempted attempts, and the number to start with and growths pay for shrinks. -/
structure Balanced (starting : Nat) (p : Pool) : Prop where
  stopped : p.stopped.length ≤ p.lowered
  balance : p.allowed + p.lowered = starting + p.raised
  bounded : p.raised ≤ p.concurrency.policy.growStep * p.report.growEvents

theorem Balanced.steady {starting : Nat} (h : Balanced starting p) (hq : Steady p q) : Balanced starting q := by
  obtain ⟨hchanges, hallowed, hpolicy, hstopped, hgrow⟩ := hq
  have hlowered : q.lowered = p.lowered := by rw [lowered, hchanges, lowered]
  have hraised : q.raised = p.raised := by rw [raised, hchanges, raised]
  exact ⟨by rw [hstopped, hlowered]; exact h.stopped, by rw [hallowed, hlowered, hraised]; exact h.balance,
    by rw [hraised, hpolicy, hgrow]; exact h.bounded⟩

theorem Balanced.act {starting : Nat} (h : Balanced starting p) (hs : Sound jobs p) (hact : Act p q) :
    Balanced starting q := by
  have hstopped := h.stopped
  have hbalance := h.balance
  have hraised := h.bounded
  rcases hact.shifted with hq | @⟨target, reason, roster, less, rfl⟩ | @⟨target, _, _, sum, rfl⟩
  · exact h.steady hq
  · have hchanges : (p.shrunk target reason roster).changes = p.changes ++ [(p.allowed, target)] := by
      simp [changes, Pool.shrunk, ProgressEvent.change?]
    have hlowered : (p.shrunk target reason roster).lowered = p.lowered + (p.allowed - target) := by
      simp [lowered, hchanges]
    have hsame : (p.shrunk target reason roster).raised = p.raised := by
      simp [raised, hchanges]
      omega
    refine ⟨?_, ?_, ?_⟩
    -- At most as many attempts run as were allowed, so a shrink stops no more of them than it takes away.
    · have hvictims : (p.victims target).length = p.running.length - target := by simp [victims]
      have hlength : (p.shrunk target reason roster).stopped.length =
          p.stopped.length + (p.victims target).length := by
        simp [Pool.shrunk]
      have hrunning := hs.slotted.occupied
      have hwithin := hs.slotted.within
      omega
    · show target + _ = _
      omega
    · rw [hsame]
      exact hraised
  · have hchanges : (p.grown target).changes = p.changes ++ [(p.allowed, target)] := by
      simp [changes, Pool.grown, ProgressEvent.change?]
    have hleast := hs.slotted.most
    have hlowered : (p.grown target).lowered = p.lowered := by
      simp [lowered, hchanges]
      omega
    have hmore : (p.grown target).raised = p.raised + (target - p.allowed) := by
      simp [raised, hchanges]
    refine ⟨?_, ?_, ?_⟩
    · rw [hlowered]
      exact hstopped
    · show target + _ = _
      omega
    · show _ ≤ p.concurrency.policy.growStep * (p.report.growEvents + 1)
      rw [hmore, Nat.mul_add, Nat.mul_one]
      omega

/-! ## Growths -/

/-- Every growth used up a window of successes. -/
structure Earned (p : Pool) : Prop where
  capacity : p.concurrency.window.capacity = max p.concurrency.policy.windowSize 1
  paid : p.report.growEvents * p.concurrency.window.capacity + p.concurrency.window.entries.count .success ≤
    p.report.succeeded
  counted : p.report.succeeded ≤ p.results.length

theorem Taken.window {r : SlotReport} {held : Bool} {job : Job} (ht : p.Taken r held job q) (o : AttemptOutcome) :
    (q.recordOutcome o).concurrency.window.capacity = p.concurrency.window.capacity ∧
      ((∀ metrics, o ≠ .completed metrics) →
        (q.recordOutcome o).concurrency.window.entries.count .success ≤
          p.concurrency.window.entries.count .success) ∧
      (q.recordOutcome o).concurrency.window.entries.count .success ≤
        p.concurrency.window.entries.count .success + 1 := by
  have hq : q.concurrency = p.concurrency := by cases ht <;> rfl
  have hsuccess := p.concurrency.window.count_record_le .success
  have hfailure := p.concurrency.window.count_record_le .failure
  cases o with
  | completed metrics =>
      simp only [recordOutcome, record, Concurrency.record, hq]
      exact ⟨rfl, fun h => absurd rfl (h metrics), hsuccess⟩
  | interrupted =>
      simp only [recordOutcome, hq]
      exact ⟨trivial, fun _ => Nat.le_refl _, Nat.le_succ _⟩
  | failed e =>
      by_cases hk : (e.kind == .resource) = true
      · simp only [recordOutcome, hk, hq, ↓reduceIte]
        exact ⟨trivial, fun _ => Nat.le_refl _, Nat.le_succ _⟩
      · simp only [recordOutcome, hk, record, Concurrency.record, hq, Bool.false_eq_true, ↓reduceIte]
        exact ⟨rfl, fun _ => hfailure, Nat.le_succ_of_le hfailure⟩

/-- What a pool has earned can only grow when the window loses successes and results are added. -/
theorem Earned.mono (h : Earned p) (hpolicy : q.concurrency.policy = p.concurrency.policy)
    (hcapacity : q.concurrency.window.capacity = p.concurrency.window.capacity)
    (hcount : q.concurrency.window.entries.count .success ≤ p.concurrency.window.entries.count .success)
    (hgrow : q.report.growEvents = p.report.growEvents) (hsucceeded : q.report.succeeded = p.report.succeeded)
    (hresults : p.results.length ≤ q.results.length) : Earned q := by
  have hpaid := h.paid
  have hcounted := h.counted
  refine ⟨by rw [hcapacity, hpolicy]; exact h.capacity, ?_, by omega⟩
  rw [hgrow, hcapacity, hsucceeded]
  omega

theorem Earned.taken {r : SlotReport} {held : Bool} {job : Job} (h : Earned p) (ht : p.Taken r held job q)
    (ho : ∀ metrics, r.outcome ≠ .completed metrics) : Earned (q.recordOutcome r.outcome) := by
  obtain ⟨hcapacity, hcount, _⟩ := ht.window r.outcome
  have hfew := hcount ho
  obtain ⟨_, _, _, _, _, _, _, he⟩ := ht.recordOutcome_eq r.outcome
  rw [he] at hcapacity hfew ⊢
  exact h.mono rfl hcapacity hfew rfl rfl (Nat.le_refl _)

theorem Earned.succeed {r : SlotReport} {held : Bool} {job : Job} {metrics : Metrics} (h : Earned p)
    (ht : p.Taken r held job q) (now : Nat) :
    Earned ((q.recordOutcome r.outcome).emit (.succeeded (job.enter .succeeded) now metrics) .fatal) := by
  have hpaid := h.paid
  have hcounted := h.counted
  obtain ⟨hcapacity, _, hcount⟩ := ht.window r.outcome
  obtain ⟨_, _, _, _, _, _, _, he⟩ := ht.recordOutcome_eq r.outcome
  rw [he] at hcapacity hcount ⊢
  refine ⟨hcapacity.trans h.capacity, ?_, ?_⟩
  · show p.report.growEvents * _ + _ ≤ p.report.succeeded + 1
    dsimp only [Pool.emit, notify] at hcapacity hcount ⊢
    rw [hcapacity]
    omega
  · show p.report.succeeded + 1 ≤ (p.results ++ [_]).length
    rw [List.length_append, List.length_singleton]
    omega

theorem Earned.act (h : Earned p) (hact : Act p q) : Earned q := by
  have hpaid := h.paid
  have hcounted := h.counted
  cases hact with
  | succeed _ taken => exact h.succeed taken _
  | giveUp _ taken outcome =>
      exact (h.taken taken (by simp [outcome])).mono rfl rfl (Nat.le_refl _) rfl rfl (by simp [Pool.emit, notify])
  | postpone _ taken outcome =>
      exact { h.taken taken (by simp [outcome]) with }
  | callOff _ _ taken why =>
      refine (h.taken taken ?_).mono rfl rfl (Nat.le_refl _) rfl rfl (by simp [Pool.calledOff])
      rcases why with ⟨ho, _⟩ | ⟨_, _, _, _, ho, _⟩ <;> simp [ho]
  | requeue _ taken =>
      cases taken with
      | preempted => exact { h with }
  | grow _ full healthy =>
      -- The window that pays for a growth held nothing but successes, and is empty afterwards.
      have hfull := Window.count_of_full full healthy
      refine ⟨h.capacity, ?_, hcounted⟩
      show (p.report.growEvents + 1) * p.concurrency.window.capacity + 0 ≤ p.report.succeeded
      rw [Nat.add_mul, Nat.one_mul]
      omega
  | drain | abandon =>
      exact h.mono rfl rfl (Nat.le_refl _) rfl rfl (by simp [Pool.drained, Pool.abandoned, Pool.calledOff])
  | _ => exact { h with }

/-! ## Attempts -/

/-- A retry is charged to its job once it waits for it; a job that has ended may have used all of its retries. -/
def retryWeights (limit : Nat) : Weights where
  waiting := (·.attempt)
  running j := j.attempt - 1
  preempted j := j.attempt - 1
  ended _ := limit - 1
  lost := 0

/-- An attempt is charged to its job, and to the loss of its slot as long as the job need not count it. -/
def startWeights : Weights where
  waiting := (·.attempt)
  running := (·.attempt)
  preempted j := j.attempt - 1
  ended := (·.attemptsUsed)
  lost := 1

theorem retryWeights_fair (limit : Nat) : (retryWeights limit).Fair limit where
  begins _ _ := Nat.le_refl _
  waits _ := ⟨Nat.sub_le _ _, Nat.sub_le _ _⟩
  yields _ := Nat.le_refl _
  loses _ := Nat.le_refl _
  ends _ _ _ hle := ⟨Nat.sub_le_sub_right hle 1, Nat.sub_le_sub_right hle 1⟩
  drops _ _ _ hlt := Nat.le_sub_one_of_lt hlt

theorem startWeights_fair (limit : Nat) : startWeights.Fair limit where
  begins _ _ := Nat.le_succ _
  waits _ := ⟨Nat.le_refl _, Nat.sub_le _ _⟩
  yields _ := Nat.le_refl _
  loses j := by
    show j.attempt ≤ j.attempt - 1 + 1
    omega
  ends _ _ hr _ := ⟨Nat.le_of_eq hr.symm, Nat.le_trans (Nat.sub_le _ _) (Nat.le_of_eq hr.symm)⟩
  drops _ _ hr _ := Nat.le_of_eq hr.symm

/-- All retries and all attempts started are charged. -/
structure Charged (p : Pool) : Prop where
  attempted : Attempted p
  retries : p.report.retries ≤ p.weight (retryWeights p.retry.maxAttempts)
  dispatched : p.report.dispatchedAttempts ≤ p.weight startWeights

theorem emit_counts (p : Pool) (r : Result) (reason : FinalizeReason) :
    (p.emit r reason).report.retries = p.report.retries ∧
      (p.emit r reason).report.dispatchedAttempts = p.report.dispatchedAttempts := by
  obtain ⟨_, _, _, he⟩ := p.report.countFinal_eq (r.event reason)
  simp only [emit, notify, he]
  exact ⟨trivial, trivial⟩

theorem Sound.weight_postponed {r : SlotReport} {held : Bool} {job : Job} {delayMs : Nat}
    {classification : Classification} {e : AttemptError} (hs : Sound jobs p) (ht : p.Taken r held job q)
    (o : AttemptOutcome) (limit : Nat) : p.weight (retryWeights limit) + 1 ≤
      ((q.recordOutcome o).postponed job delayMs classification e).weight (retryWeights limit) := by
  have hone := (hs.placed.take ht).2.2
  have htaken := hs.weight_taken (w := retryWeights limit) ht o (Nat.le_refl (job.attempt - 1)) (Nat.le_refl _)
  rw [Pool.weight_postponed]
  show _ ≤ _ + job.attempt
  omega

/-- A retry is counted when a job is told to wait, and an attempt when it is started; both are charged then. -/
theorem Act.counts (hact : Act p q) (hs : Sound jobs p) :
    (q.report.retries = p.report.retries ∧ q.report.dispatchedAttempts = p.report.dispatchedAttempts) ∨
    (q.report.retries = p.report.retries + 1 ∧ q.report.dispatchedAttempts = p.report.dispatchedAttempts ∧
      ∀ limit, p.weight (retryWeights limit) + 1 ≤ q.weight (retryWeights limit)) ∨
    (q.report.retries = p.report.retries ∧ q.report.dispatchedAttempts = p.report.dispatchedAttempts + 1 ∧
      p.weight startWeights + 1 ≤ q.weight startWeights) := by
  cases hact with
  | succeed _ taken | giveUp _ taken =>
      left
      obtain ⟨_, _, _, _, _, _, _, he⟩ := taken.recordOutcome_eq _
      rw [he]
      exact emit_counts ..
  | postpone _ taken =>
      refine Or.inr (Or.inl ⟨?_, ?_, hs.weight_postponed taken _⟩)
      all_goals
        obtain ⟨_, _, _, _, _, _, _, he⟩ := taken.recordOutcome_eq _
        rw [he]
        rfl
  | callOff _ _ taken =>
      left
      obtain ⟨_, _, _, _, _, _, _, he⟩ := taken.recordOutcome_eq _
      rw [he]
      exact ⟨rfl, rfl⟩
  | requeue _ taken =>
      cases taken with
      | preempted => exact Or.inl ⟨rfl, rfl⟩
  | launch _ _ first =>
      rename_i job rest slotId _ _ _ _
      have hlaunch := weight_launched startWeights slotId first
      have hmore : startWeights.running (job.begun p.clock) = startWeights.waiting job + 1 := rfl
      exact Or.inr (Or.inr ⟨rfl, rfl, by omega⟩)
  | _ => exact Or.inl ⟨rfl, rfl⟩

theorem Charged.act (h : Charged p) (hs : Sound jobs p) (hact : Act p q) : Charged q := by
  have hretries := h.retries
  have hdispatched := h.dispatched
  have hretryWeight := hact.weight_le (retryWeights_fair _) hs h.attempted
  have hstartWeight := hact.weight_le (startWeights_fair _) hs h.attempted
  refine ⟨h.attempted.act hs hact, ?_, ?_⟩
  · rw [hact.settings.2]
    rcases hact.counts hs with ⟨hr, _⟩ | ⟨hr, _, hmore⟩ | ⟨hr, _⟩
    · omega
    · have := hmore p.retry.maxAttempts
      omega
    · omega
  · rcases hact.counts hs with ⟨_, hd⟩ | ⟨_, hd, _⟩ | ⟨_, hd, hmore⟩ <;> omega

/-! ## Whole runs -/

theorem sum_map_le_mul {α : Type} {l : List α} {f : α → Nat} {c : Nat} (h : ∀ a ∈ l, f a ≤ c) :
    (l.map f).sum ≤ c * l.length := by
  have hle := sum_map_le (g := fun _ => 0 + c) fun a ha => Nat.le_trans (h a ha) (Nat.le_add_left c 0)
  rw [sum_map_add_const] at hle
  simpa using hle

/-- All jobs together are charged with at most the retries that each of them has. -/
theorem Attempted.retryWeights_le (h : Attempted p) (hs : Sound jobs p) :
    p.weight (retryWeights p.retry.maxAttempts) ≤ (p.retry.maxAttempts - 1) * jobs.length := by
  have hready : (p.ready.map (·.attempt)).sum ≤ (p.retry.maxAttempts - 1) * p.ready.length :=
    sum_map_le_mul fun j hj => Nat.le_sub_one_of_lt (h.ready j hj)
  have hdelayed : (p.delayed.map (·.job.attempt)).sum ≤ (p.retry.maxAttempts - 1) * p.delayed.length :=
    sum_map_le_mul fun d hd => Nat.le_sub_one_of_lt (h.delayed d hd)
  have hrunning : (p.running.map (·.job.attempt - 1)).sum ≤ (p.retry.maxAttempts - 1) * p.running.length :=
    sum_map_le_mul fun e he => Nat.sub_le_sub_right (h.running e he) 1
  have hpreempted : (p.preempted.map (·.attempt - 1)).sum ≤ (p.retry.maxAttempts - 1) * p.preempted.length :=
    sum_map_le_mul fun j hj => Nat.sub_le_sub_right (h.preempted j hj) 1
  have hended : (p.results.map fun _ => p.retry.maxAttempts - 1).sum ≤
      (p.retry.maxAttempts - 1) * p.results.length := sum_map_le_mul fun _ _ => Nat.le_refl _
  have hlength := congrArg ((p.retry.maxAttempts - 1) * ·) hs.placed.length
  simp only [Nat.mul_add, List.length_nil, Nat.mul_zero] at hlength
  simp only [weight, retryWeights, Nat.zero_mul]
  omega

/-- All jobs together are charged with at most the attempts that each of them has, and with lost slots. -/
theorem Attempted.startWeights_le (h : Attempted p) (hs : Sound jobs p) :
    p.weight startWeights ≤ p.retry.maxAttempts * jobs.length + p.stopped.length := by
  have hready : (p.ready.map (·.attempt)).sum ≤ p.retry.maxAttempts * p.ready.length :=
    sum_map_le_mul fun j hj => Nat.le_of_lt (h.ready j hj)
  have hdelayed : (p.delayed.map (·.job.attempt)).sum ≤ p.retry.maxAttempts * p.delayed.length :=
    sum_map_le_mul fun d hd => Nat.le_of_lt (h.delayed d hd)
  have hrunning : (p.running.map (·.job.attempt)).sum ≤ p.retry.maxAttempts * p.running.length :=
    sum_map_le_mul fun e he => h.running e he
  have hpreempted : (p.preempted.map (·.attempt - 1)).sum ≤ p.retry.maxAttempts * p.preempted.length :=
    sum_map_le_mul fun j hj => Nat.le_trans (Nat.sub_le _ _) (h.preempted j hj)
  have hended : (p.results.map (·.2.attemptsUsed)).sum ≤ p.retry.maxAttempts * p.results.length :=
    sum_map_le_mul fun x hx => h.ended x hx
  have hlength := congrArg (p.retry.maxAttempts * ·) hs.placed.length
  simp only [Nat.mul_add, List.length_nil, Nat.mul_zero] at hlength
  simp only [weight, startWeights, Nat.one_mul]
  omega

/-- All that bounds the work of a pool. -/
structure Metered (policy : PoolPolicy) (retry : RetryPolicy) (starting : Nat) (p : Pool) : Prop where
  policy : p.concurrency.policy = policy
  retry : p.retry = retry
  balanced : Balanced starting p
  earned : Earned p
  charged : Charged p

theorem kept_metered (policy : PoolPolicy) (retry : RetryPolicy) (starting : Nat) :
    Kept jobs (Metered policy retry starting) where
  act hs h hact :=
    ⟨hact.settings.1.trans h.policy, hact.settings.2.trans h.retry, h.balanced.act hs hact, h.earned.act hact,
      h.charged.act hs hact⟩
  news := by
    intro p q hs h hnews
    cases hnews <;>
      exact ⟨h.policy, h.retry, { h.balanced with }, { h.earned with },
        { h.charged with attempted := { h.charged.attempted with } }⟩
  receive _ _ h :=
    ⟨h.policy, h.retry, { h.balanced with }, { h.earned with },
      { h.charged with attempted := { h.charged.attempted with } }⟩

variable {policy : PoolPolicy} {retry : RetryPolicy} {gracePeriod clock : Nat} {draws : Nat → Nat → Nat}
  {pressure : MemoryPressure}

theorem Metered.submit (h : submit? policy retry gracePeriod draws pressure clock jobs = some p)
    (hone : 1 ≤ retry.maxAttempts) (hfresh : ∀ j ∈ jobs, j.attempt = 0) : Metered policy retry p.allowed p := by
  have hattempted := Attempted.submit h hone hfresh
  obtain ⟨_, _, _, rfl⟩ := submit?_eq h
  exact {
    policy := rfl
    retry := rfl
    balanced := ⟨Nat.le_refl _, rfl, Nat.zero_le _⟩
    earned := ⟨rfl, by simp [Window.ofSize], Nat.zero_le _⟩
    charged := ⟨hattempted, Nat.zero_le _, Nat.zero_le _⟩ }

/-- No more often than the jobs fill windows does a pool grow. -/
theorem Metered.growEvents_le {starting : Nat} (h : Metered policy retry starting p) (hs : Sound jobs p)
    (hwindow : 1 ≤ policy.windowSize) : p.report.growEvents ≤ jobs.length / policy.windowSize := by
  have hcapacity := h.earned.capacity
  have hpaid := h.earned.paid
  have hcounted := h.earned.counted
  have hlength := hs.placed.length
  rw [h.policy, Nat.max_eq_left hwindow] at hcapacity
  rw [hcapacity] at hpaid
  exact (Nat.le_div_iff_mul_le hwindow).mpr (by omega)

/-- The work of a pool is bounded: `starting` attempts were allowed at the beginning. -/
structure Bounded (jobs : List Job) (policy : PoolPolicy) (retry : RetryPolicy) (starting : Nat) (p : Pool) :
    Prop where
  growths : p.report.growEvents ≤ jobs.length / policy.windowSize
  preempted : p.stopped.length ≤ p.lowered
  /-- What shrinks took away is what is missing from the beginning and from the growths. -/
  balance : p.allowed + p.lowered = starting + p.raised
  raised : p.raised ≤ policy.growStep * p.report.growEvents
  retries : p.report.retries ≤ jobs.length * (retry.maxAttempts - 1)
  dispatched : p.report.dispatchedAttempts ≤ jobs.length * retry.maxAttempts +
    (starting - policy.minConcurrency) + policy.growStep * (jobs.length / policy.windowSize)
  final : p.phase = .ended → p.fault = none → p.report.finalConcurrency = p.allowed

theorem Metered.bounded {starting : Nat} (h : Metered policy retry starting p) (hs : Sound jobs p)
    (hwindow : 1 ≤ policy.windowSize) : Bounded jobs policy retry starting p := by
  have hgrowths := h.growEvents_le hs hwindow
  have hraised := h.balanced.bounded
  have hbalance := h.balanced.balance
  have hstopped := h.balanced.stopped
  have hretryWeight := h.charged.attempted.retryWeights_le hs
  have hstartWeight := h.charged.attempted.startWeights_le hs
  have hretries := h.charged.retries
  have hdispatched := h.charged.dispatched
  have hleast := hs.slotted.least
  rw [h.policy] at hraised hleast
  rw [h.retry, Nat.mul_comm] at hretryWeight hstartWeight
  rw [h.retry] at hretries
  have hstep := Nat.mul_le_mul_left policy.growStep hgrowths
  exact {
    growths := hgrowths
    preempted := hstopped
    balance := hbalance
    raised := hraised
    retries := Nat.le_trans hretries hretryWeight
    dispatched := by omega
    final := fun hphase hfault => (hs.phased.ended hphase hfault).2 }

/-- However attempts end, the memory behaves and things come about, the work of a pool is bounded. -/
theorem after_bounded (hpolicy : policy.validate = .ok ()) (hretry : retry.validate = .ok ())
    (hjobs : Submittable jobs) (hfresh : ∀ j ∈ jobs, j.attempt = 0) (inputs : List PoolInput) :
    ∃ p, submit? policy retry gracePeriod draws pressure clock jobs = some p ∧
      policy.starting? = some p.allowed ∧ Bounded jobs policy retry p.allowed (p.after inputs) := by
  have hvalid := PoolPolicy.Valid.of_validate hpolicy
  obtain ⟨p, hp⟩ := submit?_isSome hvalid.ordered
  have hsound := Sound.submit hp hjobs
  have hmetered := Metered.submit hp (RetryPolicy.one_le_of_validate hretry) hfresh
  have hstarting : policy.starting? = some p.allowed := by
    obtain ⟨c, hc, rfl⟩ := Option.map_eq_some_iff.mp hp
    obtain ⟨n, hn, rfl⟩ := Option.map_eq_some_iff.mp hc
    exact hn
  have hafter := (kept_metered policy retry p.allowed).after hsound hmetered inputs
  exact ⟨p, hp, hstarting, hafter.bounded (hsound.after inputs) hvalid.window⟩

theorem twoPages_after_bounded : PoolPolicy.validate {} = .ok () ∧ RetryPolicy.validate {} = .ok () ∧
    Submittable twoPages ∧ (∀ j ∈ twoPages, j.attempt = 0) ∧
    ∃ p, submit? {} {} 0 (fun _ _ => 0) {} 0 twoPages = some p ∧ PoolPolicy.starting? {} = some p.allowed ∧
      Bounded twoPages {} {} p.allowed
        (p.after [.turn, .pressure { used := 8 * 1024 * 1024 * 1024 }, .turn, .report 1 (.completed []), .turn]) :=
  ⟨rfl, rfl, twoPages_submittable, by decide, after_bounded rfl rfl twoPages_submittable (by decide) _⟩

end Pool

end PageAudit
