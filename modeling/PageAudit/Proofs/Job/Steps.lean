import PageAudit.Job.Basic

/-!
# Steps of a job

A job refuses a step that is no transition of it, or that would end it in a state that is not terminal. What it makes of
any other step is said here once.
-/

namespace PageAudit

namespace JobStep

/-- The state that a step leads to. -/
def target : JobStep → JobState
  | .begin => .running
  | .yield => .queued
  | .awaitRetry => .awaitingRetry
  | .finish target => target

/-- A step that ends a job leads to a terminal state. -/
def isProper : JobStep → Bool
  | .finish target => target.isTerminal
  | _ => true

/-- What a step tells once it is taken: the number of an attempt that was begun. -/
def told : JobStep → Job → Option Nat
  | .begin, j => some j.attempt
  | _, _ => none

end JobStep

namespace Job

/-- The job after the beginning of an attempt. -/
def begun (j : Job) (now : Nat) : Job :=
  { j with state := .running, attempt := j.attempt + 1, startedAt := j.startedAt <|> some now }

/-- The job after its running attempt was given up. -/
def yielded (j : Job) : Job :=
  { j with
    state := .queued
    attempt := j.attempt - 1
    startedAt := if j.attempt - 1 == 0 then none else j.startedAt }

/-- The job in another state. -/
def enter (j : Job) (state : JobState) : Job := { j with state }

theorem moveTo_eq {j : Job} {target : JobState} (h : j.state.canBecome target = true) :
    j.moveTo target = .ok (j.enter target) :=
  if_pos h

theorem begin_eq {j : Job} (h : j.state = .queued ∨ j.state = .awaitingRetry) (now : Nat) :
    j.begin now = .ok (j.begun now) := by
  have hmoves : j.state.canBecome .running = true := by rcases h with h | h <;> rw [h] <;> rfl
  rw [begin, moveTo_eq hmoves]
  rfl

theorem yield_eq {j : Job} (h : j.state = .running) : j.yield = .ok j.yielded := by
  rw [yield, moveTo_eq (by rw [h]; rfl)]
  rfl

theorem awaitRetry_eq {j : Job} (h : j.state = .running) : j.awaitRetry = .ok (j.enter .awaitingRetry) :=
  moveTo_eq (by rw [h]; rfl)

theorem finish_eq {j : Job} {target : JobState} (h : j.state = .running) (ht : target.isTerminal = true) :
    j.finish target = .ok (j.enter target) := by
  cases target <;> simp_all [finish, moveTo, JobState.canBecome, JobState.isTerminal, enter]

theorem finish_cancelled_eq {j : Job} (h : j.state.isTerminal = false) :
    j.finish .cancelled = .ok (j.enter .cancelled) := by
  cases hs : j.state <;> simp_all [finish, moveTo, JobState.canBecome, JobState.isTerminal, enter]

/-! ## Refusals -/

variable {j next : Job} {now : Nat} {step : JobStep} {fault : JobFault} {target : JobState}

/-- Why a job refuses a step. -/
inductive Refuses (j : Job) : JobStep → JobFault → Prop where
  | notTerminal {target : JobState} (improper : target.isTerminal = false) :
      Refuses j (.finish target) (.notTerminal target)
  | illegal {step : JobStep} (proper : step.isProper = true) (apart : j.state.canBecome step.target = false) :
      Refuses j step (.illegal j.state step.target)

/-- What a step makes of a job that does not refuse it. -/
inductive Takes (j : Job) (now : Nat) : JobStep → Job → Prop where
  | begin (legal : j.state.canBecome .running = true) : Takes j now .begin (j.begun now)
  | yield (legal : j.state.canBecome .queued = true) : Takes j now .yield j.yielded
  | awaitRetry (legal : j.state.canBecome .awaitingRetry = true) : Takes j now .awaitRetry (j.enter .awaitingRetry)
  | finish {target : JobState} (proper : target.isTerminal = true) (legal : j.state.canBecome target = true) :
      Takes j now (.finish target) (j.enter target)

theorem moveTo_refused (h : j.state.canBecome target = false) : j.moveTo target = .error (.illegal j.state target) :=
  if_neg (by rw [h]; exact Bool.false_ne_true)

/-- A job refuses a step or takes it. -/
theorem take_cases (j : Job) (now : Nat) (step : JobStep) :
    (∃ fault, j.Refuses step fault ∧ j.take now step = .error fault) ∨
    ∃ next, j.Takes now step next ∧ j.take now step = .ok next := by
  cases step with
  | begin =>
      cases h : j.state.canBecome .running with
      | false => exact Or.inl ⟨_, .illegal rfl h, by rw [take, begin, moveTo_refused h]; rfl⟩
      | true => exact Or.inr ⟨_, .begin h, by rw [take, begin, moveTo_eq h]; rfl⟩
  | yield =>
      cases h : j.state.canBecome .queued with
      | false => exact Or.inl ⟨_, .illegal rfl h, by rw [take, yield, moveTo_refused h]; rfl⟩
      | true => exact Or.inr ⟨_, .yield h, by rw [take, yield, moveTo_eq h]; rfl⟩
  | awaitRetry =>
      cases h : j.state.canBecome .awaitingRetry with
      | false => exact Or.inl ⟨_, .illegal rfl h, moveTo_refused h⟩
      | true => exact Or.inr ⟨_, .awaitRetry h, moveTo_eq h⟩
  | finish target =>
      cases hproper : target.isTerminal with
      | false => exact Or.inl ⟨_, .notTerminal hproper, by rw [take, finish, hproper]; rfl⟩
      | true =>
          have hfinish : j.take now (.finish target) = j.moveTo target := if_pos hproper
          rw [hfinish]
          cases h : j.state.canBecome target with
          | false => exact Or.inl ⟨_, .illegal hproper h, moveTo_refused h⟩
          | true => exact Or.inr ⟨_, .finish hproper h, moveTo_eq h⟩

theorem Takes.legal (h : j.Takes now step next) : j.state.canBecome step.target = true := by
  cases h <;> assumption

theorem Takes.state_eq (h : j.Takes now step next) : next.state = step.target := by
  cases h <;> rfl

theorem Takes.not_refuses (h : j.Takes now step next) : ¬j.Refuses step fault := by
  intro hrefuses
  cases hrefuses with
  | notTerminal improper =>
      cases h with
      | finish proper => exact Bool.false_ne_true (improper.symm.trans proper)
  | illegal _ apart => exact Bool.false_ne_true (apart.symm.trans h.legal)

theorem Refuses.unique {other : JobFault} (h : j.Refuses step fault) (h' : j.Refuses step other) : fault = other := by
  cases h with
  | notTerminal improper =>
      cases h' with
      | notTerminal => rfl
      | illegal proper => exact absurd (improper.symm.trans proper) Bool.false_ne_true
  | illegal proper =>
      cases h' with
      | notTerminal improper => exact absurd (improper.symm.trans proper) Bool.false_ne_true
      | illegal => rfl

/-- A job that has ended refuses every step. -/
theorem refuses_of_isTerminal (h : j.state.isTerminal = true) (step : JobStep) : ∃ fault, j.Refuses step fault := by
  rcases take_cases j 0 step with ⟨fault, hrefuses, -⟩ | ⟨next, htakes, -⟩
  · exact ⟨fault, hrefuses⟩
  · have hlegal := htakes.legal
    cases hs : j.state <;> simp_all [JobState.isTerminal, JobState.canBecome]

theorem running_of_canBecome_queued (h : j.state.canBecome .queued = true) : j.state = .running := by
  cases hs : j.state <;> simp_all [JobState.canBecome]

/-- A step that is taken counts the attempt that it begins, and no longer the one that it yields. -/
theorem Takes.attempt_eq (h : j.Takes now step next) (hrunning : j.state = .running → 1 ≤ j.attempt) :
    next.attempt + (if step = .yield then 1 else 0) = j.attempt + if step = .begin then 1 else 0 := by
  cases h with
  | begin | awaitRetry | finish => rfl
  | yield legal => exact Nat.sub_add_cancel (hrunning (running_of_canBecome_queued legal))

end Job

end PageAudit
