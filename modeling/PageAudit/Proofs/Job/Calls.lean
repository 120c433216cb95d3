import Mathlib.Data.List.Basic
import PageAudit.Job.Calls
import PageAudit.Proofs.Job.Steps

/-!
# Jobs under any calls

A job refuses what is no transition of it before anything of it has changed. From the calls that returned one can tell how
many attempts count and since when: those that were begun and not yielded, since the latest that was begun as the first.
-/

namespace PageAudit

open Decimal

/-! ## Time -/

namespace Job

variable {j : Job} {now ticks t : Nat}

theorem elapsedOn_eq (h : j.startedAt = some t) (ticks now : Nat) :
    j.elapsedOn ticks now = min ((now - t) / ticks) (wordMax 64) := by
  simp only [elapsedOn, h]

theorem elapsedOn_eq_zero_iff (hticks : 0 < ticks) : j.elapsedOn ticks now = 0 ↔
    j.startedAt = none ∨ ∃ t, j.startedAt = some t ∧ now - t < ticks := by
  cases h : j.startedAt with
  | none => simp only [elapsedOn, h, true_or]
  | some t =>
      have hword : wordMax 64 ≠ 0 := by decide
      rw [elapsedOn_eq h, Nat.min_eq_zero_iff, or_iff_left hword, Nat.div_eq_zero_iff_lt hticks]
      simp

end Job

/-! ## Statements -/

namespace JobStatements

variable {α β : Type} {j next : Job} {now : Nat} {step : JobStep} {fault : JobFault} {target : JobState}

/-- A breakdown ends a sequence of statements where it stands. -/
theorem run_bind (m : JobStatements α) (f : α → JobStatements β) (j : Job) : (m >>= f).run.run j =
    match m.run.run j with
    | (.ok a, next) => (f a).run.run next
    | (.error e, next) => (.error e, next) := by
  simp only [ExceptT.run, StateT.run, bind, ExceptT.bind, ExceptT.mk, StateT.bind, ExceptT.bindCont]
  cases m j with
  | mk result next => cases result <;> rfl

theorem moveTo_run (target : JobState) (j : Job) : (moveTo target).run.run j =
    if j.state.canBecome target then (.ok (), j.enter target)
    else (.error (.refused (.illegal j.state target)), j) := by
  have hrun : (moveTo target).run.run j = ExceptT.run (m := StateM Job)
    (if !j.state.canBecome target then throw (.refused (.illegal j.state target)) else set (j.enter target)) j := rfl
  rw [hrun]
  cases j.state.canBecome target <;> rfl

theorem moveTo_of_legal (h : j.state.canBecome target = true) : (moveTo target).run.run j = (.ok (), j.enter target) :=
  (moveTo_run target j).trans (if_pos h)

theorem moveTo_of_apart (h : j.state.canBecome target = false) :
    (moveTo target).run.run j = (.error (.refused (.illegal j.state target)), j) :=
  (moveTo_run target j).trans (if_neg (by rw [h]; exact Bool.false_ne_true))

theorem count_run (j : Job) : count.run.run j =
    if wordMax 32 < j.attempt + 1 then (.error .additionOverflow, j)
    else (.ok (), { j with attempt := j.attempt + 1 }) := by
  have hrun : count.run.run j = ExceptT.run (m := StateM Job)
    (if wordMax 32 < j.attempt + 1 then throw .additionOverflow else set { j with attempt := j.attempt + 1 }) j := rfl
  rw [hrun]
  split <;> rfl

theorem count_of_room (h : j.attempt < wordMax 32) :
    count.run.run j = (.ok (), { j with attempt := j.attempt + 1 }) :=
  (count_run j).trans (if_neg (Nat.not_lt.mpr h))

theorem count_of_full (h : wordMax 32 ≤ j.attempt) : count.run.run j = (.error .additionOverflow, j) :=
  (count_run j).trans (if_pos (Nat.lt_succ_of_le h))

theorem uncount_run (j : Job) : uncount.run.run j = (.ok (), { j with
    attempt := j.attempt - 1
    startedAt := if j.attempt - 1 == 0 then none else j.startedAt }) := by
  have hrun : uncount.run.run j = ExceptT.run (m := StateM Job)
    (if j.attempt - 1 == 0 then set { j with attempt := j.attempt - 1, startedAt := none } else pure ())
    { j with attempt := j.attempt - 1 } := rfl
  rw [hrun]
  cases j.attempt - 1 == 0 <;> rfl

theorem finish_of_improper (h : target.isTerminal = false) :
    (finish target).run.run j = (.error (.refused (.notTerminal target)), j) := by
  cases target <;> first | rfl | cases h

theorem finish_of_proper (h : target.isTerminal = true) : finish target = moveTo target := by
  cases target <;> first | rfl | cases h

/-- Every step moves first, one that would end the job in a state that is not terminal apart. -/
theorem take_eq_moveTo_bind (proper : step.isProper = true) (now : Nat) :
    ∃ rest : Unit → JobStatements (Option Nat), take now step = moveTo step.target >>= rest := by
  cases step with
  | begin => exact ⟨_, bind_assoc (moveTo .running) _ _⟩
  | yield => exact ⟨_, bind_assoc (moveTo .queued) _ _⟩
  | awaitRetry => exact ⟨_, rfl⟩
  | finish target => exact ⟨fun _ => return none, by rw [take, finish_of_proper proper]; rfl⟩

/-- A step that is refused leaves the job as it was. -/
theorem take_of_refuses (h : j.Refuses step fault) (now : Nat) :
    (take now step).run.run j = (.error (.refused fault), j) := by
  cases h with
  | notTerminal improper => rw [take, run_bind, finish_of_improper improper]
  | illegal proper apart =>
      obtain ⟨rest, hrest⟩ := take_eq_moveTo_bind proper now
      rw [hrest, run_bind, moveTo_of_apart apart]

/-- A step that is taken has all its statements done. -/
theorem take_of_takes (h : j.Takes now step next) (room : step = .begin → j.attempt < wordMax 32) :
    (take now step).run.run j = (.ok (step.told next), next) := by
  cases h with
  | begin legal =>
      rw [take, run_bind, begin, run_bind, moveTo_of_legal legal]
      have hroom : (j.enter .running).attempt < wordMax 32 := room rfl
      dsimp only
      rw [run_bind, count_of_room hroom]
      rfl
  | yield legal =>
      rw [take, run_bind, yield, run_bind, moveTo_of_legal legal]
      dsimp only
      rw [uncount_run]
      rfl
  | awaitRetry legal => rw [take, run_bind, moveTo_of_legal legal]; rfl
  | finish proper legal => rw [take, run_bind, finish_of_proper proper, moveTo_of_legal legal]; rfl

/-- An attempt too many has been let in, but is not counted. -/
theorem take_of_crowded (legal : j.state.canBecome .running = true) (full : wordMax 32 ≤ j.attempt) :
    (take now .begin).run.run j = (.error .additionOverflow, j.enter .running) := by
  rw [take, run_bind, begin, run_bind, moveTo_of_legal legal]
  have hfull : wordMax 32 ≤ (j.enter .running).attempt := full
  dsimp only
  rw [run_bind, count_of_full hfull]

end JobStatements

/-! ## Calls in a diary -/

namespace JobDiary

variable {d e : JobDiary} {step : JobStep} {result : Except JobBreakdown (Option Nat)} {job : Job} {t : Nat}

/-- What a call does: the job takes the step, refuses it, or begins an attempt too many. -/
inductive Called (d : JobDiary) : JobStep → JobDiary → Prop where
  | taken {step : JobStep} {next : Job} (takes : d.job.Takes d.clock step next)
      (room : step = .begin → d.job.attempt < wordMax 32) : Called d step (d.note step (.ok (step.told next)) next)
  | refused {step : JobStep} {fault : JobFault} (refuses : d.job.Refuses step fault) :
      Called d step (d.note step (.error (.refused fault)) d.job)
  | crowded (legal : d.job.state.canBecome .running = true) (full : wordMax 32 ≤ d.job.attempt) :
      Called d .begin (d.note .begin (.error .additionOverflow) (d.job.enter .running))

theorem after_call (d : JobDiary) (step : JobStep) : d.after (.call step) =
    d.note step ((JobStatements.take d.clock step).run.run d.job).1
      ((JobStatements.take d.clock step).run.run d.job).2 := rfl

theorem after_of_refuses {fault : JobFault} (h : d.job.Refuses step fault) :
    d.after (.call step) = d.note step (.error (.refused fault)) d.job := by
  rw [after_call, JobStatements.take_of_refuses h]

theorem after_of_takes {next : Job} (h : d.job.Takes d.clock step next)
    (room : step = .begin → d.job.attempt < wordMax 32) :
    d.after (.call step) = d.note step (.ok (step.told next)) next := by
  rw [after_call, JobStatements.take_of_takes h room]

theorem after_of_crowded (legal : d.job.state.canBecome .running = true) (full : wordMax 32 ≤ d.job.attempt) :
    d.after (.call .begin) = d.note .begin (.error .additionOverflow) (d.job.enter .running) := by
  rw [after_call, JobStatements.take_of_crowded legal full]

theorem called (d : JobDiary) (step : JobStep) : d.Called step (d.after (.call step)) := by
  rcases d.job.take_cases d.clock step with ⟨fault, hrefuses, -⟩ | ⟨next, htakes, -⟩
  · rw [after_of_refuses hrefuses]
    exact .refused hrefuses
  · by_cases hroom : step = .begin → d.job.attempt < wordMax 32
    · rw [after_of_takes htakes hroom]
      exact .taken htakes hroom
    · obtain ⟨rfl, hfull⟩ := Classical.not_imp.mp hroom
      rw [after_of_crowded htakes.legal (Nat.not_lt.mp hfull)]
      exact .crowded htakes.legal (Nat.not_lt.mp hfull)

/-- How many calls of a step returned. -/
def returns (d : JobDiary) (step : JobStep) : Nat :=
  d.calls.countP fun c => c.step == step && c.result.isOk

/-- The latest attempt that was begun as the first one was begun at this instant. -/
def FirstBegun (d : JobDiary) (t : Nat) : Prop :=
  ∃ earlier later, d.calls = earlier ++ ⟨t, .begin, .ok (some 1)⟩ :: later ∧ ∀ c ∈ later, c.result ≠ .ok (some 1)

theorem returns_note (d : JobDiary) (step : JobStep) (result : Except JobBreakdown (Option Nat)) (job : Job)
    (other : JobStep) : (d.note step result job).returns other =
      d.returns other + if step == other && result.isOk then 1 else 0 := by
  simp [returns, note, List.countP_cons]

theorem FirstBegun.note (h : d.FirstBegun t) (hresult : result ≠ .ok (some 1)) : (d.note step result job).FirstBegun t := by
  obtain ⟨earlier, later, hcalls, hlater⟩ := h
  refine ⟨earlier, later ++ [⟨d.clock, step, result⟩], ?_, ?_⟩
  · simp only [JobDiary.note, hcalls, List.append_assoc, List.cons_append]
  · rintro c hc
    rcases List.mem_append.mp hc with hc | hc
    · exact hlater c hc
    · rw [List.mem_singleton.mp hc]
      exact hresult

theorem firstBegun_note (d : JobDiary) (job : Job) : (d.note .begin (.ok (some 1)) job).FirstBegun d.clock :=
  ⟨d.calls, [], rfl, List.forall_mem_nil _⟩

/-! ## What calls keep -/

/-- What the calls of a diary tell of its job. -/
structure Kept (d : JobDiary) : Prop where
  counted : d.job.attempt + d.returns .yield = d.returns .begin
  word : d.job.attempt ≤ wordMax 32
  running : d.job.state = .running → 1 ≤ d.job.attempt
  started : d.job.startedAt.isSome ↔ 1 ≤ d.job.attempt
  since : ∀ t, d.job.startedAt = some t → d.FirstBegun t ∧ t ≤ d.clock

theorem kept_fresh (id url : String) (planIndex clock : Nat) :
    ({ job := { id, url, planIndex }, clock } : JobDiary).Kept :=
  ⟨rfl, Nat.zero_le _, nofun, by simp, nofun⟩

theorem Kept.pass (h : d.Kept) (ticks : Nat) : (d.after (.pass ticks)).Kept :=
  ⟨h.counted, h.word, h.running, h.started, fun t ht =>
    ⟨(h.since t ht).1, Nat.le_trans (h.since t ht).2 (Nat.le_add_right ..)⟩⟩

/-- A call that begins or yields no attempt changes at most the state. -/
theorem Kept.note (h : d.Kept) (hattempt : job.attempt = d.job.attempt) (hstart : job.startedAt = d.job.startedAt)
    (hrunning : job.state = .running → 1 ≤ d.job.attempt) (hresult : result ≠ .ok (some 1))
    (huncounted : ∀ other, other = .begin ∨ other = .yield → (step == other && result.isOk) = false) :
    (d.note step result job).Kept := by
  refine ⟨?_, ?_, ?_, ?_, fun t ht => ?_⟩
  · rw [returns_note, returns_note, huncounted _ (Or.inl rfl), huncounted _ (Or.inr rfl)]
    exact (congrArg (· + d.returns .yield) hattempt).trans h.counted
  · exact Nat.le_trans (Nat.le_of_eq hattempt) h.word
  · exact fun hstate => Nat.le_trans (hrunning hstate) (Nat.le_of_eq hattempt.symm)
  · exact (hstart ▸ hattempt ▸ h.started :)
  · obtain ⟨hfirst, hle⟩ := h.since t (hstart ▸ ht)
    exact ⟨hfirst.note hresult, hle⟩

theorem Kept.begun (h : d.Kept) (room : d.job.attempt < wordMax 32) :
    (d.note .begin (.ok (some (d.job.attempt + 1))) (d.job.begun d.clock)).Kept := by
  have hcounted : d.job.attempt + 1 + d.returns .yield = d.returns .begin + 1 := by
    rw [← h.counted]
    omega
  refine ⟨?_, room, fun _ => Nat.le_add_left .., ?_, fun t ht => ?_⟩
  · rw [returns_note, returns_note]
    exact hcounted
  · simp [JobDiary.note, Job.begun]
  · cases hstart : d.job.startedAt with
    | none =>
        -- No attempt counts, so this one is the first and begins the time.
        have hzero : d.job.attempt = 0 := by
          have hnone := h.started
          rw [hstart] at hnone
          simpa using hnone
        have hnow : d.clock = t := by simpa [JobDiary.note, Job.begun, hstart] using ht
        rw [hzero, ← hnow]
        exact ⟨firstBegun_note d _, Nat.le_refl _⟩
    | some since =>
        have hcounts : 1 ≤ d.job.attempt := h.started.mp (by rw [hstart]; rfl)
        have hsame : since = t := by simpa [JobDiary.note, Job.begun, hstart] using ht
        obtain ⟨hfirst, hle⟩ := h.since t (by rw [hstart, hsame])
        exact ⟨hfirst.note (by simp; omega), hle⟩

theorem Kept.yielded (h : d.Kept) (legal : d.job.state.canBecome .queued = true) :
    (d.note .yield (.ok none) d.job.yielded).Kept := by
  have hcounts : 1 ≤ d.job.attempt := h.running (Job.running_of_canBecome_queued legal)
  have hcounted : d.job.attempt - 1 + (d.returns .yield + 1) = d.returns .begin := by
    rw [← h.counted]
    omega
  have hstart : d.job.yielded.startedAt = if d.job.attempt - 1 = 0 then none else d.job.startedAt := by
    simp only [Job.yielded, beq_iff_eq]
  refine ⟨?_, Nat.le_trans (Nat.sub_le ..) h.word, nofun, ?_, fun t ht => ?_⟩
  · rw [returns_note, returns_note]
    exact hcounted
  · change d.job.yielded.startedAt.isSome ↔ 1 ≤ d.job.attempt - 1
    rw [hstart]
    split
    · simp; omega
    · simp only [h.started.mpr hcounts, true_iff]
      omega
  · -- What is left of the time began where it did before.
    have hkept : d.job.startedAt = some t := by
      change d.job.yielded.startedAt = some t at ht
      rw [hstart] at ht
      split at ht
      · cases ht
      · exact ht
    obtain ⟨hfirst, hle⟩ := h.since t hkept
    exact ⟨hfirst.note nofun, hle⟩

theorem Kept.called (h : d.Kept) (hc : d.Called step e) : e.Kept := by
  cases hc with
  | refused refuses => exact h.note rfl rfl h.running nofun fun _ _ => Bool.and_false _
  | crowded legal full =>
      exact h.note rfl rfl (fun _ => Nat.le_trans (by decide) full) nofun fun _ _ => Bool.and_false _
  | taken takes room =>
      cases takes with
      | begin => exact h.begun (room rfl)
      | yield legal => exact h.yielded legal
      | awaitRetry => exact h.note rfl rfl nofun nofun (by rintro _ (rfl | rfl) <;> rfl)
      | finish proper =>
          refine h.note rfl rfl (fun hstate => ?_) nofun (by rintro _ (rfl | rfl) <;> rfl)
          cases hstate
          cases proper

theorem Kept.after (h : d.Kept) (event : JobEvent) : (d.after event).Kept := by
  cases event with
  | pass ticks => exact h.pass ticks
  | call step => exact h.called (d.called step)

theorem Kept.afterAll (h : d.Kept) (events : List JobEvent) : (events.foldl JobDiary.after d).Kept := by
  induction events generalizing d with
  | nil => exact h
  | cons event events ih => exact ih (h.after event)

/-! ## The end of a job -/

/-- The steps that some events call for. -/
def stepsOf (events : List JobEvent) : List JobStep :=
  events.filterMap JobEvent.step?

/-- Between two diaries all steps were refused: the job is the same, and only the calls were noted. -/
structure Refused (d : JobDiary) (steps : List JobStep) (e : JobDiary) : Prop where
  job : e.job = d.job
  calls : ∃ more, e.calls = d.calls ++ more ∧ more.map (·.step) = steps ∧
    ∀ c ∈ more, ∃ fault, c.result = .error (.refused fault)

theorem refused_after (h : d.job.state.isTerminal = true) (event : JobEvent) :
    d.Refused event.step?.toList (d.after event) := by
  cases event with
  | pass ticks => exact ⟨rfl, [], (List.append_nil _).symm, rfl, List.forall_mem_nil _⟩
  | call step =>
      obtain ⟨fault, hrefuses⟩ := Job.refuses_of_isTerminal h step
      rw [after_of_refuses hrefuses]
      exact ⟨rfl, _, rfl, rfl, List.forall_mem_singleton.mpr ⟨fault, rfl⟩⟩

theorem Refused.trans {f : JobDiary} {steps later : List JobStep} (h : d.Refused steps e) (h' : e.Refused later f) :
    d.Refused (steps ++ later) f := by
  obtain ⟨more, hcalls, hsteps, hrefused⟩ := h.calls
  obtain ⟨rest, hrest, hothers, hrefused'⟩ := h'.calls
  refine ⟨h'.job.trans h.job, more ++ rest, ?_, ?_, List.forall_mem_append.mpr ⟨hrefused, hrefused'⟩⟩
  · rw [hrest, hcalls, List.append_assoc]
  · rw [List.map_append, hsteps, hothers]

/-- Whatever is called for on a job that has ended is refused. -/
theorem refused_afterAll (h : d.job.state.isTerminal = true) (events : List JobEvent) :
    d.Refused (stepsOf events) (events.foldl JobDiary.after d) := by
  induction events generalizing d with
  | nil => exact ⟨rfl, [], (List.append_nil _).symm, rfl, List.forall_mem_nil _⟩
  | cons event events ih =>
      have hfirst := refused_after h event
      have hsteps : stepsOf (event :: events) = event.step?.toList ++ stepsOf events := by
        simp only [stepsOf, List.filterMap_cons]
        cases event.step? <;> rfl
      rw [hsteps]
      exact hfirst.trans (ih (hfirst.job.symm ▸ h))

/-! ## Any calls -/

/-- What can be told of a job by its calls, on a clock with `ticks` ticks in a millisecond. -/
structure Tracked (ticks : Nat) (d : JobDiary) : Prop extends Kept d where
  /-- The time counts from the first of the attempts that count. -/
  elapsed : ∀ t, d.job.startedAt = some t → d.job.elapsedOn ticks d.clock = min ((d.clock - t) / ticks) (wordMax 64)
  /-- No time has passed without such an attempt, or within a millisecond. -/
  elapsed_zero : d.job.elapsedOn ticks d.clock = 0 ↔
    d.job.attempt = 0 ∨ ∃ t, d.job.startedAt = some t ∧ d.clock - t < ticks
  /-- A call of a step that the job refuses breaks down and leaves no trace. -/
  refused : ∀ step fault, d.job.Refuses step fault → d.job.take d.clock step = .error fault ∧
    d.after (.call step) = d.note step (.error (.refused fault)) d.job
  /-- A call of any other step returns, and the job has taken it; only the number of an attempt may be no word. -/
  taken : ∀ step, (∀ fault, ¬d.job.Refuses step fault) → ∃ next, d.job.take d.clock step = .ok next ∧
    next.state = step.target ∧
    next.attempt + (if step = .yield then 1 else 0) = d.job.attempt + (if step = .begin then 1 else 0) ∧
    d.after (.call step) =
      if step = .begin ∧ d.job.attempt = wordMax 32 then d.note step (.error .additionOverflow) (d.job.enter .running)
      else d.note step (.ok (step.told next)) next
  /-- All further calls on a job that has ended are refused. -/
  ended : d.job.state.isTerminal = true → ∀ later, d.Refused (stepsOf later) (later.foldl JobDiary.after d)

theorem Kept.tracked (h : d.Kept) {ticks : Nat} (hticks : 0 < ticks) : d.Tracked ticks := by
  refine ⟨h, fun t ht => Job.elapsedOn_eq ht ticks d.clock, ?_, fun step fault hrefuses => ?_, fun step hfree => ?_,
    refused_afterAll⟩
  · have hnone : d.job.startedAt = none ↔ d.job.attempt = 0 := by
      rw [← Option.not_isSome_iff_eq_none, h.started]
      omega
    rw [Job.elapsedOn_eq_zero_iff hticks, hnone]
  · rcases d.job.take_cases d.clock step with ⟨found, hfound, htake⟩ | ⟨next, htakes, -⟩
    · rw [hrefuses.unique hfound]
      exact ⟨htake, after_of_refuses hfound⟩
    · exact absurd hrefuses htakes.not_refuses
  · rcases d.job.take_cases d.clock step with ⟨fault, hrefuses, -⟩ | ⟨next, htakes, htake⟩
    · exact absurd hrefuses (hfree fault)
    · refine ⟨next, htake, htakes.state_eq, htakes.attempt_eq h.running, ?_⟩
      split
      · rename_i hfull
        obtain ⟨rfl, hfull⟩ := hfull
        exact after_of_crowded htakes.legal (Nat.le_of_eq hfull.symm)
      · rename_i hroom
        refine after_of_takes htakes fun hbegin => ?_
        have hword := h.word
        have hne : d.job.attempt ≠ wordMax 32 := fun hfull => hroom ⟨hbegin, hfull⟩
        omega

/-- **Calls on a job.** Take any calls on a new job, legal or not, with any time between them. A call of a step that is no
transition of the job, or that would end it in a state that is not terminal, breaks down and leaves the job as it was. A
call of any other step returns; a job that has begun as many attempts as a word can count only breaks down at the next. The
attempts that count are those begun and not yielded, so there is one while the job runs. The job has a time of beginning
if and only if an attempt counts, which is when the latest first attempt was begun, and the time elapsed is counted from
there. A job that has ended refuses whatever comes. -/
theorem calls_tracked {ticks : Nat} (hticks : 0 < ticks) (id url : String) (planIndex clock : Nat)
    (events : List JobEvent) :
    (events.foldl JobDiary.after { job := { id, url, planIndex }, clock }).Tracked ticks :=
  ((kept_fresh id url planIndex clock).afterAll events).tracked hticks

/-- A first attempt is yielded, the next one fails and the one after it ends the job; calls that are refused come between
them. The clock ticks in nanoseconds. -/
theorem retried_page_tracked :
    let events : List JobEvent := [.call .begin, .pass 5, .call .yield, .call .awaitRetry, .pass 2, .call .begin,
      .call (.finish .queued), .pass 1999999, .call .awaitRetry, .call .begin, .call (.finish .succeeded)]
    let d := events.foldl JobDiary.after { job := { id := "home", url := "https://a.example", planIndex := 0 } }
    0 < 1000000 ∧ d.job.attempt = 2 ∧ d.returns .begin = 3 ∧ d.job.attempt + d.returns .yield = d.returns .begin ∧
    d.job.startedAt = some 7 ∧ d.FirstBegun 7 ∧ d.job.elapsedOn 1000000 d.clock = 1 ∧
    ¬(d.job.attempt = 0 ∨ ∃ t, d.job.startedAt = some t ∧ d.clock - t < 1000000) ∧
    (d.after (.call .begin)).job = d.job ∧ ∀ later : List JobEvent, (later.foldl JobDiary.after d).job = d.job := by
  intro events d
  have htracked : d.Tracked 1000000 := calls_tracked (by decide) "home" "https://a.example" 0 0 events
  have hstarted : d.job.startedAt = some 7 := by decide
  have helapsed : d.job.elapsedOn 1000000 d.clock = 1 := (htracked.elapsed 7 hstarted).trans (by decide)
  have hrefused := htracked.refused .begin (.illegal .succeeded .running) (.illegal rfl rfl)
  refine ⟨by decide, by decide, by decide, htracked.counted, hstarted, (htracked.since 7 hstarted).1, helapsed, ?_, ?_,
    fun later => (htracked.ended rfl later).job⟩
  · rw [← htracked.elapsed_zero, helapsed]
    decide
  · rw [hrefused.2]
    rfl

end JobDiary

end PageAudit
