import PageAudit.Proofs.Pool.Accounts
import PageAudit.Proofs.Pool.Requeues
import PageAudit.Proofs.Run.Browsers
import PageAudit.Proofs.Run.Courses
import PageAudit.Proofs.Run.Steps

/-!
# The accounts of a run

What a run reports was counted in three ways: by its results, by its events and by its pool. The three agree, as long
as the pool does not break down.
-/

namespace PageAudit

open Pool

theorem RunSummary.foldl_add_shift (s : RunSummary) (n : Nat) (es : List ProgressEvent) :
    es.foldl add { s with queued := s.queued + n } =
      { es.foldl add s with queued := (es.foldl add s).queued + n } := by
  induction es generalizing s with
  | nil => rfl
  | cons e es ih =>
      rw [List.foldl_cons, List.foldl_cons, ← ih]
      congr 1
      cases e with
      | queued => simp only [add, Nat.add_right_comm]
      | _ => rfl

/-- A report that gives the outcome of a run as its results, its events and its pool have it. `starting` is the number
of attempts allowed to start with. -/
structure Agrees (starting : Nat) (r : Run) (report : RunReport) : Prop where
  succeeded : report.succeeded = report.pool.succeeded ∧ report.summary.succeeded = report.pool.succeeded
  failed : report.failed = report.pool.failed ∧ report.summary.failed = report.pool.failed
  cancelled : report.cancelled = report.pool.cancelled ∧ report.summary.cancelled = report.pool.cancelled
  queued : report.summary.queued = r.plan.length
  retries : report.summary.retries = report.pool.retries
  concurrencyChanges : report.summary.concurrencyChanges = report.pool.shrinkEvents + report.pool.growEvents
  /-- Every attempt was counted by the job that ended or lost its slot and was taken back. -/
  attempts : report.pool.dispatchedAttempts =
    (report.results.map (·.attemptsUsed)).sum + r.session.pool.requeued.length
  /-- The changes that the events tell of lead from the number to start with to the last one. -/
  chart : Charted starting (r.events.filterMap (·.2.change?)) report.pool.finalConcurrency
    report.pool.minObservedConcurrency report.pool.maxObservedConcurrency
  peak : report.pool.peakOccupied ≤ report.pool.maxObservedConcurrency

namespace Run

/-- The accounts in the report of a run are those of its events and of its pool. -/
def Reported (r : Run) : Prop :=
  ∀ report, r.stage = .ended (.ok report) → report.pool = r.poolReport ∧
    ∃ t, report.summary = { RunSummary.ofEvents (r.events.map (·.2)) with totalDurationMs := t }

variable {r s : Run} {plan : List Job} {results : List Result} {report : RunReport}

/-! ## Writing the report -/

theorem Proceeds.writes (h : r.Proceeds s) (hs : s.stage = .ended (.ok report)) :
    s = r ∨ ∃ initial final results state, r.stage = .reporting initial final results state ∧
      s = r.report initial final results state := by
  cases h with
  | stay => exact Or.inl rfl
  | @goOn _ _ _ stage after =>
      obtain rfl : stage = .ended (.ok report) := hs
      exact after.elim
  | report now => exact Or.inr ⟨_, _, _, _, now, rfl⟩
  | refuse | breakDown | beginPooling | decideFinal | showFinal => cases hs

/-- A step that ends a run with a report writes it. -/
theorem step_report (h : r.step.stage = .ended (.ok report)) :
    r.step = r ∨ ∃ initial final results state, r.step = r.report initial final results state := by
  rcases r.step_cases with hr | ⟨idle, ⟨e, he⟩ | hr⟩
  · exact (hr.writes h).imp_right fun ⟨_, _, _, _, _, he⟩ => ⟨_, _, _, _, he⟩
  · rw [he] at h
    cases h
  · rcases hr.writes h with he | ⟨_, _, _, _, now, _⟩
    · rw [he] at h
      cases idle.symm.trans h
    · cases idle.symm.trans now

theorem Reported.step (h : r.Reported) : r.step.Reported := by
  intro report hended
  rcases step_report hended with he | ⟨initial, final, results, state, he⟩
  · rw [he] at hended ⊢
    exact h report hended
  · rw [he] at hended ⊢
    cases hended
    exact ⟨rfl, _, rfl⟩

/-- Nothing is counted after the report. -/
theorem Reported.aside (h : r.Reported) (hr : r.Orderly plan) (ha : Aside r s) : s.Reported := by
  intro report hended
  rw [ha.stage] at hended
  have hphase := hr.ended (by rw [hended]; rfl)
  obtain ⟨hreport, hfault⟩ := ha.moves.final_report hphase
  have hevents : s.events = r.events := by
    rw [events, ha.opening, ha.closing, (ha.moves.final hphase).events, events]
  rw [poolReport, hreport, hfault, hevents]
  exact h report hended

theorem Reported.after (h : r.Reported) (hr : r.Orderly plan) (actions : List RunAction) :
    (r.after actions).Reported := by
  induction actions generalizing r with
  | nil => exact h
  | cons a rest ih =>
      refine ih ?_ (hr.perform a)
      rcases hr.1.perform_aside a with he | ha
      · rw [he]
        exact pollCoordinator_induct (motive := Reported) h.step fun _ hs => hs.step
      · exact h.aside hr ha

/-! ## The three accounts -/

theorem Opened.summary (h : r.Opened) (hclosing : r.closing = []) :
    RunSummary.ofEvents (r.events.map (·.2)) =
      { r.session.pool.summary with queued := r.session.pool.summary.queued + r.plan.length } := by
  obtain ⟨t, hopening⟩ := h
  have hqueued : r.opening.map (·.2) = r.plan.map fun job => ProgressEvent.queued job.id job.url := by
    rw [hopening, List.map_map]
    rfl
  rw [events, hclosing, List.append_nil, List.map_append, hqueued, RunSummary.ofEvents_append, RunSummary.ofEvents,
    RunSummary.foldl_add_queued, RunSummary.foldl_add_shift]
  rfl

theorem Opened.changes (h : r.Opened) (hclosing : r.closing = []) :
    r.events.filterMap (·.2.change?) = r.session.pool.changes := by
  obtain ⟨t, hopening⟩ := h
  rw [events, hclosing, hopening, List.append_nil, List.filterMap_append]
  simp [ProgressEvent.change?, Pool.changes]

theorem count_eq_of_perm {rs : List Result} (h : report.results.Perm rs) (state : JobState) :
    report.count state = rs.countP (·.state == state) := by
  rw [RunReport.count, ← List.countP_eq_length_filter]
  exact h.countP_eq _

theorem Orderly.agrees {starting : Nat} (h : r.Orderly plan) (hplan : AcceptedPlan plan) (hreported : r.Reported)
    (hopened : r.Opened) (haccounted : Accounted starting r.session.pool) (hcounted : Counted r.session.pool)
    (hended : r.stage = .ended (.ok report)) (hfault : r.session.pool.fault = none) : Agrees starting r report := by
  have hsettled := h.2
  rw [hended] at hsettled
  have hperm := h.results_perm hplan hsettled hfault
  obtain rfl := h.1.plan_eq
  have hclosing := h.closing_nil hplan (by rw [hasQueued, hended]) hfault
  have hfinished := (h.1.sound.phased.ended hsettled.1 hfault).1
  obtain ⟨hpool, t, hsummary⟩ := hreported report hended
  have hpool : report.pool = r.session.pool.report := by
    rw [hpool, poolReport, hfault]
    rfl
  rw [hopened.summary hclosing, haccounted.summary] at hsummary
  -- The results are counted like the events that end a job, and those like the pool's own account.
  have hcounts := h.1.told.ends
  rw [haccounted.summary] at hcounts
  simp only [RunSummary.ends, PoolReport.summary, Prod.mk.injEq] at hcounts
  have hresults : ∀ state, report.count state = r.session.pool.results.countP (·.2.state == state) := fun state =>
    (count_eq_of_perm hperm state).trans (List.countP_map ..)
  refine ⟨⟨?_, ?_⟩, ⟨?_, ?_⟩, ⟨?_, ?_⟩, ?_, ?_, ?_, ?_, ?_, ?_⟩
  · rw [RunReport.succeeded, hresults, hpool, hcounts.1]
  · rw [hsummary, hpool]
    rfl
  · rw [RunReport.failed, hresults, hpool, hcounts.2.1]
  · rw [hsummary, hpool]
    rfl
  · rw [RunReport.cancelled, hresults, hpool, hcounts.2.2]
  · rw [hsummary, hpool]
    rfl
  · rw [hsummary]
    exact Nat.zero_add _
  · rw [hsummary, hpool]
    rfl
  · rw [hsummary, hpool]
    rfl
  · rw [hpool, haccounted.started, hcounted.started_length hfinished, (hperm.map (·.attemptsUsed)).sum_eq,
      List.map_map]
    rfl
  · rw [hopened.changes hclosing, hpool, haccounted.closed hsettled.1 hfault]
    exact haccounted.chart
  · rw [hpool]
    exact haccounted.peak

/-- However a run comes to its report, its results, its events and the account of its pool agree, as long as the pool
does not break down. -/
theorem report_agrees {config : Config} {plan : List Job} (hconfig : config.validate = .ok ())
    (hplan : validatePlan plan = .ok ()) (hfresh : ∀ j ∈ plan, j.attempt = 0) (site : Site)
    (draws : Nat → Nat → Nat) (probe : Nat → Except ProbeError MemoryReading) :
    ∃ r starting, Run.ofPlan? config plan site draws probe = some r ∧ config.pool.starting? = some starting ∧
      ∀ (actions : List RunAction) (report : RunReport), (r.after actions).stage = .ended (.ok report) →
        (r.after actions).session.pool.fault = none → Agrees starting (r.after actions) report := by
  have haccepted := AcceptedPlan.of_validate hplan
  have hpolicy := PoolPolicy.Valid.of_validate (Config.parts_of_validate hconfig).1
  obtain ⟨pool, hpool⟩ := Pool.submit?_isSome hpolicy.ordered
  obtain ⟨starting, hstarting⟩ : ∃ starting, config.pool.starting? = some starting :=
    ⟨_, if_pos hpolicy.ordered⟩
  have hmade : Run.ofPlan? config plan site draws probe = some _ := congrArg (Option.map _) hpool
  refine ⟨_, starting, hmade, hstarting, fun actions report hended hfault => ?_⟩
  have hbegins := Orderly.ofPlan hmade haccepted
  have hmoves := hbegins.after_moves actions
  have hopened := (hbegins.after_opens (Or.inr ⟨rfl, rfl⟩) actions).opened (by rw [hasQueued, hended])
  have hreported := Reported.after (fun _ h => by cases h) hbegins actions
  exact (hbegins.after actions).agrees haccepted hreported hopened
    ((kept_accounted starting).moves hbegins.1.sound (Accounted.submit hpool hstarting) hmoves)
    (kept_counted.moves hbegins.1.sound (Counted.submit hpool hfresh) hmoves) hended hfault

set_option maxRecDepth 4000 in
theorem twoPages_report_agrees : Config.validate {} = .ok () ∧ validatePlan twoPages = .ok () ∧
    (∀ j ∈ twoPages, j.attempt = 0) ∧
    ∃ r, Run.ofPlan? {} twoPages quietSite (fun _ _ => 0) (fun _ => .ok { used := 1, free := 1 }) = some r ∧
      (r.after twoPagesActions).session.pool.fault = none ∧
      ∃ report, (r.after twoPagesActions).stage = .ended (.ok report) ∧ report.pool.dispatchedAttempts = 2 ∧
        Agrees 4 (r.after twoPagesActions) report := by
  obtain ⟨r, starting, hr, hstarting, hagrees⟩ := report_agrees (rfl : Config.validate {} = .ok ())
    (rfl : validatePlan twoPages = .ok ()) (by decide) quietSite (fun _ _ => 0)
    (fun _ => .ok { used := 1, free := 1 })
  obtain rfl := Option.some.inj hr
  obtain rfl := Option.some.inj hstarting
  exact ⟨rfl, rfl, by decide, _, hr, rfl, _, rfl, rfl, hagrees twoPagesActions _ rfl rfl⟩

end Run

end PageAudit
