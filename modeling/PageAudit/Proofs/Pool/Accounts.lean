import PageAudit.Progress.Summary
import PageAudit.Proofs.Pool.Bounds
import PageAudit.Proofs.Pool.Endings

/-!
# The accounts of a pool

A pool counts what it does in a report of its own, and whoever listens counts its events. Both agree with each other
and with the results. The changes in the number of attempts allowed lead from the number to start with to the one
that is allowed.
-/

namespace PageAudit

/-- Every change starts where the one before it ended; together they lead from one number to another. -/
def Leads : Nat → List (Nat × Nat) → Nat → Prop
  | first, [], last => first = last
  | first, c :: rest, last => c.1 = first ∧ Leads c.2 rest last

namespace Leads

variable {first last : Nat} {cs : List (Nat × Nat)}

theorem concat (h : Leads first cs last) (after : Nat) : Leads first (cs ++ [(last, after)]) after := by
  induction cs generalizing first with
  | nil => exact ⟨Eq.symm h, rfl⟩
  | cons c rest ih => exact ⟨h.1, ih h.2⟩

theorem last_mem (h : Leads first cs last) : last ∈ first :: cs.map (·.2) := by
  induction cs generalizing first with
  | nil => exact List.mem_singleton.mpr (Eq.symm h)
  | cons c rest ih => exact List.mem_cons_of_mem _ (ih h.2)

end Leads

/-- The changes lead from one number to another, and the least and the greatest number on the way are known. -/
structure Charted (first : Nat) (cs : List (Nat × Nat)) (last least greatest : Nat) : Prop where
  leads : Leads first cs last
  least : (first :: cs.map (·.2)).min? = some least
  greatest : (first :: cs.map (·.2)).max? = some greatest

namespace Charted

variable {first last least greatest : Nat} {cs : List (Nat × Nat)}

theorem last_le (h : Charted first cs last least greatest) : last ≤ greatest :=
  (List.max?_eq_some_iff.mp h.greatest).2 _ h.leads.last_mem

theorem concat (h : Charted first cs last least greatest) (after : Nat) :
    Charted first (cs ++ [(last, after)]) after (min least after) (max greatest after) := by
  have hleast := h.least
  have hgreatest := h.greatest
  simp only [List.min?_cons', Option.some.injEq] at hleast
  simp only [List.max?_cons', Option.some.injEq] at hgreatest
  refine ⟨h.leads.concat after, ?_, ?_⟩
  · simp only [List.map_append, List.min?_cons', List.foldl_append, hleast]
    rfl
  · simp only [List.map_append, List.max?_cons', List.foldl_append, hgreatest]
    rfl

end Charted

/-! ## Two accounts of the same events -/

/-- What an account of a pool says of the events that it sent. -/
def PoolReport.summary (r : PoolReport) : RunSummary where
  succeeded := r.succeeded
  failed := r.failed
  cancelled := r.cancelled
  retries := r.retries
  concurrencyChanges := r.shrinkEvents + r.growEvents

theorem PoolReport.summary_countFinal (r : PoolReport) {e : ProgressEvent} (h : e.isTerminal = true) :
    (r.countFinal e).summary = r.summary.add e := by
  cases e with
  | succeeded | failedPermanent | cancelled => rfl
  | _ => exact Bool.noConfusion h

namespace RunSummary

theorem ofEvents_append (before after : List ProgressEvent) :
    ofEvents (before ++ after) = after.foldl add (ofEvents before) :=
  List.foldl_append

theorem foldl_add_cancelled (s : RunSummary) (js : List Job) :
    (js.map fun j => ProgressEvent.cancelled j.id j.attempt).foldl add s =
      { s with cancelled := s.cancelled + js.length } := by
  induction js generalizing s with
  | nil => rfl
  | cons j js ih =>
      rw [List.map_cons, List.foldl_cons, ih]
      simp only [add, List.length_cons, Nat.add_assoc, Nat.add_comm 1]

theorem foldl_add_queued (s : RunSummary) (js : List Job) :
    (js.map fun j => ProgressEvent.queued j.id j.url).foldl add s = { s with queued := s.queued + js.length } := by
  induction js generalizing s with
  | nil => rfl
  | cons j js ih =>
      rw [List.map_cons, List.foldl_cons, ih]
      simp only [add, List.length_cons, Nat.add_assoc, Nat.add_comm 1]

/-- The jobs that have ended in an account, by how they ended. -/
def ends (s : RunSummary) : Nat × Nat × Nat := (s.succeeded, s.failed, s.cancelled)

theorem ends_foldl_congr {s t : RunSummary} (h : s.ends = t.ends) (es : List ProgressEvent) :
    (es.foldl add s).ends = ((es.filter (·.isTerminal)).foldl add t).ends := by
  induction es generalizing s t with
  | nil => exact h
  | cons e es ih =>
      simp only [ends, Prod.mk.injEq] at h
      cases he : e.isTerminal with
      | true =>
          rw [List.filter_cons_of_pos he, List.foldl_cons, List.foldl_cons]
          refine ih ?_
          cases e <;> simp [ends, add, h]
      | false =>
          rw [List.filter_cons_of_neg (by simp [he]), List.foldl_cons]
          refine ih ?_
          cases e <;> simp_all [ends, add, ProgressEvent.isTerminal]

/-- Events that tell of results are counted like them. -/
theorem ends_of_tells {es : List ProgressEvent} {rs : List Result} (h : List.Forall₂ ProgressEvent.Tells es rs)
    (s : RunSummary) : (es.foldl add s).ends =
      (s.succeeded + rs.countP (·.state == .succeeded), s.failed + rs.countP (·.state == .failedPermanent),
        s.cancelled + rs.countP (·.state == .cancelled)) := by
  induction h generalizing s with
  | nil => rfl
  | @cons e r es rs he _ ih =>
      rw [List.foldl_cons, ih]
      cases e with
      | succeeded | failedPermanent | cancelled =>
          simp [add, he.1]
          omega
      | _ => exact he.elim

end RunSummary

namespace Pool

/-- The account of the events that a pool has sent. -/
def summary (p : Pool) : RunSummary := RunSummary.ofEvents (p.events.map (·.2))

/-- The account of a pool agrees with its events. -/
structure Accounted (starting : Nat) (p : Pool) : Prop where
  summary : p.summary = p.report.summary
  started : p.report.dispatchedAttempts = p.started.length
  chart : Charted starting p.changes p.allowed p.report.minObservedConcurrency p.report.maxObservedConcurrency
  peak : p.report.peakOccupied ≤ p.report.maxObservedConcurrency
  closed : p.phase = .ended → p.fault = none → p.report.finalConcurrency = p.allowed

variable {jobs : List Job} {p q : Pool} {starting : Nat}

theorem summary_append {es : List (Nat × ProgressEvent)} (h : q.events = p.events ++ es) :
    q.summary = (es.map (·.2)).foldl RunSummary.add p.summary := by
  rw [summary, h, List.map_append, RunSummary.ofEvents_append, ← summary]

theorem Accounted.taken {r : SlotReport} {held : Bool} {job : Job} (h : Accounted starting p)
    (ht : p.Taken r held job q) (o : AttemptOutcome) : Accounted starting (q.recordOutcome o) := by
  obtain ⟨_, _, _, _, _, _, _, he⟩ := ht.recordOutcome_eq o
  rw [he]
  exact { h with }

theorem Accounted.emit {r : Result} {reason : FinalizeReason} (h : Accounted starting p) :
    Accounted starting (p.emit r reason) := by
  have hsummary : (p.emit r reason).summary = (p.report.countFinal (r.event reason)).summary := by
    rw [PoolReport.summary_countFinal _ (r.event_isTerminal reason), ← h.summary]
    have hevents : (p.emit r reason).events = p.events ++ [(p.clock, r.event reason)] := rfl
    exact summary_append hevents
  obtain ⟨_, _, _, he⟩ := p.report.countFinal_eq (r.event reason)
  have hreport : (p.emit r reason).report = _ := he
  refine ⟨hsummary, ?_, ?_, ?_, fun hphase hfault => ?_⟩
  · rw [hreport]
    exact h.started
  · rw [changes_emit, hreport]
    exact h.chart
  · rw [hreport]
    exact h.peak
  · rw [hreport]
    exact h.closed hphase hfault

theorem Accounted.calledOff {js : List Job} {reason : String} (h : Accounted starting p) :
    Accounted starting (p.calledOff reason js) := by
  refine { h with
    summary := ?_
    chart := (changes_calledOff ..).symm ▸ h.chart }
  rw [summary_append (p := p) rfl, List.map_map, h.summary]
  exact RunSummary.foldl_add_cancelled ..

theorem Accounted.postponed {j : Job} {delayMs : Nat} {classification : Classification} {e : AttemptError}
    (h : Accounted starting p) : Accounted starting (p.postponed j delayMs classification e) := by
  refine { h with
    summary := ?_
    chart := (changes_postponed ..).symm ▸ h.chart }
  rw [summary_append (p := p) rfl, h.summary]
  rfl

theorem Accounted.launched {job : Job} {rest : List Job} {slotId : Nat} (h : Accounted starting p)
    (room : p.occupied < p.allowed) : Accounted starting (p.launched job rest slotId) := by
  refine { h with
    summary := ?_
    started := ?_
    chart := (changes_launched ..).symm ▸ h.chart
    peak := Nat.max_le.mpr ⟨h.peak, Nat.le_trans room h.chart.last_le⟩ }
  · rw [summary_append (p := p) rfl, h.summary]
    rfl
  · simp only [Pool.launched, List.length_append, List.length_singleton, h.started]

/-- A change that is told and observed leads on from the number allowed before it. -/
theorem Accounted.changed (h : Accounted starting p) {target : Nat} (why : String) (report : PoolReport)
    (concurrency : Concurrency) (busy : p.phase = .waiting) (hallowed : concurrency.allowed = target)
    (hreport : report.summary = { p.report.summary with
      concurrencyChanges := p.report.summary.concurrencyChanges + 1 })
    (hstarted : report.dispatchedAttempts = p.report.dispatchedAttempts)
    (hpeak : report.peakOccupied = p.report.peakOccupied)
    (hleast : report.minObservedConcurrency = min p.report.minObservedConcurrency target)
    (hgreatest : report.maxObservedConcurrency = max p.report.maxObservedConcurrency target) :
    Accounted starting { p with
      concurrency, report, events := p.events ++ [(p.clock, .concurrencyChanged p.allowed target why)] } := by
  have hchanges : ∀ s : Pool, s.events = p.events ++ [(p.clock, .concurrencyChanged p.allowed target why)] →
      s.changes = p.changes ++ [(p.allowed, target)] := fun s he => by simp [changes, he, ProgressEvent.change?]
  refine ⟨?_, hstarted.trans h.started, ?_, ?_, fun hended => absurd (busy.symm.trans hended) (by decide)⟩
  · rw [summary_append (p := p) rfl, h.summary]
    exact hreport.symm
  · rw [hchanges _ rfl, hleast, hgreatest]
    show Charted _ _ concurrency.allowed _ _
    exact hallowed ▸ h.chart.concat target
  · show report.peakOccupied ≤ report.maxObservedConcurrency
    rw [hpeak, hgreatest]
    exact Nat.le_trans h.peak (Nat.le_max_left _ _)

theorem Accounted.shrunk {target : Nat} {reason : ShrinkReason} {roster : List Nat} (h : Accounted starting p)
    (busy : p.phase = .waiting) : Accounted starting (p.shrunk target reason roster) := by
  have hchanged := h.changed reason.name
    (({ p.report with shrinkEvents := p.report.shrinkEvents + 1 } : PoolReport).observe target)
    { p.concurrency with allowed := target } busy rfl
    (by simp only [PoolReport.summary, PoolReport.observe, Nat.add_right_comm]) rfl rfl rfl rfl
  exact { hchanged with }

theorem Accounted.grown {target : Nat} (h : Accounted starting p) (busy : p.phase = .waiting) :
    Accounted starting (p.grown target) := by
  have hchanged := h.changed "window_healthy"
    (({ p.report with growEvents := p.report.growEvents + 1 } : PoolReport).observe target)
    { p.concurrency with allowed := target, window := p.concurrency.window.clear } busy rfl rfl rfl rfl rfl rfl
  exact { hchanged with }

/-- Whatever a pool does, it counts it as its events tell it. -/
theorem Accounted.act (h : Accounted starting p) (hact : Act p q) : Accounted starting q := by
  cases hact with
  | begin | resume => exact { h with closed := fun hended => PoolPhase.noConfusion hended }
  | succeed _ taken | giveUp _ taken => exact (h.taken taken _).emit
  | postpone _ taken => exact (h.taken taken _).postponed
  | callOff _ _ taken => exact (h.taken taken _).calledOff
  | requeue _ taken => exact { h.taken taken .interrupted with }
  | shrink _ busy => exact h.shrunk busy
  | grow busy => exact h.grown busy
  | breakDown | collapse => exact { h with closed := fun _ hfault => nomatch hfault }
  | drain | abandon => exact Accounted.calledOff { h with }
  | force => exact { h with closed := fun hended => PoolPhase.noConfusion hended }
  | launch _ _ _ _ room => exact h.launched room
  | close => exact { h with closed := fun _ _ => rfl }
  | _ => exact { h with }

theorem kept_accounted (starting : Nat) : Kept jobs (Accounted starting) where
  act := fun _ h hact => h.act hact
  news := by
    intro p q _ h hnews
    cases hnews <;> exact { h with }
  receive := fun _ _ h => { h with }

theorem Accounted.submit {policy : PoolPolicy} {retry : RetryPolicy} {gracePeriod clock : Nat}
    {draws : Nat → Nat → Nat} {pressure : MemoryPressure}
    (h : submit? policy retry gracePeriod draws pressure clock jobs = some p)
    (hstarting : policy.starting? = some starting) : Accounted starting p := by
  obtain ⟨concurrency, hc, rfl⟩ := Option.map_eq_some_iff.mp h
  obtain ⟨n, hn, rfl⟩ := Option.map_eq_some_iff.mp hc
  obtain rfl := Option.some.inj (hstarting.symm.trans hn)
  exact ⟨rfl, rfl, ⟨rfl, rfl, rfl⟩, Nat.zero_le _, fun hended => PoolPhase.noConfusion hended⟩

theorem Move.final_report (hmove : Move p q) (hended : p.phase = .ended) :
    q.report = p.report ∧ q.fault = p.fault := by
  cases hmove with
  | act hact =>
      cases hact with
      | note => exact ⟨rfl, rfl⟩
      | begin hphase | resume _ hphase | collapse _ hphase => exact absurd (hphase.symm.trans hended) (by decide)
      | succeed busy | giveUp busy | postpone busy | callOff _ busy | requeue busy | shrink _ busy | grow busy
      | breakDown busy | drain busy | force busy | reap busy | abandon busy | promote busy | launch busy
      | publish busy | close busy => exact absurd (busy.symm.trans hended) (by decide)
  | news hnews => cases hnews <;> exact ⟨rfl, rfl⟩
  | receive seq outcome =>
      obtain ⟨_, _, he, _⟩ := p.receive_eq seq outcome
      rw [he]
      exact ⟨rfl, rfl⟩

/-- A pool that has ended counts nothing more. -/
theorem Moves.final_report (hmoves : Moves p q) (hended : p.phase = .ended) :
    q.report = p.report ∧ q.fault = p.fault := by
  induction hmoves with
  | refl => exact ⟨rfl, rfl⟩
  | tail hfirst hmove ih =>
      obtain ⟨hreport, hfault⟩ := hmove.final_report (Moves.final hfirst hended).phase
      exact ⟨hreport.trans ih.1, hfault.trans ih.2⟩

/-- The results of a pool are counted like its events. -/
theorem Told.ends (h : Told p) : p.summary.ends =
    (p.results.countP (·.2.state == .succeeded), p.results.countP (·.2.state == .failedPermanent),
      p.results.countP (·.2.state == .cancelled)) := by
  have hcounts := RunSummary.ends_of_tells h {}
  rw [summary, RunSummary.ofEvents, RunSummary.ends_foldl_congr rfl]
  simpa [endings, List.countP_map, Function.comp_def] using hcounts

end Pool

end PageAudit
