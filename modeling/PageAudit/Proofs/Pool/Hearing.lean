import PageAudit.Proofs.Concurrency.Growth
import PageAudit.Proofs.Pool.Tracking

/-!
# What a pool hears

A pool hears the reports of its attempts one after the other, and each attempt once. What it hears is what the
adaptation records, in the same order: a success for an attempt that was completed, a failure for one that failed, and
nothing for one that ran out of resources or was broken off. Whatever else the pool does records nothing.
-/

namespace PageAudit

/-- How an outcome counts for the adaptation, if it does. -/
def AttemptOutcome.verdict? : AttemptOutcome → Option Verdict
  | .completed _ => some .success
  | .interrupted => none
  | .failed e => if e.kind == .resource then none else some .failure

namespace Pool

/-- Something more urgent than a report has happened. -/
def isUrged (p : Pool) : Bool :=
  !p.draining && p.cancelled || p.graceDeadline.any (· ≤ p.clock) || p.reapDeadline.any (· ≤ p.clock) ||
    p.pressureOpen && p.pressureFresh || p.pressureOpen && p.pressureClosed

/-- The report that is heard at an input: the first one, in a turn that nothing more urgent takes. -/
def hears? (p : Pool) : PoolInput → Option SlotReport
  | .turn => if p.phase == .waiting && !p.isUrged then p.reports.head? else none
  | _ => none

/-- The reports that are heard while inputs come, in order. -/
def heard (p : Pool) : List PoolInput → List SlotReport
  | [] => []
  | i :: rest => (p.hears? i).toList ++ (p.step i).heard rest

/-- A pool goes on: it adapts and records verdicts, and may start attempts, but it hears no report. -/
structure Records (p : Pool) (verdicts : List Verdict) (q : Pool) : Prop where
  course : ∃ steps changes, p.concurrency.takeAll? steps = some (q.concurrency, changes) ∧
    steps.filterMap (·.verdict?) = verdicts
  reports : q.reports = p.reports
  flights : ∀ f ∈ q.inFlight, f ∈ p.inFlight ∨ p.nextSeq < f.seq
  nextSeq : p.nextSeq ≤ q.nextSeq
  halted : p.Halted → q.Halted

/-- A pool goes on and hears reports, the first ones. The others stay, unless it is halted and gives all of them up. -/
structure Hears (p : Pool) (heard : List SlotReport) (q : Pool) : Prop where
  course : ∃ steps changes, p.concurrency.takeAll? steps = some (q.concurrency, changes) ∧
    steps.filterMap (·.verdict?) = heard.filterMap (·.outcome.verdict?)
  reports : p.reports = heard ++ q.reports ∨ heard = [] ∧ q.reports = [] ∧ q.Halted
  flights : ∀ f ∈ q.inFlight, f ∈ p.inFlight ∧ (∀ r ∈ heard, f.seq ≠ r.flight.seq) ∨ p.nextSeq < f.seq
  nextSeq : p.nextSeq ≤ q.nextSeq

/-- What is known of the reports that a pool has heard, since its adaptation was `start` and while inputs were given. -/
structure Logged (start : Concurrency) (given : List PoolInput) (heard : List SlotReport) (p : Pool) : Prop where
  /-- The adaptation has recorded what the reports say, in order. -/
  course : ∃ steps changes, start.takeAll? steps = some (p.concurrency, changes) ∧
    steps.filterMap (·.verdict?) = heard.filterMap (·.outcome.verdict?)
  reported : ∀ r, r ∈ heard ∨ r ∈ p.reports → .report r.flight.seq r.outcome ∈ given
  once : (heard.map (·.flight.seq)).Nodup
  apart : ∀ r ∈ heard, r.flight.seq ≤ p.nextSeq ∧ ∀ f ∈ p.inFlight, f.seq ≠ r.flight.seq
  /-- No attempt is lost: it is in flight or was heard, until all of them are told to stop. -/
  all : ¬p.Halted → ∀ seq, 0 < seq → seq ≤ p.nextSeq →
    (∃ f ∈ p.inFlight, f.seq = seq) ∨ ∃ r ∈ heard, r.flight.seq = seq

variable {jobs : List Job} {p q s : Pool} {verdicts : List Verdict} {heard past : List SlotReport}
  {start : Concurrency} {given : List PoolInput}

/-! ## Going on -/

theorem Records.of_frame (concurrency : q.concurrency = p.concurrency) (reports : q.reports = p.reports)
    (inFlight : q.inFlight = p.inFlight) (nextSeq : q.nextSeq = p.nextSeq) (halted : p.Halted → q.Halted) :
    Records p [] q :=
  ⟨⟨[], [], by simp [Concurrency.takeAll?, concurrency], rfl⟩, reports, fun _ hf => Or.inl (inFlight ▸ hf),
    Nat.le_of_eq nextSeq.symm, halted⟩

theorem Records.refl (p : Pool) : Records p [] p :=
  .of_frame rfl rfl rfl rfl id

theorem Records.trans {more : List Verdict} (h : Records p verdicts q) (h' : Records q more s) :
    Records p (verdicts ++ more) s := by
  obtain ⟨steps, changes, htake, hsteps⟩ := h.course
  obtain ⟨steps', changes', htake', hsteps'⟩ := h'.course
  refine ⟨⟨steps ++ steps', changes ++ changes', Concurrency.takeAll?_append htake htake', ?_⟩,
    h'.reports.trans h.reports, fun f hf => ?_, Nat.le_trans h.nextSeq h'.nextSeq, fun hp => h'.halted (h.halted hp)⟩
  · rw [List.filterMap_append, hsteps, hsteps']
  · rcases h'.flights f hf with hf | hlt
    · exact h.flights f hf
    · exact Or.inr (Nat.lt_of_le_of_lt h.nextSeq hlt)

/-- What records nothing may come first or last. -/
theorem Records.after (h' : Records q verdicts s) (h : Records p [] q) : Records p verdicts s :=
  h.trans h'

theorem Records.andThen {next : Pool → Pool} (h : Records p verdicts q) (hnext : Records q [] (next q)) :
    Records p verdicts (q.andThen next) := by
  unfold Pool.andThen
  split
  · exact h
  · simpa using h.trans hnext

theorem records_emit (p : Pool) (r : Result) (reason : FinalizeReason) : Records p [] (p.emit r reason) :=
  .of_frame rfl rfl rfl rfl id

theorem records_fail (p : Pool) (fault : PoolFault) : Records p [] (p.fail fault) :=
  .of_frame rfl rfl rfl rfl fun _ => Or.inr rfl

theorem records_conclude (p : Pool) (job : Job) (target : JobState) (result : Job → Result) (reason : FinalizeReason) :
    Records p [] (p.conclude job target result reason) := by
  unfold conclude
  split
  · exact records_emit ..
  · exact records_fail ..

theorem records_cancelJobs (reason : String) (js : List Job) (p : Pool) : Records p [] (cancelJobs reason js p) := by
  induction js generalizing p with
  | nil => exact .refl p
  | cons job rest ih => exact (records_conclude ..).andThen (ih _)

theorem records_preemptNewest (p : Pool) : Records p [] p.preemptNewest := by
  unfold preemptNewest
  split
  · exact .refl p
  · dsimp only
    split <;> exact .of_frame rfl rfl rfl rfl id

theorem records_preemptExcess (n : Nat) (p : Pool) : Records p [] (preemptExcess n p) := by
  induction n generalizing p with
  | zero => exact .refl p
  | succ n ih =>
      unfold preemptExcess
      split
      · exact (ih _).after (records_preemptNewest p)
      · exact .refl p

theorem records_applyChange (p : Pool) (change : ConcurrencyChange) : Records p [] (p.applyChange change) := by
  cases change with
  | unchanged => exact .refl p
  | shrunk before after reason =>
      have hcount : Records p [] { p with report := { p.report with shrinkEvents := p.report.shrinkEvents + 1 } } :=
        .of_frame rfl rfl rfl rfl id
      have hnote : ∀ q : Pool, Records q [] (q.noteChange before after reason.name) := fun _ =>
        .of_frame rfl rfl rfl rfl id
      exact (hnote _).after ((records_preemptExcess _ _).after hcount)
  | grew before after => exact .of_frame rfl rfl rfl rfl id

/-- An adaptation is followed, and may have recorded a verdict. -/
theorem records_adapted (step : ConcurrencyStep) {c : Concurrency} {change : ConcurrencyChange}
    (h : p.concurrency.take? step = some (c, change)) : Records p step.verdict?.toList { p with concurrency := c } := by
  refine ⟨⟨[step], [change], by simp [Concurrency.takeAll?, h], ?_⟩, rfl, fun _ => Or.inl, Nat.le_refl _, id⟩
  cases hv : step.verdict? <;> simp [hv]

theorem records_adapt (p : Pool) (resourceExhausted : Bool) : Records p [] (p.adapt resourceExhausted) := by
  unfold adapt
  split
  · exact records_fail ..
  · rename_i concurrency change heq
    exact (records_applyChange ..).after
      (records_adapted (.recompute p.pressure resourceExhausted) (by simpa [Concurrency.take?] using heq))

theorem records_adaptToMemory (p : Pool) : Records p [] p.adaptToMemory := by
  have hfresh : Records p [] { p with pressureFresh := false } := .of_frame rfl rfl rfl rfl id
  exact (records_applyChange ..).after ((records_adapted (.onMemory p.pressure) rfl).after hfresh)

/-! ## Settling -/

theorem records_record (p : Pool) (v : Verdict) : Records p [v] (p.record v) :=
  records_adapted (.record v) rfl

theorem records_settleFailure (p : Pool) (job : Job) (e : AttemptError) : Records p [] (p.settleFailure job e) := by
  unfold settleFailure
  split
  · split
    · exact records_conclude ..
    · unfold delay
      split
      · exact records_fail ..
      · exact .of_frame rfl rfl rfl rfl id
  · exact records_conclude ..

theorem records_settle (p : Pool) (job : Job) (outcome : AttemptOutcome) :
    Records p outcome.verdict?.toList (p.settle job outcome) := by
  cases outcome with
  | completed metrics =>
      exact ((records_record p .success).trans (records_conclude ..)).andThen (records_adapt ..)
  | interrupted => exact (records_conclude ..).andThen (records_adapt ..)
  | failed e =>
      unfold settle
      by_cases hkind : (e.kind == .resource) = true
      · simp only [AttemptOutcome.verdict?, hkind, ↓reduceIte]
        exact (records_settleFailure ..).andThen (records_adapt ..)
      · simp only [AttemptOutcome.verdict?, hkind, Bool.false_eq_true, ↓reduceIte]
        exact ((records_record p .failure).trans (records_settleFailure ..)).andThen (records_adapt ..)

theorem records_settlePreempted (p : Pool) (job : Job) (outcome : AttemptOutcome) :
    Records p outcome.verdict?.toList (p.settlePreempted job outcome) := by
  cases outcome with
  | completed | failed => exact records_settle ..
  | interrupted =>
      unfold settlePreempted
      dsimp only
      split
      · exact records_conclude ..
      · split
        · exact .of_frame rfl rfl rfl rfl id
        · exact records_fail ..

/-- A report of a job that runs or has lost its slot counts by its outcome. -/
theorem records_onReport {r : SlotReport}
    (hknown : (∃ e ∈ p.running, e.job.planIndex = r.flight.planIndex) ∨
      ∃ j ∈ p.preempted, j.planIndex = r.flight.planIndex) :
    Records p r.outcome.verdict?.toList (p.onReport r) := by
  unfold onReport
  dsimp only
  split
  · exact (records_settlePreempted ..).after (.of_frame rfl rfl rfl rfl id)
  · rename_i entry _ _
    have htaken : Records p [] { p with
        running := p.running.filter (·.job.planIndex != r.flight.planIndex)
        slots := p.slots.set entry.slotId none
        occupied := p.occupied - 1 } :=
      .of_frame rfl rfl rfl rfl id
    have hstrike : ∀ q : Pool, Records q [] (q.strike entry.seq) := fun _ => .of_frame rfl rfl rfl rfl id
    simpa using ((records_settle _ entry.job r.outcome).after htaken).trans (hstrike _)
  · rename_i hpreempted hrunning
    simp only [List.find?_eq_none, beq_iff_eq] at hpreempted hrunning
    rcases hknown with ⟨e, he, hplace⟩ | ⟨j, hj, hplace⟩
    · exact absurd hplace (hrunning e he)
    · exact absurd hplace (hpreempted j hj)

/-! ## Getting ready -/

theorem records_launch (p : Pool) (job : Job) (slotId : Nat) : Records p [] (p.launch job slotId) := by
  unfold launch
  split
  · exact records_fail ..
  · dsimp only
    split
    · exact records_fail ..
    · refine ⟨(Records.refl p).course, rfl, fun f hf => ?_, Nat.le_succ _, id⟩
      rcases List.mem_append.mp hf with hf | hf
      · exact Or.inl hf
      · rw [List.mem_singleton.mp hf]
        exact Or.inr (Nat.lt_succ_self _)

theorem records_dispatch (ready : List Job) (p : Pool) : Records p [] (dispatch ready p) := by
  induction ready generalizing p with
  | nil => exact .of_frame rfl rfl rfl rfl id
  | cons job rest ih =>
      unfold dispatch
      split
      · split
        · have hready : Records p [] { p with ready := rest } := .of_frame rfl rfl rfl rfl id
          exact ((records_launch ..).after hready).andThen (ih _)
        · exact .of_frame rfl rfl rfl rfl id
      · exact .of_frame rfl rfl rfl rfl id

theorem records_beginDrain (p : Pool) : Records p [] p.beginDrain := by
  have hdrain : Records p [] { p with draining := true, ready := [], delayed := [] } := .of_frame rfl rfl rfl rfl id
  unfold beginDrain
  apply Records.andThen ((records_cancelJobs ..).after hdrain)
  split
  · exact .refl _
  · exact .of_frame rfl rfl rfl rfl id

theorem records_prepare (p : Pool) : Records p [] p.prepare := by
  have hshow : ∀ q : Pool, Records q [] (if q.publish.isFinished then q.publish.close else q.publish) := by
    intro q
    split <;> exact .of_frame rfl rfl rfl rfl id
  have hfill : ∀ q : Pool, Records q [] (if q.draining then q else dispatch q.ready q) := by
    intro q
    split
    · exact .refl q
    · exact records_dispatch ..
  have hpromote : ∀ q : Pool, Records q [] q.promoteDue := fun _ => .of_frame rfl rfl rfl rfl id
  have hdrain : Records p [] (if !p.draining && p.cancelled then p.beginDrain else p) := by
    split
    · exact records_beginDrain p
    · exact .refl p
  unfold prepare
  apply hdrain.andThen
  apply ((hfill _).after (hpromote _)).andThen
  exact hshow _

theorem records_leave (p : Pool) : Records p [] p.leave := by
  have hleft : Records p [] { p with ready := [], delayed := [], running := [], preempted := [] } :=
    .of_frame rfl rfl rfl rfl id
  exact ((records_cancelJobs ..).after hleft).andThen (.of_frame rfl rfl rfl rfl id)

theorem records_start (p : Pool) : Records p [] p.start := by
  have hchanges : ∀ (changes : List ConcurrencyChange) (q : Pool), Records q [] (changes.foldl applyChange q) := by
    intro changes
    induction changes with
    | nil => exact Records.refl
    | cons change rest ih => exact fun q => (ih _).after (records_applyChange q change)
  have hsettle : ∀ (fuel : Nat) (c : Concurrency), ∃ steps changes,
      c.takeAll? steps = some ((c.settleOnMemory p.pressure fuel).1, changes) ∧
        steps.filterMap (·.verdict?) = [] := by
    intro fuel
    induction fuel with
    | zero => exact fun c => ⟨[], [], rfl, rfl⟩
    | succ fuel ih =>
        intro c
        obtain ⟨steps, changes, htake, hsteps⟩ := ih (c.onMemory p.pressure).1
        have hfirst : c.take? (.onMemory p.pressure) = some (c.onMemory p.pressure) := rfl
        unfold Concurrency.settleOnMemory
        split
        · rename_i heq
          exact ⟨[.onMemory p.pressure], [.unchanged], by simp [Concurrency.takeAll?, hfirst, heq], rfl⟩
        · rename_i heq
          rw [heq] at htake
          exact ⟨.onMemory p.pressure :: steps, _ :: changes, by simp [Concurrency.takeAll?, hfirst, heq, htake]; rfl,
            by simpa [ConcurrencyStep.verdict?] using hsteps⟩
  have hbegin : Records p [] { p with
      concurrency := (p.concurrency.settleOnMemory p.pressure (p.allowed + 1)).1
      pressureFresh := false
      phase := .waiting } :=
    ⟨hsettle _ _, rfl, fun _ => Or.inl, Nat.le_refl _, id⟩
  exact (records_prepare _).after ((hchanges _ _).after hbegin)

theorem records_released (p : Pool) (count : Nat) : Records p [] (p.released count) := by
  unfold released
  split
  · exact (records_prepare _).after (.of_frame rfl rfl rfl rfl id)
  · exact .refl p

theorem records_launcherBroke (p : Pool) (message : String) : Records p [] (p.launcherBroke message) := by
  unfold launcherBroke
  split
  · exact records_fail p _
  · exact .refl p

/-! ## Turns -/

theorem Hears.of_records (h : Records p [] q) : Hears p [] q :=
  ⟨h.course, Or.inl (by simp [h.reports]), fun f hf => (h.flights f hf).imp_left fun hf => ⟨hf, by simp⟩, h.nextSeq⟩

theorem Hears.records (h : Hears p heard q) (h' : Records q [] s) : Hears p heard s := by
  obtain ⟨steps, changes, htake, hsteps⟩ := h.course
  obtain ⟨steps', changes', htake', hsteps'⟩ := h'.course
  refine ⟨⟨steps ++ steps', changes ++ changes', Concurrency.takeAll?_append htake htake', ?_⟩, ?_, fun f hf => ?_,
    Nat.le_trans h.nextSeq h'.nextSeq⟩
  · rw [List.filterMap_append, hsteps, hsteps', List.append_nil]
  · rw [h'.reports]
    exact h.reports.imp_right fun ⟨hnone, hdropped, hhalted⟩ => ⟨hnone, hdropped, h'.halted hhalted⟩
  · rcases h'.flights f hf with hf | hlt
    · exact h.flights f hf
    · exact Or.inr (Nat.lt_of_le_of_lt h.nextSeq hlt)

theorem Hears.abandon (hstop : p.hardStopped = true) : Hears p [] p.abandon := by
  unfold Pool.abandon
  split
  · exact .of_records (.of_frame rfl rfl rfl rfl id)
  · have hcancel := records_cancelJobs "执行被强制中止" (sortByPlan (p.running.map (·.job) ++ p.preempted))
      { p with
        reapDeadline := none
        inFlight := []
        reports := []
        slots := p.slots.map fun _ => none
        occupied := 0
        running := []
        preempted := [] }
    exact ⟨hcancel.course, Or.inr ⟨rfl, hcancel.reports, hcancel.halted (Or.inl hstop)⟩,
      fun f hf => Or.inr ((hcancel.flights f hf).resolve_left List.not_mem_nil), hcancel.nextSeq⟩

theorem Sound.hears_report {r : SlotReport} {rest : List SlotReport} (h : Sound jobs p)
    (first : p.reports = r :: rest) :
    Hears p [r] ({ p with reports := rest, inFlight := p.inFlight.filter (·.seq != r.flight.seq) }.onReport r) := by
  have hknown := h.report_known (first ▸ List.mem_cons_self)
  have hrecords := records_onReport (r := r)
    (p := { p with reports := rest, inFlight := p.inFlight.filter (·.seq != r.flight.seq) }) hknown
  have hverdict : [r].filterMap (·.outcome.verdict?) = r.outcome.verdict?.toList := by
    cases hv : r.outcome.verdict? <;> simp [hv]
  refine ⟨hverdict ▸ hrecords.course, Or.inl (by simp [hrecords.reports, first]), fun f hf => ?_, hrecords.nextSeq⟩
  -- What flew before is still there only if it is not the attempt that was heard.
  refine (hrecords.flights f hf).imp_left fun hf => ?_
  obtain ⟨hf, hne⟩ := List.mem_filter.mp hf
  exact ⟨hf, by simpa using hne⟩

/-- What a pool takes in a turn is the report that it hears, or something more urgent. -/
theorem Sound.hears_handle (h : Sound jobs p) (hb : Braked p) (busy : p.phase = .waiting) (hq : p.handle? = some q) :
    Hears p (p.hears? .turn).toList q := by
  have hurged : p.isUrged = true → p.hears? .turn = none := fun hu => by simp [hears?, hu]
  unfold handle? at hq
  split at hq
  · rename_i hdrain
    cases hq
    rw [hurged (by simp [isUrged, hdrain])]
    exact .of_records (records_beginDrain p)
  rename_i hdrain
  split at hq
  · rename_i hgrace
    cases hq
    rw [hurged (by simp [isUrged, hgrace])]
    exact .of_records (.of_frame rfl rfl rfl rfl fun _ => Or.inl rfl)
  rename_i hgrace
  split at hq
  · rename_i hreap
    cases hq
    rw [hurged (by simp [isUrged, hreap])]
    exact .abandon (hb.forced (Or.inl (by cases hr : p.reapDeadline <;> simp_all)))
  rename_i hreap
  split at hq
  · rename_i hfresh
    cases hq
    rw [hurged (by simp [isUrged, hfresh])]
    exact .of_records (records_adaptToMemory p)
  rename_i hfresh
  split at hq
  · rename_i hclosed
    cases hq
    rw [hurged (by simp [isUrged, hclosed])]
    exact .of_records (.of_frame rfl rfl rfl rfl id)
  rename_i hclosed
  -- Nothing more urgent is left, so the first report is heard if there is one.
  have hcalm : p.isUrged = false := by
    simp only [isUrged, hdrain, hgrace, hreap, hfresh, hclosed, Bool.or_self]
  have hhead : p.hears? .turn = p.reports.head? := by simp [hears?, busy, hcalm]
  rw [hhead]
  split at hq
  · rename_i r rest hreports
    cases hq
    rw [hreports]
    exact h.hears_report hreports
  · rename_i hreports
    rw [hreports]
    split at hq
    · cases hq
      exact .of_records (.refl p)
    · split at hq
      · cases hq
      · cases hq
        exact .of_records (records_leave p)

theorem hears?_of_handle?_none (h : p.handle? = none) : p.hears? .turn = none := by
  unfold handle? at h
  repeat' split at h
  all_goals cases h
  rename_i hreports _ _
  simp [hears?, hreports]

theorem Sound.hears_turn (h : Sound jobs p) (hb : Braked p) : Hears p (p.hears? .turn).toList (p.step .turn) := by
  unfold Pool.step
  dsimp only
  split
  · rename_i hfresh
    have hphase : p.phase = .fresh := by simpa using hfresh
    have hnone : p.hears? .turn = none := by simp [hears?, hphase]
    rw [hnone]
    exact .of_records (records_start p)
  · by_cases busy : p.phase = .waiting
    · cases hq : p.handle? with
      | none =>
          rw [hears?_of_handle?_none hq]
          simp only [turn?, busy, hq]
          exact .of_records (.refl p)
      | some q =>
          have hhandled := h.hears_handle hb busy hq
          simp only [turn?, busy, hq, beq_self_eq_true, ↓reduceIte, Option.map_some, Option.getD_some]
          split
          · exact hhandled.records (records_prepare q)
          · exact hhandled
    · have hnone : p.hears? .turn = none := by simp [hears?, busy]
      have hidle : p.turn? = none := by simp [turn?, busy]
      rw [hnone, hidle]
      exact .of_records (.refl p)

/-! ## Whole runs -/

theorem Hears.mem_reports (h : Hears p heard q) {r : SlotReport} (hr : r ∈ heard ∨ r ∈ q.reports) : r ∈ p.reports := by
  rcases h.reports with he | ⟨hnone, hdropped, _⟩
  · rw [he]
    exact List.mem_append.mpr hr
  · simp [hnone, hdropped] at hr

theorem Logged.hears {i : PoolInput} (h : Logged start given past p) (hs : Sound jobs p) (hears : Hears p heard q)
    (hq : Sound jobs q) (htracked : ∀ {done : Nat → Prop}, Tracked done p → Tracked done q) :
    Logged start (given ++ [i]) (past ++ heard) q := by
  obtain ⟨steps, changes, htake, hsteps⟩ := h.course
  obtain ⟨steps', changes', htake', hsteps'⟩ := hears.course
  have hflying : ∀ r ∈ heard, r.flight ∈ p.inFlight := fun r hr => hs.flown.reports r (hears.mem_reports (Or.inl hr))
  refine ⟨⟨steps ++ steps', changes ++ changes', Concurrency.takeAll?_append htake htake', ?_⟩, ?_, ?_, ?_, ?_⟩
  · rw [List.filterMap_append, hsteps, hsteps', List.filterMap_append]
  · intro r hr
    refine List.mem_append_left _ (h.reported r ?_)
    rcases hr with hr | hr
    · exact (List.mem_append.mp hr).imp_right fun hr => hears.mem_reports (Or.inl hr)
    · exact Or.inr (hears.mem_reports (Or.inr hr))
  · -- The attempts that are heard now were in flight, and those heard before were not.
    rw [List.map_append]
    refine List.nodup_append.mpr ⟨h.once, ?_, ?_⟩
    · rcases hears.reports with he | ⟨hnone, _⟩
      · have honce := hs.flown.once
        rw [he, List.map_append] at honce
        exact honce.of_append_left
      · simp [hnone]
    · intro a ha b hb
      obtain ⟨r, hr, rfl⟩ := List.mem_map.mp ha
      obtain ⟨r', hr', rfl⟩ := List.mem_map.mp hb
      exact ((h.apart r hr).2 _ (hflying r' hr')).symm
  · intro r hr
    rcases List.mem_append.mp hr with hr | hr
    · obtain ⟨hle, hapart⟩ := h.apart r hr
      refine ⟨Nat.le_trans hle hears.nextSeq, fun f hf => ?_⟩
      rcases hears.flights f hf with ⟨hf, _⟩ | hlt
      · exact hapart f hf
      · omega
    · have hle := (hs.flown.bound _ (hflying r hr)).2
      refine ⟨Nat.le_trans hle hears.nextSeq, fun f hf => ?_⟩
      rcases hears.flights f hf with ⟨_, hne⟩ | hlt
      · exact hne r hr
      · omega
  · intro hgoing seq hpos hle
    have hbefore : Tracked (fun seq => (∃ r ∈ past, r.flight.seq = seq) ∨ ∃ r ∈ p.reports, r.flight.seq = seq) p :=
      ⟨fun hgoing seq hpos hle => (h.all hgoing seq hpos hle).imp_right Or.inl, fun r hr => Or.inr ⟨r, hr, rfl⟩⟩
    rcases (htracked hbefore).attempts hgoing seq hpos hle with hflight | ⟨r, hr, hseq⟩ | ⟨r, hr, hseq⟩
    · exact Or.inl hflight
    · exact Or.inr ⟨r, List.mem_append_left _ hr, hseq⟩
    · rcases hears.reports with he | ⟨_, _, hhalted⟩
      · rcases List.mem_append.mp (he ▸ hr) with hr | hr
        · exact Or.inr ⟨r, List.mem_append_right _ hr, hseq⟩
        · exact Or.inl ⟨_, hq.flown.reports r hr, hseq⟩
      · exact absurd hhalted hgoing

/-- News from outside leaves what was heard alone. -/
theorem Logged.news {i : PoolInput} (h : Logged start given past p) (hnews : News p q) :
    Logged start (given ++ [i]) past q := by
  have hreported : ∀ r, r ∈ past ∨ r ∈ p.reports → .report r.flight.seq r.outcome ∈ given ++ [i] := fun r hr =>
    List.mem_append_left _ (h.reported r hr)
  cases hnews <;> exact ⟨h.course, hreported, h.once, h.apart, h.all⟩

theorem Logged.step (h : Logged start given past p) (hs : Sound jobs p) (hb : Braked p) (i : PoolInput) :
    Logged start (given ++ [i]) (past ++ (p.hears? i).toList) (p.step i) := by
  have hacts : ∀ {heard : List SlotReport} {q : Pool}, Acts p q → Hears p heard q →
      Logged start (given ++ [i]) (past ++ heard) q := fun hacts hears =>
    h.hears hs hears (hs.acts hacts) fun ht => ht.acts hs hb hacts
  cases i with
  | turn => exact hacts hs.step_turn (hs.hears_turn hb)
  | released count => exact hacts (hs.released count) (.of_records (records_released p count))
  | launcherBroke message =>
      exact hacts (p.acts_launcherBroke message) (.of_records (records_launcherBroke p message))
  | elapse now => exact (List.append_nil past).symm ▸ h.news (.elapse _)
  | cancel => exact (List.append_nil past).symm ▸ h.news .cancel
  | pressure m => exact (List.append_nil past).symm ▸ h.news (.pressure m)
  | pressureClosed => exact (List.append_nil past).symm ▸ h.news .closed
  | report seq outcome =>
      obtain ⟨roster, reports, he, hreports⟩ := p.receive_eq seq outcome
      have hreported : ∀ r, r ∈ past ∨ r ∈ reports →
          .report r.flight.seq r.outcome ∈ given ++ [.report seq outcome] := by
        intro r hr
        rcases hr with hr | hr
        · exact List.mem_append_left _ (h.reported r (Or.inl hr))
        · rcases hreports r hr with hr | ⟨rfl, rfl⟩
          · exact List.mem_append_left _ (h.reported r (Or.inr hr))
          · simp
      have hstep : p.step (.report seq outcome) = { p with roster, reports } := he
      rw [hstep]
      simp only [hears?, Option.toList_none, List.append_nil]
      exact ⟨h.course, hreported, h.once, h.apart, h.all⟩

theorem Logged.after (h : Logged start given past p) (hs : Sound jobs p) (hb : Braked p) (inputs : List PoolInput) :
    Logged start (given ++ inputs) (past ++ p.heard inputs) (p.after inputs) := by
  induction inputs generalizing p given past with
  | nil => simpa [Pool.heard, Pool.after] using h
  | cons i rest ih =>
      have hmoves := hs.step_moves i
      have hrest := ih (h.step hs hb i) (hs.moves hmoves) (kept_braked.moves hs hb hmoves)
      simpa [Pool.heard, Pool.after] using hrest

theorem Logged.submit {policy : PoolPolicy} {retry : RetryPolicy} {gracePeriod clock : Nat} {draws : Nat → Nat → Nat}
    {pressure : MemoryPressure} (h : submit? policy retry gracePeriod draws pressure clock jobs = some p) :
    Logged p.concurrency [] [] p := by
  obtain ⟨_, _, _, rfl⟩ := submit?_eq h
  exact {
    course := ⟨[], [], rfl, rfl⟩
    reported := by simp
    once := List.nodup_nil
    apart := by simp
    all := fun _ seq hpos hle => absurd hle (Nat.not_le.mpr hpos) }

/-- With a valid policy a pool grows only by what was earned: after a full window of successes since the last growth,
with memory and resources to spare. A success is recorded for each attempt that was heard to be completed, a failure for
each that failed with resources left, and nothing else. -/
theorem growth_earned {policy : PoolPolicy} (h : policy.validate = .ok ()) (hjobs : Submittable jobs) :
    ∃ c, Concurrency.start? policy = some c ∧
      (∀ steps d changes, c.takeAll? steps = some (d, changes) → Concurrency.Earned policy (steps.zip changes) d) ∧
      ∀ retry gracePeriod draws pressure clock, ∃ p,
        submit? policy retry gracePeriod draws pressure clock jobs = some p ∧
          ∀ inputs, Logged c inputs (p.heard inputs) (p.after inputs) := by
  have hvalid := PoolPolicy.Valid.of_validate h
  obtain ⟨c, hc, _⟩ := Concurrency.Within.start? hvalid
  refine ⟨c, hc, fun _ _ _ => .of_takeAll? hvalid hc, fun retry gracePeriod draws pressure clock => ?_⟩
  obtain ⟨p, hp⟩ : ∃ p, submit? policy retry gracePeriod draws pressure clock jobs = some p :=
    submit?_isSome hvalid.ordered
  have hstart : p.concurrency = c := by
    simp only [submit?, hc, Option.map_some, Option.some.injEq] at hp
    rw [← hp]
  refine ⟨p, hp, fun inputs => ?_⟩
  have hlogged := (Logged.submit hp).after (Sound.submit hp hjobs) (Braked.submit hp) inputs
  rw [hstart] at hlogged
  simpa using hlogged

theorem twoPages_growth_earned : PoolPolicy.validate {} = .ok () ∧ Submittable twoPages ∧ ∃ c p,
    Concurrency.start? {} = some c ∧ submit? {} {} 0 (fun _ _ => 0) {} 0 twoPages = some p ∧
    (p.heard [.turn, .report 2 .interrupted, .report 1 (.completed []), .turn, .turn]).map (·.flight.seq) = [2, 1] ∧
    ∀ inputs, Logged c inputs (p.heard inputs) (p.after inputs) := by
  obtain ⟨c, hc, _, hpool⟩ := growth_earned (rfl : PoolPolicy.validate {} = .ok ()) twoPages_submittable
  obtain ⟨p, hp, hall⟩ := hpool {} 0 (fun _ _ => 0) {} 0
  refine ⟨rfl, twoPages_submittable, c, p, hc, hp, ?_, hall⟩
  cases hp
  rfl

end Pool

end PageAudit
