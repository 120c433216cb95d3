import PageAudit.Proofs.Config.Validity
import PageAudit.Proofs.Keys
import PageAudit.Proofs.Run.Actions

/-!
# Complete reports

The pool of a run loses no job: at any time each stands in one place, and a pool that ends without breaking down gives
a result for every job. The results of a run that has ended are those of its pool; only for what a pool that broke down
left undone are some made up. Every job of the plan has one of them, at its position, and one event tells of it.
-/

namespace PageAudit

open Pool

/-- The events end every job of a plan just once, with the result that stands at its position. -/
structure Complete (plan : List Job) (events : List ProgressEvent) (results : List Result) : Prop where
  length : results.length = plan.length
  each : ∀ (i : Nat) (job : Job), plan[i]? = some job → ∃ result, results[i]? = some result ∧
    result.jobId = job.id ∧ result.url = job.url ∧ result.planIndex = i ∧ result.state.isTerminal = true ∧
    ∃ e, events.filter (fun e => e.isTerminal && e.jobId? == some job.id) = [e] ∧ e.Tells result
  /-- No other job is ended. -/
  others : ∀ e ∈ events, e.isTerminal = true → ∃ job ∈ plan, e.jobId? = some job.id

/-- A pool has lost no job of a plan and ended none twice. -/
structure Pool.Intact (plan : List Job) (p : Pool) : Prop where
  /-- Every job stands in one place. -/
  places : p.places.Perm (plan.map Job.place)
  once : (p.results.map (·.2.planIndex)).Nodup
  /-- The events that tell of an end tell of the results, one by one. -/
  told : Told p
  /-- The pool breaks down only when the sum with its step leaves the words, or with its launcher. -/
  fault : p.fault = none ∨ p.fault = some .additionOverflow ∨ ∃ message, p.fault = some (.launcher message)

namespace Run

/-- The results that were collected are those that the pool gave, and those made up for the jobs that it left undone. -/
structure Gathered (r : Run) (results : List Result) : Prop where
  kept : ∀ x ∈ r.session.pool.results, results[x.2.planIndex]? = some x.2
  madeUp : ∀ (i : Nat) (job : Job), r.plan[i]? = some job → (∀ x ∈ r.session.pool.results, x.2.planIndex ≠ i) →
    ∃ t, results[i]? = some (.cancelled job t missingReason)
  /-- A pool that does not break down leaves nothing undone: it gave all results, and told of them itself. -/
  own : r.session.pool.fault = none → results.Perm (r.session.pool.results.map (·.2)) ∧ r.closing = []

variable {r : Run} {plan : List Job} {results : List Result} {i t : Nat} {job : Job}

/-- The results of the pool and those of the jobs for which it gave none, made at a given time. -/
def allResults (r : Run) (t : Nat) : List Result :=
  r.session.pool.results.map (·.2) ++ r.missing.map fun x => .cancelled x.1 t missingReason

/-! ## The events -/

/-- The events tell of all results, one by one. -/
theorem Orderly.tells (h : r.Orderly r.plan)
    (hclosing : r.closing = r.missing.map fun x => (t, .cancelled x.1.id x.1.attempt)) :
    List.Forall₂ ProgressEvent.Tells ((r.events.map (·.2)).filter (·.isTerminal)) (r.allResults t) := by
  have hopening : (r.opening.map (·.2)).filter (·.isTerminal) = [] := by
    refine List.filter_eq_nil_iff.mpr fun e he => ?_
    obtain ⟨x, hx, rfl⟩ := List.mem_map.mp he
    simp [h.1.opening x hx]
  have hmissing : (r.closing.map (·.2)).filter (·.isTerminal) =
      r.missing.map fun x => .cancelled x.1.id x.1.attempt := by
    simp [hclosing, List.filter_map, Function.comp_def, ProgressEvent.isTerminal]
  have hevents : (r.events.map (·.2)).filter (·.isTerminal) =
      r.session.pool.endings ++ r.missing.map fun x => .cancelled x.1.id x.1.attempt := by
    rw [events, List.map_append, List.map_append, List.filter_append, List.filter_append, hopening, hmissing]
    rfl
  rw [hevents]
  refine List.rel_append h.1.told ?_
  rw [List.forall₂_map_left_iff, List.forall₂_map_right_iff, List.forall₂_same]
  exact fun x _ => ⟨rfl, rfl, rfl⟩

/-! ## The results -/

theorem resultAt?_none (h : r.resultAt? i = none) {x : Nat × Result} (hx : x ∈ r.session.pool.results) :
    x.2.planIndex ≠ i := by
  have hfind := List.find?_eq_none.mp (Option.map_eq_none_iff.mp h) x hx
  simpa using hfind

theorem resultAt?_some {result : Result} (h : r.resultAt? i = some result) :
    ∃ x ∈ r.session.pool.results, x.2 = result ∧ result.planIndex = i := by
  obtain ⟨x, hfind, rfl⟩ := Option.map_eq_some_iff.mp h
  exact ⟨x, List.mem_of_find?_eq_some hfind, rfl, by simpa using List.find?_some hfind⟩

theorem Grounded.resultAt?_eq (h : r.Grounded plan) {x : Nat × Result} (hx : x ∈ r.session.pool.results) :
    r.resultAt? x.2.planIndex = some x.2 := by
  rw [resultAt?, ← List.head?_filter, filter_key_eq h.sound.placed.results_nodup hx]
  rfl

theorem mem_missing {x : Job × Nat} : x ∈ r.missing ↔ r.plan[x.2]? = some x.1 ∧ r.resultAt? x.2 = none := by
  simp [missing, List.mem_filter, List.mem_zipIdx_iff_getElem?]

theorem missing_planIndex (hplan : AcceptedPlan r.plan) {x : Job × Nat} (hx : x ∈ r.missing) :
    x.1.planIndex = x.2 :=
  hplan.planIndex_eq (mem_missing.mp hx).1

theorem Grounded.exists_job (h : r.Grounded r.plan) {result : Result} (hr : result ∈ r.allResults t) :
    ∃ job ∈ r.plan, job.place = result.place := by
  rcases List.mem_append.mp hr with hr | hr
  · obtain ⟨x, hx, rfl⟩ := List.mem_map.mp hr
    exact h.sound.placed.exists_job hx
  · obtain ⟨x, hx, rfl⟩ := List.mem_map.mp hr
    exact ⟨x.1, List.mem_of_getElem? (mem_missing.mp hx).1, rfl⟩

/-- No two results are for one position. -/
theorem Grounded.allResults_nodup (h : r.Grounded r.plan) (hplan : AcceptedPlan r.plan) :
    ((r.allResults t).map (·.planIndex)).Nodup := by
  have hpool : ((r.session.pool.results.map (·.2)).map (·.planIndex)).Nodup := by
    rw [List.map_map]
    exact h.sound.placed.results_nodup
  have hindices : (r.missing.map fun x => Result.cancelled x.1 t missingReason).map (·.planIndex) =
      r.missing.map (·.2) := by
    rw [List.map_map]
    exact List.map_congr_left fun x hx => missing_planIndex hplan hx
  have hmissing : (r.missing.map (·.2)).Nodup := by
    refine List.Nodup.sublist (List.filter_sublist.map _) ?_
    rw [List.zipIdx_map_snd]
    exact List.nodup_range'
  rw [allResults, List.map_append, hindices]
  -- A position is missing just because no result of the pool has it.
  refine hpool.append hmissing fun i hi hi' => ?_
  obtain ⟨x, hx, rfl⟩ := List.mem_map.mp hi'
  rw [List.map_map] at hi
  obtain ⟨y, hy, hindex⟩ := List.mem_map.mp hi
  exact resultAt?_none (mem_missing.mp hx).2 hy hindex

/-- No two results are for one identifier. -/
theorem Grounded.jobIds_nodup (h : r.Grounded r.plan) (hplan : AcceptedPlan r.plan) :
    ((r.allResults t).map (·.jobId)).Nodup := by
  have hn := h.allResults_nodup (t := t) hplan
  -- Equal identifiers belong to one job of the plan, which has one position.
  refine List.Nodup.map_on ?_ (List.Nodup.of_map _ hn)
  intro a ha b hb hid
  obtain ⟨j, hj, hja⟩ := h.exists_job ha
  obtain ⟨k, hk, hkb⟩ := h.exists_job hb
  have hids : j.id = k.id := (congrArg JobPlace.id hja).trans (hid.trans (congrArg JobPlace.id hkb).symm)
  obtain rfl := List.inj_on_of_nodup_map hplan.ids hj hk hids
  exact List.inj_on_of_nodup_map hn ha hb (congrArg JobPlace.index (hja.symm.trans hkb))

/-- What stands at the position of a job is its result. -/
theorem Grounded.result_of (h : r.Grounded r.plan) (hplan : AcceptedPlan r.plan) (hi : r.plan[i]? = some job) :
    (r.resultAt? i).getD (.cancelled job t missingReason) ∈ r.allResults t ∧
      ((r.resultAt? i).getD (.cancelled job t missingReason)).place = job.place := by
  cases hat : r.resultAt? i with
  | none =>
      exact ⟨List.mem_append_right _ (List.mem_map.mpr ⟨(job, i), mem_missing.mpr ⟨hi, hat⟩, rfl⟩), rfl⟩
  | some result =>
      obtain ⟨x, hx, rfl, hindex⟩ := resultAt?_some hat
      obtain ⟨k, hk, hplace⟩ := h.sound.placed.exists_job hx
      have hsame : k.planIndex = job.planIndex := by
        rw [hplan.planIndex_eq hi, ← hindex]
        exact congrArg JobPlace.index hplace
      obtain rfl := List.inj_on_of_nodup_map hplan.nodup hk (List.mem_of_getElem? hi) hsame
      exact ⟨List.mem_append_left _ (List.mem_map_of_mem hx), hplace.symm⟩

/-! ## The results of the pool -/

theorem Grounded.intact (h : r.Grounded plan) : r.session.pool.Intact plan :=
  ⟨h.sound.placed.accounted, h.sound.placed.results_nodup, h.told,
    h.sound.phased.fault.imp_right fun hf => hf.2.imp_right And.right⟩

/-- A pool that ended without breaking down gave just one result for every job, and told of it once. -/
theorem Grounded.exists_result (h : r.Grounded r.plan) (hplan : AcceptedPlan r.plan)
    (hended : r.session.pool.phase = .ended) (hfault : r.session.pool.fault = none) (hjob : job ∈ r.plan) :
    ∃ x, r.session.pool.results.filter (·.2.planIndex == job.planIndex) = [x] ∧ x.2.place = job.place ∧
      ∃ e, r.session.pool.endings.filter (·.jobId? == some job.id) = [e] ∧ e.Tells x.2 := by
  have hlength := h.sound.placed.results_length (h.sound.phased.ended hended hfault).1
  obtain ⟨x, hx, hplace⟩ := h.sound.placed.all_ended_iff.mpr hlength job hjob
  have hids : ((r.session.pool.results.map (·.2)).map (·.jobId)).Nodup := by
    have hall := h.jobIds_nodup (t := 0) hplan
    rw [allResults, List.map_append] at hall
    exact hall.of_append_left
  have hindex : x.2.planIndex = job.planIndex := congrArg JobPlace.index hplace
  have hid : x.2.jobId = job.id := congrArg JobPlace.id hplace
  obtain ⟨e, hone, he⟩ := ProgressEvent.exists_unique_tells h.told hids (List.mem_map_of_mem hx)
  exact ⟨x, hindex ▸ filter_key_eq h.sound.placed.results_nodup hx, hplace, e, hid ▸ hone, he⟩

/-- Such a pool leaves no job undone. -/
theorem Grounded.missing_nil (h : r.Grounded r.plan) (hplan : AcceptedPlan r.plan)
    (hended : r.session.pool.phase = .ended) (hfault : r.session.pool.fault = none) : r.missing = [] := by
  refine List.eq_nil_iff_forall_not_mem.mpr fun x hx => ?_
  obtain ⟨hat, hnone⟩ := mem_missing.mp hx
  obtain ⟨y, hy, hplace, _⟩ := h.exists_result hplan hended hfault (List.mem_of_getElem? hat)
  have hmem : y ∈ r.session.pool.results := (List.mem_filter.mp (hy ▸ List.mem_singleton_self y)).1
  exact resultAt?_none hnone hmem ((congrArg JobPlace.index hplace).trans (hplan.planIndex_eq hat))

/-! ## The report -/

/-- What was collected of an accepted plan is complete. -/
theorem Orderly.complete (h : r.Orderly plan) (hplan : AcceptedPlan plan) (hs : r.Settled results) :
    Complete plan (r.events.map (·.2)) results := by
  obtain rfl := h.1.plan_eq
  obtain ⟨_, t, rfl, hclosing⟩ := hs
  have htells := h.tells hclosing
  refine ⟨?_, ?_, ?_⟩
  · rw [List.length_map, List.length_zipIdx]
  · intro i job hi
    obtain ⟨hmem, hplace⟩ := h.1.result_of (t := t) hplan hi
    obtain ⟨e, hone, he⟩ := ProgressEvent.exists_unique_tells htells (h.1.jobIds_nodup hplan) hmem
    have hid := congrArg JobPlace.id hplace
    refine ⟨_, ?_, hid, congrArg JobPlace.url hplace, (congrArg JobPlace.index hplace).trans (hplan.planIndex_eq hi),
      he.terminal.2, e, ?_, he⟩
    · rw [List.getElem?_map, List.getElem?_zipIdx, hi]
      simp
    · rw [List.filter_filter] at hone
      rw [← hone]
      refine List.filter_congr fun e' _ => ?_
      rw [Bool.and_comm]
      exact congrArg (fun id => (e'.jobId? == some id) && e'.isTerminal) hid.symm
  · intro e he hterminal
    obtain ⟨result, hr, htold⟩ := forall₂_exists_of_mem htells (List.mem_filter.mpr ⟨he, hterminal⟩)
    obtain ⟨job, hjob, hplace⟩ := h.1.exists_job hr
    exact ⟨job, hjob, htold.jobId.trans (congrArg some (congrArg JobPlace.id hplace).symm)⟩

/-- The results that were collected of a pool that did not break down are those that it gave. -/
theorem Orderly.results_perm (h : r.Orderly plan) (hplan : AcceptedPlan plan) (hs : r.Settled results)
    (hfault : r.session.pool.fault = none) : results.Perm (r.session.pool.results.map (·.2)) := by
  have hcomplete := h.complete hplan hs
  obtain rfl := h.1.plan_eq
  obtain ⟨hended, t, hresults, _⟩ := hs
  have hmissing := h.1.missing_nil hplan hended hfault
  have hlength := h.1.sound.placed.results_length (h.1.sound.phased.ended hended hfault).1
  have hindices : results.map (·.planIndex) = List.range r.plan.length := by
    refine List.ext_getElem? fun i => ?_
    by_cases hi : i < r.plan.length
    · obtain ⟨result, hat, _, _, hindex, _⟩ := hcomplete.each i _ (List.getElem?_eq_getElem hi)
      rw [List.getElem?_map, hat, List.getElem?_range hi, Option.map_some, hindex]
    · rw [List.getElem?_eq_none (by simpa [hcomplete.length] using hi),
        List.getElem?_eq_none (by simpa using hi)]
  have hnodup : results.Nodup := List.Nodup.of_map (·.planIndex) (hindices ▸ List.nodup_range)
  refine (List.subperm_of_subset hnodup fun x hx => ?_).perm_of_length_le ?_
  · rw [hresults] at hx
    obtain ⟨⟨job, i⟩, hji, rfl⟩ := List.mem_map.mp hx
    have hmem := (h.1.result_of (t := t) hplan (List.mem_zipIdx_iff_getElem?.mp hji)).1
    rw [allResults, hmissing, List.map_nil, List.append_nil] at hmem
    exact hmem
  · rw [List.length_map, hlength, hcomplete.length]

/-- What was collected is what the pool gave, and what was made up for the jobs that it left undone. -/
theorem Orderly.gathered (h : r.Orderly plan) (hplan : AcceptedPlan plan) (hs : r.Settled results) :
    r.Gathered results := by
  have hperm := h.results_perm hplan hs
  obtain rfl := h.1.plan_eq
  obtain ⟨hended, t, hresults, hclosing⟩ := hs
  have hat : ∀ {i : Nat} {job : Job}, r.plan[i]? = some job →
      results[i]? = some ((r.resultAt? i).getD (.cancelled job t missingReason)) := by
    intro i job hi
    rw [hresults, List.getElem?_map, List.getElem?_zipIdx, hi]
    simp
  refine ⟨fun x hx => ?_, fun i job hi hnone => ⟨t, ?_⟩, fun hfault => ⟨hperm hfault, ?_⟩⟩
  · obtain ⟨job, hjob, hplace⟩ := h.1.sound.placed.exists_job hx
    obtain ⟨i, hi⟩ := List.mem_iff_getElem?.mp hjob
    have hindex : x.2.planIndex = i := (congrArg JobPlace.index hplace).symm.trans (hplan.planIndex_eq hi)
    rw [hindex, hat hi, ← hindex, h.1.resultAt?_eq hx]
    rfl
  · have hmissing : r.resultAt? i = none := by
      rw [resultAt?, Option.map_eq_none_iff]
      exact List.find?_eq_none.mpr fun x hx => by simpa using hnone x hx
    rw [hat hi, hmissing]
    rfl
  · rw [hclosing, h.1.missing_nil hplan hended hfault]
    rfl

/-- A run is made of any plan with any valid configuration. Whatever happens to it, its pool loses no job and ends none
twice, and what it reports in the end is complete: it is what the pool gave, unless that broke down. -/
theorem report_complete {config : Config} {plan : List Job} (hconfig : config.validate = .ok ())
    (hplan : validatePlan plan = .ok ()) (site : Site) (draws : Nat → Nat → Nat)
    (probe : Nat → Except ProbeError MemoryReading) :
    ∃ r, Run.ofPlan? config plan site draws probe = some r ∧
      ∀ actions : List RunAction, (r.after actions).session.pool.Intact plan ∧
        ∀ report : RunReport, (r.after actions).stage = .ended (.ok report) →
          Complete plan ((r.after actions).events.map (·.2)) report.results ∧
          (r.after actions).Gathered report.results := by
  have haccepted := AcceptedPlan.of_validate hplan
  have hpolicy := PoolPolicy.Valid.of_validate (Config.parts_of_validate hconfig).1
  obtain ⟨pool, hpool⟩ := Pool.submit?_isSome hpolicy.ordered
  have hmade : Run.ofPlan? config plan site draws probe = some _ := congrArg (Option.map _) hpool
  refine ⟨_, hmade, fun actions => ?_⟩
  have horderly := (Orderly.ofPlan hmade haccepted).after actions
  refine ⟨horderly.1.intact, fun report hended => ?_⟩
  have hsettled := horderly.2
  rw [hended] at hsettled
  exact ⟨horderly.complete haccepted hsettled, horderly.gathered haccepted hsettled⟩

/-- A place where every browser starts and ends at once and every page gets its scores. -/
def quietSite : Site where
  supervisor := {
    launcher := { launch := fun _ _ => {}, kill := fun _ _ => {}, pid := Nat.succ, endpoint := fun _ => "" }
    runId := "run"
    registry := .ofCapacity 2 }
  engine := { audit := fun _ _ => { ending := .scored [] } }
  timeLimit := 1

/-- Two pages are audited, the later one first, and the run is cancelled when its pool has ended. -/
def twoPagesActions : List RunAction :=
  [.poll .coordinator, .poll (.part .turns), .reach (.report 2 (.completed [])), .elapse 7, .poll (.part .turns),
    .reach (.report 1 (.completed [])), .poll (.part .turns), .cancel "", .poll .coordinator]

set_option maxRecDepth 4000 in
theorem twoPages_report_complete : Config.validate {} = .ok () ∧ validatePlan twoPages = .ok () ∧
    ∃ r, Run.ofPlan? {} twoPages quietSite (fun _ _ => 0) (fun _ => .ok { used := 1, free := 1 }) = some r ∧
      let last := r.after twoPagesActions
      last.session.pool.Intact twoPages ∧ last.session.pool.fault = none ∧
      ∃ report, last.stage = .ended (.ok report) ∧ Complete twoPages (last.events.map (·.2)) report.results ∧
        report.results.Perm (last.session.pool.results.map (·.2)) := by
  obtain ⟨r, hr, hcomplete⟩ := report_complete (rfl : Config.validate {} = .ok ())
    (rfl : validatePlan twoPages = .ok ()) quietSite (fun _ _ => 0) (fun _ => .ok { used := 1, free := 1 })
  obtain rfl := Option.some.inj hr
  obtain ⟨hintact, hreports⟩ := hcomplete twoPagesActions
  obtain ⟨hreport, hgathered⟩ := hreports _ rfl
  exact ⟨rfl, rfl, _, hr, hintact, rfl, _, rfl, hreport, (hgathered.own rfl).1⟩

/-- A place where a page takes a minute and every kill breaks down. -/
def frailSite : Site :=
  { quietSite with
    supervisor := { quietSite.supervisor with launcher :=
      { quietSite.supervisor.launcher with kill := fun _ _ => { ending := .broken "boom" } } }
    engine := { audit := fun _ _ => { delay := 60000, ending := .scored [] } }
    timeLimit := 90000 }

/-- One of two pages has been audited when the run is cancelled, and the browser of the other has to be killed. -/
def frailActions : List RunAction :=
  [.poll .coordinator, .poll (.part .turns), .poll (.part (.attempt 1)), .reach (.report 2 (.completed [])),
    .poll (.part .turns), .cancel "", .poll (.part .turns), .elapse 10000, .poll (.part .turns), .poll .coordinator]

/-- A pool that breaks down leaves a page to be called off by the run. -/
example : (Run.ofPlan? {} twoPages frailSite (fun _ _ => 0) (fun _ => .ok { used := 1, free := 1 })).map
    (fun r =>
      let last := r.after frailActions
      (last.session.pool.fault, last.session.pool.results.map (·.2.jobId), last.collected.map (·.state),
        last.closing.map (·.2))) =
      some (some (.launcher "boom"), ["job-2"], [.cancelled, .succeeded], [.cancelled "job-1" 0]) := by
  decide +kernel

end Run

end PageAudit
