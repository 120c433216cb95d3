import Mathlib.Data.List.Nodup
import PageAudit.Plan
import PageAudit.Proofs.Plan

/-!
# Loading a plan

The entries of a plan become jobs just when every url has something in it and no two identifiers are the same; else the
first entry that breaks one of the two is reported. What is loaded is accepted for a run, and accepted are just the jobs
that are distinct, fresh and in their places.
-/

namespace PageAudit

open Text

/-! ## Entries that break the rules -/

/-- What becomes of an entry: a fresh job at the entry's position. -/
def PlanEntry.job (e : PlanEntry) (index : Nat) : Job :=
  { id := e.jobId index, url := trim e.url, planIndex := index, attempt := 0, state := .queued, startedAt := none }

/-- The identifiers of the entries. -/
def entryIds (entries : List PlanEntry) : List String :=
  entries.mapIdx fun index e => e.jobId index

/-- The entry at a position breaks a rule: it has no url, or it has one and the identifier of an earlier entry. -/
inductive Offends (entries : List PlanEntry) (index : Nat) : PlanError → Prop where
  | emptyUrl {e : PlanEntry} (hentry : entries[index]? = some e) (hurl : trim e.url = "") :
      Offends entries index (.invalidEntry (index + 1) .emptyUrl)
  | takenId {e other : PlanEntry} {earlier : Nat} (hentry : entries[index]? = some e) (hurl : trim e.url ≠ "")
      (hearlier : earlier < index) (hother : entries[earlier]? = some other)
      (hid : other.jobId earlier = e.jobId index) : Offends entries index (.duplicateJobId (e.jobId index))

/-- The error of the first entry that breaks a rule. -/
def FirstOffence (entries : List PlanEntry) (error : PlanError) : Prop :=
  ∃ index, Offends entries index error ∧ ∀ earlier < index, ∀ other, ¬Offends entries earlier other

variable {entries : List PlanEntry} {error other : PlanError}

theorem Offends.unique {index : Nat} (h : Offends entries index error) (h' : Offends entries index other) :
    error = other := by
  cases h <;> cases h' <;> simp_all

theorem FirstOffence.unique (h : FirstOffence entries error) (h' : FirstOffence entries other) : error = other := by
  obtain ⟨i, hi, hfirst⟩ := h
  obtain ⟨j, hj, hfirst'⟩ := h'
  rcases Nat.lt_trichotomy i j with hlt | rfl | hlt
  · exact absurd hi (hfirst' i hlt error)
  · exact hi.unique hj
  · exact absurd hj (hfirst j hlt other)

theorem no_offence_iff :
    (∀ index error, ¬Offends entries index error) ↔
      (∀ e ∈ entries, trim e.url ≠ "") ∧ (entryIds entries).Nodup := by
  have hid (i : Nat) : (entryIds entries)[i]? = entries[i]?.map (·.jobId i) := List.getElem?_mapIdx
  rw [List.nodup_iff_getElem?_ne_getElem?]
  constructor
  · intro h
    have hurl : ∀ e ∈ entries, trim e.url ≠ "" := by
      intro e he hempty
      obtain ⟨i, hi⟩ := List.mem_iff_getElem?.mp he
      exact h i _ (.emptyUrl hi hempty)
    refine ⟨hurl, fun i j hij hj heq => ?_⟩
    have hj' : j < entries.length := by simpa [entryIds] using hj
    rw [hid, hid, List.getElem?_eq_getElem hj', List.getElem?_eq_getElem (hij.trans hj')] at heq
    exact h j _ (.takenId (List.getElem?_eq_getElem hj') (hurl _ (List.getElem_mem hj')) hij
      (List.getElem?_eq_getElem (hij.trans hj')) (Option.some.inj heq))
  · rintro ⟨hurl, hnodup⟩ index error hoffends
    cases hoffends with
    | emptyUrl hentry hempty => exact hurl _ (List.mem_of_getElem? hentry) hempty
    | takenId hentry _ hearlier hother hsame =>
        have hlength : index < (entryIds entries).length := by
          simpa [entryIds] using (List.getElem?_eq_some_iff.mp hentry).1
        refine hnodup _ _ hearlier hlength ?_
        rw [hid, hid, hentry, hother, Option.map_some, Option.map_some, hsame]

/-- What the entry behind some others breaks. -/
theorem offends_next_iff {before rest : List PlanEntry} {e : PlanEntry} :
    Offends (before ++ e :: rest) before.length error ↔
      trim e.url = "" ∧ error = .invalidEntry (before.length + 1) .emptyUrl ∨
      trim e.url ≠ "" ∧ e.jobId before.length ∈ entryIds before ∧ error = .duplicateJobId (e.jobId before.length) := by
  have hentry : (before ++ e :: rest)[before.length]? = some e := by simp
  constructor
  · rintro (⟨hfound, hempty⟩ | ⟨hfound, hurl, hearlier, hother, hsame⟩)
    · obtain rfl := Option.some.inj (hentry.symm.trans hfound)
      exact Or.inl ⟨hempty, rfl⟩
    · obtain rfl := Option.some.inj (hentry.symm.trans hfound)
      rw [List.getElem?_append_left hearlier] at hother
      obtain ⟨_, rfl⟩ := List.getElem?_eq_some_iff.mp hother
      exact Or.inr ⟨hurl, List.mem_mapIdx.mpr ⟨_, hearlier, hsame⟩, rfl⟩
  · rintro (⟨hempty, rfl⟩ | ⟨hurl, hid, rfl⟩)
    · exact .emptyUrl hentry hempty
    · obtain ⟨i, hi, hsame⟩ := List.mem_mapIdx.mp hid
      refine .takenId hentry hurl hi ?_ hsame
      rw [List.getElem?_append_left hi, List.getElem?_eq_getElem hi]

/-! ## Loading -/

/-- Loading goes on behind entries that break no rule. The identifiers seen are those of the entries before. -/
theorem jobsFrom_cases {before rest : List PlanEntry} {seen : List String}
    (hseen : ∀ id, id ∈ seen ↔ id ∈ entryIds before)
    (hclear : ∀ i < before.length, ∀ error, ¬Offends (before ++ rest) i error) :
    (jobsFrom seen before.length rest = .ok (rest.mapIdx fun i e => e.job (before.length + i)) ∧
      ∀ i error, ¬Offends (before ++ rest) i error) ∨
    ∃ error, jobsFrom seen before.length rest = .error error ∧ FirstOffence (before ++ rest) error := by
  induction rest generalizing before seen with
  | nil =>
      refine Or.inl ⟨rfl, fun i error h => ?_⟩
      by_cases hi : i < before.length
      · exact hclear i hi error h
      · have hnone : (before ++ [])[i]? = none := by simp [Nat.le_of_not_lt hi]
        cases h <;> simp_all
  | cons e rest ih =>
      rw [jobsFrom]
      by_cases hurl : trim e.url = ""
      · exact Or.inr ⟨_, by simp [hurl], before.length, offends_next_iff.mpr (Or.inl ⟨hurl, rfl⟩), hclear⟩
      by_cases hid : e.jobId before.length ∈ seen
      · have htaken := (hseen _).mp hid
        exact Or.inr ⟨_, by simp [hurl, hid], before.length, offends_next_iff.mpr (Or.inr ⟨hurl, htaken, rfl⟩),
          hclear⟩
      · have hlength : (before ++ [e]).length = before.length + 1 := by simp
        have hentries : before ++ [e] ++ rest = before ++ e :: rest := by simp
        have hnext : ∀ id, id ∈ e.jobId before.length :: seen ↔ id ∈ entryIds (before ++ [e]) := by
          intro id
          rw [entryIds, List.mapIdx_concat, List.mem_append, List.mem_singleton, List.mem_cons, hseen, or_comm]
          rfl
        have hstill : ∀ i < (before ++ [e]).length, ∀ error, ¬Offends (before ++ [e] ++ rest) i error := by
          intro i hi error hoffends
          rw [hentries] at hoffends
          rcases Nat.lt_or_eq_of_le (Nat.le_of_lt_succ (hlength ▸ hi)) with hi | rfl
          · exact hclear i hi error hoffends
          · rcases offends_next_iff.mp hoffends with ⟨hempty, -⟩ | ⟨-, htaken, -⟩
            · exact hurl hempty
            · exact hid ((hseen _).mpr htaken)
        rcases ih hnext hstill with ⟨hrest, hnone⟩ | ⟨error, hrest, hfirst⟩
        · rw [hlength] at hrest
          refine Or.inl ⟨?_, hentries ▸ hnone⟩
          simp [hurl, hid, hrest, List.mapIdx_cons, PlanEntry.job, Nat.add_assoc, Nat.add_comm 1, bind, Except.bind, pure,
            Except.pure]
        · rw [hlength] at hrest
          exact Or.inr ⟨error, by simp [hurl, hid, hrest, bind, Except.bind], hentries ▸ hfirst⟩

theorem jobsOfPlan_cases (entries : List PlanEntry) :
    (jobsOfPlan entries = .ok (entries.mapIdx fun index e => e.job index) ∧
      ∀ index error, ¬Offends entries index error) ∨
    ∃ error, jobsOfPlan entries = .error error ∧ FirstOffence entries error := by
  have hseen (id : String) : id ∈ ([] : List String) ↔ id ∈ entryIds [] := by simp [entryIds]
  have hclear : ∀ i < ([] : List PlanEntry).length, ∀ error, ¬Offends ([] ++ entries) i error := fun i hi =>
    absurd hi (Nat.not_lt_zero i)
  simpa [jobsOfPlan] using jobsFrom_cases hseen hclear

theorem jobsOfPlan_eq_ok_iff {jobs : List Job} :
    jobsOfPlan entries = .ok jobs ↔
      jobs = entries.mapIdx (fun index e => e.job index) ∧ ∀ index error, ¬Offends entries index error := by
  rcases jobsOfPlan_cases entries with ⟨hjobs, hnone⟩ | ⟨error, herror, index, hoffends, hfirst⟩
  · simp only [hjobs, Except.ok.injEq]
    exact ⟨fun h => ⟨h.symm, hnone⟩, fun h => h.1.symm⟩
  · rw [herror]
    exact ⟨nofun, fun h => absurd hoffends (h.2 index error)⟩

theorem jobsOfPlan_eq_error_iff : jobsOfPlan entries = .error error ↔ FirstOffence entries error := by
  rcases jobsOfPlan_cases entries with ⟨hjobs, hnone⟩ | ⟨found, herror, hfirst⟩
  · rw [hjobs]
    exact ⟨nofun, fun ⟨index, hoffends, _⟩ => absurd hoffends (hnone index error)⟩
  · rw [herror, Except.error.injEq]
    exact ⟨fun h => h ▸ hfirst, fun h => hfirst.unique h⟩

/-! ## Accepting -/

theorem validateFrom_of {seen : List String} {index : Nat} {jobs : List Job} (hids : (jobs.map (·.id)).Nodup)
    (hjobs : ∀ i job, jobs[i]? = some job → job.planIndex = index + i ∧ job.state = .queued ∧ job.id ∉ seen) :
    validateFrom seen index jobs = .ok () := by
  induction jobs generalizing seen index with
  | nil => rfl
  | cons j rest ih =>
      obtain ⟨hplace, hstate, hnew⟩ := hjobs 0 j rfl
      obtain ⟨hj, hrest⟩ := List.nodup_cons.mp hids
      have hnext : validateFrom (j.id :: seen) (index + 1) rest = .ok () := by
        refine ih hrest fun i job hjob => ?_
        obtain ⟨hplace, hstate, hnew⟩ := hjobs (i + 1) job hjob
        refine ⟨by omega, hstate, fun hmem => ?_⟩
        rcases List.mem_cons.mp hmem with hsame | hseen
        · exact hj (List.mem_map.mpr ⟨job, List.mem_of_getElem? hjob, hsame⟩)
        · exact hnew hseen
      simp [validateFrom, hnew, hplace, hstate, hnext]

theorem validatePlan_eq_ok_iff {jobs : List Job} :
    validatePlan jobs = .ok () ↔
      (jobs.map (·.id)).Nodup ∧
        ∀ (index : Nat) (job : Job), jobs[index]? = some job → job.planIndex = index ∧ job.state = .queued := by
  constructor
  · intro h
    have hplan := AcceptedPlan.of_validate h
    exact ⟨hplan.ids, fun index job hjob => ⟨hplan.planIndex_eq hjob, hplan.queued job (List.mem_of_getElem? hjob)⟩⟩
  · rintro ⟨hids, hjobs⟩
    refine validateFrom_of hids fun i job hjob => ?_
    obtain ⟨hplace, hstate⟩ := hjobs i job hjob
    exact ⟨by omega, hstate, List.not_mem_nil⟩

theorem validatePlan_jobs (hids : (entryIds entries).Nodup) :
    validatePlan (entries.mapIdx fun index e => e.job index) = .ok () := by
  refine validatePlan_eq_ok_iff.mpr ⟨?_, fun index job hjob => ?_⟩
  · have hsame : (entries.mapIdx fun index e => e.job index).map (·.id) = entryIds entries := by
      simp [entryIds, PlanEntry.job, List.mapIdx_eq_zipIdx_map]
    rwa [hsame]
  · rw [List.getElem?_mapIdx] at hjob
    obtain ⟨e, -, rfl⟩ := Option.map_eq_some_iff.mp hjob
    exact ⟨rfl, rfl⟩

/-- A plan is loaded just when every url has something in it and the identifiers differ. Loaded jobs are the entries in
order, fresh, and a run accepts them; an error is that of the first entry that breaks a rule. A run accepts just the jobs
that are distinct, in their places and queued. -/
theorem loading_agrees (entries : List PlanEntry) :
    ((∃ jobs, jobsOfPlan entries = .ok jobs) ↔ (∀ e ∈ entries, trim e.url ≠ "") ∧ (entryIds entries).Nodup) ∧
    (∀ jobs, jobsOfPlan entries = .ok jobs →
      jobs = entries.mapIdx (fun index e => e.job index) ∧ validatePlan jobs = .ok ()) ∧
    (∀ error, jobsOfPlan entries = .error error ↔ FirstOffence entries error) ∧
    ∀ jobs, validatePlan jobs = .ok () ↔
      (jobs.map (·.id)).Nodup ∧
        ∀ (index : Nat) (job : Job), jobs[index]? = some job → job.planIndex = index ∧ job.state = .queued := by
  refine ⟨?_, fun jobs hjobs => ?_, fun error => jobsOfPlan_eq_error_iff, fun jobs => validatePlan_eq_ok_iff⟩
  · simp only [jobsOfPlan_eq_ok_iff, no_offence_iff, exists_and_right, exists_eq, true_and]
  · obtain ⟨rfl, hnone⟩ := jobsOfPlan_eq_ok_iff.mp hjobs
    exact ⟨rfl, validatePlan_jobs (no_offence_iff.mp hnone).2⟩

/-- A plan with an identifier by position and one of its own is loaded and accepted; in another plan the identifier by
position is taken, and the entry without a url behind it is not looked at. -/
theorem home_and_pricing_load :
    let entries : List PlanEntry :=
      [{ url := " https://a.example " }, { id := some "pricing", url := "https://b.example" }]
    let taken : List PlanEntry :=
      [{ id := some "job-2", url := "https://a.example" }, { url := "https://b.example" }, { url := "" }]
    (∀ e ∈ entries, trim e.url ≠ "") ∧ (entryIds entries).Nodup ∧
    jobsOfPlan entries = .ok [{ id := "job-1", url := "https://a.example", planIndex := 0 },
      { id := "pricing", url := "https://b.example", planIndex := 1 }] ∧
    validatePlan [{ id := "job-1", url := "https://a.example", planIndex := 0 },
      { id := "pricing", url := "https://b.example", planIndex := 1 }] = .ok () ∧
    jobsOfPlan taken = .error (.duplicateJobId "job-2") ∧ FirstOffence taken (.duplicateJobId "job-2") := by
  intro entries taken
  have hurls : ∀ e ∈ entries, trim e.url ≠ "" := by decide +kernel
  have hids : (entryIds entries).Nodup := by decide +kernel
  have hjobs : jobsOfPlan entries = .ok [{ id := "job-1", url := "https://a.example", planIndex := 0 },
      { id := "pricing", url := "https://b.example", planIndex := 1 }] := by
    obtain ⟨jobs, hjobs⟩ := (loading_agrees entries).1.mpr ⟨hurls, hids⟩
    rw [hjobs, ((loading_agrees entries).2.1 jobs hjobs).1]
    exact congrArg Except.ok (by decide +kernel)
  have htaken : jobsOfPlan taken = .error (.duplicateJobId "job-2") := rfl
  exact ⟨hurls, hids, hjobs, ((loading_agrees entries).2.1 _ hjobs).2, htaken,
    ((loading_agrees taken).2.2.1 _).mp htaken⟩

end PageAudit
