import PageAudit.Proofs.Pool.Attempts
import PageAudit.Proofs.Progress.Course

/-!
# The courses of a pool's jobs

Where a job stands in a pool is what its events have told of it: a job that waits may be started or called off, one
that is under way may be ended, repeated or taken back, and of one with a result nothing more is told.
-/

namespace PageAudit

theorem RetryPolicy.le_of_exhausted {retry : RetryPolicy} {attempt draw : Nat} {e : AttemptError}
    (h : retry.decide attempt draw e = .finalize .retriesExhausted) : retry.maxAttempts ≤ attempt := by
  unfold RetryPolicy.decide at h
  split at h
  · cases h
  · split at h
    · assumption
    · cases h

namespace Pool

/-- How far a job has come, as the pool's events tell. -/
def course? (p : Pool) (id : String) : Option JobCourse :=
  JobCourse.after? p.retry.maxAttempts (.waiting 0) (eventsOf id p.events)

/-- The identifiers of all jobs that stand in a place. -/
def ids (p : Pool) : List String := p.places.map (·.id)

/-- The events tell that a job waits. -/
def Waits (p : Pool) (j : Job) : Prop :=
  p.course? j.id = some (.waiting j.attempt) ∨ p.course? j.id = some (.begun j.attempt)

/-- The events tell that an attempt of a job has begun. -/
def Underway (p : Pool) (j : Job) : Prop :=
  p.course? j.id = some (.begun (j.attempt - 1))

/-- Every job stands where its events have told. -/
structure Recorded (p : Pool) : Prop where
  ready : ∀ j ∈ p.ready, p.Waits j
  delayed : ∀ d ∈ p.delayed, p.Waits d.job
  running : ∀ e ∈ p.running, p.Underway e.job
  preempted : ∀ j ∈ p.preempted, p.Underway j
  ended : ∀ x ∈ p.results, p.course? x.2.jobId = some .ended

variable {jobs hand : List Job} {p q : Pool} {id : String}

/-! ## Identifiers -/

theorem Placed.ids_nodup (h : Placed jobs hand p) (hids : (jobs.map (·.id)).Nodup) :
    (hand.map (·.id) ++ p.ids).Nodup := by
  have hjobs : ((jobs.map Job.place).map JobPlace.id).Nodup := by
    rw [List.map_map]
    exact hids
  have hall := (h.accounted.map JobPlace.id).nodup_iff.mpr hjobs
  rw [List.map_append, List.map_map] at hall
  exact hall

theorem Placed.hand_apart {j : Job} (h : Placed jobs hand p) (hids : (jobs.map (·.id)).Nodup) (hj : j ∈ hand) :
    j.id ∉ p.ids :=
  fun hm => List.disjoint_of_nodup_append (h.ids_nodup hids) (List.mem_map_of_mem hj) hm

theorem id_mem_of_ready {j : Job} (h : j ∈ p.ready) : j.id ∈ p.ids :=
  List.mem_map.mpr ⟨j.place, by simp only [places, List.mem_append]; exact Or.inl (List.mem_map_of_mem h), rfl⟩

theorem id_mem_of_delayed {d : DelayedJob} (h : d ∈ p.delayed) : d.job.id ∈ p.ids := by
  refine List.mem_map.mpr ⟨d.job.place, ?_, rfl⟩
  simp only [places, List.mem_append]
  exact Or.inr (Or.inl (List.mem_map_of_mem (f := fun d : DelayedJob => d.job.place) h))

theorem id_mem_of_running {e : RunningJob} (h : e ∈ p.running) : e.job.id ∈ p.ids := by
  refine List.mem_map.mpr ⟨e.job.place, ?_, rfl⟩
  simp only [places, List.mem_append]
  exact Or.inr (Or.inr (Or.inl (List.mem_map_of_mem (f := fun e : RunningJob => e.job.place) h)))

theorem id_mem_of_preempted {j : Job} (h : j ∈ p.preempted) : j.id ∈ p.ids := by
  refine List.mem_map.mpr ⟨j.place, ?_, rfl⟩
  simp only [places, List.mem_append]
  exact Or.inr (Or.inr (Or.inr (Or.inl (List.mem_map_of_mem h))))

theorem id_mem_of_result {x : Nat × Result} (h : x ∈ p.results) : x.2.jobId ∈ p.ids := by
  refine List.mem_map.mpr ⟨x.2.place, ?_, rfl⟩
  simp only [places, List.mem_append]
  exact Or.inr (Or.inr (Or.inr (Or.inr (List.mem_map_of_mem (f := fun x : Nat × Result => x.2.place) h))))

/-! ## Telling events -/

theorem course?_append (id : String) (es : List (Nat × ProgressEvent)) (hretry : q.retry = p.retry)
    (hevents : q.events = p.events ++ es) :
    q.course? id = (p.course? id).bind fun c => c.after? p.retry.maxAttempts (eventsOf id es) := by
  rw [course?, hretry, hevents, eventsOf_append, JobCourse.after?_append]
  rfl

/-- One event about a job is one step of its course. -/
theorem course?_next {t : Nat} {e : ProgressEvent} {c d : JobCourse} (hretry : q.retry = p.retry)
    (hevents : q.events = p.events ++ [(t, e)]) (hid : e.jobId? = some id) (hc : p.course? id = some c)
    (hd : c.next? p.retry.maxAttempts e = some d) : q.course? id = some d := by
  rw [course?_append id _ hretry hevents, hc, eventsOf_singleton t hid]
  simp [JobCourse.after?, hd]

theorem Recorded.of_subset (h : Recorded p) (hcourse : ∀ id ∈ q.ids, q.course? id = p.course? id)
    (ready : q.ready ⊆ p.ready) (delayed : q.delayed ⊆ p.delayed) (running : q.running ⊆ p.running)
    (preempted : q.preempted ⊆ p.preempted) (results : q.results ⊆ p.results) : Recorded q where
  ready j hj := by
    rw [Waits, hcourse _ (id_mem_of_ready hj)]
    exact h.ready j (ready hj)
  delayed d hd := by
    rw [Waits, hcourse _ (id_mem_of_delayed hd)]
    exact h.delayed d (delayed hd)
  running e he := by
    rw [Underway, hcourse _ (id_mem_of_running he)]
    exact h.running e (running he)
  preempted j hj := by
    rw [Underway, hcourse _ (id_mem_of_preempted hj)]
    exact h.preempted j (preempted hj)
  ended x hx := by
    rw [hcourse _ (id_mem_of_result hx)]
    exact h.ended x (results hx)

/-- Events about no job that stands in a place leave all of them where they are. -/
theorem Recorded.tell (h : Recorded p) (report : PoolReport) (es : List (Nat × ProgressEvent))
    (hapart : ∀ x ∈ es, ∀ id, x.2.jobId? = some id → id ∉ p.ids) :
    Recorded { p with events := p.events ++ es, report } := by
  refine h.of_subset (fun id hid => ?_) (List.Subset.refl _) (List.Subset.refl _) (List.Subset.refl _)
    (List.Subset.refl _) (List.Subset.refl _)
  have hnone : eventsOf id es = [] := eventsOf_eq_nil fun x hx he => hapart x hx id he hid
  refine Eq.trans (course?_append (p := p) id es rfl rfl) ?_
  rw [hnone]
  cases p.course? id <;> rfl

/-! ## Jobs in hand -/

theorem Recorded.take {r : SlotReport} {held : Bool} {job : Job} (h : Recorded p) (ht : p.Taken r held job q)
    (o : AttemptOutcome) : Recorded (q.recordOutcome o) ∧ (q.recordOutcome o).Underway job := by
  obtain ⟨window, he⟩ := q.recordOutcome_eq o
  rw [he]
  cases ht with
  | running first mem =>
      exact ⟨{ h with running := fun x hx => h.running x (List.mem_of_mem_filter hx) }, h.running _ mem⟩
  | preempted first mem =>
      exact ⟨{ h with preempted := fun j hj => h.preempted j (List.mem_of_mem_filter hj) }, h.preempted _ mem⟩

theorem Recorded.emit {j : Job} {r : Result} {reason : FinalizeReason} {c : JobCourse} (h : Recorded p)
    (hp : Placed jobs [j] p) (hids : (jobs.map (·.id)).Nodup) (hr : r.place = j.place)
    (htells : (r.event reason).jobId? = some j.id) (hc : p.course? j.id = some c)
    (hends : c.next? p.retry.maxAttempts (r.event reason) = some .ended) : Recorded (p.emit r reason) := by
  have hapart := hp.hand_apart hids (List.mem_singleton.mpr rfl)
  have htold := h.tell (p.report.countFinal (r.event reason)) [(p.clock, r.event reason)] fun x hx id he => by
    rw [List.mem_singleton.mp hx, htells] at he
    exact Option.some.inj he ▸ hapart
  refine { htold with ended := fun x hx => ?_ }
  rcases List.mem_append.mp hx with hx | hx
  · exact htold.ended x hx
  · rw [List.mem_singleton.mp hx, show r.jobId = j.id from congrArg JobPlace.id hr]
    exact course?_next (p := p) rfl rfl htells hc hends

theorem Recorded.calledOff {js : List Job} {reason : String} (h : Recorded p) (hp : Placed jobs js p)
    (hids : (jobs.map (·.id)).Nodup)
    (hjs : ∀ j ∈ js, ∃ c, p.course? j.id = some c ∧
      c.next? p.retry.maxAttempts (.cancelled j.id j.attempt) = some .ended) : Recorded (p.calledOff reason js) := by
  let tell : Job → Nat × ProgressEvent := fun j => (p.clock, .cancelled j.id j.attempt)
  have htold := h.tell { p.report with cancelled := p.report.cancelled + js.length } (js.map tell)
    fun x hx id he => by
      obtain ⟨j, hj, rfl⟩ := List.mem_map.mp hx
      exact Option.some.inj he ▸ hp.hand_apart hids hj
  refine { htold with ended := fun x hx => ?_ }
  rcases List.mem_append.mp hx with hx | hx
  · exact htold.ended x hx
  · obtain ⟨j, hj, rfl⟩ := List.mem_map.mp hx
    obtain ⟨c, hc, hends⟩ := hjs j hj
    have hown : eventsOf j.id (js.map tell) = [.cancelled j.id j.attempt] :=
      eventsOf_map (fun _ => rfl) (hp.ids_nodup hids).of_append_left hj
    refine Eq.trans (course?_append (p := p) j.id (js.map tell) rfl rfl) ?_
    rw [hc, hown]
    simp [JobCourse.after?, hends]

theorem Waits.cancel {j : Job} (h : p.Waits j) (hle : j.attempt ≤ p.retry.maxAttempts) :
    ∃ c, p.course? j.id = some c ∧ c.next? p.retry.maxAttempts (.cancelled j.id j.attempt) = some .ended := by
  rcases h with h | h
  · exact ⟨_, h, if_pos ⟨rfl, hle⟩⟩
  · exact ⟨_, h, if_pos ⟨Or.inr rfl, hle⟩⟩

theorem Underway.cancel {j : Job} (h : p.Underway j) (hone : 1 ≤ j.attempt)
    (hle : j.attempt ≤ p.retry.maxAttempts) :
    ∃ c, p.course? j.id = some c ∧ c.next? p.retry.maxAttempts (.cancelled j.id j.attempt) = some .ended := by
  have hused : j.attempt = j.attempt - 1 + 1 := by omega
  exact ⟨_, h, if_pos ⟨Or.inl hused, hle⟩⟩

theorem Recorded.postponed {j : Job} {delayMs : Nat} {classification : Classification} {e : AttemptError}
    (h : Recorded p) (hp : Placed jobs [j] p) (hids : (jobs.map (·.id)).Nodup) (hj : p.Underway j)
    (hone : 1 ≤ j.attempt) (hlt : j.attempt < p.retry.maxAttempts) :
    Recorded (p.postponed j delayMs classification e) := by
  have hapart := hp.hand_apart hids (List.mem_singleton.mpr rfl)
  have htold := h.tell { p.report with retries := p.report.retries + 1 }
    [(p.clock, .retried j.id j.attempt (delayWord delayMs) classification e.message)] fun x hx id he => by
      rw [List.mem_singleton.mp hx] at he
      exact Option.some.inj he ▸ hapart
  refine { htold with delayed := fun d hd => ?_ }
  rcases List.mem_append.mp hd with hd | hd
  · exact htold.delayed d hd
  · rw [List.mem_singleton.mp hd]
    have hused : j.attempt = j.attempt - 1 + 1 := by omega
    exact Or.inl (course?_next (p := p) rfl rfl rfl hj (if_pos ⟨hused, hlt⟩))

theorem Recorded.requeued {j : Job} (h : Recorded p) (hj : p.Underway j) :
    Recorded { p with ready := insertByPlan j.yielded p.ready } := by
  refine { h with ready := fun k hk => ?_ }
  rcases mem_insertByPlan hk with rfl | hk
  · exact Or.inr hj
  · exact h.ready k hk

/-! ## Moves from place to place -/

theorem Recorded.launched {job : Job} {rest : List Job} {slotId : Nat} (h : Recorded p) (hp : Placed jobs [] p)
    (hids : (jobs.map (·.id)).Nodup) (first : p.ready = job :: rest) (hlt : job.attempt < p.retry.maxAttempts) :
    Recorded (p.launched job rest slotId) := by
  have hapart := (hp.takeFirst first).hand_apart hids (List.mem_singleton.mpr rfl)
  have hrest : Recorded { p with ready := rest } :=
    { h with ready := fun j hj => h.ready j (first ▸ List.mem_cons_of_mem _ hj) }
  have htold := hrest.tell p.report [(p.clock, .started job.id (job.attempt + 1) slotId)] fun x hx id he => by
    rw [List.mem_singleton.mp hx] at he
    exact Option.some.inj he ▸ hapart
  refine { htold with running := fun e he => ?_ }
  rcases List.mem_append.mp he with he | he
  · exact htold.running e he
  · rw [List.mem_singleton.mp he]
    have hstarts : ∀ c : JobCourse, c = .waiting job.attempt ∨ c = .begun job.attempt →
        c.next? p.retry.maxAttempts (.started job.id (job.attempt + 1) slotId) = some (.begun job.attempt) := by
      rintro c (rfl | rfl) <;> exact if_pos ⟨rfl, hlt⟩
    rcases h.ready job (first ▸ List.mem_cons_self) with hw | hw
    · exact course?_next (p := p) rfl rfl rfl hw (hstarts _ (Or.inl rfl))
    · exact course?_next (p := p) rfl rfl rfl hw (hstarts _ (Or.inr rfl))

theorem Recorded.promoted (h : Recorded p) : Recorded p.promoteDue := by
  refine { h with ready := fun j hj => ?_, delayed := fun d hd => h.delayed d (List.mem_of_mem_filter hd) }
  rw [promoteDue_ready] at hj
  rcases mem_insertAllByPlan hj with hj | hj
  · obtain ⟨d, hd, rfl⟩ := List.mem_map.mp hj
    exact h.delayed d (List.mem_of_mem_filter hd)
  · exact h.ready j hj

theorem Recorded.shrunk {target : Nat} {reason : ShrinkReason} {roster : List Nat} (h : Recorded p) :
    Recorded (p.shrunk target reason roster) := by
  have htold := h.tell (({ p.report with shrinkEvents := p.report.shrinkEvents + 1 }).observe target)
    [(p.clock, .concurrencyChanged p.allowed target reason.name)] fun x hx id he => by
      rw [List.mem_singleton.mp hx] at he
      cases he
  refine { htold with running := fun e he => htold.running e (List.mem_of_mem_take he), preempted := fun j hj => ?_ }
  rcases List.mem_append.mp hj with hj | hj
  · exact htold.preempted j hj
  · obtain ⟨e, he, rfl⟩ := List.mem_map.mp hj
    exact htold.running e (List.mem_of_mem_drop (List.mem_reverse.mp he))

theorem Recorded.grown {target : Nat} (h : Recorded p) : Recorded (p.grown target) := by
  have htold := h.tell (({ p.report with growEvents := p.report.growEvents + 1 }).observe target)
    [(p.clock, .concurrencyChanged p.allowed target "window_healthy")] fun x hx id he => by
      rw [List.mem_singleton.mp hx] at he
      cases he
  exact { htold with }

theorem Recorded.drained (h : Recorded p) (hp : Placed jobs [] p) (ha : Attempted p)
    (hids : (jobs.map (·.id)).Nodup) : Recorded p.drained := by
  refine Recorded.calledOff { h with
    ready := fun _ hj => absurd hj List.not_mem_nil
    delayed := fun _ hd => absurd hd List.not_mem_nil } (hp.takeWaiting _) hids fun j hj => ?_
  rcases List.mem_append.mp (mem_sortByPlan.mp hj) with hj | hj
  · exact (h.ready j hj).cancel (Nat.le_of_lt (ha.ready j hj))
  · obtain ⟨d, hd, rfl⟩ := List.mem_map.mp hj
    exact (h.delayed d hd).cancel (Nat.le_of_lt (ha.delayed d hd))

theorem Recorded.abandoned (h : Recorded p) (hp : Placed jobs [] p) (ha : Attempted p)
    (hids : (jobs.map (·.id)).Nodup) : Recorded p.abandoned := by
  refine Recorded.calledOff { h with
    running := fun _ he => absurd he List.not_mem_nil
    preempted := fun _ hj => absurd hj List.not_mem_nil } hp.takeBusy hids fun j hj => ?_
  rcases List.mem_append.mp (mem_sortByPlan.mp hj) with hj | hj
  · obtain ⟨e, he, rfl⟩ := List.mem_map.mp hj
    exact (h.running e he).cancel (hp.running e he).2 (ha.running e he)
  · exact (h.preempted j hj).cancel (hp.preempted j hj).2 (ha.preempted j hj)

/-! ## Every act -/

theorem Recorded.inHand {r : SlotReport} {held : Bool} {job : Job} (h : Recorded p) (hs : Sound jobs p)
    (ha : Attempted p) (ht : p.Taken r held job q) (o : AttemptOutcome) :
    let s := q.recordOutcome o
    Recorded s ∧ Placed jobs [job] s ∧ s.Underway job ∧ 1 ≤ job.attempt ∧
      job.attempt ≤ s.retry.maxAttempts := by
  obtain ⟨hq, hjob⟩ := h.take ht o
  obtain ⟨hp, _, hone⟩ := hs.placed.take ht
  refine ⟨hq, hp.recordOutcome o, hjob, hone, ?_⟩
  rw [(ht.frame o).1]
  exact ha.taken_le ht

/-- An act tells of every job that it takes to another place. -/
theorem Recorded.act (h : Recorded p) (hs : Sound jobs p) (ha : Attempted p) (hids : (jobs.map (·.id)).Nodup)
    (hact : Act p q) : Recorded q := by
  cases hact with
  | @succeed s r _ job _ _ taken =>
      obtain ⟨hq, hp, hjob, hone, hle⟩ := h.inHand hs ha taken r.outcome
      have hused : job.attempt = job.attempt - 1 + 1 := by omega
      exact hq.emit hp hids rfl rfl hjob (if_pos ⟨hused, hle⟩)
  | @giveUp s r _ job e reason _ taken _ final =>
      obtain ⟨hq, hp, hjob, hone, hle⟩ := h.inHand hs ha taken r.outcome
      have hused : job.attempt = job.attempt - 1 + 1 := by omega
      refine hq.emit hp hids rfl rfl hjob (if_pos ⟨hused, hle, fun hreason => ?_⟩)
      rw [hreason] at final
      have hmost := RetryPolicy.le_of_exhausted final
      rw [← (taken.frame r.outcome).1] at hmost
      exact Nat.le_antisymm hle hmost
  | @postpone s r _ job _ _ _ _ taken _ _ again =>
      obtain ⟨hq, hp, hjob, hone, _⟩ := h.inHand hs ha taken r.outcome
      refine hq.postponed hp hids hjob hone ?_
      rw [(taken.frame _).1]
      exact RetryPolicy.lt_of_requeue again
  | @callOff s r _ job _ _ taken =>
      obtain ⟨hq, hp, hjob, hone, hle⟩ := h.inHand hs ha taken r.outcome
      refine hq.calledOff hp hids fun k hk => ?_
      obtain rfl := List.mem_singleton.mp hk
      exact hjob.cancel hone hle
  | requeue _ taken =>
      obtain ⟨hq, hjob⟩ := h.take taken .interrupted
      exact hq.requeued hjob
  | shrink => exact h.shrunk
  | grow => exact h.grown
  | drain => exact h.drained hs.placed ha hids
  | abandon => exact h.abandoned hs.placed ha hids
  | promote => exact h.promoted
  | launch _ _ first => exact h.launched hs.placed hids first (ha.ready _ (first ▸ List.mem_cons_self))
  | _ => exact { h with }

/-- The numbers of attempts stay within their bound, and the events tell where the jobs stand. -/
theorem kept_recorded (hids : (jobs.map (·.id)).Nodup) : Kept jobs fun p => Attempted p ∧ Recorded p where
  act := fun hs h hact => ⟨h.1.act hs hact, h.2.act hs h.1 hids hact⟩
  news := by
    intro p q hs h hnews
    refine ⟨kept_attempted.news hs h.1 hnews, ?_⟩
    cases hnews <;> exact { h.2 with }
  receive := fun _ _ h => ⟨{ h.1 with }, { h.2 with }⟩

theorem Recorded.submit {policy : PoolPolicy} {retry : RetryPolicy} {gracePeriod clock : Nat}
    {draws : Nat → Nat → Nat} {pressure : MemoryPressure}
    (h : submit? policy retry gracePeriod draws pressure clock jobs = some p)
    (hfresh : ∀ j ∈ jobs, j.attempt = 0) : Recorded p := by
  obtain ⟨_, _, _, rfl⟩ := submit?_eq h
  refine { ready := fun j hj => ?_, delayed := ?_, running := ?_, preempted := ?_, ended := ?_ }
  · rcases mem_insertAllByPlan hj with hj | hj
    · refine Or.inl ?_
      rw [hfresh j hj]
      rfl
    · cases hj
  all_goals exact fun _ hm => absurd hm List.not_mem_nil

/-! ## All jobs -/

theorem Recorded.course?_isSome (h : Recorded p) (hp : Placed jobs [] p) {j : Job} (hj : j ∈ jobs) :
    ∃ c, p.course? j.id = some c := by
  have hmem : j.place ∈ p.places := hp.accounted.mem_iff.mpr (List.mem_map_of_mem hj)
  simp only [places, List.mem_append, List.mem_map] at hmem
  rcases hmem with ⟨k, hk, he⟩ | ⟨d, hd, he⟩ | ⟨e, hr, he⟩ | ⟨k, hk, he⟩ | ⟨x, hx, he⟩
  · rw [← show k.id = j.id from congrArg JobPlace.id he]
    rcases h.ready k hk with hc | hc <;> exact ⟨_, hc⟩
  · rw [← show d.job.id = j.id from congrArg JobPlace.id he]
    rcases h.delayed d hd with hc | hc <;> exact ⟨_, hc⟩
  · rw [← show e.job.id = j.id from congrArg JobPlace.id he]
    exact ⟨_, h.running e hr⟩
  · rw [← show k.id = j.id from congrArg JobPlace.id he]
    exact ⟨_, h.preempted k hk⟩
  · rw [← show x.2.jobId = j.id from congrArg JobPlace.id he]
    exact ⟨_, h.ended x hx⟩

/-- Once there are as many results as jobs, the events have told of the end of every job. -/
theorem Recorded.course?_ended (h : Recorded p) (hp : Placed jobs [] p) (hall : p.results.length = jobs.length)
    {j : Job} (hj : j ∈ jobs) : p.course? j.id = some .ended := by
  obtain ⟨x, hx, hplace⟩ := hp.all_ended_iff.mpr hall j hj
  rw [← show x.2.jobId = j.id from congrArg JobPlace.id hplace]
  exact h.ended x hx

end Pool

end PageAudit
