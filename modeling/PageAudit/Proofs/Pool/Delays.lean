import PageAudit.Proofs.Pool.Collisions
import PageAudit.Proofs.Pool.Dispatching
import PageAudit.Proofs.Pool.Draining
import PageAudit.Proofs.Pool.Requeues
import PageAudit.Proofs.Retry.Delays

/-!
# Waiting for the next attempt

A job whose attempt failed waits as long as its policy wants. Nothing that happens meanwhile lets it start earlier, only
a cancellation takes it away, and the pool wakes up in time for it.
-/

namespace PageAudit.Pool

variable {jobs hand : List Job} {p q s : Pool}

/-- At `t` an attempt of a job failed, and the job was to wait for the next one. -/
def Retries (p : Pool) (t : Nat) (id : String) (attempt : Nat) : Prop :=
  ∃ delayMs classification message, (t, .retried id attempt delayMs classification message) ∈ p.events

/-- At `t` an attempt of a job was started. -/
def Begins (p : Pool) (t : Nat) (id : String) (attempt : Nat) : Prop :=
  ∃ slotId, (t, .started id attempt slotId) ∈ p.events

/-- How long a job waits after an attempt that failed. -/
def pause (p : Pool) (j : Job) (attempt : Nat) : Nat :=
  p.retry.delay attempt (p.draws j.planIndex attempt)

/-- A job waits for the end of its delay after an attempt that failed at `t`, unless the delay is over or the pool
drains. -/
def Pauses (p : Pool) (j : Job) (t attempt : Nat) : Prop :=
  p.draining = true ∨ t + p.pause j attempt ≤ p.clock ∨
    ∃ d ∈ p.delayed, d.job.place = j.place ∧ d.job.attempt = attempt ∧ d.due = t + p.pause j attempt

/-- All jobs that have to wait do so, and none of them was started too early. -/
structure Timed (jobs : List Job) (p : Pool) : Prop where
  numbered : Numbered p
  listed : Listed jobs p
  told : ∀ t id n, Begins p t id n → ∃ c ∈ p.started, c.jobId = id ∧ c.attempt = n
  late : ∀ j ∈ jobs, ∀ t a, Retries p t j.id a → ∀ t' n, Begins p t' j.id n → a < n → t + p.pause j a ≤ t'
  waits : ∀ j ∈ jobs, ∀ t a, Retries p t j.id a → p.Pauses j t a

/-! ## What tells neither of a start nor of a delay -/

theorem Retries.of_append {es : List (Nat × ProgressEvent)} {t : Nat} {id : String} {a : Nat}
    (hevents : q.events = p.events ++ es) (h : Retries q t id a) :
    Retries p t id a ∨ ∃ delayMs classification message, (t, .retried id a delayMs classification message) ∈ es := by
  obtain ⟨delayMs, classification, message, hmem⟩ := h
  rw [hevents] at hmem
  exact (List.mem_append.mp hmem).imp (⟨_, _, _, ·⟩) (⟨_, _, _, ·⟩)

theorem Begins.of_append {es : List (Nat × ProgressEvent)} {t : Nat} {id : String} {n : Nat}
    (hevents : q.events = p.events ++ es) (h : Begins q t id n) :
    Begins p t id n ∨ ∃ slotId, (t, .started id n slotId) ∈ es := by
  obtain ⟨slotId, hmem⟩ := h
  rw [hevents] at hmem
  exact (List.mem_append.mp hmem).imp (⟨_, ·⟩) (⟨_, ·⟩)

/-- The pool went on without starting a job or letting one wait. -/
structure Lets (p q : Pool) : Prop where
  settings : q.retry = p.retry ∧ q.draws = p.draws
  clock : p.clock ≤ q.clock
  draining : p.draining = true → q.draining = true
  started : q.started = p.started
  events : ∃ es, q.events = p.events ++ es ∧ ∀ x ∈ es, x.2.goesOn = false
  delayed : q.draining = true ∨ ∀ d ∈ p.delayed, d ∈ q.delayed ∨ d.due ≤ q.clock

theorem Lets.retries (h : Lets p q) {t : Nat} {id : String} {a : Nat} (hr : Retries q t id a) : Retries p t id a := by
  obtain ⟨es, hevents, hes⟩ := h.events
  rcases hr.of_append hevents with hr | ⟨_, _, _, hmem⟩
  · exact hr
  · exact Bool.noConfusion (hes _ hmem)

theorem Lets.begins (h : Lets p q) {t : Nat} {id : String} {n : Nat} (hb : Begins q t id n) : Begins p t id n := by
  obtain ⟨es, hevents, hes⟩ := h.events
  rcases hb.of_append hevents with hb | ⟨_, hmem⟩
  · exact hb
  · exact Bool.noConfusion (hes _ hmem)

theorem Lets.pause_eq (h : Lets p q) (j : Job) (a : Nat) : q.pause j a = p.pause j a := by
  rw [pause, h.settings.1, h.settings.2]
  rfl

theorem Timed.lets (h : Timed jobs p) (hlets : Lets p q) (hn : Numbered q) : Timed jobs q where
  numbered := hn
  listed := fun c hc => h.listed c (hlets.started ▸ hc)
  told := fun t id n hb => hlets.started ▸ h.told t id n (hlets.begins hb)
  late := fun j hj t a hr t' n hb hlt => by
    rw [hlets.pause_eq]
    exact h.late j hj t a (hlets.retries hr) t' n (hlets.begins hb) hlt
  waits := fun j hj t a hr => by
    have hclock := hlets.clock
    unfold Pauses
    rw [hlets.pause_eq]
    rcases h.waits j hj t a (hlets.retries hr) with hd | hover | ⟨d, hd, hplace, hattempt, hdue⟩
    · exact Or.inl (hlets.draining hd)
    · exact Or.inr (Or.inl (Nat.le_trans hover hclock))
    · rcases hlets.delayed with hdrains | hstays
      · exact Or.inl hdrains
      · rcases hstays d hd with hd | hover
        · exact Or.inr (Or.inr ⟨d, hd, hplace, hattempt, hdue⟩)
        · exact Or.inr (Or.inl (hdue ▸ hover))

/-! ## Every act -/

theorem Lets.of_events (es : List (Nat × ProgressEvent)) (hsettings : q.retry = p.retry ∧ q.draws = p.draws)
    (hclock : q.clock = p.clock) (hdraining : q.draining = p.draining) (hstarted : q.started = p.started)
    (hdelayed : q.delayed = p.delayed) (hevents : q.events = p.events ++ es) (hes : ∀ x ∈ es, x.2.goesOn = false) :
    Lets p q :=
  ⟨hsettings, Nat.le_of_eq hclock.symm, fun hd => hdraining.trans hd, hstarted, ⟨es, hevents, hes⟩,
    Or.inr fun _ hd => Or.inl (hdelayed ▸ hd)⟩

theorem Lets.of_eq (hsettings : q.retry = p.retry ∧ q.draws = p.draws) (hclock : q.clock = p.clock)
    (hdraining : q.draining = p.draining) (hstarted : q.started = p.started) (hdelayed : q.delayed = p.delayed)
    (hevents : q.events = p.events) : Lets p q :=
  .of_events [] hsettings hclock hdraining hstarted hdelayed (by rw [hevents, List.append_nil])
    fun _ hx => absurd hx List.not_mem_nil

theorem Lets.trans (h : Lets p q) (h' : Lets q s) : Lets p s := by
  obtain ⟨es, hes, hends⟩ := h.events
  obtain ⟨es', hes', hends'⟩ := h'.events
  refine {
    settings := ⟨h'.settings.1.trans h.settings.1, h'.settings.2.trans h.settings.2⟩
    clock := Nat.le_trans h.clock h'.clock
    draining := fun hd => h'.draining (h.draining hd)
    started := h'.started.trans h.started
    events := ⟨es ++ es', by rw [hes', hes, List.append_assoc], fun x hx =>
      (List.mem_append.mp hx).elim (hends x) (hends' x)⟩
    delayed := ?_ }
  rcases h.delayed with hd | hstays
  · exact Or.inl (h'.draining hd)
  · refine h'.delayed.imp_right fun hstays' d hd => ?_
    rcases hstays d hd with hd | hover
    · exact hstays' d hd
    · exact Or.inr (Nat.le_trans hover h'.clock)

theorem Lets.taken {r : SlotReport} {held : Bool} {job : Job} (ht : p.Taken r held job q) (o : AttemptOutcome) :
    Lets p (q.recordOutcome o) := by
  obtain ⟨_, _, _, _, _, _, _, he⟩ := ht.recordOutcome_eq o
  rw [he]
  exact .of_eq ⟨rfl, rfl⟩ rfl rfl rfl rfl rfl

theorem Lets.emit (p : Pool) (r : Result) (reason : FinalizeReason) : Lets p (p.emit r reason) :=
  .of_events [(p.clock, r.event reason)] ⟨rfl, rfl⟩ rfl rfl rfl rfl rfl fun _ hx =>
    List.mem_singleton.mp hx ▸ r.event_goesOn reason

theorem Lets.calledOff (p : Pool) (reason : String) (js : List Job) : Lets p (p.calledOff reason js) :=
  .of_events _ ⟨rfl, rfl⟩ rfl rfl rfl rfl rfl fun x hx => by
    obtain ⟨j, _, rfl⟩ := List.mem_map.mp hx
    rfl

theorem Lets.changed (hsettings : q.retry = p.retry ∧ q.draws = p.draws) (hclock : q.clock = p.clock)
    (hdraining : q.draining = p.draining) (hstarted : q.started = p.started) (hdelayed : q.delayed = p.delayed)
    {before after : Nat} {reason : String}
    (hevents : q.events = p.events ++ [(p.clock, .concurrencyChanged before after reason)]) : Lets p q :=
  .of_events _ hsettings hclock hdraining hstarted hdelayed hevents fun x hx => by
    rw [List.mem_singleton.mp hx]
    rfl

/-- An act lets jobs be, or lets one of them wait, or starts one. -/
theorem Act.lets (hact : Act p q) : Lets p q ∨
    (∃ r held job e delayMs classification s, p.Taken r held job s ∧
      p.retry.decide job.attempt (p.draws job.planIndex job.attempt) e = .requeue delayMs classification ∧
      q = (s.recordOutcome r.outcome).postponed job delayMs classification e) ∨
    ∃ job rest slotId, p.draining = false ∧ p.ready = job :: rest ∧ q = p.launched job rest slotId := by
  cases hact with
  | postpone _ taken _ _ again => exact Or.inr (Or.inl ⟨_, _, _, _, _, _, _, taken, again, rfl⟩)
  | launch _ going first => exact Or.inr (Or.inr ⟨_, _, _, going, first, rfl⟩)
  | succeed _ taken | giveUp _ taken => exact Or.inl ((Lets.taken taken _).trans (.emit ..))
  | callOff _ _ taken => exact Or.inl ((Lets.taken taken _).trans (.calledOff ..))
  | requeue _ taken =>
      cases taken with
      | preempted => exact Or.inl (.of_eq ⟨rfl, rfl⟩ rfl rfl rfl rfl rfl)
  | shrink | grow => exact Or.inl (.changed ⟨rfl, rfl⟩ rfl rfl rfl rfl rfl)
  | drain =>
      have hcleared : Lets p { p with
          draining := true
          ready := []
          delayed := []
          graceDeadline := if p.inFlight.isEmpty then p.graceDeadline else some (p.clock + p.gracePeriod) } :=
        ⟨⟨rfl, rfl⟩, Nat.le_refl _, fun _ => rfl, rfl, ⟨[], (List.append_nil _).symm, by simp⟩, Or.inl rfl⟩
      exact Or.inl (hcleared.trans (.calledOff ..))
  | abandon =>
      have hcleared : Lets p { p with
          reapDeadline := none
          inFlight := []
          reports := []
          slots := p.slots.map fun _ => none
          occupied := 0
          running := []
          preempted := [] } := .of_eq ⟨rfl, rfl⟩ rfl rfl rfl rfl rfl
      exact Or.inl (hcleared.trans (.calledOff ..))
  | promote =>
      refine Or.inl ⟨⟨rfl, rfl⟩, Nat.le_refl _, id, rfl, ⟨[], (List.append_nil _).symm, by simp⟩, Or.inr fun d hd => ?_⟩
      by_cases hdue : d.due ≤ p.clock
      · exact Or.inr hdue
      · exact Or.inl (List.mem_filter.mpr ⟨hd, by simpa using hdue⟩)
  | _ => exact Or.inl (.of_eq ⟨rfl, rfl⟩ rfl rfl rfl rfl rfl)

/-- Two jobs of a plan with one identifier are the same. -/
theorem Placed.place_of_id {hand : List Job} {j job : Job} (h : Placed jobs hand p)
    (hids : (jobs.map (·.id)).Nodup) (hj : j ∈ jobs) (hplace : job.place ∈ hand.map Job.place ++ p.places)
    (hid : j.id = job.id) : j.place = job.place := by
  obtain ⟨k, hk, hkplace⟩ := List.mem_map.mp (h.accounted.mem_iff.mp hplace)
  have hsame : j.id = k.id := hid.trans (congrArg JobPlace.id hkplace).symm
  rw [List.inj_on_of_nodup_map hids hj hk hsame]
  exact hkplace

theorem Timed.postponed {r : SlotReport} {held : Bool} {job : Job} {e : AttemptError} {delayMs : Nat}
    {classification : Classification} {s : Pool} (h : Timed jobs p) (hs : Sound jobs p)
    (hids : (jobs.map (·.id)).Nodup) (ht : p.Taken r held job s)
    (again : p.retry.decide job.attempt (p.draws job.planIndex job.attempt) e = .requeue delayMs classification)
    (hn : Numbered ((s.recordOutcome r.outcome).postponed job delayMs classification e)) :
    Timed jobs ((s.recordOutcome r.outcome).postponed job delayMs classification e) := by
  have hwithin := (h.numbered.taken ht r.outcome).2
  have hhand := (hs.placed.take ht).1.recordOutcome r.outcome
  have hlets := Lets.taken ht r.outcome
  have htimed := h.lets hlets (h.numbered.taken ht r.outcome).1
  generalize s.recordOutcome r.outcome = u at hwithin hhand hlets htimed hn ⊢
  have hnew : ∀ t id a, Retries (u.postponed job delayMs classification e) t id a → Retries u t id a ∨
      t = u.clock ∧ id = job.id ∧ a = job.attempt := by
    intro t id a hr
    refine (hr.of_append rfl).imp_right fun ⟨_, _, _, hmem⟩ => ?_
    obtain ⟨rfl, he⟩ := Prod.mk.inj (List.mem_singleton.mp hmem)
    injection he with hid ha
    exact ⟨rfl, hid, ha⟩
  have hold : ∀ t id n, Begins (u.postponed job delayMs classification e) t id n → Begins u t id n := by
    intro t id n hb
    refine (hb.of_append rfl).resolve_right fun ⟨_, hmem⟩ => ?_
    cases (Prod.mk.inj (List.mem_singleton.mp hmem)).2
  have hplace : ∀ j ∈ jobs, j.id = job.id → j.place = job.place := fun j hj =>
    hhand.place_of_id hids hj (List.mem_append_left _ (List.mem_singleton.mpr rfl))
  refine {
    numbered := hn
    listed := htimed.listed
    told := fun t id n hb => htimed.told t id n (hold t id n hb)
    late := fun j hj t a hr t' n hb hlt => ?_
    waits := fun j hj t a hr => ?_ }
  · rcases hnew t j.id a hr with hr | ⟨rfl, hid, rfl⟩
    · exact htimed.late j hj t a hr t' n (hold t' j.id n hb) hlt
    · -- All attempts of the job that were started have numbers up to that of the one that failed.
      obtain ⟨c, hc, hcid, hnumber⟩ := htimed.told t' j.id n (hold t' j.id n hb)
      obtain ⟨k, hk, hindex, hkid⟩ := htimed.listed c hc
      have hk : k.place = job.place := hplace k hk (hkid.trans (hcid.trans hid))
      have hmost := hwithin c hc (hindex.symm.trans (congrArg JobPlace.index hk))
      omega
  · rcases hnew t j.id a hr with hr | ⟨rfl, hid, rfl⟩
    · rcases htimed.waits j hj t a hr with hd | hover | ⟨d, hd, hrest⟩
      · exact Or.inl hd
      · exact Or.inr (Or.inl hover)
      · exact Or.inr (Or.inr ⟨d, List.mem_append_left _ hd, hrest⟩)
    · have hj := hplace j hj hid
      have hindex : j.planIndex = job.planIndex := congrArg JobPlace.index hj
      have hdelay : delayMs = u.pause j job.attempt := by
        rw [RetryPolicy.delay_of_requeue again, pause, hlets.settings.1, hlets.settings.2, hindex]
      exact Or.inr (Or.inr ⟨_, List.mem_append_right _ (List.mem_singleton.mpr rfl), hj.symm, rfl,
        congrArg (u.clock + ·) hdelay⟩)

theorem Timed.launched {job : Job} {rest : List Job} {slotId : Nat} (h : Timed jobs p) (hs : Sound jobs p)
    (hids : (jobs.map (·.id)).Nodup) (going : p.draining = false) (first : p.ready = job :: rest)
    (hn : Numbered (p.launched job rest slotId)) (hl : Listed jobs (p.launched job rest slotId)) :
    Timed jobs (p.launched job rest slotId) := by
  have hjob : job ∈ p.ready := first ▸ List.mem_cons_self
  have hplaces : job.place ∈ p.places := List.mem_append_left _ (List.mem_map_of_mem hjob)
  have hnew : ∀ t id n, Begins (p.launched job rest slotId) t id n → Begins p t id n ∨
      t = p.clock ∧ id = job.id ∧ n = job.attempt + 1 := by
    intro t id n hb
    refine (hb.of_append rfl).imp_right fun ⟨_, hmem⟩ => ?_
    obtain ⟨rfl, he⟩ := Prod.mk.inj (List.mem_singleton.mp hmem)
    injection he with hid hn
    exact ⟨rfl, hid, hn⟩
  have hold : ∀ t id a, Retries (p.launched job rest slotId) t id a → Retries p t id a := by
    intro t id a hr
    refine (hr.of_append rfl).resolve_right fun ⟨_, _, _, hmem⟩ => ?_
    cases (Prod.mk.inj (List.mem_singleton.mp hmem)).2
  refine {
    numbered := hn
    listed := hl
    told := fun t id n hb => ?_
    late := fun j hj t a hr t' n hb hlt => ?_
    waits := fun j hj t a hr => h.waits j hj t a (hold t j.id a hr) }
  · rcases hnew t id n hb with hb | ⟨_, rfl, rfl⟩
    · obtain ⟨c, hc, htold⟩ := h.told t id n hb
      exact ⟨c, List.mem_append_left _ hc, htold⟩
    · exact ⟨_, List.mem_append_right _ (List.mem_singleton.mpr rfl), rfl, rfl⟩
  · have hr := hold t j.id a hr
    rcases hnew t' j.id n hb with hb | ⟨rfl, hid, rfl⟩
    · exact h.late j hj t a hr t' n hb hlt
    · rcases h.waits j hj t a hr with hd | hover | ⟨d, hd, hplace, _⟩
      · exact Bool.noConfusion (going.symm.trans hd)
      · exact hover
      · -- A job that is ready is not delayed.
        have hj := hs.placed.place_of_id hids hj (List.mem_append_right _ hplaces) hid
        have hn := hs.placed.waiting_nodup
        rw [List.map_append] at hn
        refine absurd (List.mem_map_of_mem hjob) (List.disjoint_of_nodup_append hn ?_)
        exact List.mem_map.mpr ⟨d.job, List.mem_map_of_mem hd, congrArg JobPlace.index (hplace.trans hj)⟩

theorem Timed.act (h : Timed jobs p) (hs : Sound jobs p) (hids : (jobs.map (·.id)).Nodup) (hact : Act p q) :
    Timed jobs q := by
  have hn := h.numbered.act hs hact
  have hl := kept_listed.act hs h.listed hact
  rcases hact.lets with hlets | ⟨r, held, job, e, delayMs, classification, s, taken, again, rfl⟩ |
    ⟨job, rest, slotId, going, first, rfl⟩
  · exact h.lets hlets hn
  · exact h.postponed hs hids taken again hn
  · exact h.launched hs hids going first hn hl

theorem Timed.acts (h : Timed jobs p) (hs : Sound jobs p) (hids : (jobs.map (·.id)).Nodup) (hacts : Acts p q) :
    Timed jobs q := by
  induction hacts with
  | refl => exact h
  | tail hacts hact ih => exact ih.act (hs.acts hacts) hids hact

/-! ## Whole runs -/

theorem Timed.step (h : Timed jobs p) (hs : Sound jobs p) (hids : (jobs.map (·.id)).Nodup) (i : PoolInput) :
    Timed jobs (p.step i) := by
  cases i with
  | elapse now =>
      -- Time does not go back, so a delay that is over stays over.
      refine h.lets ⟨⟨rfl, rfl⟩, Nat.le_max_left _ _, id, rfl, ⟨[], (List.append_nil _).symm, by simp⟩,
        Or.inr fun _ hd => Or.inl hd⟩ { h.numbered with }
  | cancel | pressure | pressureClosed => exact h.lets (.of_eq ⟨rfl, rfl⟩ rfl rfl rfl rfl rfl) { h.numbered with }
  | report seq outcome =>
      obtain ⟨_, _, he, _⟩ := p.receive_eq seq outcome
      show Timed jobs (p.receive seq outcome)
      rw [he]
      exact h.lets (.of_eq ⟨rfl, rfl⟩ rfl rfl rfl rfl rfl) { h.numbered with }
  | released count => exact h.acts hs hids (hs.released count)
  | launcherBroke message => exact h.acts hs hids (p.acts_launcherBroke message)
  | turn => exact h.acts hs hids hs.step_turn

theorem Timed.after (h : Timed jobs p) (hs : Sound jobs p) (hids : (jobs.map (·.id)).Nodup) (inputs : List PoolInput) :
    Timed jobs (p.after inputs) := by
  induction inputs generalizing p with
  | nil => exact h
  | cons i rest ih => exact ih (h.step hs hids i) (hs.moves (hs.step_moves i))

variable {policy : PoolPolicy} {retry : RetryPolicy} {gracePeriod clock : Nat} {draws : Nat → Nat → Nat}
  {pressure : MemoryPressure} {start : Pool}

theorem Timed.submit (h : submit? policy retry gracePeriod draws pressure clock jobs = some start) :
    Timed jobs start := by
  obtain ⟨_, _, _, rfl⟩ := submit?_eq h
  exact {
    numbered := {
      ready := fun _ _ _ hc => absurd hc List.not_mem_nil
      delayed := fun _ hd => absurd hd List.not_mem_nil
      running := fun _ he => absurd he List.not_mem_nil
      preempted := fun _ hj => absurd hj List.not_mem_nil
      latest := fun _ hf => absurd hf List.not_mem_nil
      once := List.nodup_nil
      positive := fun _ hs => absurd hs List.not_mem_nil }
    listed := fun _ hc => absurd hc List.not_mem_nil
    told := fun _ _ _ ⟨_, hmem⟩ => absurd hmem List.not_mem_nil
    late := fun _ _ _ _ ⟨_, _, _, hmem⟩ => absurd hmem List.not_mem_nil
    waits := fun _ _ _ _ ⟨_, _, _, hmem⟩ => absurd hmem List.not_mem_nil }

theorem kept_draws (draws : Nat → Nat → Nat) : Kept jobs (fun p => p.draws = draws) where
  act := by
    intro p q _ h hact
    rcases hact.lets with hlets | ⟨_, _, _, _, _, _, _, taken, _, rfl⟩ | ⟨_, _, _, _, _, rfl⟩
    · exact hlets.settings.2.trans h
    · exact (Lets.taken taken _).settings.2.trans h
    · exact h
  news := by
    intro p q _ h hnews
    cases hnews <;> exact h
  receive := fun _ _ h => h

/-! ## Waking up -/

theorem kept_undelayed : Kept jobs fun p => p.phase = .fresh → p.delayed = [] where
  act := by
    intro p q _ h hact hfresh
    cases hact with
    | note => exact h hfresh
    | succeed busy taken | giveUp busy taken | postpone busy taken | callOff _ busy taken =>
        obtain ⟨_, _, _, _, _, _, _, he⟩ := taken.recordOutcome_eq _
        rw [he] at hfresh
        exact absurd (busy.symm.trans hfresh) (by decide)
    | requeue busy taken =>
        cases taken with
        | preempted => exact absurd (busy.symm.trans hfresh) (by decide)
    | begin | breakDown | force | resume | collapse | close => cases hfresh
    | shrink _ busy | grow busy | drain busy | reap busy | abandon busy | promote busy | launch busy | publish busy =>
        exact absurd (busy.symm.trans hfresh) (by decide)
  news := by
    intro p q _ h hnews
    cases hnews <;> exact h
  receive := fun _ _ h => h

/-- The pool wakes up in time for every delay, and goes on when it does. -/
structure Alert (p : Pool) : Prop where
  timely : ∀ d ∈ p.delayed, ∃ t, p.due? = some t ∧ t ≤ d.due
  awake : ∀ t, p.due? = some t → t ≤ p.clock → p.turn?.isSome = true

theorem Sound.alert (h : Sound jobs p) (hfresh : p.phase = .fresh → p.delayed = []) (hf : p.fault = none) : Alert p where
  timely := fun d hd => by
    have hsome : p.delayed ≠ [] := List.ne_nil_of_mem hd
    have hbusy : p.phase = .waiting := by
      cases hphase : p.phase with
      | waiting => rfl
      | fresh => exact absurd (hfresh hphase) hsome
      | forcing => exact absurd (h.phased.drained (h.phased.forcing hphase)).2.1 hsome
      | ended =>
          have hfinished := (h.phased.ended hphase hf).1
          simp only [isFinished, Bool.and_eq_true, List.isEmpty_iff] at hfinished
          exact absurd hfinished.1.1.1.2 hsome
    exact due?_le hbusy (List.mem_append_right _ (List.mem_map_of_mem hd))
  awake := fun t ht hover => turn?_overdue ht hover

/-- What is sure of a job that waits for its next attempt since one failed at `t`. -/
structure WaitsFor (retry : RetryPolicy) (p : Pool) (j : Job) (t attempt wait : Nat) : Prop where
  within : retry.baseDelay attempt ≤ wait ∧ wait ≤ retry.baseDelay attempt + retry.backoffJitterMs
  /-- No later attempt of the job is started before the delay is over. -/
  late : ∀ t' n, Begins p t' j.id n → attempt < n → t + wait ≤ t'
  /-- The job waits until the delay is over or the pool drains. -/
  waits : p.draining = true ∨ t + wait ≤ p.clock ∨
    ∃ d ∈ p.delayed, d.job.place = j.place ∧ d.job.attempt = attempt ∧ d.due = t + wait

/-- The delays of a policy double, and jobs wait for as long as they say. The pool wakes up in time. -/
theorem retries_timed (hsubmit : submit? policy retry gracePeriod draws pressure clock jobs = some start)
    (hjobs : Submittable jobs) (hids : (jobs.map (·.id)).Nodup) (inputs : List PoolInput) :
    retry.Doubles ∧
    (∀ j ∈ jobs, ∀ t a, Retries (start.after inputs) t j.id a →
      WaitsFor retry (start.after inputs) j t a (retry.delay a (draws j.planIndex a))) ∧
    ((start.after inputs).fault = none → Alert (start.after inputs)) := by
  have hstart := Sound.submit hsubmit hjobs
  have htimed := (Timed.submit hsubmit).after hstart hids inputs
  obtain ⟨_, _, _, rfl⟩ := submit?_eq hsubmit
  have hretry := (kept_retry retry).after hstart rfl inputs
  have hdraws := (kept_draws draws).after hstart rfl inputs
  have hundelayed := kept_undelayed.after hstart (fun _ => rfl) inputs
  refine ⟨retry.doubles, fun j hj t a hr => ?_, (hstart.after inputs).alert hundelayed⟩
  have hlate := htimed.late j hj t a hr
  have hwaits := htimed.waits j hj t a hr
  unfold Pauses at hwaits
  simp only [pause, hretry, hdraws] at hlate hwaits
  exact ⟨retry.delay_within a _, hlate, hwaits⟩

/-- The job of the first attempt waits for its second, just before the delay is over. -/
theorem steadyPool_retries_timed :
    let p := steadyPool.after (repeatsUntil 999)
    Submittable twoPages ∧ (twoPages.map (·.id)).Nodup ∧ Retries p 0 twoPages[0].id 1 ∧
      WaitsFor {} p twoPages[0] 0 1 1000 ∧ p.fault = none ∧ Alert p ∧ p.due? = some 1000 := by
  have hids : (twoPages.map (·.id)).Nodup := by decide
  obtain ⟨_, hwaits, halert⟩ := retries_timed submit?_steadyPool twoPages_submittable hids (repeatsUntil 999)
  have hretries : Retries (steadyPool.after (repeatsUntil 999)) 0 twoPages[0].id 1 :=
    ⟨1000, .transient, "资源耗尽: ", by decide⟩
  exact ⟨twoPages_submittable, hids, hretries, hwaits _ (by decide) 0 1 hretries, rfl, halert rfl, rfl⟩

end PageAudit.Pool
