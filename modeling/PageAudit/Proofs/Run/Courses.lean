import PageAudit.Proofs.Pool.Courses
import PageAudit.Proofs.Run.Completeness

/-!
# The courses of a run's jobs

The jobs are queued before the pool begins, the events of the pool take them on from there, and nothing is told of
them after the pool has ended, unless it broke down.
-/

namespace PageAudit.Run

open Pool

/-- The jobs have been queued. -/
def hasQueued (r : Run) : Bool :=
  match r.stage with
  | .idle | .sweeping _ | .ended (.error _) => false
  | .broken _ => !r.opening.isEmpty
  | _ => true

/-- The events before those of the pool queue every job of the plan. -/
def Opened (r : Run) : Prop :=
  ∃ t, r.opening = r.plan.map fun job => (t, .queued job.id job.url)

/-- The jobs have been queued, or nothing has been told of them yet. -/
def Opens (r : Run) : Prop :=
  r.Opened ∨ r.opening = [] ∧ r.hasQueued = false

variable {r s : Run} {plan : List Job} {initial final : SweepReport} {results : List Result} {job : Job}

/-! ## The opening -/

theorem Opened.of_eq (h : r.Opened) (hplan : s.plan = r.plan) (hopening : s.opening = r.opening) : s.Opened := by
  rw [Opened, hplan, hopening]
  exact h

theorem Opens.opened (h : r.Opens) (hqueued : r.hasQueued = true) : r.Opened :=
  h.resolve_right fun hnone => Bool.noConfusion (hnone.2.symm.trans hqueued)

theorem Opened.clearOn (h : r.Opened) (k : Kills) : (r.clearOn initial results k).Opened :=
  killOn_induct (motive := Opened) (fun _ => h) (fun _ _ => h) fun _ _ _ => h

theorem Opened.beginClearing (h : r.Opened) : (r.beginClearing initial results).Opened :=
  Opened.clearOn (r := r.withSupervisor (Kills.ofSweep r.supervisor).1) h _

theorem Opened.releaseOn (h : r.Opened) (k : Kills) : (r.releaseOn initial results k).Opened :=
  killOn_induct (motive := Opened) (fun _ => h)
    (fun _ _ => Opened.beginClearing (r := r.withSupervisor (k.poll r.supervisor).1) h) fun _ _ _ => h

theorem Opened.collect (h : r.Opened) : (r.collect initial).Opened := by
  unfold Run.collect
  split
  · exact h
  · have hclosed : ({ r with closing := r.missingEvents }.withSupervisor (Kills.ofAll r.supervisor).1).Opened :=
      h.of_eq rfl rfl
    exact hclosed.releaseOn _

theorem opens_sweepOn (h : r.Opened ∨ r.opening = []) (k : Kills) : (r.sweepOn k).Opens :=
  killOn_induct (motive := Opens) (fun _ => h.imp_right fun hnone => ⟨hnone, rfl⟩) (fun _ _ => Or.inl ⟨_, rfl⟩)
    fun _ _ _ => h.imp_right fun (hnone : r.opening = []) =>
      ⟨hnone, by simp [hasQueued, breakDown, withSupervisor, hnone]⟩

theorem opens_begin (h : r.Opened ∨ r.opening = []) : r.begin.Opens := by
  unfold begin
  split
  · exact h.imp_right fun hnone => ⟨hnone, rfl⟩
  · rename_i control _
    dsimp only
    split
    · exact h.imp_right fun hnone => ⟨hnone, rfl⟩
    · exact h.imp_right fun hnone => ⟨hnone, rfl⟩
    · exact opens_sweepOn (r := { r with control }.withSupervisor (Kills.ofSweep r.supervisor).1) h _

theorem Opens.step (h : r.Opens) : r.step.Opens := by
  unfold Run.step
  cases hstage : r.stage with
  | idle => exact opens_begin (h.imp_right And.left)
  | sweeping k => exact opens_sweepOn (h.imp_right And.left) k
  | ended | broken => exact h
  | pooling => exact Or.inl (h.opened (by rw [hasQueued, hstage])).collect
  | releasing => exact Or.inl ((h.opened (by rw [hasQueued, hstage])).releaseOn _)
  | clearing => exact Or.inl ((h.opened (by rw [hasQueued, hstage])).clearOn _)
  | deciding | showing | reporting =>
      have hopened := h.opened (by rw [hasQueued, hstage])
      exact Or.inl (hopened.of_eq rfl rfl)

theorem Opens.pollCoordinator (h : r.Opens) : r.pollCoordinator.Opens :=
  pollCoordinator_induct (motive := Opens) h.step fun _ hs => hs.step

theorem Aside.opens (ha : Aside r s) (h : r.Opens) : s.Opens := by
  unfold Opens hasQueued
  rw [ha.stage, ha.opening]
  exact h.imp_left fun hopened => hopened.of_eq ha.plan ha.opening

/-- Once the jobs have been queued, that was the beginning of the events. -/
theorem Orderly.after_opens (h : r.Orderly plan) (hr : r.Opens) (actions : List RunAction) :
    (r.after actions).Opens := by
  induction actions generalizing r with
  | nil => exact hr
  | cons a rest ih =>
      refine ih (h.perform a) ?_
      rcases h.1.perform_aside a with he | ha
      · rw [he]
        exact hr.pollCoordinator
      · exact ha.opens hr

/-! ## The closing -/

theorem Orderly.closing_nil (h : r.Orderly r.plan) (hplan : AcceptedPlan r.plan) (hqueued : r.hasQueued = true)
    (hfault : r.session.pool.fault = none) : r.closing = [] := by
  obtain ⟨hg, hp⟩ := h
  have hsettled : ∀ {results : List Result}, r.Settled results → r.closing = [] := by
    rintro results ⟨hended, t, _, hclosing⟩
    rw [hclosing, hg.missing_nil hplan hended hfault]
    rfl
  unfold hasQueued at hqueued
  cases hstage : r.stage with
  | idle | sweeping =>
      rw [hstage] at hqueued
      cases hqueued
  | broken =>
      rw [hstage] at hp
      exact hp.elim id fun ⟨_, hs⟩ => hsettled hs
  | pooling =>
      rw [hstage] at hp
      exact hp
  | releasing | clearing | deciding | showing | reporting =>
      rw [hstage] at hp
      exact hsettled hp
  | ended outcome =>
      rw [hstage] at hqueued hp
      cases outcome with
      | ok report => exact hsettled hp
      | error e => cases hqueued

/-! ## The whole course -/

/-- The events of a job go on from where the opening leaves it. -/
theorem Opened.course (h : r.Opened) (hids : (r.plan.map (·.id)).Nodup) (hclosing : r.closing = [])
    (hjob : job ∈ r.plan) :
    JobCourse.unknown.after? r.session.pool.retry.maxAttempts (eventsOf job.id r.events) =
      r.session.pool.course? job.id := by
  obtain ⟨t, hopening⟩ := h
  have hqueued : eventsOf job.id r.opening = [.queued job.id job.url] := by
    rw [hopening]
    exact eventsOf_map (fun _ => rfl) hids hjob
  rw [events, hclosing, List.append_nil, eventsOf_append, hqueued]
  rfl

theorem Orderly.course (h : r.Orderly plan) (hplan : AcceptedPlan plan) (hopened : r.Opened)
    (hrecorded : Recorded r.session.pool) (hqueued : r.hasQueued = true) (hfault : r.session.pool.fault = none)
    (hjob : job ∈ plan) :
    ∃ c, JobCourse.unknown.after? r.session.pool.retry.maxAttempts (eventsOf job.id r.events) = some c ∧
      ∀ report, r.stage = .ended (.ok report) → c = .ended := by
  obtain rfl := h.1.plan_eq
  have hplaced := h.1.sound.placed
  rw [hopened.course hplan.ids (h.closing_nil hplan hqueued hfault) hjob]
  obtain ⟨c, hc⟩ := hrecorded.course?_isSome hplaced hjob
  refine ⟨c, hc, fun report hended => ?_⟩
  have hsettled := h.2
  rw [hended] at hsettled
  have hfinished := (h.1.sound.phased.ended hsettled.1 hfault).1
  have hlast := hrecorded.course?_ended hplaced (hplaced.results_length hfinished) hjob
  exact Option.some.inj (hc.symm.trans hlast)

/-- The events of every job of a run follow one another as they should, and they have told of its end when the run
reports, as long as the pool does not break down. -/
theorem events_follow_course {config : Config} {plan : List Job} (hconfig : config.validate = .ok ())
    (hplan : validatePlan plan = .ok ()) (hfresh : ∀ j ∈ plan, j.attempt = 0) (site : Site)
    (draws : Nat → Nat → Nat) (probe : Nat → Except ProbeError MemoryReading) :
    ∃ r, Run.ofPlan? config plan site draws probe = some r ∧ ∀ (actions : List RunAction),
      (r.after actions).session.pool.fault = none → (r.after actions).hasQueued = true → ∀ job ∈ plan,
        ∃ c, JobCourse.unknown.after? config.retry.maxAttempts (eventsOf job.id (r.after actions).events) = some c ∧
          ∀ report, (r.after actions).stage = .ended (.ok report) → c = .ended := by
  have haccepted := AcceptedPlan.of_validate hplan
  obtain ⟨hpolicy, hretry⟩ := Config.parts_of_validate hconfig
  obtain ⟨pool, hpool⟩ := Pool.submit?_isSome (PoolPolicy.Valid.of_validate hpolicy).ordered
  have hmade : Run.ofPlan? config plan site draws probe = some _ := congrArg (Option.map _) hpool
  refine ⟨_, hmade, fun actions hfault hqueued job hjob => ?_⟩
  have hbegins := Orderly.ofPlan hmade haccepted
  have hmoves := hbegins.after_moves actions
  have hsame := (kept_retry config.retry).moves hbegins.1.sound
    (by obtain ⟨_, _, _, rfl⟩ := submit?_eq hpool; rfl) hmoves
  obtain ⟨_, hrecorded⟩ := (kept_recorded haccepted.ids).moves hbegins.1.sound
    ⟨Attempted.submit hpool (RetryPolicy.one_le_of_validate hretry) hfresh, Recorded.submit hpool hfresh⟩ hmoves
  have hopened := (hbegins.after_opens (Or.inr ⟨rfl, rfl⟩) actions).opened hqueued
  have hcourse := (hbegins.after actions).course haccepted hopened hrecorded hqueued hfault hjob
  rwa [hsame] at hcourse

set_option maxRecDepth 4000 in
theorem twoPages_events_follow_course : Config.validate {} = .ok () ∧ validatePlan twoPages = .ok () ∧
    (∀ j ∈ twoPages, j.attempt = 0) ∧
    ∃ r, Run.ofPlan? {} twoPages quietSite (fun _ _ => 0) (fun _ => .ok { used := 1, free := 1 }) = some r ∧
      (∃ report, (r.after twoPagesActions).stage = .ended (.ok report)) ∧
      ∀ job ∈ twoPages, JobCourse.unknown.after? 3 (eventsOf job.id (r.after twoPagesActions).events) =
        some .ended := by
  obtain ⟨r, hr, hcourse⟩ := events_follow_course (rfl : Config.validate {} = .ok ())
    (rfl : validatePlan twoPages = .ok ()) (by decide) quietSite (fun _ _ => 0)
    (fun _ => .ok { used := 1, free := 1 })
  obtain rfl := Option.some.inj hr
  refine ⟨rfl, rfl, by decide, _, hr, ⟨_, rfl⟩, fun job hjob => ?_⟩
  obtain ⟨c, hc, hended⟩ := hcourse twoPagesActions rfl rfl job hjob
  obtain rfl := hended _ rfl
  exact hc

end PageAudit.Run
