import PageAudit.Proofs.Pool.Browsers
import PageAudit.Proofs.Pool.Draining
import PageAudit.Proofs.Run.Completeness

/-!
# Cancelled runs

From the moment the pool of a run takes notice of a cancellation it only ends jobs: those that wait at once, and those
that are under way one by one. Once all attempts are told to stop, no browser is started or registered any more.
-/

namespace PageAudit

open Pool Supervisor

/-! ## Taking notice -/

namespace PoolSession

variable {jobs : List Job} {x : PoolSession} {p : Pool}

/-- Nobody waits for the release of all browsers before the pool drains. -/
theorem released_of_going (h : Sound jobs p) (going : p.draining = false) (count : Nat) : p.released count = p := by
  unfold Pool.released
  split
  · rename_i hforcing
    exact Bool.noConfusion (going.symm.trans (h.phased.forcing (by simpa using hforcing)))
  · rfl

theorem launcherBroke_of_going (h : Sound jobs p) (going : p.draining = false) (message : String) :
    p.launcherBroke message = p := by
  unfold Pool.launcherBroke
  split
  · rename_i hforcing
    exact Bool.noConfusion (going.symm.trans (h.phased.forcing (by simpa using hforcing)))
  · rfl

/-- A poll of the pool is a poll of its turns, and what follows the release of all browsers comes while it drains. -/
theorem pollPool_polls (h : Sound jobs x.pool) (going : x.pool.draining = false) :
    x.pollPool.pool = x.pool ∨ Acts x.pool.poll x.pollPool.pool ∧
      (x.pollPool.pool = x.pool.poll ∨ x.pool.poll.draining = true) := by
  unfold pollPool
  dsimp only
  rw [noteEnd_pool]
  cases x.forced with
  | some k =>
      have hforced : (x.forceOn k).pool = x.pool ∨ (x.forceOn k).pool = x.pool.poll := by
        rcases x.forceOn_pool k with he | ⟨count, he⟩ | ⟨message, he⟩
        · exact Or.inl he
        · exact Or.inr (he.trans (by rw [released_of_going h going]))
        · exact Or.inl (he.trans (launcherBroke_of_going h going message))
      have hsame : (x.forceOn k).pool = x.pool ∨ Acts x.pool.poll (x.forceOn k).pool ∧
          ((x.forceOn k).pool = x.pool.poll ∨ x.pool.poll.draining = true) :=
        hforced.imp_right fun he => ⟨by rw [he], Or.inl he⟩
      dsimp only
      split <;> exact hsame
  | none =>
      have hturned : Acts x.pool.poll x.turnOn.pool ∧
          (x.turnOn.pool = x.pool.poll ∨ x.pool.poll.draining = true) := by
        have hpoll := h.acts h.poll
        unfold turnOn
        dsimp only
        split
        · rename_i hforcing
          exact ⟨acts_forceOn hpoll rfl _, Or.inr (hpoll.phased.forcing (by simpa using hforcing))⟩
        · exact ⟨Relation.ReflTransGen.refl, Or.inl rfl⟩
      dsimp only
      split <;> exact Or.inr hturned

end PoolSession

/-! ## What is safe -/

/-- A job that was under way has one result in the report and one event that tells of it. -/
theorem Complete.busy {plan : List Job} {events : List ProgressEvent} {results : List Result} {p : Pool} {job : Job}
    (h : Complete plan events results) (hplan : AcceptedPlan plan) (hp : Placed plan [] p)
    (hjob : job ∈ p.running.map (·.job) ++ p.preempted) :
    ∃ result, results[job.planIndex]? = some result ∧ result.place = job.place ∧
      ∃ e, events.filter (fun e => e.isTerminal && e.jobId? == some job.id) = [e] ∧ e.Tells result := by
  obtain ⟨k, hk, hplace⟩ := hp.busy_job hjob
  obtain ⟨i, hi⟩ := List.mem_iff_getElem?.mp hk
  obtain ⟨result, hat, hid, hurl, hindex, _, htold⟩ := h.each i k hi
  have hposition : i = job.planIndex := (hplan.planIndex_eq hi).symm.trans (congrArg JobPlace.index hplace)
  have hsame : result.place = job.place := by
    rw [← hplace, Result.place, Job.place, hid, hurl, hindex, hplan.planIndex_eq hi]
  rw [show k.id = job.id from congrArg JobPlace.id hplace] at htold
  exact ⟨result, hposition ▸ hat, hsame, htold⟩

namespace Run

variable {r s : Run} {plan : List Job} {job : Job}

/-- What holds of a run at any time after its pool began to drain; `before` is the run that took notice of the
cancellation. -/
structure DrainSafe (plan : List Job) (before later : Run) : Prop where
  drained : before.session.pool.DrainedSince later.session.pool
  /-- No end was told of the jobs that were under way. The pool gives just one result for each until it ends, unless it
  breaks down, and just one end is told in any case by the end of the run. -/
  underway : ∀ job ∈ before.session.pool.running.map (·.job) ++ before.session.pool.preempted,
    (∀ x ∈ before.session.pool.results, x.2.planIndex ≠ job.planIndex) ∧
    (∀ e ∈ before.session.pool.endings, e.jobId? ≠ some job.id) ∧
    (later.session.pool.phase = .ended → later.session.pool.fault = none →
      ∃ x, later.session.pool.results.filter (·.2.planIndex == job.planIndex) = [x] ∧ x.2.place = job.place ∧
        ∃ e, later.session.pool.endings.filter (·.jobId? == some job.id) = [e] ∧ e.Tells x.2) ∧
    ∀ report, later.stage = .ended (.ok report) → ∃ result, report.results[job.planIndex]? = some result ∧
      result.place = job.place ∧
      ∃ e, (later.events.map (·.2)).filter (fun e => e.isTerminal && e.jobId? == some job.id) = [e] ∧ e.Tells result
  /-- Once all attempts have been told to stop, no browser is started or registered. -/
  stopped : later.session.pool.hardStopped = true → ∀ rest : List RunAction, (∀ site, .disturb site ∉ rest) →
    later.supervisor.Recedes (later.after rest).supervisor
  /-- The turn after the time to settle ends the pool with nothing left. -/
  reaped : later.session.pool.phase = .waiting →
    later.session.pool.reapDeadline.any (· ≤ later.session.pool.clock) = true →
    (later.session.pool.step .turn).phase = .ended ∧ (later.session.pool.step .turn).isFinished = true

/-- The action in which the pool begins to drain begins with that. -/
theorem Grounded.drains_first (h : r.Grounded plan) (a : RunAction) (going : r.session.pool.draining = false)
    (hd : (r.perform a).session.pool.draining = true) :
    ∃ m, Sound plan m ∧ Alike r.session.pool m ∧ m.phase = .waiting ∧ m.draining = false ∧ m.cancelled = true ∧
      Acts m.drained (r.perform a).session.pool := by
  have hsame : ∀ {q : Pool}, q.draining = r.session.pool.draining → ¬ q.draining = true := by
    intro q hq hd
    exact Bool.noConfusion (going.symm.trans (hq.symm.trans hd))
  cases a with
  | elapse | cancel | disturb => exact absurd hd (hsame rfl)
  | reach i =>
      cases i with
      | elapse | cancel | pressure | pressureClosed => exact absurd hd (hsame rfl)
      | report seq outcome =>
          exact absurd hd (hsame (receive_draining ..))
      | released count =>
          exact absurd hd (hsame (congrArg Pool.draining (PoolSession.released_of_going h.sound going count)))
      | launcherBroke message =>
          exact absurd hd (hsame (congrArg Pool.draining (PoolSession.launcherBroke_of_going h.sound going message)))
      | turn => exact h.sound.drains_first going (Or.inl rfl) hd
  | poll t =>
      cases t with
      | coordinator =>
          obtain ⟨_, he⟩ := r.pollCoordinator_pool
          exact absurd hd (hsame ((congrArg Pool.draining he).trans rfl))
      | monitor =>
          obtain ⟨_, _, he⟩ := r.pollMonitor_session
          exact absurd hd (hsame ((congrArg (fun x : PoolSession => x.pool.draining) he).trans rfl))
      | part t =>
          cases t with
          | background => exact absurd hd (hsame rfl)
          | attempt seq =>
              rcases r.session.pollAttempt_pool seq with he | ⟨outcome, he⟩
              · exact absurd hd (hsame (congrArg Pool.draining he))
              · exact absurd hd (hsame ((congrArg Pool.draining he).trans (receive_draining ..)))
          | turns =>
              rcases PoolSession.pollPool_polls h.sound going with he | ⟨hacts, hlast⟩
              · exact absurd hd (hsame (congrArg Pool.draining he))
              · have hpolled : r.session.pool.poll.draining = true := by
                  rcases hlast with he | hpolled
                  · exact (congrArg Pool.draining he).symm.trans hd
                  · exact hpolled
                obtain ⟨m, hm, halike, busy, hgoing, htold, hfirst⟩ := h.sound.drains_first going (Or.inr rfl) hpolled
                exact ⟨m, hm, halike, busy, hgoing, htold, hfirst.trans hacts⟩

/-! ## Jobs under way -/

theorem Grounded.busy_untold (h : r.Grounded plan) (hplan : AcceptedPlan plan)
    (hjob : job ∈ r.session.pool.running.map (·.job) ++ r.session.pool.preempted) {e : ProgressEvent}
    (he : e ∈ r.session.pool.endings) : e.jobId? ≠ some job.id := by
  obtain ⟨result, hresult, htells⟩ := forall₂_exists_of_mem h.told he
  obtain ⟨x, hx, rfl⟩ := List.mem_map.mp hresult
  obtain ⟨j, hj, hplace⟩ := h.sound.placed.exists_job hx
  obtain ⟨k, hk, hplace'⟩ := h.sound.placed.busy_job hjob
  intro hid
  have hids : j.id = k.id :=
    (congrArg JobPlace.id hplace).trans ((Option.some.inj (htells.jobId.symm.trans hid)).trans
      (congrArg JobPlace.id hplace').symm)
  obtain rfl := List.inj_on_of_nodup_map hplan.ids hj hk hids
  exact h.sound.placed.busy_unfinished hjob hx (congrArg JobPlace.index (hplace.symm.trans hplace'))

/-- A pool that ends without breaking down gives just one result for every job that was under way. -/
theorem Grounded.busy_result (h : r.Grounded plan) (hplan : AcceptedPlan plan) {p : Pool} (hp : Placed plan [] p)
    (hjob : job ∈ p.running.map (·.job) ++ p.preempted) (hended : r.session.pool.phase = .ended)
    (hfault : r.session.pool.fault = none) :
    ∃ x, r.session.pool.results.filter (·.2.planIndex == job.planIndex) = [x] ∧ x.2.place = job.place ∧
      ∃ e, r.session.pool.endings.filter (·.jobId? == some job.id) = [e] ∧ e.Tells x.2 := by
  obtain ⟨k, hk, hplace⟩ := hp.busy_job hjob
  obtain rfl := h.plan_eq
  rw [← hplace, ← show k.planIndex = job.planIndex from congrArg JobPlace.index hplace,
    ← show k.id = job.id from congrArg JobPlace.id hplace]
  exact h.exists_result hplan hended hfault hk

/-! ## Browsers of a stopped pool -/

theorem recedes_killOn {k : Kills} {stage : Kills → RunStage} {next : Kills → Run → Run}
    (hnext : ∀ (k : Kills) (s : Run), Recedes s.supervisor (next k s).supervisor) :
    Recedes r.supervisor (r.killOn k stage next).supervisor :=
  have hkills := k.recedes_poll r.supervisor
  killOn_induct (motive := fun s => Recedes r.supervisor s.supervisor) (fun _ => hkills)
    (fun _ _ => hkills.trans (hnext _ (r.withSupervisor (k.poll r.supervisor).1))) fun _ _ _ => hkills

theorem recedes_clearOn (r : Run) (initial : SweepReport) (results : List Result) (k : Kills) :
    Recedes r.supervisor (r.clearOn initial results k).supervisor :=
  recedes_killOn fun _ _ => .refl _

theorem recedes_releaseOn (r : Run) (initial : SweepReport) (results : List Result) (k : Kills) :
    Recedes r.supervisor (r.releaseOn initial results k).supervisor :=
  recedes_killOn fun _ s => (recedes_beginSweep _).trans
    ((s.withSupervisor (Kills.ofSweep s.supervisor).1).recedes_clearOn initial results _)

theorem recedes_sweepOn (r : Run) (k : Kills) : Recedes r.supervisor (r.sweepOn k).supervisor :=
  recedes_killOn fun _ _ => .refl _

theorem recedes_begin (r : Run) : Recedes r.supervisor r.begin.supervisor := by
  unfold begin
  split
  · exact .refl _
  · rename_i control _
    dsimp only
    split
    · exact .refl _
    · exact .refl _
    · have hsweep := recedes_sweepOn ({ r with control }.withSupervisor (Kills.ofSweep r.supervisor).1)
        (Kills.ofSweep r.supervisor).2
      exact (recedes_beginSweep _).trans hsweep

theorem recedes_step (r : Run) : Recedes r.supervisor r.step.supervisor := by
  unfold step
  cases r.stage with
  | idle => exact r.recedes_begin
  | sweeping k => exact r.recedes_sweepOn k
  | pooling initial =>
      dsimp only
      unfold collect
      split
      · exact .refl _
      · have hrelease := recedes_releaseOn
          ({ r with closing := r.missingEvents }.withSupervisor (Kills.ofAll r.supervisor).1) initial r.collected
          (Kills.ofAll r.supervisor).2
        exact (recedes_drain _).trans hrelease
  | releasing _ _ k => exact r.recedes_releaseOn _ _ k
  | clearing _ _ k => exact r.recedes_clearOn _ _ k
  | deciding | showing | reporting | ended | broken => exact .refl _

theorem recedes_pollCoordinator (r : Run) : Recedes r.supervisor r.pollCoordinator.supervisor :=
  pollCoordinator_induct (motive := fun s => Recedes r.supervisor s.supervisor) r.recedes_step
    fun s hs => hs.trans s.recedes_step

theorem pollMonitor_supervisor (r : Run) : r.pollMonitor.supervisor = r.supervisor := by
  obtain ⟨_, _, he⟩ := r.pollMonitor_session
  rw [supervisor, he]
  rfl

/-- While all attempts in flight are told to stop, no action but a disturbance brings a browser. -/
theorem recedes_perform (h : ∀ seq, r.session.pool.isInFlight seq = true → r.session.pool.hardStopped = true)
    (a : RunAction) (ha : ∀ site, a ≠ .disturb site) : Recedes r.supervisor (r.perform a).supervisor := by
  cases a with
  | elapse => exact ⟨rfl, rfl, rfl, List.Sublist.refl _⟩
  | cancel | reach => exact .refl _
  | disturb site => exact absurd rfl (ha site)
  | poll t =>
      cases t with
      | coordinator => exact r.recedes_pollCoordinator
      | monitor =>
          show Recedes r.supervisor r.pollMonitor.supervisor
          rw [pollMonitor_supervisor]
          exact .refl _
      | part t => exact PoolSession.recedes_poll h t

theorem Orderly.recedes_after (h : r.Orderly plan) (hstop : r.session.pool.hardStopped = true)
    (rest : List RunAction) (hrest : ∀ site, .disturb site ∉ rest) :
    Recedes r.supervisor (r.after rest).supervisor := by
  induction rest generalizing r with
  | nil => exact .refl _
  | cons a rest ih =>
      have hdraining := h.1.sound.phased.pressing (Or.inr (Or.inr hstop))
      have hmoves : Moves r.session.pool (r.perform a).session.pool := h.after_moves [a]
      have hfirst := recedes_perform (fun _ _ => hstop) a fun site ha => hrest site (ha ▸ List.mem_cons_self)
      exact hfirst.trans (ih (h.perform a) ((hmoves.drains hdraining).hardStopped hstop) fun site hmem =>
        hrest site (List.mem_cons_of_mem _ hmem))

/-! ## Safety -/

/-- From the action in which the pool of a run takes notice of a cancellation on, all is only brought to its end. -/
theorem drain_safe {config : Config} {plan : List Job} (hconfig : config.validate = .ok ())
    (hplan : validatePlan plan = .ok ()) (site : Site) (draws : Nat → Nat → Nat)
    (probe : Nat → Except ProbeError MemoryReading) :
    ∃ r, Run.ofPlan? config plan site draws probe = some r ∧ ∀ (actions : List RunAction) (a : RunAction),
      (r.after actions).session.pool.draining = false →
      ((r.after actions).perform a).session.pool.draining = true → ∀ later : List RunAction,
        DrainSafe plan (r.after actions) (((r.after actions).perform a).after later) := by
  have haccepted := AcceptedPlan.of_validate hplan
  have hpolicy := PoolPolicy.Valid.of_validate (Config.parts_of_validate hconfig).1
  obtain ⟨pool, hpool⟩ := Pool.submit?_isSome hpolicy.ordered
  have hmade : Run.ofPlan? config plan site draws probe = some _ := congrArg (Option.map _) hpool
  refine ⟨_, hmade, fun actions a going hd later => ?_⟩
  have hbegins := Orderly.ofPlan hmade haccepted
  have hbraked := Braked.submit hpool
  have hbefore := hbegins.after actions
  have hnow := hbefore.perform a
  have hlater := hnow.after later
  obtain ⟨m, hm, halike, _, _, _, hacts⟩ := hbefore.1.drains_first a going hd
  have hmoves := hacts.moves.trans (hnow.after_moves later)
  refine {
    drained := halike.drainedSince hm hlater.1.sound hmoves
    underway := fun job hjob => ⟨fun x hx => hbefore.1.sound.placed.busy_unfinished hjob hx,
      fun e he => hbefore.1.busy_untold haccepted hjob he,
      hlater.1.busy_result haccepted hbefore.1.sound.placed hjob, fun report hended => ?_⟩
    stopped := fun hstop rest hrest => hlater.recedes_after hstop rest hrest
    reaped := fun busy passed => hlater.1.sound.reaped ?_ busy passed }
  · have hsettled := hlater.2
    rw [hended] at hsettled
    exact (hlater.complete haccepted hsettled).busy haccepted hbefore.1.sound.placed hjob
  · exact kept_braked.moves hbefore.1.sound (kept_braked.moves hbegins.1.sound hbraked (hbegins.after_moves actions))
      ((hbefore.after_moves [a]).trans (hnow.after_moves later))

/-- Two pages are being audited when the run is cancelled. -/
def cancelledActions : List RunAction :=
  [.poll .coordinator, .poll (.part .turns), .cancel ""]

/-- The attempts do not end in time. -/
def overdueActions : List RunAction :=
  [.elapse 100000, .poll (.part .turns), .elapse 200000]

/-- The attempts end in time. -/
def punctualActions : List RunAction :=
  [.poll (.part (.attempt 1)), .poll (.part (.attempt 2)), .poll (.part .turns)]

theorem twoPages_drain_safe : Config.validate {} = .ok () ∧ validatePlan twoPages = .ok () ∧
    ∃ r, Run.ofPlan? {} twoPages quietSite (fun _ _ => 0) (fun _ => .ok { used := 1, free := 1 }) = some r ∧
      let before := r.after cancelledActions
      let later := (before.perform (.poll (.part .turns))).after overdueActions
      let last := (before.perform (.poll (.part .turns))).after punctualActions
      before.session.pool.draining = false ∧
      (before.perform (.poll (.part .turns))).session.pool.draining = true ∧
      later.session.pool.hardStopped = true ∧ later.session.pool.phase = .waiting ∧
      later.session.pool.reapDeadline.any (· ≤ later.session.pool.clock) = true ∧
      last.session.pool.phase = .ended ∧ last.session.pool.fault = none ∧
      DrainSafe twoPages before later ∧ DrainSafe twoPages before last := by
  obtain ⟨r, hr, hsafe⟩ := drain_safe (rfl : Config.validate {} = .ok ())
    (rfl : validatePlan twoPages = .ok ()) quietSite (fun _ _ => 0) (fun _ => .ok { used := 1, free := 1 })
  have hgoing : (r.after cancelledActions).session.pool.draining = false := by
    obtain rfl := Option.some.inj hr
    rfl
  have hdrains : ((r.after cancelledActions).perform (.poll (.part .turns))).session.pool.draining = true := by
    obtain rfl := Option.some.inj hr
    decide +kernel
  refine ⟨rfl, rfl, r, hr, hgoing, hdrains, ?_, ?_, ?_, ?_, ?_, hsafe cancelledActions _ hgoing hdrains overdueActions,
    hsafe cancelledActions _ hgoing hdrains punctualActions⟩
  all_goals
    obtain rfl := Option.some.inj hr
    decide +kernel

end Run

end PageAudit
