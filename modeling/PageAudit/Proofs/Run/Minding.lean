import PageAudit.Proofs.Pool.Minding
import PageAudit.Proofs.Run.Actions

/-!
# A run minds its processes

The coordinator ends processes in rows of kills of its own and leaves those of the pool alone. Whatever a part of the run
does, no process is forgotten but those that the pool gives up.
-/

namespace PageAudit

open Pool Supervisor

/-- The processes that the coordinator is going to end. -/
def RunStage.pids : RunStage → List Nat
  | .sweeping k | .releasing _ _ k | .clearing _ _ k => k.pids
  | _ => []

/-- The action comes from a part of the run or from its pool: attempts report by themselves, and the release of all
browsers is left to the pool. -/
def RunAction.IsOwn : RunAction → Prop
  | .disturb _ | .reach (.report ..) | .reach (.released _) | .reach (.launcherBroke _)
  | .poll (.part (.attempt 0)) => False
  | _ => True

namespace Run

variable {r s : Run} {plan : List Job} {initial : SweepReport} {results : List Result} {rows rows' : Nat → Prop}

/-- Some part of the run is going to end a process. -/
def Ends (r : Run) (pid : Nat) : Prop :=
  r.session.Ends pid ∨ pid ∈ r.stage.pids

/-! ## The coordinator -/

/-- The coordinator has gone on; it leaves the pool's parts alone and forgets no process. -/
structure Steers (r : Run) (rows : Nat → Prop) (s : Run) : Prop where
  clears : Clears r.supervisor s.supervisor rows (· ∈ s.stage.pids)
  background : s.session.site.backgroundPids = r.session.site.backgroundPids
  attempts : s.session.attempts = r.session.attempts
  forced : s.session.forced = r.session.forced
  phase : s.session.pool.phase = r.session.pool.phase

theorem Steers.after {t : Supervisor} (h : (r.withSupervisor t).Steers rows' s)
    (hclears : Clears r.supervisor t rows rows') : r.Steers rows s :=
  { h with clears := hclears.trans h.clears }

theorem Steers.trans {t : Run} (h : r.Steers rows s) (h' : s.Steers (· ∈ s.stage.pids) t) : r.Steers rows t where
  clears := h.clears.trans h'.clears
  background := h'.background.trans h.background
  attempts := h'.attempts.trans h.attempts
  forced := h'.forced.trans h.forced
  phase := h'.phase.trans h.phase

theorem steers_killOn {k : Kills} {stage : Kills → RunStage} {next : Kills → Run → Run}
    (hstage : ∀ k, (stage k).pids = k.pids) (hnext : ∀ (k : Kills) (s : Run), s.Steers (fun _ => False) (next k s)) :
    r.Steers (· ∈ k.pids) (r.killOn k stage next) := by
  refine killOn_induct (motive := fun s => r.Steers (· ∈ k.pids) s) (fun _ => ?_) (fun hdone _ => ?_)
    fun hdone message _ => ?_
  · exact ⟨(k.clears_poll _).mono (fun _ hp => hp) fun _ hp => (hstage _).symm ▸ hp, rfl, rfl, rfl, rfl⟩
  · exact (hnext _ _).after (Kills.clears_poll_done hdone)
  · exact ⟨(Kills.clears_poll_done hdone).mono (fun _ hp => hp) fun _ hp => hp.elim, rfl, rfl, rfl, rfl⟩

theorem steers_clearOn (r : Run) (k : Kills) : r.Steers (· ∈ k.pids) (r.clearOn initial results k) :=
  steers_killOn (fun _ => rfl) fun _ _ => ⟨(Clears.refl ..).of_none, rfl, rfl, rfl, rfl⟩

theorem steers_beginClearing (r : Run) : r.Steers (fun _ => False) (r.beginClearing initial results) :=
  (steers_clearOn (r.withSupervisor (Kills.ofSweep r.supervisor).1) _).after (Kills.clears_ofSweep _)

theorem steers_releaseOn (r : Run) (initial : SweepReport) (results : List Result) (k : Kills) :
    r.Steers (· ∈ k.pids) (r.releaseOn initial results k) :=
  steers_killOn (fun _ => rfl) fun _ s => s.steers_beginClearing

theorem steers_sweepOn (r : Run) (k : Kills) : r.Steers (· ∈ k.pids) (r.sweepOn k) :=
  steers_killOn (fun _ => rfl) fun _ _ => ⟨(Clears.refl ..).of_none, rfl, rfl, rfl, rfl⟩

theorem steers_begin (r : Run) : r.Steers (fun _ => False) r.begin := by
  have hstops : ∀ (control : RunControl) (outcome : Except AppError RunReport),
      r.Steers (fun _ => False) ({ r with control }.stop outcome) := fun _ _ =>
    ⟨(Clears.refl ..).of_none, rfl, rfl, rfl, rfl⟩
  unfold begin
  split
  · exact hstops r.control _
  · rename_i control _
    dsimp only
    split
    · exact hstops control.refuse _
    · exact hstops control.refuse _
    · have hsweep := steers_sweepOn ({ r with control }.withSupervisor (Kills.ofSweep r.supervisor).1)
        (Kills.ofSweep r.supervisor).2
      exact { hsweep with clears := (Kills.clears_ofSweep _).trans hsweep.clears }

/-- A step of the coordinator goes on ending what it was going to end. -/
theorem steers_step (r : Run) : r.Steers (· ∈ r.stage.pids) r.step := by
  have hnone : ∀ {s : Run}, r.Steers (fun _ => False) s → r.Steers (· ∈ ([] : List Nat)) s :=
    fun h => { h with clears := h.clears.mono (fun _ hp => List.not_mem_nil hp) fun _ hp => hp }
  unfold step
  cases hstage : r.stage with
  | idle => exact hnone r.steers_begin
  | sweeping k => exact r.steers_sweepOn k
  | pooling initial =>
      refine hnone ?_
      dsimp only
      unfold collect
      split
      · exact ⟨(Clears.refl ..).of_none, rfl, rfl, rfl, rfl⟩
      · have hrelease := steers_releaseOn
          ({ r with closing := r.missingEvents }.withSupervisor (Kills.ofAll r.supervisor).1) initial r.collected
          (Kills.ofAll r.supervisor).2
        exact { hrelease with clears := (Kills.clears_ofAll _).trans hrelease.clears }
  | releasing _ _ k => exact r.steers_releaseOn _ _ k
  | clearing _ _ k => exact r.steers_clearOn k
  | deciding | showing | reporting | ended | broken =>
      exact hnone ⟨(Clears.refl ..).of_none, rfl, rfl, rfl, rfl⟩

theorem steers_pollCoordinator (r : Run) : r.Steers (· ∈ r.stage.pids) r.pollCoordinator :=
  pollCoordinator_induct (motive := fun s => r.Steers (· ∈ r.stage.pids) s) r.steers_step
    fun s hs => hs.trans s.steers_step

/-! ## All actions -/

/-- A run has gone on and forgets no process but those that its pool gave up. -/
structure Attends (r s : Run) : Prop where
  tends : Tends r.supervisor s.supervisor r.Ends fun pid => s.Ends pid ∨ r.session.GivesUp pid
  staffed : s.session.Staffed

theorem Steers.attends (h : r.Steers (· ∈ r.stage.pids) s) (hr : r.session.Staffed) : Attends r s where
  tends := by
    refine (h.clears.toTends.frame r.session.Ends).mono (fun pid hp => hp.symm) fun pid hp => Or.inl (hp.symm.imp_left ?_)
    unfold PoolSession.Ends
    rw [h.attempts, h.background, h.forced]
    exact id
  staffed := {
    exclusive := h.clears.exclusive hr.exclusive
    reserved := fun a ha hl => by
      rw [show s.session.site.supervisor.registry.launching = _ from h.clears.launching]
      exact hr.reserved a (h.attempts ▸ ha) hl
    apart := by
      rw [h.attempts]
      exact hr.apart
    forcing := fun hf => h.phase.trans (hr.forcing (h.forced ▸ hf)) }

theorem attends_session {y : PoolSession} (h : PoolSession.Attends r.session y) (hstage : s.stage = r.stage)
    (hsession : s.session = y) : Attends r s where
  tends := by
    subst hsession
    refine (h.tends.frame (· ∈ r.stage.pids)).mono (fun _ hp => hp) fun pid hp => ?_
    unfold Ends
    rw [hstage]
    rcases hp with (hp | hp) | hp
    · exact Or.inl (Or.inl hp)
    · exact Or.inr hp
    · exact Or.inl (Or.inr hp)
  staffed := hsession ▸ h.staffed

theorem attends_perform (h : r.session.Staffed) (hm : r.session.Manned) {a : RunAction} (ha : a.IsOwn) :
    Attends r (r.perform a) := by
  have hpool : ∀ p : Pool, (r.session.pool.phase = .forcing → p.phase = .forcing) →
      PoolSession.Attends r.session { r.session with pool := p } := fun p hp =>
    h.attends_pool r.session.site.clock p hp
  cases a with
  | elapse now => exact attends_session (h.attends_pool now (r.session.pool.elapse now) id) rfl rfl
  | cancel reason => exact attends_session (hpool r.session.pool.cancel id) rfl rfl
  | reach i =>
      refine attends_session (hpool _ fun hp => PoolSession.step_forcing hp (fun count he => ?_) fun message he => ?_)
        rfl rfl <;> subst he <;> exact ha
  | disturb site => exact ha.elim
  | poll t =>
      cases t with
      | coordinator => exact r.steers_pollCoordinator.attends h
      | monitor =>
          obtain ⟨_, _, he⟩ := r.pollMonitor_session
          refine attends_session (hpool _ fun hp => ?_) r.aside_pollMonitor.stage he
          exact hp
      | part t =>
          refine attends_session (PoolSession.attends_poll h hm fun he => ?_) rfl rfl
          subst he
          exact ha

theorem manned_perform (h : r.session.Manned) (hr : r.Grounded plan) (hb : Braked r.session.pool) {a : RunAction}
    (ha : a.IsOwn) : (r.perform a).session.Manned := by
  cases a with
  | elapse | cancel => exact h.of_pool rfl (fun htracked => { htracked with }) (Nat.le_refl _)
  | reach i =>
      cases i with
      | elapse | cancel | pressure | pressureClosed =>
          exact h.of_pool rfl (fun htracked => { htracked with }) (Nat.le_refl _)
      | report | released | launcherBroke => exact ha.elim
      | turn =>
          have hacts := hr.sound.step_turn
          exact h.of_pool rfl (fun htracked => htracked.acts hr.sound hb hacts) hacts.nextSeq_le
  | disturb site => exact ha.elim
  | poll t =>
      cases t with
      | coordinator =>
          obtain ⟨_, he⟩ := r.pollCoordinator_pool
          refine h.of_pool r.steers_pollCoordinator.attempts (fun htracked => ?_) ?_
          · show Tracked _ r.pollCoordinator.session.pool
            rw [he]
            exact { htracked with }
          · show _ ≤ r.pollCoordinator.session.pool.nextSeq
            rw [he]
      | monitor =>
          obtain ⟨_, _, he⟩ := r.pollMonitor_session
          show r.pollMonitor.session.Manned
          rw [he]
          exact h.of_pool rfl (fun htracked => { htracked with }) (Nat.le_refl _)
      | part t => exact h.poll hr.sound hb t

end Run

end PageAudit
