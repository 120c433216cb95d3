import PageAudit.Proofs.Supervisor.Places
import PageAudit.Supervisor.Desk
import PageAudit.Supervisor.Kills

/-!
# The operations as acts of tasks

Every operation of a supervisor is a run of one task.
-/

namespace PageAudit

open Files

namespace Traffic

variable {s t : Traffic} {v w x : Supervisor} {n : Nat} {e e' e'' : Option Errand} {h : BrowserHandle}

/-- The supervisor is as the traffic says. -/
structure Shows (s : Traffic) (v : Supervisor) : Prop where
  registry : v.registry = s.registry
  ledger : v.ledger = s.ledger
  runId : v.runId = s.runId
  alive : v.alive = s.alive

/-- A task takes the supervisor from one state to another on its own. -/
def Carries (n : Nat) (v : Supervisor) (e : Option Errand) (w : Supervisor) (e' : Option Errand) : Prop :=
  ∀ s, s.Shows v → s.errands n = e →
    ∃ trace t, Runs Anyhow s trace t ∧ (∀ x ∈ trace, x.1 = n) ∧ t.Shows w ∧ t.errands n = e'

theorem Shows.of_eq (hs : s.Shows v) (hregistry : w.registry = v.registry) (hledger : w.ledger = v.ledger)
    (hrunId : w.runId = v.runId) (halive : w.alive = v.alive) : s.Shows w :=
  ⟨hregistry.trans hs.registry, hledger.trans hs.ledger, hrunId.trans hs.runId, halive.trans hs.alive⟩

theorem Carries.of_eq (hregistry : w.registry = v.registry) (hledger : w.ledger = v.ledger)
    (hrunId : w.runId = v.runId) (halive : w.alive = v.alive) : Carries n v e w e :=
  fun s hs he => ⟨[], s, .nil s, by simp, hs.of_eq hregistry hledger hrunId halive, he⟩

theorem Carries.refl (n : Nat) (v : Supervisor) (e : Option Errand) : Carries n v e v e :=
  .of_eq rfl rfl rfl rfl

theorem Carries.trans (h : Carries n v e w e') (h' : Carries n w e' x e'') : Carries n v e x e'' := by
  intro s hs he
  obtain ⟨trace, t, hruns, hone, ht, he'⟩ := h s hs he
  obtain ⟨trace', u, hruns', hone', hu, he''⟩ := h' t ht he'
  refine ⟨trace ++ trace', u, hruns.append hruns', fun y hy => ?_, hu, he''⟩
  rcases List.mem_append.mp hy with hy | hy
  · exact hone y hy
  · exact hone' y hy

theorem Carries.of_step (a : Act)
    (hstep : ∀ s, s.Shows v → s.errands n = e → ∃ t, Step n a s t ∧ t.Shows w ∧ t.errands n = e') :
    Carries n v e w e' := by
  intro s hs he
  obtain ⟨t, hact, ht, he'⟩ := hstep s hs he
  exact ⟨_, t, .single trivial hact, by simp, ht, he'⟩

/-! ## Starts -/

theorem carries_beginLaunch {jobId : String} {launch : Launch} (hv : v.beginLaunch jobId = .ok (w, launch))
    (attempt : Nat) : Carries n v none w (some (.launching jobId attempt)) := by
  unfold Supervisor.beginLaunch at hv
  cases hr : v.registry.reserve jobId with
  | error e => simp [hr, bind, Except.bind] at hv
  | ok registry =>
      simp only [hr, bind, Except.bind, pure, Except.pure, Except.ok.injEq, Prod.mk.injEq] at hv
      obtain ⟨rfl, -⟩ := hv
      refine .of_step (.reserve jobId attempt) fun s hs he =>
        ⟨_, .reserve he (hs.registry ▸ hr), ⟨rfl, hs.ledger, hs.runId, hs.alive⟩, put_errands_self ..⟩

theorem carries_cancelLaunch (v : Supervisor) (jobId : String) (attempt : Nat) :
    Carries n v (some (.launching jobId attempt)) (v.cancelLaunch jobId) none := by
  refine .of_step .giveUp fun s hs he => ⟨_, .giveUp he, ?_, put_errands_self ..⟩
  exact ⟨congrArg (·.cancelReservation jobId) hs.registry, hs.ledger, hs.runId, hs.alive⟩

theorem carries_endLaunch (v : Supervisor) (jobId : String) (attempt : Nat) :
    Carries n v (some (.launching jobId attempt)) (v.endLaunch jobId attempt).1 none := by
  let h := (v.endLaunch jobId attempt).2
  let w : Supervisor :=
    { v with
      launched := v.launched + 1
      alive := insertAscending h.pid v.alive
      registry := v.registry.register h }
  have hregister : Carries n v (some (.launching jobId attempt)) w (some (.recording h)) := by
    refine .of_step (.register h) fun s hs he => ⟨_, .register he, ?_, put_errands_self ..⟩
    exact ⟨congrArg (·.register h) hs.registry, hs.ledger, hs.runId, congrArg (insertAscending h.pid) hs.alive⟩
  have hrecord : Carries n w (some (.recording h)) (v.endLaunch jobId attempt).1 none := by
    refine .of_step .record fun s hs he => ⟨_, .record he, ?_, put_errands_self ..⟩
    refine ⟨hs.registry, ?_, hs.runId, hs.alive⟩
    show (w.withLedger fun slot => Ledger.record slot (w.entry h)).ledger = _
    rw [Supervisor.withLedger_eq_amend, Supervisor.entry_eq_entry, hs.ledger, hs.runId]
    rfl
  exact hregister.trans hrecord

theorem carries_conclude (v : Supervisor) (p : PendingLaunch) :
    Carries n v (some (.launching p.jobId p.attempt)) (v.conclude p).1 none := by
  unfold Supervisor.conclude
  cases p.ending with
  | ready => exact carries_endLaunch v p.jobId p.attempt
  | failed e => exact carries_cancelLaunch v p.jobId p.attempt
  | broken message => exact carries_cancelLaunch v p.jobId p.attempt

theorem carries_waitUntil (v : Supervisor) (due : Nat) (e : Option Errand) : Carries n v e (v.waitUntil due) e :=
  .of_eq rfl rfl rfl rfl

theorem carries_acquire (v : Supervisor) (jobId : String) (attempt : Nat) (patience : Option Nat) :
    Carries n v none (v.acquire jobId attempt patience).1 none := by
  unfold Supervisor.acquire
  cases hbegun : v.beginLaunch jobId with
  | error e => exact .refl n v none
  | ok begun =>
      obtain ⟨w, launch⟩ := begun
      have hbegin := carries_beginLaunch (n := n) hbegun attempt
      have hend : Carries n w (some (.launching jobId attempt)) _ none :=
        (carries_waitUntil w (w.clock + launch.delay) _).trans
          (carries_conclude _ ⟨jobId, attempt, w.clock + launch.delay, launch.ending⟩)
      cases patience with
      | none => exact hbegin.trans hend
      | some limit =>
          dsimp only
          split
          · exact hbegin.trans ((carries_waitUntil w _ _).trans (carries_cancelLaunch _ jobId attempt))
          · exact hbegin.trans hend

/-! ## Kills -/

theorem carries_beginKill (v : Supervisor) (pid : Nat) (e : Option Errand) :
    Carries n v e (v.beginKill pid).1 e :=
  .of_eq rfl rfl rfl rfl

/-- A kill that returns lets the row go on. -/
theorem carries_endKill (v : Supervisor) (c : PendingKill) (rest : List Nat)
    (hc : (v.killEnding c).isBroken = false) :
    Carries n v (some (.killing c.pid rest)) (v.endKill c) (Errand.kills rest) := by
  unfold Supervisor.endKill
  cases hending : v.killEnding c with
  | broken message =>
      rw [hending] at hc
      exact Bool.noConfusion hc
  | failed cause =>
      refine .of_step .fail fun s hs he => ⟨_, .fail he, ?_, put_errands_self ..⟩
      exact ⟨congrArg (·.notePending c.pid) hs.registry, hs.ledger, hs.runId, hs.alive⟩
  | done =>
      let dead : Supervisor := { v with alive := v.alive.filter (· != c.pid) }
      let noted : Supervisor := { dead with registry := v.registry.noteKilled c.pid }
      have hsucceed : Carries n v (some (.killing c.pid rest)) dead (some (.killed c.pid rest)) := by
        refine .of_step .succeed fun s hs he => ⟨_, .succeed he, ?_, put_errands_self ..⟩
        exact ⟨hs.registry, hs.ledger, hs.runId, congrArg (·.filter (· != c.pid)) hs.alive⟩
      have hnote : Carries n dead (some (.killed c.pid rest)) noted (some (.striking c.pid rest)) := by
        refine .of_step .note fun s hs he => ⟨_, .note he, ?_, put_errands_self ..⟩
        exact ⟨congrArg (·.noteKilled c.pid) hs.registry, hs.ledger, hs.runId, hs.alive⟩
      have hstrike : Carries n noted (some (.striking c.pid rest))
          (noted.withLedger fun slot => Ledger.remove slot c.pid) (Errand.kills rest) := by
        refine .of_step .strike fun s hs he => ⟨_, .strike he, ?_, put_errands_self ..⟩
        exact ⟨hs.registry, congrArg (amend · fun slot => Ledger.remove slot c.pid) hs.ledger, hs.runId, hs.alive⟩
      exact hsucceed.trans (hnote.trans hstrike)

/-- One that breaks down takes its task with it. -/
theorem carries_endKill_broken (v : Supervisor) (c : PendingKill) (rest : List Nat)
    (hc : (v.killEnding c).isBroken = true) : Carries n v (some (.killing c.pid rest)) (v.endKill c) none := by
  unfold Supervisor.endKill
  cases hending : v.killEnding c with
  | broken message =>
      exact .of_step .abort fun s hs he =>
        ⟨_, .abort he, ⟨hs.registry, hs.ledger, hs.runId, hs.alive⟩, put_errands_self ..⟩
  | done | failed =>
      rw [hending] at hc
      exact Bool.noConfusion hc

theorem carries_carryOut (pids : List Nat) (v : Supervisor) (k : Kills) :
    Carries n v (Errand.kills pids) (v.carryOut k pids).1 none := by
  induction pids generalizing v k with
  | nil => exact .refl n v none
  | cons pid rest ih =>
      let w := ((v.beginKill pid).1).waitUntil (v.beginKill pid).2.due
      have hbegin : Carries n v (Errand.kills (pid :: rest)) w (Errand.kills (pid :: rest)) :=
        (carries_beginKill v pid _).trans (carries_waitUntil _ _ _)
      refine hbegin.trans ?_
      unfold Supervisor.carryOut
      dsimp only
      split
      · rename_i hbroken
        exact carries_endKill_broken w (v.beginKill pid).2 rest hbroken
      · rename_i hreturns
        exact (carries_endKill w (v.beginKill pid).2 rest (by simpa using hreturns)).trans (ih _ _)

/-! ## Releases and sweeps -/

theorem carries_giveBack (v : Supervisor) (h : BrowserHandle) : Carries n v none v (some (.returning h)) :=
  .of_step (.giveBack h) fun _ hs he =>
    ⟨_, .giveBack he, ⟨hs.registry, hs.ledger, hs.runId, hs.alive⟩, put_errands_self ..⟩

theorem carries_takeOut (hv : v.unregister? h = some w) :
    Carries n v (some (.returning h)) w (Errand.kills [h.pid]) := by
  obtain ⟨registry, hr, rfl⟩ := Option.map_eq_some_iff.mp hv
  refine .of_step .takeOut fun s hs he => ⟨_, .takeOut he (hs.registry ▸ hr), ?_, put_errands_self ..⟩
  exact ⟨rfl, hs.ledger, hs.runId, hs.alive⟩

theorem carries_passOver (hv : v.unregister? h = none) : Carries n v (some (.returning h)) v none := by
  have hr := Option.map_eq_none_iff.mp hv
  refine .of_step .passOver fun s hs he => ⟨_, .passOver he (hs.registry ▸ hr), ?_, put_errands_self ..⟩
  exact ⟨hs.registry, hs.ledger, hs.runId, hs.alive⟩

theorem carries_release (v : Supervisor) (h : BrowserHandle) : Carries n v none (v.release h).1 none := by
  refine (carries_giveBack v h).trans ?_
  unfold Supervisor.release
  cases hv : v.unregister? h with
  | some w => exact (carries_takeOut hv).trans (carries_carryOut [h.pid] w { waiting := [] })
  | none => exact carries_passOver hv

theorem carries_forfeit (v : Supervisor) (h : BrowserHandle) : Carries n v none (v.forfeit h) none := by
  let w : Supervisor := { v with registry := v.registry.removeJob h.jobId }
  have hremove : Carries n v none w (some (.forfeiting h)) := by
    refine .of_step (.forfeit h) fun s hs he => ⟨_, .forfeit he, ?_, put_errands_self ..⟩
    exact ⟨congrArg (·.removeJob h.jobId) hs.registry, hs.ledger, hs.runId, hs.alive⟩
  have hnote : Carries n w (some (.forfeiting h)) (v.forfeit h) none := by
    refine .of_step .noteForfeited fun s hs he => ⟨_, .noteForfeited he, ?_, put_errands_self ..⟩
    exact ⟨congrArg (·.notePending h.pid) hs.registry, hs.ledger, hs.runId, hs.alive⟩
  exact hremove.trans hnote

theorem carries_drain (v : Supervisor) : Carries n v none v.drain.1 (Errand.kills v.drain.2) := by
  refine .of_step .drain fun s hs he => ⟨_, .drain he, ?_, ?_⟩
  · exact ⟨congrArg (·.drain) hs.registry, hs.ledger, hs.runId, hs.alive⟩
  · rw [put_errands_self, Supervisor.drain, hs.registry]

theorem carries_releaseAll (v : Supervisor) : Carries n v none v.releaseAll.1 none :=
  (carries_drain v).trans (carries_carryOut v.drain.2 v.drain.1 { waiting := [] })

theorem carries_beginSweep (v : Supervisor) : Carries n v none v.beginSweep.1 (Errand.kills v.beginSweep.2) := by
  have hlook : Carries n v none v (some (.sweeping v.registry.handles)) := by
    refine .of_step .lookUp fun s hs he => ⟨_, .lookUp he, ⟨hs.registry, hs.ledger, hs.runId, hs.alive⟩, ?_⟩
    rw [put_errands_self, hs.registry]
  have htake : Carries n v (some (.sweeping v.registry.handles)) v.beginSweep.1
      (some (.gathering v.registry.handles v.registry.pendingKills)) := by
    refine .of_step .takeOver fun s hs he => ⟨_, .takeOver he, ?_, ?_⟩
    · exact ⟨congrArg (·.takePending) hs.registry, hs.ledger, hs.runId, hs.alive⟩
    · rw [put_errands_self, hs.registry]
  have hcollect : Carries n v.beginSweep.1 (some (.gathering v.registry.handles v.registry.pendingKills))
      v.beginSweep.1 (Errand.kills v.beginSweep.2) := by
    refine .of_step .collect fun s hs he => ⟨_, .collect he, ⟨hs.registry, hs.ledger, hs.runId, hs.alive⟩, ?_⟩
    rw [put_errands_self, ← hs.registry, ← hs.ledger]
    rfl
  exact hlook.trans (htake.trans hcollect)

theorem carries_sweep (v : Supervisor) : Carries n v none v.sweep.1 none :=
  (carries_beginSweep v).trans (carries_carryOut v.beginSweep.2 v.beginSweep.1 { waiting := [] })

/-! ## Requests -/

/-- Tasks take the supervisor from one state to another, and all of them come to their end. -/
def Serves (v w : Supervisor) : Prop :=
  ∀ s, s.Shows v → (∀ n, s.errands n = none) → ∃ trace t, Runs Anyhow s trace t ∧ t.Shows w ∧ ∀ n, t.errands n = none

theorem Carries.others (h : Carries n v e w e') (hs : s.Shows v) (he : s.errands n = e) :
    ∃ trace t, Runs Anyhow s trace t ∧ t.Shows w ∧ t.errands n = e' ∧ ∀ m, m ≠ n → t.errands m = s.errands m := by
  obtain ⟨trace, t, hruns, hone, ht, he'⟩ := h s hs he
  exact ⟨trace, t, hruns, ht, he', fun m hm => hruns.errands_of_ne hone hm⟩

theorem Carries.serves (h : Carries n v none w none) : Serves v w := by
  intro s hs hidle
  obtain ⟨trace, t, hruns, ht, he, hothers⟩ := h.others hs (hidle n)
  refine ⟨trace, t, hruns, ht, fun m => ?_⟩
  by_cases hm : m = n
  · rw [hm, he]
  · rw [hothers m hm, hidle m]

theorem Serves.trans (h : Serves v w) (h' : Serves w x) : Serves v x := by
  intro s hs hidle
  obtain ⟨trace, t, hruns, ht, hidle⟩ := h s hs hidle
  obtain ⟨trace', u, hruns', hu, hidle⟩ := h' t ht hidle
  exact ⟨trace ++ trace', u, hruns.append hruns', hu, hidle⟩

/-- What an acquire that was begun leaves to its task. -/
def begunErrand : Acquired ⊕ PendingLaunch → Option Errand
  | .inl _ => none
  | .inr p => some (.launching p.jobId p.attempt)

/-- Acquires that are begun together are tasks of their own. -/
theorem runs_beginAll (jobIds : List String) (v : Supervisor) (k : Nat) (hs : s.Shows v)
    (hidle : ∀ m, k ≤ m → s.errands m = none) :
    ∃ trace t, Runs Anyhow s trace t ∧ t.Shows (v.beginAll jobIds).1 ∧ (∀ m, m < k → t.errands m = s.errands m) ∧
      (∀ y ∈ (v.beginAll jobIds).2.zipIdx k, t.errands y.2 = begunErrand y.1) ∧
      ∀ m, k + (v.beginAll jobIds).2.length ≤ m → t.errands m = none := by
  induction jobIds generalizing s v k with
  | nil => exact ⟨[], s, .nil s, hs, fun _ _ => rfl, by simp [Supervisor.beginAll], fun m hm => hidle m hm⟩
  | cons jobId rest ih =>
      -- The first one comes to some errand, and the others begin beside it.
      obtain ⟨w, first, hfirst, hcarries⟩ : ∃ w first, v.beginAll (jobId :: rest) =
          ((w.beginAll rest).1, first :: (w.beginAll rest).2) ∧ Carries k v none w (begunErrand first) := by
        rw [Supervisor.beginAll]
        cases hbegun : v.beginLaunch jobId with
        | error e => exact ⟨v, .inl (.refused e), rfl, .refl k v none⟩
        | ok begun =>
            obtain ⟨w, launch⟩ := begun
            have hbegin := carries_beginLaunch (n := k) hbegun 1
            dsimp only
            split
            · exact ⟨w, _, rfl, hbegin⟩
            · exact ⟨_, _, rfl, hbegin.trans (carries_conclude w ⟨jobId, 1, _, _⟩)⟩
      rw [hfirst]
      obtain ⟨trace, t, hruns, ht, he, hothers⟩ := hcarries.others hs (hidle k (Nat.le_refl k))
      obtain ⟨trace', u, hruns', hu, hbefore, hbegun, hafter⟩ := ih w (k + 1) ht fun m hm => by
        rw [hothers m (by omega), hidle m (by omega)]
      refine ⟨trace ++ trace', u, hruns.append hruns', hu, fun m hm => ?_, fun y hy => ?_, fun m hm => ?_⟩
      · rw [hbefore m (by omega), hothers m (by omega)]
      · rcases List.mem_cons.mp hy with rfl | hy
        · rw [hbefore k (by omega), he]
        · exact hbegun y hy
      · rw [List.length_cons] at hm
        exact hafter m (by omega)

/-- Starts that are awaited end one after the other. -/
theorem runs_concludeAll (pending : List (PendingLaunch × Nat)) (v : Supervisor) (hs : s.Shows v)
    (honce : (pending.map (·.2)).Nodup)
    (hpending : ∀ y ∈ pending, s.errands y.2 = some (.launching y.1.jobId y.1.attempt))
    (hidle : ∀ m, m ∉ pending.map (·.2) → s.errands m = none) :
    ∃ trace t, Runs Anyhow s trace t ∧
      t.Shows (pending.foldl (fun v y => ((v.waitUntil y.1.due).conclude y.1).1) v) ∧ ∀ m, t.errands m = none := by
  induction pending generalizing s v with
  | nil => exact ⟨[], s, .nil s, hs, fun m => hidle m (by simp)⟩
  | cons y rest ih =>
      obtain ⟨hfresh, honce⟩ := List.nodup_cons.mp honce
      have hcarries := (carries_waitUntil (n := y.2) v y.1.due _).trans (carries_conclude (v.waitUntil y.1.due) y.1)
      obtain ⟨trace, t, hruns, ht, he, hothers⟩ := hcarries.others hs (hpending y List.mem_cons_self)
      have hkept : ∀ z ∈ rest, t.errands z.2 = some (.launching z.1.jobId z.1.attempt) := by
        intro z hz
        have hne : z.2 ≠ y.2 := fun heq => hfresh (List.mem_map.mpr ⟨z, hz, heq⟩)
        rw [hothers _ hne, hpending z (List.mem_cons_of_mem _ hz)]
      obtain ⟨trace', u, hruns', hu, hidle'⟩ := ih _ ht honce hkept fun m hm => by
        by_cases hmy : m = y.2
        · rw [hmy, he]
        · rw [hothers m hmy, hidle m (by simpa [hmy] using hm)]
      exact ⟨trace ++ trace', u, hruns.append hruns', hu, hidle'⟩

theorem acquireAll_fst (v : Supervisor) (jobIds : List String) :
    (v.acquireAll jobIds).1 =
      (((v.beginAll jobIds).2.zipIdx.filterMap fun y => y.1.getRight?.map fun p => (p, y.2)).mergeSort
        fun a b => a.1.due ≤ b.1.due).foldl (fun v y => ((v.waitUntil y.1.due).conclude y.1).1)
          (v.beginAll jobIds).1 := by
  unfold Supervisor.acquireAll
  dsimp only
  refine (List.foldl_hom Prod.fst ?_).symm
  intro y z
  rfl

theorem serves_acquireAll (v : Supervisor) (jobIds : List String) : Serves v (v.acquireAll jobIds).1 := by
  intro s hs hidle
  obtain ⟨trace, t, hruns, ht, -, hbegun, hafter⟩ := runs_beginAll jobIds v 0 hs fun m _ => hidle m
  rw [acquireAll_fst]
  let begun := (v.beginAll jobIds).2
  let pending := begun.zipIdx.filterMap fun y => y.1.getRight?.map fun p => (p, y.2)
  have hmem : ∀ y : PendingLaunch × Nat, y ∈ pending ↔ (Sum.inr y.1, y.2) ∈ begun.zipIdx := by
    rintro ⟨p, m⟩
    simp only [pending, List.mem_filterMap, Option.map_eq_some_iff, Prod.mk.injEq]
    constructor
    · rintro ⟨⟨first, k⟩, hy, _, hp, rfl, rfl⟩
      rwa [← Sum.getRight?_eq_some_iff.mp hp]
    · exact fun hy => ⟨_, hy, p, rfl, rfl, rfl⟩
  have honce : (pending.map (·.2)).Nodup := by
    have hall : (begun.zipIdx.map (·.2)).Nodup := by
      rw [List.zipIdx_map_snd]
      exact List.nodup_range'
    refine List.pairwise_map.mpr ((List.pairwise_map.mp hall).filterMap _ fun y z hne y' hy z' hz => ?_)
    obtain ⟨_, -, rfl⟩ := Option.map_eq_some_iff.mp hy
    obtain ⟨_, -, rfl⟩ := Option.map_eq_some_iff.mp hz
    exact hne
  have horder := List.mergeSort_perm pending fun a b => decide (a.1.due ≤ b.1.due)
  have hthose : ∀ y ∈ pending, t.errands y.2 = some (.launching y.1.jobId y.1.attempt) := fun y hy =>
    hbegun _ ((hmem y).mp hy)
  have hothers : ∀ m, m ∉ pending.map (·.2) → t.errands m = none := by
    intro m hm
    by_cases hlt : m < begun.length
    · have hy : (begun[m], m) ∈ begun.zipIdx := List.mk_mem_zipIdx_iff_getElem?.mpr (List.getElem?_eq_getElem hlt)
      rw [hbegun _ hy]
      cases hfirst : begun[m] with
      | inl a => rfl
      | inr p => exact absurd (List.mem_map.mpr ⟨(p, m), (hmem _).mpr (hfirst ▸ hy), rfl⟩) hm
    · exact hafter m (by rw [Nat.zero_add]; exact Nat.not_lt.mp hlt)
  obtain ⟨trace', u, hruns', hu, hidle'⟩ := runs_concludeAll _ _ ht ((horder.map _).nodup_iff.mpr honce)
    (fun y hy => hthose y (horder.mem_iff.mp hy)) fun m hm => hothers m fun h => hm ((horder.map _).mem_iff.mpr h)
  exact ⟨trace ++ trace', u, hruns.append hruns', hu, hidle'⟩

theorem serves_endLease (d : Desk) (name : String) (how : LeaseEnd) :
    Serves d.supervisor (d.endLease name how).1.supervisor := by
  unfold Desk.endLease
  cases d.leases.lookup name with
  | none => exact (Carries.refl 0 d.supervisor none).serves
  | some h =>
      cases how with
      | released => exact (carries_release (n := 0) d.supervisor h).serves
      | dropped => exact (carries_release (n := 0) d.supervisor h).serves
      | forfeited => exact (carries_forfeit (n := 0) d.supervisor h).serves

theorem serves_handOut (d : Desk) (name : String) (a : Acquired) :
    Serves d.supervisor (d.handOut name a).supervisor := by
  cases a with
  | lease h => exact serves_endLease d name .dropped
  | _ => exact (Carries.refl 0 d.supervisor none).serves

/-- Whatever is asked for at a desk, tasks do it by their acts, and none is left when the answer is given. -/
theorem serves_answer (d : Desk) (request : DeskRequest) :
    Serves d.supervisor (d.answer request).1.supervisor := by
  cases request with
  | acquire name jobId attempt patience =>
      have hacquired := (carries_acquire (n := 0) d.supervisor jobId attempt patience).serves
      exact hacquired.trans
        (serves_handOut { d with supervisor := (d.supervisor.acquire jobId attempt patience).1 } name _)
  | acquireAll jobIds =>
      have hhanded : ∀ (handed : List (String × Acquired)) (d : Desk),
          Serves d.supervisor (handed.foldl (fun d y => d.handOut y.1 y.2) d).supervisor := by
        intro handed
        induction handed with
        | nil => exact fun d => (Carries.refl 0 d.supervisor none).serves
        | cons y rest ih => exact fun d => (serves_handOut d y.1 y.2).trans (ih _)
      exact (serves_acquireAll d.supervisor jobIds).trans (hhanded _ { d with supervisor := _ })
  | endLease name how => exact serves_endLease d name how
  | releaseHandle name =>
      rw [Desk.answer]
      cases d.handles.lookup name with
      | none => exact (Carries.refl 0 d.supervisor none).serves
      | some h => exact (carries_release (n := 0) d.supervisor h).serves
  | releaseAll => exact (carries_releaseAll (n := 0) d.supervisor).serves
  | sweep => exact (carries_sweep (n := 0) d.supervisor).serves

theorem serves_answers (requests : List DeskRequest) (d : Desk) :
    Serves d.supervisor (requests.foldl (fun d request => (d.answer request).1) d).supervisor := by
  induction requests generalizing d with
  | nil => exact (Carries.refl 0 d.supervisor none).serves
  | cons request rest ih => exact (serves_answer d request).trans (ih _)

/-- At a desk that began with nothing, a job holds one browser or has one started, and there is a place for each. -/
theorem desk_registry_sound (launcher : Launcher) (runId : String) (capacity : Nat) (ledger : Option Slot)
    (requests : List DeskRequest) :
    let opened : Desk := { supervisor := { launcher, runId, registry := .ofCapacity capacity, ledger } }
    let r := (requests.foldl (fun d request => (d.answer request).1) opened).supervisor.registry
    r.Exclusive ∧ r.launching = [] ∧ r.handles.length ≤ max capacity 1 := by
  intro d r
  obtain ⟨trace, t, hruns, ht, hidle⟩ := serves_answers requests d (opened capacity runId ledger)
    ⟨rfl, rfl, rfl, rfl⟩ fun _ => rfl
  have hplaces := hruns.reserved
  have hregistry : r = t.registry := ht.registry
  rw [hregistry]
  refine ⟨hplaces.exclusive, List.eq_nil_iff_forall_not_mem.mpr fun jobId hjob => ?_, ?_⟩
  · obtain ⟨n, attempt, he⟩ := (hplaces.awaited jobId).mp hjob
    rw [hidle n] at he
    cases he
  · exact Nat.le_trans (Nat.le_add_right ..) hplaces.room

end Traffic

end PageAudit
