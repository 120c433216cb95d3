import Mathlib.Data.List.Basic
import Mathlib.Data.List.Nodup
import PageAudit.Supervisor.Kills

/-!
# Minding processes

A living process is minded as long as the registry holds it, notes it for the next sweep, or some row of kills is going
to end it. Rows of kills, releases and sweeps hand processes from one to the other and forget none.
-/

namespace PageAudit

/-! ## Registries -/

theorem mem_insertAscending {n m : Nat} {l : List Nat} : m ∈ insertAscending n l ↔ m = n ∨ m ∈ l := by
  induction l with
  | nil => simp [insertAscending]
  | cons a l ih =>
      simp only [insertAscending]
      split
      · simp
      · split
        · rename_i heq
          have heq : n = a := by simpa using heq
          simp [heq]
        · simp only [List.mem_cons, ih, or_left_comm]

theorem mem_foldl_insertAscending {m : Nat} {more l : List Nat} :
    m ∈ more.foldl (fun found pid => insertAscending pid found) l ↔ m ∈ more ∨ m ∈ l := by
  induction more generalizing l with
  | nil => simp
  | cons a more ih =>
      rw [List.foldl_cons, ih, mem_insertAscending, List.mem_cons, or_left_comm, or_assoc]

/-- A job holds one browser or has one started. -/
def Registry.Exclusive (r : Registry) : Prop :=
  (r.handles.map (·.jobId) ++ r.launching).Nodup

namespace Registry

variable {r t : Registry} {jobId : String} {h : BrowserHandle}

theorem Exclusive.handle_eq (hr : r.Exclusive) {g : BrowserHandle} (hh : h ∈ r.handles) (hg : g ∈ r.handles)
    (hid : h.jobId = g.jobId) : h = g :=
  List.inj_on_of_nodup_map hr.of_append_left hh hg hid

theorem Exclusive.of_sublist (hr : r.Exclusive) (hhandles : t.handles.Sublist r.handles)
    (hlaunching : t.launching.Sublist r.launching) : t.Exclusive :=
  hr.sublist ((hhandles.map _).append hlaunching)

theorem reserve_eq (ht : r.reserve jobId = .ok t) :
    jobId ∉ r.handles.map (·.jobId) ++ r.launching ∧ t = { r with launching := r.launching ++ [jobId] } := by
  unfold Registry.reserve at ht
  split at ht
  · cases ht
  · rename_i hfree
    split at ht
    · cases ht
    · cases ht
      refine ⟨fun hmem => hfree ?_, rfl⟩
      rw [isTaken, Bool.or_eq_true]
      rcases List.mem_append.mp hmem with hmem | hmem
      · obtain ⟨g, hg, hid⟩ := List.mem_map.mp hmem
        exact Or.inl (List.any_eq_true.mpr ⟨g, hg, by simpa using hid⟩)
      · exact Or.inr (by simpa using hmem)

theorem Exclusive.reserve (hr : r.Exclusive) (ht : r.reserve jobId = .ok t) : t.Exclusive := by
  obtain ⟨hfree, rfl⟩ := reserve_eq ht
  show (r.handles.map (·.jobId) ++ (r.launching ++ [jobId])).Nodup
  rw [← List.append_assoc]
  exact List.Nodup.append hr (List.nodup_singleton jobId) fun a ha ha' =>
    hfree (List.mem_singleton.mp ha' ▸ ha)

theorem Exclusive.register (hr : r.Exclusive) : (r.register h).Exclusive := by
  have hleft : ((r.handles.filter (·.jobId != h.jobId)).map (·.jobId) ++
      r.launching.filter (· != h.jobId)).Nodup :=
    hr.sublist ((List.filter_sublist.map _).append List.filter_sublist)
  have hnew : h.jobId ∉ (r.handles.filter (·.jobId != h.jobId)).map (·.jobId) ++
      r.launching.filter (· != h.jobId) := by
    intro hmem
    rcases List.mem_append.mp hmem with hmem | hmem
    · obtain ⟨g, hg, hid⟩ := List.mem_map.mp hmem
      simp [hid] at hg
    · simp at hmem
  show ((r.handles.filter (·.jobId != h.jobId) ++ [h]).map (·.jobId) ++ r.launching.filter (· != h.jobId)).Nodup
  rw [List.map_append, List.append_assoc]
  exact List.perm_middle.nodup_iff.mpr (List.nodup_cons.mpr ⟨hnew, hleft⟩)

theorem Exclusive.register_handles (hr : r.Exclusive) (hj : h.jobId ∈ r.launching) :
    (r.register h).handles = r.handles ++ [h] := by
  -- The place was reserved, so no browser of the job is thrown out.
  have hall : r.handles.filter (·.jobId != h.jobId) = r.handles := by
    refine List.filter_eq_self.mpr fun g hg => ?_
    simp only [bne_iff_ne, ne_eq]
    exact fun hid => List.disjoint_of_nodup_append hr (List.mem_map.mpr ⟨g, hg, hid⟩) hj
  rw [Registry.register, hall]

theorem Exclusive.unregister? (hr : r.Exclusive) (ht : r.unregister? h = some t) :
    t.Exclusive ∧ t.launching = r.launching ∧ t.pendingKills = r.pendingKills ∧
      ∀ pid ∈ r.pids, pid ∈ t.pids ∨ pid = h.pid := by
  unfold Registry.unregister? at ht
  split at ht
  · rename_i hholds
    cases ht
    refine ⟨hr.of_sublist List.filter_sublist (List.Sublist.refl _), rfl, rfl, fun pid hpid => ?_⟩
    obtain ⟨g, hg, rfl⟩ := List.mem_map.mp hpid
    -- Only the browser of the job goes, and that is the one that was asked for.
    by_cases hid : g.jobId = h.jobId
    · obtain ⟨f, hf, hsame⟩ := (Option.any_eq_true ..).mp hholds
      have hfid : f.jobId = h.jobId := by simpa using List.find?_some hf
      obtain rfl := hr.handle_eq hg (List.mem_of_find?_eq_some hf) (hid.trans hfid.symm)
      exact Or.inr (by simpa using hsame)
    · exact Or.inl (List.mem_map.mpr ⟨g, List.mem_filter.mpr ⟨hg, by simpa using hid⟩, rfl⟩)
  · cases ht

end Registry

/-! ## Rows -/

/-- The processes that a row of kills is going to end. -/
def Kills.pids (k : Kills) : List Nat :=
  k.current.toList.map (·.pid) ++ k.waiting

/-- The processes that a release is going to end. -/
def Release.pids (r : Release) : List Nat :=
  r.kills.toList.flatMap Kills.pids

theorem Kills.pids_of_isDone {k : Kills} (h : k.isDone = true) : k.pids = [] := by
  simp only [isDone, Bool.and_eq_true, List.isEmpty_iff, Option.isNone_iff_eq_none] at h
  simp [pids, h.1, h.2]

theorem Release.pids_of_isDone {r : Release} (h : r.isDone = true) : r.pids = [] := by
  obtain ⟨k, hk, hdone⟩ := (Option.any_eq_true ..).mp h
  simp [pids, hk, Kills.pids_of_isDone hdone]

namespace Supervisor

/-- A process has ended, or the registry or one of the rows knows of it, as long as no kill breaks down. -/
def Minds (s : Supervisor) (rows : Nat → Prop) (pid : Nat) : Prop :=
  s.launcher.Steady → pid ∈ s.alive → pid ∈ s.registry.pids ∨ pid ∈ s.registry.pendingKills ∨ rows pid

/-- On the way from one supervisor to another no process that was minded is forgotten, nor is any that was started. -/
structure Tends (s t : Supervisor) (rows rows' : Nat → Prop) : Prop where
  launcher : t.launcher = s.launcher
  launched : s.launched ≤ t.launched
  exclusive : s.registry.Exclusive → t.registry.Exclusive
  minds : ∀ pid, s.Minds rows pid → t.Minds rows' pid
  newcomers : ∀ n, s.launched ≤ n → n < t.launched → t.Minds rows' (s.launcher.pid n)

variable {s t u : Supervisor} {rows rows' rows'' : Nat → Prop}

theorem Minds.mono {pid : Nat} (h : s.Minds rows pid) (hrows : rows pid → rows' pid) : s.Minds rows' pid :=
  fun hsteady halive => (h hsteady halive).imp_right (Or.imp_right hrows)

theorem Tends.refl (s : Supervisor) (rows : Nat → Prop) : Tends s s rows rows :=
  ⟨rfl, Nat.le_refl _, id, fun _ h => h, fun _ hle hlt => absurd hlt (Nat.not_lt.mpr hle)⟩

theorem Tends.trans (h : Tends s t rows rows') (h' : Tends t u rows' rows'') : Tends s u rows rows'' := by
  refine ⟨h'.launcher.trans h.launcher, Nat.le_trans h.launched h'.launched, fun hs => h'.exclusive (h.exclusive hs),
    fun pid hs => h'.minds pid (h.minds pid hs), fun n hle hlt => ?_⟩
  by_cases hn : n < t.launched
  · exact h'.minds _ (h.newcomers n hle hn)
  · exact h.launcher ▸ h'.newcomers n (Nat.not_lt.mp hn) hlt

/-- Rows that nothing happens to stay as they are. -/
theorem Tends.frame (h : Tends s t rows rows') (others : Nat → Prop) :
    Tends s t (fun pid => rows pid ∨ others pid) fun pid => rows' pid ∨ others pid := by
  refine ⟨h.launcher, h.launched, h.exclusive, fun pid hs hsteady halive => ?_, fun n hle hlt =>
    (h.newcomers n hle hlt).mono Or.inl⟩
  by_cases ho : others pid
  · exact Or.inr (Or.inr (Or.inr ho))
  · have hown : s.Minds rows pid := fun hsteady ha =>
      (hs hsteady ha).imp_right (Or.imp_right fun hr => hr.resolve_right ho)
    exact (h.minds pid hown hsteady halive).imp_right (Or.imp_right Or.inl)

theorem Tends.mono {before after : Nat → Prop} (h : Tends s t rows rows') (hbefore : ∀ pid, before pid → rows pid)
    (hafter : ∀ pid, rows' pid → after pid) : Tends s t before after :=
  ⟨h.launcher, h.launched, h.exclusive, fun pid hs => (h.minds pid (hs.mono (hbefore pid))).mono (hafter pid),
    fun n hle hlt => (h.newcomers n hle hlt).mono (hafter _)⟩

theorem Tends.of_none (h : Tends s t (fun _ => False) fun _ => False) : Tends s t (fun _ => False) rows :=
  h.mono (fun _ h => h) fun _ h => h.elim

/-- On the way processes are only ended, and the starts that go on are left alone. -/
structure Clears (s t : Supervisor) (rows rows' : Nat → Prop) : Prop extends Tends s t rows rows' where
  launching : t.registry.launching = s.registry.launching

theorem Clears.refl (s : Supervisor) (rows : Nat → Prop) : Clears s s rows rows :=
  ⟨.refl s rows, rfl⟩

theorem Clears.trans (h : Clears s t rows rows') (h' : Clears t u rows' rows'') : Clears s u rows rows'' :=
  ⟨h.toTends.trans h'.toTends, h'.launching.trans h.launching⟩

theorem Clears.mono {before after : Nat → Prop} (h : Clears s t rows rows') (hbefore : ∀ pid, before pid → rows pid)
    (hafter : ∀ pid, rows' pid → after pid) : Clears s t before after :=
  ⟨h.toTends.mono hbefore hafter, h.launching⟩

theorem Clears.of_none (h : Clears s t (fun _ => False) fun _ => False) : Clears s t (fun _ => False) rows :=
  ⟨h.toTends.of_none, h.launching⟩

theorem Clears.frame (h : Clears s t rows rows') (others : Nat → Prop) :
    Clears s t (fun pid => rows pid ∨ others pid) fun pid => rows' pid ∨ others pid :=
  ⟨h.toTends.frame others, h.launching⟩

/-- Once a kill has broken down, nothing is said of processes any more. -/
theorem Clears.of_not_steady (h : Clears s t rows rows') (ht : ¬ t.launcher.Steady) : Clears s t rows rows'' :=
  ⟨⟨h.launcher, h.launched, h.exclusive, fun _ _ hsteady => absurd hsteady ht, fun _ _ _ hsteady =>
    absurd hsteady ht⟩, h.launching⟩

/-! ## Steps of the supervisor -/

theorem Tends.of_minds (hlauncher : t.launcher = s.launcher) (hlaunched : t.launched = s.launched)
    (hexclusive : s.registry.Exclusive → t.registry.Exclusive)
    (hminds : ∀ pid, s.Minds rows pid → t.Minds rows' pid) : Tends s t rows rows' :=
  ⟨hlauncher, Nat.le_of_eq hlaunched.symm, hexclusive, hminds, fun _ hle hlt =>
    absurd (hlaunched ▸ hlt) (Nat.not_lt.mpr hle)⟩

theorem clears_beginKill (s : Supervisor) (pid : Nat) (rows : Nat → Prop) :
    Clears s (s.beginKill pid).1 rows rows :=
  ⟨.of_minds rfl rfl id fun _ h => h, rfl⟩

@[simp] theorem endKill_launcher (s : Supervisor) (k : PendingKill) : (s.endKill k).launcher = s.launcher := by
  unfold endKill
  split <;> rfl

@[simp] theorem endKill_killCalls (s : Supervisor) (k : PendingKill) : (s.endKill k).killCalls = s.killCalls := by
  unfold endKill
  split <;> rfl

@[simp] theorem endKill_handles (s : Supervisor) (k : PendingKill) :
    (s.endKill k).registry.handles = s.registry.handles := by
  unfold endKill
  split <;> rfl

theorem isBroken_killEnding (hs : s.launcher.Steady) (k : PendingKill) : (s.killEnding k).isBroken = false :=
  hs k.pid k.earlier

theorem not_steady_endKill {k : PendingKill} (h : (s.killEnding k).isBroken = true) :
    ¬ (s.endKill k).launcher.Steady := fun hs =>
  Bool.noConfusion (h.symm.trans (isBroken_killEnding (endKill_launcher s k ▸ hs) k))

theorem clears_endKill (s : Supervisor) (k : PendingKill) (rows : Nat → Prop) :
    Clears s (s.endKill k) (fun pid => pid = k.pid ∨ rows pid) rows := by
  unfold endKill
  cases hending : s.killEnding k with
  | done =>
      refine ⟨.of_minds rfl rfl id fun pid h hsteady halive => ?_, rfl⟩
      obtain ⟨halive, hne⟩ := List.mem_filter.mp halive
      rcases h hsteady halive with hheld | hpending | rfl | hrow
      · exact Or.inl hheld
      · exact Or.inr (Or.inl (List.mem_filter.mpr ⟨hpending, hne⟩))
      · simp at hne
      · exact Or.inr (Or.inr hrow)
  | failed cause =>
      -- The process goes on, and the next sweep will find it.
      refine ⟨.of_minds rfl rfl id fun pid h hsteady halive => ?_, rfl⟩
      rcases h hsteady halive with hheld | hpending | rfl | hrow
      · exact Or.inl hheld
      · exact Or.inr (Or.inl (mem_insertAscending.mpr (Or.inr hpending)))
      · exact Or.inr (Or.inl (mem_insertAscending.mpr (Or.inl rfl)))
      · exact Or.inr (Or.inr hrow)
  | broken message =>
      refine ⟨.of_minds rfl rfl id fun _ _ hsteady => ?_, rfl⟩
      exact Bool.noConfusion ((isBroken_killEnding hsteady k).symm.trans (congrArg KillEnding.isBroken hending))

theorem tends_cancelLaunch (s : Supervisor) (jobId : String) (rows : Nat → Prop) :
    Tends s (s.cancelLaunch jobId) rows rows :=
  .of_minds rfl rfl (fun hs => hs.of_sublist (List.Sublist.refl _) List.filter_sublist) fun _ h => h

theorem beginLaunch_eq {jobId : String} {launch : Launch}
    (h : s.beginLaunch jobId = .ok (t, launch)) :
    ∃ registry, s.registry.reserve jobId = .ok registry ∧
      t = { s with registry, launchCalls := s.launchCalls ++ [jobId] } ∧
      launch = s.launcher.launch jobId (s.launchCalls.count jobId) := by
  unfold beginLaunch at h
  cases hr : s.registry.reserve jobId with
  | error e => simp [hr, bind, Except.bind] at h
  | ok registry =>
      simp only [hr, bind, Except.bind, pure, Except.pure, Except.ok.injEq, Prod.mk.injEq] at h
      exact ⟨registry, rfl, h.1.symm, h.2.symm⟩

theorem tends_beginLaunch {jobId : String} {launch : Launch} (h : s.beginLaunch jobId = .ok (t, launch))
    (rows : Nat → Prop) :
    Tends s t rows rows ∧ jobId ∉ s.registry.launching ∧ t.registry.launching = s.registry.launching ++ [jobId] := by
  obtain ⟨registry, hr, rfl, -⟩ := beginLaunch_eq h
  obtain ⟨hfree, rfl⟩ := Registry.reserve_eq hr
  exact ⟨.of_minds rfl rfl (fun hs => hs.reserve hr) fun _ hminds => hminds,
    fun hmem => hfree (List.mem_append_right _ hmem), rfl⟩

theorem tends_endLaunch {jobId : String} (hs : s.registry.Exclusive) (hj : jobId ∈ s.registry.launching)
    (attempt : Nat) (rows : Nat → Prop) : Tends s (s.endLaunch jobId attempt).1 rows rows := by
  -- The new process is registered at once, in a place that was reserved for it.
  have hpids : (s.endLaunch jobId attempt).1.registry.pids = s.registry.pids ++ [s.launcher.pid s.launched] := by
    show ((s.registry.register _).handles).map (·.pid) = _
    rw [hs.register_handles hj, List.map_append]
    rfl
  refine ⟨rfl, Nat.le_succ _, fun hs => hs.register, fun pid hminds hsteady halive => ?_, fun n hle hlt _ _ => ?_⟩
  · rw [hpids]
    rcases mem_insertAscending.mp halive with rfl | halive
    · exact Or.inl (by simp)
    · exact (hminds hsteady halive).imp_left fun hheld => List.mem_append_left _ hheld
  · obtain rfl : n = s.launched := Nat.le_antisymm (Nat.le_of_lt_succ hlt) hle
    rw [hpids]
    exact Or.inl (by simp)

theorem clears_unregister? {h : BrowserHandle} (hs : s.registry.Exclusive) (ht : s.unregister? h = some t) :
    Clears s t (fun _ => False) fun pid => pid = h.pid := by
  obtain ⟨registry, hr, rfl⟩ := Option.map_eq_some_iff.mp ht
  obtain ⟨hexclusive, hlaunching, hpending, hpids⟩ := hs.unregister? hr
  refine ⟨.of_minds rfl rfl (fun _ => hexclusive) fun pid hminds hsteady halive => ?_, hlaunching⟩
  rcases hminds hsteady halive with hheld | hnoted | hrow
  · rcases hpids pid hheld with hheld | rfl
    · exact Or.inl hheld
    · exact Or.inr (Or.inr rfl)
  · exact Or.inr (Or.inl (hpending ▸ hnoted))
  · exact hrow.elim

theorem clears_drain (s : Supervisor) : Clears s s.drain.1 (fun _ => False) (· ∈ s.drain.2) := by
  refine ⟨.of_minds rfl rfl (fun hs => hs.of_sublist (List.nil_sublist _) (List.Sublist.refl _))
    fun pid hminds hsteady halive => ?_, rfl⟩
  rcases hminds hsteady halive with hheld | hnoted | hrow
  · exact Or.inr (Or.inr hheld)
  · exact Or.inr (Or.inl hnoted)
  · exact hrow.elim

theorem clears_beginSweep (s : Supervisor) : Clears s s.beginSweep.1 (fun _ => False) (· ∈ s.beginSweep.2) := by
  refine ⟨.of_minds rfl rfl id fun pid hminds hsteady halive => ?_, rfl⟩
  by_cases hheld : pid ∈ s.registry.pids
  · exact Or.inl hheld
  · have hnoted := ((hminds hsteady halive).resolve_left hheld).resolve_right id
    refine Or.inr (Or.inr (List.mem_filter.mpr ⟨mem_foldl_insertAscending.mpr (Or.inr hnoted), ?_⟩))
    simpa using hheld

end Supervisor

open Supervisor

/-! ## Rows of kills -/

@[simp] theorem Kills.conclude_current (k : Kills) (pid : Nat) (ending : KillEnding) :
    (k.conclude pid ending).current = none := by
  cases ending <;> rfl

theorem Kills.waiting_conclude (k : Kills) (pid : Nat) {ending : KillEnding} (h : ending.isBroken = false) :
    (k.conclude pid ending).waiting = k.waiting := by
  cases ending with
  | done | failed => rfl
  | broken => exact Bool.noConfusion h

theorem Kills.clears_proceed (waiting : List Nat) (s : Supervisor) (k : Kills) :
    Clears s (Kills.proceed waiting s k).1 (· ∈ waiting) (· ∈ (Kills.proceed waiting s k).2.pids) := by
  induction waiting generalizing s k with
  | nil => exact (Clears.refl s fun _ => False).mono (fun _ h => by cases h) fun _ h => h.elim
  | cons pid rest ih =>
      have hbegun := s.clears_beginKill pid (· ∈ pid :: rest)
      have hended := hbegun.trans ((clears_endKill (s.beginKill pid).1 (s.beginKill pid).2 (· ∈ rest)).mono
        (fun _ h => List.mem_cons.mp h) fun _ h => h)
      unfold Kills.proceed
      dsimp only
      split
      · exact hbegun.mono (fun _ h => h) fun _ h => h
      · split
        · rename_i hbroken
          exact hended.of_not_steady (not_steady_endKill hbroken)
        · exact hended.trans (ih _ _)

theorem Kills.clears_poll (k : Kills) (s : Supervisor) :
    Clears s (k.poll s).1 (· ∈ k.pids) (· ∈ (k.poll s).2.pids) := by
  unfold Kills.poll
  cases hcurrent : k.current with
  | none => exact (clears_proceed k.waiting s k).mono (fun _ h => by simpa [pids, hcurrent] using h) fun _ h => h
  | some c =>
      dsimp only
      split
      · exact .refl s _
      · have hended : Clears s (s.endKill c) (· ∈ k.pids) (· ∈ k.waiting) :=
          (clears_endKill s c _).mono (fun _ h => by simpa [pids, hcurrent] using h) fun _ h => h
        cases hbroken : (s.killEnding c).isBroken with
        | false => exact (k.waiting_conclude c.pid hbroken ▸ hended).trans (clears_proceed ..)
        | true => exact (hended.of_not_steady (not_steady_endKill hbroken)).trans (clears_proceed ..)

theorem Kills.conclude_broken {k : Kills} (hk : k.broken = none) (pid : Nat) {ending : KillEnding}
    (h : ending.isBroken = false) : (k.conclude pid ending).broken = none := by
  cases ending with
  | done | failed => exact hk
  | broken => exact Bool.noConfusion h

theorem Kills.proceed_broken {waiting : List Nat} {s : Supervisor} {k : Kills} (hs : s.launcher.Steady)
    (hk : k.broken = none) : (Kills.proceed waiting s k).2.broken = none := by
  induction waiting generalizing s k with
  | nil => exact hk
  | cons pid rest ih =>
      have hending := isBroken_killEnding (s := (s.beginKill pid).1) hs (s.beginKill pid).2
      unfold Kills.proceed
      dsimp only
      split
      · exact hk
      · rw [hending]
        exact ih ((endKill_launcher ..).symm ▸ hs) (conclude_broken hk pid hending)

/-- A row of kills none of which breaks down does not. -/
theorem Kills.poll_broken {k : Kills} {s : Supervisor} (hs : s.launcher.Steady) (hk : k.broken = none) :
    (k.poll s).2.broken = none := by
  unfold Kills.poll
  cases k.current with
  | none => exact proceed_broken hs hk
  | some c =>
      dsimp only
      split
      · exact hk
      · exact proceed_broken ((endKill_launcher ..).symm ▸ hs)
          (conclude_broken hk c.pid (isBroken_killEnding hs c))

theorem Kills.clears_poll_done {k : Kills} {s : Supervisor} (hdone : (k.poll s).2.isDone = true) :
    Clears s (k.poll s).1 (· ∈ k.pids) fun _ => False :=
  (k.clears_poll s).mono (fun _ hp => hp) fun _ hp => by
    rw [pids_of_isDone hdone] at hp
    cases hp

theorem Kills.clears_ofAll (s : Supervisor) :
    Clears s (Kills.ofAll s).1 (fun _ => False) (· ∈ (Kills.ofAll s).2.pids) :=
  s.clears_drain

theorem Kills.clears_ofSweep (s : Supervisor) :
    Clears s (Kills.ofSweep s).1 (fun _ => False) (· ∈ (Kills.ofSweep s).2.pids) :=
  s.clears_beginSweep

theorem Release.clears_poll (r : Release) {s : Supervisor} (hs : s.registry.Exclusive) :
    Clears s (r.poll s).1 (· ∈ r.pids) (· ∈ (r.poll s).2.pids) := by
  unfold Release.poll
  cases hkills : r.kills with
  | some k => exact (k.clears_poll s).mono (fun _ h => by simpa [pids, hkills] using h) fun _ h => by simpa [pids] using h
  | none =>
      have hnone : ∀ pid, pid ∈ r.pids → False := fun _ h => by simp [pids, hkills] at h
      cases ht : s.unregister? r.handle with
      | some t =>
          have htaken := (clears_unregister? hs ht).mono hnone fun pid h =>
            (by simpa [Kills.pids] using h : pid ∈ ({ waiting := [r.handle.pid] } : Kills).pids)
          exact htaken.trans ((Kills.clears_poll _ t).mono (fun _ h => h) fun _ h => by simpa [pids] using h)
      | none => exact (Clears.refl s fun _ => False).mono hnone fun _ h => h.elim

end PageAudit
