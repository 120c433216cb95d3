import PageAudit.Proofs.Supervisor.Minding
import PageAudit.Proofs.Supervisor.Receding

/-!
# One kill for every start

Whoever takes a browser out of the registry asks for one kill of its process. So the starts of a process are made up
for by the kills that were asked for, the browsers that are held, and the kills that a row has still to ask for.
-/

namespace PageAudit

/-! ## Registries -/

namespace Registry

variable {r t : Registry} {h : BrowserHandle}

/-- A browser that is taken out was registered once, and the others stay. -/
theorem Exclusive.perm_unregister? (hr : r.Exclusive) (ht : r.unregister? h = some t) :
    r.pids.Perm (h.pid :: t.pids) := by
  unfold Registry.unregister? at ht
  split at ht
  · rename_i hholds
    cases ht
    obtain ⟨g, hg, hpid⟩ := (Option.any_eq_true ..).mp hholds
    have hid : g.jobId = h.jobId := by simpa using List.find?_some hg
    obtain ⟨front, back, hsplit, hfront⟩ := (List.find?_eq_some_iff_append.mp hg).2
    -- No other browser has the same job, so only this one is left out.
    have hnodup : ((front ++ g :: back).map (·.jobId)).Nodup := hsplit ▸ hr.of_append_left
    have hback : ∀ f ∈ back, f.jobId ≠ h.jobId := fun f hf he => by
      rw [List.map_append, List.map_cons] at hnodup
      exact (List.nodup_cons.mp hnodup.of_append_right).1 (hid ▸ he ▸ List.mem_map_of_mem hf)
    have hremoved : (r.removeJob h.jobId).handles = front ++ back := by
      show r.handles.filter _ = _
      rw [hsplit, List.filter_append, List.filter_cons_of_neg (by simp [hid]), List.filter_eq_self.mpr,
        List.filter_eq_self.mpr]
      · exact fun f hf => by simpa using hback f hf
      · exact fun f hf => by simpa using hfront f hf
    rw [pids, pids, hremoved, hsplit, List.map_append, List.map_append, List.map_cons, eq_of_beq hpid]
    exact List.perm_middle
  · cases ht

end Registry

/-! ## Supervisors -/

namespace Supervisor

/-- The processes of the starts that succeeded. -/
def starts (s : Supervisor) : List Nat :=
  (List.range s.launched).map s.launcher.pid

/-- On the way from one supervisor to another some browsers were started, and no others were registered. -/
structure Enrols (s t : Supervisor) (started : List BrowserHandle) : Prop where
  launched : t.launched = s.launched + started.length
  handles : ∀ g ∈ t.registry.handles, g ∈ s.registry.handles ∨ g ∈ started

/-- The kills of a process that were asked for, its browsers that are held and its kills that are owed, less its
starts. -/
def balance (s : Supervisor) (owed : List Nat) (pid : Nat) : Int :=
  s.killCalls.count pid + s.registry.pids.count pid + owed.count pid - s.starts.count pid

variable {s t u : Supervisor} {started : List BrowserHandle}

theorem Recedes.enrols (h : Recedes s t) : Enrols s t [] :=
  ⟨h.launched, fun _ hg => Or.inl (h.handles.subset hg)⟩

theorem Enrols.recedes (h : Enrols s t started) (h' : Recedes t u) : Enrols s u started :=
  ⟨h'.launched.trans h.launched, fun g hg => h.handles g (h'.handles.subset hg)⟩

theorem enrols_endLaunch (s : Supervisor) (jobId : String) (attempt : Nat) :
    Enrols s (s.endLaunch jobId attempt).1 [(s.endLaunch jobId attempt).2] :=
  ⟨rfl, fun _ hg => (List.mem_append.mp hg).imp_left List.mem_of_mem_filter⟩

theorem balance_append (s : Supervisor) (owed more : List Nat) (pid : Nat) :
    s.balance (owed ++ more) pid = s.balance owed pid + more.count pid := by
  simp only [balance, List.count_append]
  omega

/-- The balance without the kills that are owed. -/
theorem balance_nil (s : Supervisor) (owed : List Nat) (pid : Nat) :
    s.balance [] pid = s.balance owed pid - owed.count pid := by
  have happend := s.balance_append [] owed pid
  rw [List.nil_append] at happend
  omega

theorem balance_beginLaunch {jobId : String} {launch : Launch} (h : s.beginLaunch jobId = .ok (t, launch))
    (owed : List Nat) (pid : Nat) : t.balance owed pid = s.balance owed pid := by
  obtain ⟨registry, hr, rfl, -⟩ := beginLaunch_eq h
  obtain ⟨-, rfl⟩ := Registry.reserve_eq hr
  rfl

/-- A start that has succeeded is registered. -/
theorem balance_endLaunch {jobId : String} (hs : s.registry.Exclusive) (hj : jobId ∈ s.registry.launching)
    (attempt : Nat) (owed : List Nat) (pid : Nat) :
    (s.endLaunch jobId attempt).1.balance owed pid = s.balance owed pid := by
  have hstarts : (s.endLaunch jobId attempt).1.starts = s.starts ++ [s.launcher.pid s.launched] := by
    show (List.range (s.launched + 1)).map s.launcher.pid = _
    rw [List.range_succ, List.map_append]
    rfl
  have hpids : (s.endLaunch jobId attempt).1.registry.pids = s.registry.pids ++ [s.launcher.pid s.launched] := by
    show ((s.registry.register _).handles).map (·.pid) = _
    rw [hs.register_handles hj, List.map_append]
    rfl
  have hkills : (s.endLaunch jobId attempt).1.killCalls = s.killCalls := rfl
  simp only [balance, hstarts, hpids, hkills, List.count_append]
  omega

/-- A kill that is asked for is no longer owed. -/
theorem balance_beginKill (s : Supervisor) (gone : Nat) (owed : List Nat) (pid : Nat) :
    (s.beginKill gone).1.balance owed pid = s.balance (gone :: owed) pid := by
  have hkills : (s.beginKill gone).1.killCalls = s.killCalls ++ [gone] := rfl
  have hothers : (s.beginKill gone).1.registry = s.registry ∧ (s.beginKill gone).1.starts = s.starts := ⟨rfl, rfl⟩
  simp only [balance, hkills, hothers, List.count_append, List.count_cons, List.count_nil]
  omega

theorem balance_endKill (s : Supervisor) (k : PendingKill) (owed : List Nat) (pid : Nat) :
    (s.endKill k).balance owed pid = s.balance owed pid := by
  unfold endKill
  split <;> rfl

/-- Of a browser that is taken out, the kill is owed. -/
theorem balance_unregister? {h : BrowserHandle} (hs : s.registry.Exclusive) (ht : s.unregister? h = some t)
    (owed : List Nat) (pid : Nat) : t.balance (h.pid :: owed) pid = s.balance owed pid := by
  obtain ⟨registry, hr, rfl⟩ := Option.map_eq_some_iff.mp ht
  have hpids := (hs.perm_unregister? hr).count_eq pid
  rw [List.count_cons] at hpids
  simp only [balance, starts, List.count_cons]
  omega

/-- Of all browsers that are taken out, the kills are owed. -/
theorem balance_drain (s : Supervisor) (owed : List Nat) (pid : Nat) :
    s.drain.1.balance (owed ++ s.drain.2) pid = s.balance owed pid := by
  simp only [balance, drain, starts, Registry.drain, Registry.pids, List.count_append, List.map_nil, List.count_nil]
  omega

end Supervisor

/-! ## Rows of kills -/

namespace Kills

theorem balance_proceed {s : Supervisor} (hs : s.launcher.Steady) (waiting : List Nat) (k : Kills) (pid : Nat) :
    (proceed waiting s k).1.balance (proceed waiting s k).2.waiting pid = s.balance waiting pid := by
  induction waiting generalizing s k with
  | nil => rfl
  | cons gone rest ih =>
      have hreturns := Supervisor.isBroken_killEnding (s := (s.beginKill gone).1) hs (s.beginKill gone).2
      unfold proceed
      dsimp only
      split
      · exact s.balance_beginKill gone rest pid
      · rw [if_neg (Bool.eq_false_iff.mp hreturns), ih (by rwa [Supervisor.endKill_launcher]),
          Supervisor.balance_endKill, Supervisor.balance_beginKill]

/-- A row asks for the kills that it owes. -/
theorem balance_poll {s : Supervisor} (hs : s.launcher.Steady) (k : Kills) (pid : Nat) :
    (k.poll s).1.balance (k.poll s).2.waiting pid = s.balance k.waiting pid := by
  unfold poll
  split
  · exact balance_proceed hs ..
  · rename_i c _
    split
    · rfl
    · rw [balance_proceed (by rwa [Supervisor.endKill_launcher]), Supervisor.balance_endKill,
        waiting_conclude _ _ (Supervisor.isBroken_killEnding hs c)]

/-- The only kill of a row is asked for at once, however it ends. -/
theorem proceed_singleton (s : Supervisor) (k : Kills) (gone : Nat) :
    (proceed [gone] s k).2.waiting = [] ∧
      ∀ pid, (proceed [gone] s k).1.balance [] pid = s.balance [gone] pid := by
  have hended : ∀ pid, ((s.beginKill gone).1.endKill (s.beginKill gone).2).balance [] pid = s.balance [gone] pid :=
    fun pid => (Supervisor.balance_endKill ..).trans (s.balance_beginKill gone [] pid)
  unfold proceed
  dsimp only
  split
  · exact ⟨rfl, s.balance_beginKill gone []⟩
  · split
    · rename_i hbroken
      refine ⟨?_, hended⟩
      cases hending : (s.beginKill gone).1.killEnding (s.beginKill gone).2 with
      | broken message => rfl
      | done | failed =>
          rw [hending] at hbroken
          cases hbroken
    · exact ⟨rfl, hended⟩

/-- Of a row with no further kill, only the one in progress can end. -/
theorem poll_last {k : Kills} (h : k.waiting = []) (s : Supervisor) :
    (k.poll s).2.waiting = [] ∧ ∀ pid, (k.poll s).1.balance [] pid = s.balance [] pid := by
  have hconclude : ∀ pid ending, (k.conclude pid ending).waiting = [] := by
    intro pid ending
    cases ending with
    | done | failed => exact h
    | broken => rfl
  unfold poll
  split
  · rw [h]
    exact ⟨rfl, fun _ => rfl⟩
  · split
    · exact ⟨h, fun _ => rfl⟩
    · dsimp only
      rw [hconclude]
      exact ⟨rfl, fun _ => Supervisor.balance_endKill ..⟩

end Kills

namespace Release

/-- The kills that a release has still to ask for. -/
def owed (r : Release) : List Nat :=
  r.kills.toList.flatMap (·.waiting)

variable {r : Release}

theorem waiting_of_owed (h : r.owed = []) {k : Kills} (hk : r.kills = some k) : k.waiting = [] := by
  simpa [owed, hk] using h

/-- A release asks for its kill as soon as it has taken its browser out. -/
theorem owed_poll (h : r.owed = []) (s : Supervisor) : (r.poll s).2.owed = [] := by
  unfold Release.poll
  cases hk : r.kills with
  | some k => simpa [owed] using (Kills.poll_last (waiting_of_owed h hk) s).1
  | none =>
      cases s.unregister? r.handle with
      | some t => simpa [owed, Kills.poll] using (Kills.proceed_singleton t _ _).1
      | none => simp [owed]

theorem balance_poll (hs : s.registry.Exclusive) (h : r.owed = []) (pid : Nat) :
    (r.poll s).1.balance [] pid = s.balance [] pid := by
  unfold Release.poll
  cases hk : r.kills with
  | some k => exact (Kills.poll_last (waiting_of_owed h hk) s).2 pid
  | none =>
      cases ht : s.unregister? r.handle with
      | some t =>
          have hpoll := (Kills.proceed_singleton t { waiting := [r.handle.pid] } r.handle.pid).2 pid
          exact hpoll.trans (Supervisor.balance_unregister? hs ht [] pid)
      | none => rfl

end Release

end PageAudit
