import PageAudit.Attempt.Flow

/-!
# Giving browsers up

Ending processes, releasing browsers and sweeping start no browser and register none, and neither does an attempt that
was told to stop or that was abandoned.
-/

namespace PageAudit

namespace Supervisor

variable {s t u : Supervisor}

/-- On the way from one supervisor to another, with one launcher, no browser was started or registered. -/
structure Recedes (s t : Supervisor) : Prop where
  launcher : t.launcher = s.launcher
  launchCalls : t.launchCalls = s.launchCalls
  launched : t.launched = s.launched
  handles : t.registry.handles.Sublist s.registry.handles

theorem Recedes.refl (s : Supervisor) : Recedes s s :=
  ⟨rfl, rfl, rfl, List.Sublist.refl _⟩

theorem Recedes.trans (h : Recedes s t) (h' : Recedes t u) : Recedes s u :=
  ⟨h'.launcher.trans h.launcher, h'.launchCalls.trans h.launchCalls, h'.launched.trans h.launched,
    h'.handles.trans h.handles⟩

theorem recedes_cancelLaunch (s : Supervisor) (jobId : String) : Recedes s (s.cancelLaunch jobId) :=
  ⟨rfl, rfl, rfl, List.Sublist.refl _⟩

theorem recedes_beginKill (s : Supervisor) (pid : Nat) : Recedes s (s.beginKill pid).1 :=
  ⟨rfl, rfl, rfl, List.Sublist.refl _⟩

theorem recedes_endKill (s : Supervisor) (k : PendingKill) : Recedes s (s.endKill k) := by
  unfold endKill
  split <;> exact ⟨rfl, rfl, rfl, List.Sublist.refl _⟩

theorem recedes_unregister? {h : BrowserHandle} (ht : s.unregister? h = some t) : Recedes s t := by
  obtain ⟨registry, hr, rfl⟩ := Option.map_eq_some_iff.mp ht
  unfold Registry.unregister? at hr
  split at hr
  · cases hr
    exact ⟨rfl, rfl, rfl, List.filter_sublist⟩
  · cases hr

theorem recedes_drain (s : Supervisor) : Recedes s s.drain.1 :=
  ⟨rfl, rfl, rfl, List.nil_sublist _⟩

theorem recedes_beginSweep (s : Supervisor) : Recedes s s.beginSweep.1 :=
  ⟨rfl, rfl, rfl, List.Sublist.refl _⟩

end Supervisor

open Supervisor

/-! ## Rows of kills -/

theorem Kills.recedes_proceed (waiting : List Nat) (s : Supervisor) (k : Kills) :
    Recedes s (Kills.proceed waiting s k).1 := by
  induction waiting generalizing s k with
  | nil => exact .refl s
  | cons pid rest ih =>
      have hbegun := s.recedes_beginKill pid
      have hended := hbegun.trans (recedes_endKill _ (s.beginKill pid).2)
      unfold Kills.proceed
      dsimp only
      split
      · exact hbegun
      · split
        · exact hended
        · exact hended.trans (ih _ _)

theorem Kills.recedes_poll (k : Kills) (s : Supervisor) : Recedes s (k.poll s).1 := by
  unfold Kills.poll
  split
  · exact recedes_proceed ..
  · split
    · exact .refl s
    · exact (recedes_endKill _ _).trans (recedes_proceed ..)

theorem Release.recedes_poll (r : Release) (s : Supervisor) : Recedes s (r.poll s).1 := by
  unfold Release.poll
  cases r.kills with
  | some k => exact k.recedes_poll s
  | none =>
      cases ht : s.unregister? r.handle with
      | some t => exact (recedes_unregister? ht).trans (Kills.recedes_poll ..)
      | none => exact .refl s

/-! ## Attempts -/

namespace Attempt

variable {signals : AttemptSignals}

theorem recedes_release (a : Attempt) (s : Site) (outcome : AttemptOutcome) (r : Release) :
    Recedes s.supervisor (a.release s outcome r).1.supervisor :=
  Release.recedes_poll ..

/-- An attempt that was told to stop asks for no browser and gives back the one it has. -/
theorem recedes_poll (a : Attempt) (s : Site) (hstop : signals.stop = true) :
    Recedes s.supervisor (a.poll s signals).1.supervisor := by
  unfold poll
  cases a.phase with
  | fresh =>
      dsimp only
      unfold begin
      split
      · exact .refl _
      · rw [if_pos hstop]
        exact .refl _
  | launching due ending =>
      dsimp only
      unfold launch
      rw [if_pos hstop]
      exact recedes_cancelLaunch ..
  | auditing h due deadline ending =>
      have hbreaks : breaksOff s signals = true := by simp [breaksOff, hstop]
      dsimp only
      unfold audit
      rw [if_pos hbreaks]
      exact recedes_release ..
  | releasing outcome r => exact recedes_release ..
  | ended | broken | dropped => exact .refl _

theorem recedes_drop (a : Attempt) (s : Site) : Recedes s.supervisor (a.drop s).1.supervisor := by
  unfold drop
  dsimp only
  cases a.phase with
  | launching => exact recedes_cancelLaunch ..
  | _ => exact .refl _

end Attempt

theorem Site.recedes_pollBackground (s : Site) (n : Nat) : Recedes s.supervisor (s.pollBackground n).supervisor := by
  unfold pollBackground
  split
  · exact Release.recedes_poll ..
  · exact .refl _

end PageAudit
