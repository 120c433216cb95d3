import PageAudit.Proofs.Supervisor.Places
import PageAudit.Supervisor.Desk

/-!
# Ending leases

A browser that is given back, at once or in the background, leaves the browsers of all others alone, and nothing happens
if it is not registered any more. Giving it up where nothing can be waited for does not look whose browser it is: it
takes out whatever browser the job holds by then.
-/

namespace PageAudit

open Files

namespace Registry

variable {r t : Registry} {g h : BrowserHandle}

theorem mem_removeJob {jobId : String} :
    g ∈ (r.removeJob jobId).handles ↔ g ∈ r.handles ∧ g.jobId ≠ jobId := by
  simp [removeJob]

theorem mem_handles_register (hr : g ∈ (r.register h).handles) : g ∈ r.handles ∨ g = h := by
  rcases List.mem_append.mp hr with hold | hnew
  · exact Or.inl (List.mem_of_mem_filter hold)
  · exact Or.inr (List.mem_singleton.mp hnew)

theorem Exclusive.pid_of_holds (hr : r.Exclusive) (hholds : r.holds h = true) (hg : g ∈ r.handles)
    (hid : g.jobId = h.jobId) : g.pid = h.pid := by
  obtain ⟨f, hf, hpid⟩ := (Option.any_eq_true ..).mp hholds
  have hfid : f.jobId = h.jobId := by simpa using List.find?_some hf
  rw [hr.handle_eq hg (List.mem_of_find?_eq_some hf) (hid.trans hfid.symm)]
  exact beq_iff_eq.mp hpid

theorem exists_of_holds (hholds : r.holds h = true) : ∃ g ∈ r.handles, g.pid = h.pid := by
  obtain ⟨f, hf, hpid⟩ := (Option.any_eq_true ..).mp hholds
  exact ⟨f, List.mem_of_find?_eq_some hf, beq_iff_eq.mp hpid⟩

theorem mem_notePending {pid gone : Nat} (hne : pid ≠ gone) :
    pid ∈ (r.notePending gone).pendingKills ↔ pid ∈ r.pendingKills := by
  simp [notePending, mem_insertAscending, hne]

theorem mem_noteKilled {pid gone : Nat} (hne : pid ≠ gone) :
    pid ∈ (r.noteKilled gone).pendingKills ↔ pid ∈ r.pendingKills := by
  simp [noteKilled, hne]

end Registry

namespace Errand

/-- The task gives the browser back and does nothing else. -/
def GivesBack (h : BrowserHandle) : Errand → Prop
  | returning g => g = h
  | killing pid rest | killed pid rest | striking pid rest => pid = h.pid ∧ rest = []
  | _ => False

end Errand

namespace Traffic

variable {s t : Traffic} {n : Nat} {a : Act} {e : Errand} {g h : BrowserHandle} {capacity : Nat}

/-- Every process that is started has a number of its own. -/
def Distinct (s : Traffic) : Act → Prop
  | .register h => h.pid ∉ s.started.map (·.pid)
  | _ => True

/-- The browsers that are held were started, and no two of them have the same process. -/
structure Known (s : Traffic) : Prop where
  distinct : (s.started.map (·.pid)).Nodup
  held : ∀ h ∈ s.registry.handles, h ∈ s.started

theorem known_opened (capacity : Nat) (runId : String) (ledger : Option Slot) :
    (opened capacity runId ledger).Known :=
  ⟨.nil, fun _ h => by cases h⟩

theorem Known.eq_of_pid (hs : s.Known) (hg : g ∈ s.registry.handles) (hh : h ∈ s.started) (hpid : g.pid = h.pid) :
    g = h :=
  List.inj_on_of_nodup_map hs.distinct (hs.held g hg) hh hpid

theorem Known.step (hs : s.Known) (hfits : Distinct s a) (h : Step n a s t) : t.Known := by
  cases h with
  | reserve hn hr =>
      obtain ⟨-, rfl⟩ := Registry.reserve_eq hr
      exact ⟨hs.distinct, hs.held⟩
  | @register _ h hn =>
      refine ⟨List.nodup_cons.mpr ⟨hfits, hs.distinct⟩, fun g hg => ?_⟩
      rcases Registry.mem_handles_register hg with hg | rfl
      · exact List.mem_cons_of_mem _ (hs.held g hg)
      · exact List.mem_cons_self
  | takeOut hn hr =>
      obtain ⟨-, rfl⟩ := Registry.unregister?_eq hr
      exact ⟨hs.distinct, fun g hg => hs.held g (Registry.mem_removeJob.mp hg).1⟩
  | forfeit hn => exact ⟨hs.distinct, fun g hg => hs.held g (Registry.mem_removeJob.mp hg).1⟩
  | drain hn => exact ⟨hs.distinct, fun g hg => by cases hg⟩
  | _ => exact ⟨hs.distinct, hs.held⟩

theorem Known.not_holds (hs : s.Known) (hh : h ∈ s.started) (hgone : h ∉ s.registry.handles) :
    s.registry.holds h = false := by
  rw [← Bool.not_eq_true]
  intro hholds
  obtain ⟨g, hg, hpid⟩ := Registry.exists_of_holds hholds
  exact hgone (hs.eq_of_pid hg hh hpid ▸ hg)

/-! ## The three ways to end a lease -/

/-- What a task does when it ends the lease of a browser. -/
structure LeaseEnds (s : Traffic) (n : Nat) (h : BrowserHandle) : Prop where
  /-- Giving it back leaves the browsers and the processes of others alone, up to its end. -/
  spares : ∀ a t e, s.errands n = some e → e.GivesBack h → Step n a s t →
    (∀ g ∈ s.registry.handles, g.pid ≠ h.pid → g ∈ t.registry.handles) ∧
      (∀ pid, pid ≠ h.pid → (pid ∈ t.registry.pendingKills ↔ pid ∈ s.registry.pendingKills)) ∧
      ∀ e', t.errands n = some e' → e'.GivesBack h
  /-- Of a browser that is not registered any more, nothing is given back. -/
  idle : ∀ a t, s.errands n = some (.returning h) → h ∉ s.registry.handles → Step n a s t →
    t.registry = s.registry ∧ t.errands n = none
  /-- Giving it up takes out what the job holds by then, and spares others only if that is the same browser. -/
  forfeits : ∀ t, Step n (.forfeit h) s t →
    (∀ g, g ∈ t.registry.handles ↔ g ∈ s.registry.handles ∧ g.jobId ≠ h.jobId) ∧
      t.registry.pendingKills = s.registry.pendingKills ∧
      ((∀ g ∈ s.registry.handles, g.pid ≠ h.pid → g ∈ t.registry.handles) ↔
        ∀ g ∈ s.registry.handles, g.jobId = h.jobId → g = h)
  /-- The process is left to the next sweep, whether it was still held or not. -/
  notes : ∀ a t, s.errands n = some (.forfeiting h) → Step n a s t →
    t.registry.handles = s.registry.handles ∧ t.errands n = none ∧
      ∀ pid, pid ∈ t.registry.pendingKills ↔ pid = h.pid ∨ pid ∈ s.registry.pendingKills

theorem Reserved.spares (hs : s.Reserved capacity) (he : s.errands n = some e) (hback : e.GivesBack h)
    (hstep : Step n a s t) :
    (∀ g ∈ s.registry.handles, g.pid ≠ h.pid → g ∈ t.registry.handles) ∧
      (∀ pid, pid ≠ h.pid → (pid ∈ t.registry.pendingKills ↔ pid ∈ s.registry.pendingKills)) ∧
      ∀ e', t.errands n = some e' → e'.GivesBack h := by
  have hkind : ∀ {e'}, s.errands n = some e' → e'.GivesBack h := fun he' => by
    rw [he] at he'
    cases he'
    exact hback
  cases hstep with
  | takeOut hn hr =>
      obtain rfl := hkind hn
      obtain ⟨hholds, rfl⟩ := Registry.unregister?_eq hr
      refine ⟨fun g hg hne => Registry.mem_removeJob.mpr ⟨hg, fun hid => ?_⟩, fun _ _ => Iff.rfl,
        by simp [Errand.GivesBack]⟩
      exact hne (hs.exclusive.pid_of_holds hholds hg hid)
  | succeed hn =>
      obtain ⟨rfl, rfl⟩ := hkind hn
      exact ⟨fun _ hg _ => hg, fun _ _ => Iff.rfl, by simp [Errand.GivesBack]⟩
  | note hn =>
      obtain ⟨rfl, rfl⟩ := hkind hn
      exact ⟨fun _ hg _ => hg, fun _ hne => Registry.mem_noteKilled hne, by simp [Errand.GivesBack]⟩
  | strike hn =>
      obtain ⟨rfl, rfl⟩ := hkind hn
      exact ⟨fun _ hg _ => hg, fun _ _ => Iff.rfl, by simp [Errand.kills]⟩
  | fail hn =>
      obtain ⟨rfl, rfl⟩ := hkind hn
      exact ⟨fun _ hg _ => hg, fun _ hne => Registry.mem_notePending hne, by simp [Errand.kills]⟩
  | passOver hn | desist hn | abort hn => exact ⟨fun _ hg _ => hg, fun _ _ => Iff.rfl, by simp⟩
  -- All other acts belong to other errands.
  | giveUp hn | register hn | record hn | noteForfeited hn | takeOver hn | collect hn => exact (hkind hn).elim
  | reserve hn | giveBack hn | forfeit hn | drain hn | lookUp hn => simp [hn] at he

theorem Known.idle (hs : s.Known) (hh : h ∈ s.started) (he : s.errands n = some (.returning h))
    (hgone : h ∉ s.registry.handles) (hstep : Step n a s t) : t.registry = s.registry ∧ t.errands n = none := by
  have hnone : s.registry.unregister? h = none := by
    rw [Registry.unregister?, hs.not_holds hh hgone]
    rfl
  cases hstep with
  | takeOut hn hr =>
      rw [he] at hn
      cases hn
      rw [hnone] at hr
      cases hr
  | passOver hn hr => exact ⟨rfl, put_errands_self ..⟩
  | desist hn => exact ⟨rfl, put_errands_self ..⟩
  | _ hn => simp [he] at hn

theorem Known.forfeits (hs : s.Known) (hh : h ∈ s.started) (hstep : Step n (.forfeit h) s t) :
    (∀ g, g ∈ t.registry.handles ↔ g ∈ s.registry.handles ∧ g.jobId ≠ h.jobId) ∧
      t.registry.pendingKills = s.registry.pendingKills ∧
      ((∀ g ∈ s.registry.handles, g.pid ≠ h.pid → g ∈ t.registry.handles) ↔
        ∀ g ∈ s.registry.handles, g.jobId = h.jobId → g = h) := by
  cases hstep with
  | forfeit hn =>
      refine ⟨fun g => Registry.mem_removeJob, rfl, fun hspares g hg hid => ?_, fun honly g hg hne => ?_⟩
      · by_contra hother
        have hpid : g.pid ≠ h.pid := fun hpid => hother (hs.eq_of_pid hg hh hpid)
        exact (Registry.mem_removeJob.mp (hspares g hg hpid)).2 hid
      · refine Registry.mem_removeJob.mpr ⟨hg, fun hid => hne ?_⟩
        rw [honly g hg hid]

theorem notes_of_forfeiting (he : s.errands n = some (.forfeiting h)) (hstep : Step n a s t) :
    t.registry.handles = s.registry.handles ∧ t.errands n = none ∧
      ∀ pid, pid ∈ t.registry.pendingKills ↔ pid = h.pid ∨ pid ∈ s.registry.pendingKills := by
  cases hstep with
  | noteForfeited hn =>
      rw [he] at hn
      cases hn
      exact ⟨rfl, put_errands_self .., fun _ => mem_insertAscending⟩
  | _ hn => simp [he] at hn

/-- A browser that was started is given back without touching those of others, and without any effect if it is not
registered any more; given up without waiting, it takes the browser with it that its job holds by then. -/
theorem leases_end {runId : String} {ledger : Option Slot} {trace : List (Nat × Act)}
    (hrun : Runs Distinct (opened capacity runId ledger) trace s) (hh : h ∈ s.started) (n : Nat) :
    s.LeaseEnds n h := by
  obtain ⟨hplaces, hknown⟩ : s.Reserved (max capacity 1) ∧ s.Known :=
    hrun.preserves (P := fun t => t.Reserved (max capacity 1) ∧ t.Known)
      (fun _ _ _ _ hfits hstep hs => ⟨hs.1.step hstep, hs.2.step hfits hstep⟩)
      ⟨reserved_opened capacity runId ledger, known_opened capacity runId ledger⟩
  exact {
    spares _ _ _ he hback hstep := hplaces.spares he hback hstep
    idle _ _ he hgone hstep := hknown.idle hh he hgone hstep
    forfeits _ hstep := hknown.forfeits hh hstep
    notes _ _ he hstep := notes_of_forfeiting he hstep }

/-- The first browser was released with all others, and its job has got another one since. -/
theorem outdated_lease_ends :
    ∃ trace s, Runs Distinct (opened 1 "run" none) trace s ∧ s.registry.handles = [⟨10001, "ws", "a", 2, 0⟩] ∧
      s.LeaseEnds 3 ⟨10000, "ws", "a", 1, 0⟩ := by
  have hrun : Runs Distinct (opened 1 "run" none)
      [(0, .reserve "a" 1), (0, .register ⟨10000, "ws", "a", 1, 0⟩), (0, .record), (1, .drain), (1, .succeed),
        (1, .note), (1, .strike), (2, .reserve "a" 2), (2, .register ⟨10001, "ws", "a", 2, 0⟩), (2, .record)] _ :=
    .cons trivial (.reserve rfl rfl) (.cons List.not_mem_nil (.register rfl) (.cons trivial (.record rfl)
      (.cons trivial (.drain rfl) (.cons trivial (.succeed rfl) (.cons trivial (.note rfl) (.cons trivial (.strike rfl)
        (.cons trivial (.reserve rfl rfl) (.cons (by simp [Distinct, opened]) (.register rfl)
          (.single trivial (.record rfl))))))))))
  exact ⟨_, _, hrun, rfl, leases_end hrun (by simp) 3⟩

end Traffic

/-- A launcher that starts and ends every process. -/
def Launcher.obliging : Launcher where
  launch _ _ := {}
  kill _ _ := {}
  pid n := 10000 + n
  endpoint _ := "ws"

/-- A lease is given up after all browsers were released and its job has got another one, which is lost with it. -/
theorem Desk.outdated_lease_loses_other_browser :
    let opened : Desk := { supervisor := { launcher := .obliging, runId := "run", registry := .ofCapacity 1 } }
    let held := [.acquire "first" "a" 1 none, .releaseAll, .acquire "second" "a" 2 none].foldl
      (fun d request => (d.answer request).1) opened
    let last := (held.answer (.endLease "first" .forfeited)).1
    held.supervisor.registry.pids = [10001] ∧ held.supervisor.registry.pendingKills = [] ∧
      last.supervisor.registry.pids = [] ∧ last.supervisor.registry.pendingKills = [10000] ∧
      last.supervisor.alive = [10001] := by
  decide +kernel

end PageAudit
