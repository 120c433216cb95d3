import PageAudit.Attempt.Flow
import PageAudit.Proofs.Supervisor.Minding

/-!
# Attempts mind their processes

What an attempt starts is registered, and what it gives back it goes on ending until that is done. Only the kill of an
attempt that is abandoned is minded by nobody any more.
-/

namespace PageAudit

open Supervisor

/-- The processes that are ended in the background. -/
def Site.backgroundPids (s : Site) : List Nat :=
  s.background.flatMap Release.pids

theorem Site.leave_backgroundPids (s : Site) (h : BrowserHandle) : (s.leave h).backgroundPids = s.backgroundPids := by
  -- The browser is still held: its release has not begun.
  simp [leave, backgroundPids, Release.pids]

theorem Site.clears_pollBackground (s : Site) (n : Nat) (hs : s.supervisor.registry.Exclusive) :
    Clears s.supervisor (s.pollBackground n).supervisor (· ∈ s.backgroundPids)
      (· ∈ (s.pollBackground n).backgroundPids) := by
  unfold pollBackground
  cases hn : s.background[n]? with
  | none => exact .refl ..
  | some r =>
      obtain ⟨hlt, hat⟩ := List.getElem?_eq_some_iff.mp hn
      show Clears _ _ _ fun pid => pid ∈ (s.background.set n (r.poll s.supervisor).2).flatMap Release.pids
      refine ((r.clears_poll hs).frame fun pid => ∃ i r', i ≠ n ∧ s.background[i]? = some r' ∧ pid ∈ r'.pids).mono
        (fun pid h => ?_) fun pid h => ?_
      · obtain ⟨r', hr', hpid⟩ := List.mem_flatMap.mp h
        obtain ⟨i, hi⟩ := List.mem_iff_getElem?.mp hr'
        by_cases hin : i = n
        · subst hin
          obtain rfl := Option.some.inj (hn.symm.trans hi)
          exact Or.inl hpid
        · exact Or.inr ⟨i, r', hin, hi, hpid⟩
      · rcases h with h | ⟨i, r', hin, hi, hpid⟩
        · exact List.mem_flatMap.mpr ⟨_, List.mem_set hlt _, h⟩
        · refine List.mem_flatMap.mpr ⟨r', List.mem_of_getElem? (i := i) ?_, hpid⟩
          rw [List.getElem?_set_ne (Ne.symm hin)]
          exact hi

namespace Attempt

/-- The processes that an attempt is going to end. -/
def pids (a : Attempt) : List Nat :=
  match a.phase with
  | .releasing _ r => r.pids
  | _ => []

theorem not_isDone_of_mem_pids {a : Attempt} {pid : Nat} (h : pid ∈ a.pids) : a.isDone = false := by
  unfold pids at h
  unfold isDone
  cases hphase : a.phase <;> simp_all

/-- A browser is being started for the attempt. -/
def isLaunching (a : Attempt) : Bool :=
  match a.phase with
  | .launching .. => true
  | _ => false

variable {a : Attempt} {s t : Site} {rows rows' : Nat → Prop} {signals : AttemptSignals} {x : Site × Attempt}

/-! ## Attempts with a browser -/

/-- An attempt that goes on from a site with a browser, or with processes to be ended, starts nothing. -/
structure Winds (a : Attempt) (s : Site) (rows : Nat → Prop) (x : Site × Attempt) : Prop where
  context : x.2.context = a.context
  clears : Clears s.supervisor x.1.supervisor rows (· ∈ x.2.pids)
  background : x.1.backgroundPids = s.backgroundPids
  launching : x.2.isLaunching = false

theorem winds_release (a : Attempt) (outcome : AttemptOutcome) (r : Release) (hs : s.supervisor.registry.Exclusive) :
    a.Winds s (· ∈ r.pids) (a.release s outcome r) := by
  have hclears := r.clears_poll hs
  unfold release releasePhase
  dsimp only
  split
  · rename_i hdone
    have hnone : ((r.poll s.supervisor).2).pids = [] := Release.pids_of_isDone hdone
    split <;> exact ⟨rfl, hclears.mono (fun _ h => h) fun _ h => by simp [hnone] at h, rfl, rfl⟩
  · exact ⟨rfl, hclears, rfl, rfl⟩

theorem winds_giveBack (a : Attempt) (h : BrowserHandle) (outcome : AttemptOutcome)
    (hs : s.supervisor.registry.Exclusive) : a.Winds s (fun _ => False) (a.giveBack s h outcome) := by
  have hrelease := winds_release a outcome { handle := h } hs
  exact { hrelease with clears := hrelease.clears.mono (fun _ h => h.elim) fun _ h => h }

theorem winds_audit (a : Attempt) (signals : AttemptSignals) (h : BrowserHandle) (due deadline : Nat)
    (ending : AuditEnding) (hs : s.supervisor.registry.Exclusive) :
    a.Winds s (fun _ => False) (a.audit s signals h due deadline ending) := by
  unfold audit
  split
  · exact winds_giveBack a h _ hs
  · split
    · cases ending with
      | scored => exact winds_giveBack a h _ hs
      | failed e => cases e <;> exact winds_giveBack a h _ hs
      | broken => exact ⟨rfl, (Clears.refl ..).of_none, s.leave_backgroundPids h, rfl⟩
    · split
      · exact winds_giveBack a h _ hs
      · exact ⟨rfl, (Clears.refl ..).of_none, rfl, rfl⟩

theorem winds_beginAudit (a : Attempt) (signals : AttemptSignals) (h : BrowserHandle)
    (hs : s.supervisor.registry.Exclusive) : a.Winds s (fun _ => False) (a.beginAudit s signals h) := by
  unfold beginAudit
  split
  · exact winds_giveBack a h _ hs
  · have haudit := winds_audit (s := (s.beginAudit a.context.url h.endpoint).1) a signals h
      (s.clock + (s.beginAudit a.context.url h.endpoint).2.delay) (s.clock + s.timeLimit)
      (s.beginAudit a.context.url h.endpoint).2.ending hs
    exact { haudit with }

/-! ## All attempts -/

/-- An attempt goes on from a site and forgets no process; the starts of other jobs go on. -/
structure Works (a : Attempt) (s : Site) (rows : Nat → Prop) (x : Site × Attempt) : Prop where
  context : x.2.context = a.context
  tends : Tends s.supervisor x.1.supervisor rows (· ∈ x.2.pids)
  background : x.1.backgroundPids = s.backgroundPids
  others : ∀ jobId ∈ s.supervisor.registry.launching, jobId ≠ a.context.jobId →
    jobId ∈ x.1.supervisor.registry.launching
  reserved : x.2.isLaunching = true → a.context.jobId ∈ x.1.supervisor.registry.launching

theorem Winds.works (h : a.Winds s rows x) : a.Works s rows x where
  context := h.context
  tends := h.clears.toTends
  background := h.background
  others := fun _ hmem _ => h.clears.launching ▸ hmem
  reserved := fun hl => Bool.noConfusion (h.launching.symm.trans hl)

theorem Works.after (h : a.Works t rows' x) (htends : Tends s.supervisor t.supervisor rows rows')
    (hbackground : t.backgroundPids = s.backgroundPids)
    (hothers : ∀ jobId ∈ s.supervisor.registry.launching, jobId ≠ a.context.jobId →
      jobId ∈ t.supervisor.registry.launching) : a.Works s rows x where
  context := h.context
  tends := htends.trans h.tends
  background := h.background.trans hbackground
  others := fun jobId hmem hne => h.others jobId (hothers jobId hmem hne) hne
  reserved := h.reserved

theorem works_launch (a : Attempt) (signals : AttemptSignals) (due : Nat) (ending : LaunchEnding)
    (hs : s.supervisor.registry.Exclusive) (hj : a.context.jobId ∈ s.supervisor.registry.launching) :
    a.Works s (fun _ => False) (a.launch s signals due ending) := by
  have hothers : ∀ jobId ∈ s.supervisor.registry.launching, jobId ≠ a.context.jobId →
      jobId ∈ s.supervisor.registry.launching.filter (· != a.context.jobId) := fun jobId hmem hne =>
    List.mem_filter.mpr ⟨hmem, by simpa using hne⟩
  have hcancelled := s.supervisor.tends_cancelLaunch a.context.jobId fun _ => False
  unfold launch
  dsimp only
  split
  · exact ⟨rfl, hcancelled.of_none, rfl, hothers, fun hl => Bool.noConfusion hl⟩
  · split
    · exact ⟨rfl, (Tends.refl ..).of_none, rfl, fun _ hmem _ => hmem, fun _ => hj⟩
    · cases ending with
      | ready =>
          have hregistered := tends_endLaunch hs hj a.context.attempt fun _ => False
          have haudit := winds_beginAudit
            (s := { s with supervisor := (s.supervisor.endLaunch a.context.jobId a.context.attempt).1 }) a signals
            (s.supervisor.endLaunch a.context.jobId a.context.attempt).2 (hregistered.exclusive hs)
          exact haudit.works.after hregistered rfl hothers
      | failed | broken => exact ⟨rfl, hcancelled.of_none, rfl, hothers, fun hl => Bool.noConfusion hl⟩

/-- A poll of an attempt, with what it means for the starts that go on: an attempt takes no start from others, and one
that asks for a browser is alone in doing so for its job. -/
structure Proceeds (a : Attempt) (s : Site) (rows : Nat → Prop) (x : Site × Attempt) : Prop extends
    Works a s rows x where
  kept : a.isLaunching = false →
    ∀ jobId ∈ s.supervisor.registry.launching, jobId ∈ x.1.supervisor.registry.launching
  alone : x.2.isLaunching = true → a.isLaunching = true ∨ a.context.jobId ∉ s.supervisor.registry.launching

theorem Winds.proceeds (h : a.Winds s rows x) : a.Proceeds s rows x where
  toWorks := h.works
  kept := fun _ _ hmem => h.clears.launching ▸ hmem
  alone := fun hl => Bool.noConfusion (h.launching.symm.trans hl)

theorem proceeds_none {b : Attempt} (hcontext : b.context = a.context) (hl : b.isLaunching = false)
    (hsupervisor : t.supervisor = s.supervisor) (hbackground : t.backgroundPids = s.backgroundPids) :
    a.Proceeds s (fun _ => False) (t, b) :=
  Winds.proceeds ⟨hcontext, hsupervisor ▸ (Clears.refl ..).of_none, hbackground, hl⟩

theorem proceeds_begin (a : Attempt) (signals : AttemptSignals) (hs : s.supervisor.registry.Exclusive) :
    a.Proceeds s (fun _ => False) (a.begin s signals) := by
  have hends : ∀ outcome, a.Proceeds s (fun _ => False) (s, { a with phase := .ended outcome }) := fun _ =>
    proceeds_none rfl rfl rfl rfl
  unfold begin
  split
  · exact hends _
  · split
    · exact hends _
    · split
      · exact hends _
      · rename_i supervisor launch hbegun
        obtain ⟨htends, hfree, hlaunching⟩ := tends_beginLaunch hbegun fun _ => False
        have hj : a.context.jobId ∈ supervisor.registry.launching := by simp [hlaunching]
        have hlaunch := works_launch (s := { s with supervisor }) a signals (s.clock + launch.delay) launch.ending
          (htends.exclusive hs) hj
        have hworks := hlaunch.after htends rfl fun jobId hmem _ => by
          show jobId ∈ supervisor.registry.launching
          exact hlaunching ▸ List.mem_append_left _ hmem
        exact ⟨hworks, fun _ jobId hmem => hworks.others jobId hmem fun he => hfree (he ▸ hmem),
          fun _ => Or.inr hfree⟩

theorem proceeds_poll (a : Attempt) (signals : AttemptSignals) (hs : s.supervisor.registry.Exclusive)
    (hj : a.isLaunching = true → a.context.jobId ∈ s.supervisor.registry.launching) :
    a.Proceeds s (· ∈ a.pids) (a.poll s signals) := by
  have hnone : ∀ {x}, a.pids = [] → a.Proceeds s (fun _ => False) x → a.Proceeds s (· ∈ a.pids) x := fun hpids h =>
    { h with tends := h.tends.mono (fun _ hp => by simp [hpids] at hp) fun _ hp => hp }
  unfold poll
  cases hphase : a.phase with
  | fresh => exact hnone (by simp [pids, hphase]) (a.proceeds_begin signals hs)
  | launching due ending =>
      have hl : a.isLaunching = true := by simp [isLaunching, hphase]
      have hlaunch := a.works_launch signals due ending hs (hj hl)
      exact hnone (by simp [pids, hphase]) ⟨hlaunch, fun hl' => Bool.noConfusion (hl'.symm.trans hl), fun _ => Or.inl hl⟩
  | auditing h due deadline ending =>
      exact hnone (by simp [pids, hphase]) (a.winds_audit signals h due deadline ending hs).proceeds
  | releasing outcome r =>
      have hpids : a.pids = r.pids := by simp [pids, hphase]
      exact hpids ▸ (a.winds_release outcome r hs).proceeds
  | ended | broken | dropped =>
      exact hnone (by simp [pids, hphase]) (proceeds_none rfl (by simp [isLaunching, hphase]) rfl rfl)

/-- Whoever abandons an attempt leaves only its kill to itself. -/
theorem proceeds_drop (a : Attempt) (s : Site) : a.Proceeds s (fun _ => False) (a.drop s) := by
  unfold drop
  cases hphase : a.phase with
  | launching =>
      have hl : a.isLaunching = true := by simp [isLaunching, hphase]
      simp only [isDone, hphase]
      refine ⟨⟨rfl, (s.supervisor.tends_cancelLaunch a.context.jobId _).of_none, rfl, fun jobId hmem hne => ?_,
        fun hl => Bool.noConfusion hl⟩, fun hl' => Bool.noConfusion (hl'.symm.trans hl), fun hl => Bool.noConfusion hl⟩
      exact List.mem_filter.mpr ⟨hmem, by simpa using hne⟩
  | auditing h =>
      simp only [isDone, hphase]
      exact proceeds_none rfl rfl rfl (s.leave_backgroundPids h)
  | ended | broken | dropped =>
      simp only [isDone, hphase]
      exact proceeds_none rfl (by simp [isLaunching, hphase]) rfl rfl
  | fresh | releasing =>
      simp only [isDone, hphase]
      exact proceeds_none rfl rfl rfl rfl

end Attempt

end PageAudit
