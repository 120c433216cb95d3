import PageAudit.Proofs.Attempt.Minding
import PageAudit.Proofs.Supervisor.Receding

/-!
# The browsers of attempts

An attempt registers one browser for its job and takes it out of the registry again before it ends. The exception is an
attempt that breaks down or is abandoned while its page is audited: it leaves its browser to the background. Whether a
browser is refused is decided when an attempt asks for it.
-/

namespace PageAudit

open Supervisor

/-! ## Giving a browser back -/

theorem Supervisor.beginLaunch_error {s : Supervisor} {jobId : String} {e : LaunchError}
    (h : s.beginLaunch jobId = .error e) : s.registry.reserve jobId = .error e := by
  unfold beginLaunch at h
  cases hr : s.registry.reserve jobId with
  | error e' => simpa [hr, bind, Except.bind] using h
  | ok registry => simp [hr, bind, Except.bind, pure, Except.pure] at h

namespace Registry

variable {r t : Registry} {h : BrowserHandle}

theorem Exclusive.holds (hr : r.Exclusive) (hh : h ∈ r.handles) : r.holds h = true := by
  rw [Registry.holds, Option.any_eq_true]
  cases hf : r.handles.find? (·.jobId == h.jobId) with
  | none =>
      have hnone := List.find?_eq_none.mp hf h hh
      exact absurd (beq_self_eq_true h.jobId) hnone
  | some g =>
      have hid : g.jobId = h.jobId := by simpa using List.find?_some hf
      obtain rfl := hr.handle_eq (List.mem_of_find?_eq_some hf) hh hid
      exact ⟨g, rfl, beq_self_eq_true g.pid⟩

end Registry

/-- The first poll of a release takes its browser out of the registry. -/
theorem Release.not_mem_poll {s : Supervisor} (hs : s.registry.Exclusive) (h : BrowserHandle) :
    h ∉ (({ handle := h } : Release).poll s).1.registry.handles := by
  unfold Release.poll
  dsimp only
  cases ht : s.unregister? h with
  | some t =>
      obtain ⟨registry, hr, rfl⟩ := Option.map_eq_some_iff.mp ht
      unfold Registry.unregister? at hr
      split at hr
      · cases hr
        intro hmem
        have hgone := (Kills.recedes_poll { waiting := [h.pid] } _).handles.subset hmem
        simp [Registry.removeJob] at hgone
      · cases hr
  | none =>
      intro hmem
      have hholds := hs.holds hmem
      simp [Supervisor.unregister?, Registry.unregister?, hholds] at ht

namespace Attempt

/-- The browser with which the page is being audited. -/
def browser? (a : Attempt) : Option BrowserHandle :=
  match a.phase with
  | .auditing h .. => some h
  | _ => none

/-- The attempt broke down or was abandoned. -/
def isLost (a : Attempt) : Bool :=
  match a.phase with
  | .broken _ | .dropped => true
  | _ => false

theorem isDone_of_isLost {a : Attempt} (h : a.isLost = true) : a.isDone = true := by
  unfold isLost at h
  unfold isDone
  cases hphase : a.phase <;> simp_all

theorem not_isDone_of_browser? {a : Attempt} {h : BrowserHandle} (hb : a.browser? = some h) : a.isDone = false := by
  unfold browser? at hb
  unfold isDone
  cases hphase : a.phase <;> simp_all

theorem not_isDone_of_isLaunching {a : Attempt} (h : a.isLaunching = true) : a.isDone = false := by
  unfold isLaunching at h
  unfold isDone
  cases hphase : a.phase <;> simp_all

variable {a : Attempt} {s t : Site} {signals : AttemptSignals} {x : Site × Attempt} {h : BrowserHandle}

/-! ## Attempts with a browser -/

/-- An attempt goes on from a site where it has a browser: it has that one and no other, it left it to the background,
or the browser is registered no more. -/
structure Parts (s : Site) (h : BrowserHandle) (x : Site × Attempt) : Prop where
  handles : ∀ g ∈ x.1.supervisor.registry.handles, g ∈ s.supervisor.registry.handles ∧
    (g = h → x.2.browser? = some h ∨ x.2.isLost = true ∧ { handle := h } ∈ x.1.background)
  browser : ∀ g, x.2.browser? = some g → g = h
  background : s.background ⊆ x.1.background

@[simp] theorem browser?_release (a : Attempt) (s : Site) (outcome : AttemptOutcome) (r : Release) :
    (a.release s outcome r).2.browser? = none := by
  unfold release releasePhase
  dsimp only
  split
  · split <;> rfl
  · rfl

theorem parts_giveBack (a : Attempt) (h : BrowserHandle) (outcome : AttemptOutcome)
    (hs : s.supervisor.registry.Exclusive) : Parts s h (a.giveBack s h outcome) := by
  have hhandles : ∀ g ∈ (({ handle := h } : Release).poll s.supervisor).1.registry.handles,
      g ∈ s.supervisor.registry.handles ∧ g ≠ h := fun g hg =>
    ⟨(Release.recedes_poll _ _).handles.subset hg, fun he => Release.not_mem_poll hs h (he ▸ hg)⟩
  exact ⟨fun g hg => ⟨(hhandles g hg).1, fun he => absurd he (hhandles g hg).2⟩, fun g hg => by simp [giveBack] at hg,
    List.Subset.refl _⟩

theorem parts_audit (a : Attempt) (signals : AttemptSignals) (h : BrowserHandle) (due deadline : Nat)
    (ending : AuditEnding) (hs : s.supervisor.registry.Exclusive) :
    Parts s h (a.audit s signals h due deadline ending) := by
  unfold audit
  split
  · exact parts_giveBack a h _ hs
  · split
    · cases ending with
      | scored => exact parts_giveBack a h _ hs
      | failed e => cases e <;> exact parts_giveBack a h _ hs
      | broken =>
          refine ⟨fun g hg => ⟨hg, fun _ => Or.inr ⟨rfl, ?_⟩⟩, fun g hg => (by cases hg), List.subset_append_left _ _⟩
          exact List.mem_append_right _ (List.mem_singleton_self _)
    · split
      · exact parts_giveBack a h _ hs
      · exact ⟨fun g hg => ⟨hg, fun _ => Or.inl rfl⟩, fun g hg => (Option.some.inj hg).symm, List.Subset.refl _⟩

theorem parts_beginAudit (a : Attempt) (signals : AttemptSignals) (h : BrowserHandle)
    (hs : s.supervisor.registry.Exclusive) : Parts s h (a.beginAudit s signals h) := by
  unfold beginAudit
  split
  · exact parts_giveBack a h _ hs
  · exact { parts_audit (s := (s.beginAudit a.context.url h.endpoint).1) a signals h _ _ _ hs with }

/-! ## All attempts -/

/-- An attempt goes on from a site: every browser that is registered then belongs to another attempt or to this one, and
so does every start. -/
structure Leaves (a : Attempt) (s : Site) (x : Site × Attempt) : Prop where
  handles : ∀ g ∈ x.1.supervisor.registry.handles,
    g ∈ s.supervisor.registry.handles ∧ a.browser? ≠ some g ∨ g.jobId = a.context.jobId ∧
      (x.2.browser? = some g ∨ x.2.isLost = true ∧ { handle := g } ∈ x.1.background)
  launching : ∀ jobId ∈ x.1.supervisor.registry.launching,
    jobId ∈ s.supervisor.registry.launching ∧ (a.isLaunching = true → jobId ≠ a.context.jobId) ∨
      jobId = a.context.jobId ∧ x.2.isLaunching = true
  browser : ∀ g, x.2.browser? = some g → g.jobId = a.context.jobId
  background : s.background ⊆ x.1.background

/-- The place of a start is given back, unless it goes on. -/
theorem leaves_launch (a : Attempt) (signals : AttemptSignals) (due : Nat) (ending : LaunchEnding)
    (hs : s.supervisor.registry.Exclusive) (ha : a.browser? = none) :
    a.Leaves s (a.launch s signals due ending) ∧
      ∀ jobId ∈ (a.launch s signals due ending).1.supervisor.registry.launching, jobId = a.context.jobId →
        (a.launch s signals due ending).2.isLaunching = true := by
  have hnone : ∀ {g : BrowserHandle}, a.browser? ≠ some g := fun he => by simp [ha] at he
  have hfilter : ∀ jobId ∈ s.supervisor.registry.launching.filter (· != a.context.jobId),
      jobId ∈ s.supervisor.registry.launching ∧ jobId ≠ a.context.jobId := fun jobId hmem =>
    (List.mem_filter.mp hmem).imp_right fun hne => by simpa using hne
  have hwithout : ∀ {b : Attempt}, b.browser? = none →
      a.Leaves s ({ s with supervisor := s.supervisor.cancelLaunch a.context.jobId }, b) := fun hb =>
    ⟨fun g hg => Or.inl ⟨hg, hnone⟩, fun jobId hmem => Or.inl ((hfilter jobId hmem).imp_right fun hne _ => hne),
      fun g hg => by simp [hb] at hg, List.Subset.refl _⟩
  unfold launch
  dsimp only
  split
  · exact ⟨hwithout rfl, fun jobId hmem he => absurd he (hfilter jobId hmem).2⟩
  · split
    · refine ⟨⟨fun g hg => Or.inl ⟨hg, hnone⟩, fun jobId hmem => ?_, fun g hg => (by cases hg), List.Subset.refl _⟩,
        fun _ _ _ => rfl⟩
      by_cases he : jobId = a.context.jobId
      · exact Or.inr ⟨he, rfl⟩
      · exact Or.inl ⟨hmem, fun _ => he⟩
    · cases ending with
      | ready =>
          -- The browser takes the place of its start, and the audit begins with it.
          have hexclusive : (s.supervisor.endLaunch a.context.jobId a.context.attempt).1.registry.Exclusive :=
            hs.register
          have hparts := parts_beginAudit
            (s := { s with supervisor := (s.supervisor.endLaunch a.context.jobId a.context.attempt).1 }) a signals
            (s.supervisor.endLaunch a.context.jobId a.context.attempt).2 hexclusive
          have hlaunching : (a.beginAudit
              { s with supervisor := (s.supervisor.endLaunch a.context.jobId a.context.attempt).1 } signals
              (s.supervisor.endLaunch a.context.jobId a.context.attempt).2).1.supervisor.registry.launching =
              s.supervisor.registry.launching.filter (· != a.context.jobId) :=
            (winds_beginAudit a signals _ hexclusive).clears.launching
          refine ⟨⟨fun g hg => ?_, fun jobId hmem => ?_, fun g hg => ?_, hparts.background⟩, fun jobId hmem he => ?_⟩
          · obtain ⟨hheld, hown⟩ := hparts.handles g hg
            rcases List.mem_append.mp hheld with hheld | hheld
            · exact Or.inl ⟨List.mem_of_mem_filter hheld, hnone⟩
            · obtain rfl := List.mem_singleton.mp hheld
              exact Or.inr ⟨rfl, hown rfl⟩
          · exact Or.inl ((hfilter jobId (hlaunching ▸ hmem)).imp_right fun hne _ => hne)
          · rw [hparts.browser g hg]
            rfl
          · exact absurd he (hfilter jobId (hlaunching ▸ hmem)).2
      | failed => exact ⟨hwithout rfl, fun jobId hmem he => absurd he (hfilter jobId hmem).2⟩
      | broken => exact ⟨hwithout rfl, fun jobId hmem he => absurd he (hfilter jobId hmem).2⟩

theorem leaves_same {b : Attempt} (ha : a.browser? = none) (hb : b.browser? = none) (hl : a.isLaunching = false) :
    a.Leaves s (s, b) :=
  ⟨fun g hg => Or.inl ⟨hg, by simp [ha]⟩, fun jobId hmem => Or.inl ⟨hmem, fun he => Bool.noConfusion (hl.symm.trans he)⟩,
    fun g hg => by simp [hb] at hg, List.Subset.refl _⟩

theorem leaves_begin (a : Attempt) (signals : AttemptSignals) (hs : s.supervisor.registry.Exclusive)
    (ha : a.browser? = none) (hl : a.isLaunching = false) : a.Leaves s (a.begin s signals) := by
  unfold begin
  split
  · exact leaves_same ha rfl hl
  · split
    · exact leaves_same ha rfl hl
    · split
      · exact leaves_same ha rfl hl
      · rename_i supervisor launch hbegun
        obtain ⟨htends, _, hlaunching⟩ := tends_beginLaunch hbegun fun _ => False
        have hhandles : supervisor.registry.handles = s.supervisor.registry.handles := by
          obtain ⟨registry, hr, rfl, -⟩ := beginLaunch_eq hbegun
          show registry.handles = _
          rw [(Registry.reserve_eq hr).2]
        obtain ⟨hleaves, hown⟩ := leaves_launch (s := { s with supervisor }) a signals (s.clock + launch.delay)
          launch.ending (htends.exclusive hs) ha
        refine ⟨fun g hg => (hleaves.handles g hg).imp_left (And.imp_left fun hheld => hhandles ▸ hheld),
          fun jobId hmem => ?_, hleaves.browser, hleaves.background⟩
        rcases hleaves.launching jobId hmem with ⟨hplace, _⟩ | hgoing
        · rw [show ({ s with supervisor } : Site).supervisor.registry.launching = _ from hlaunching] at hplace
          rcases List.mem_append.mp hplace with hplace | hplace
          · exact Or.inl ⟨hplace, fun he => Bool.noConfusion (hl.symm.trans he)⟩
          · have he := List.mem_singleton.mp hplace
            exact Or.inr ⟨he, hown jobId hmem he⟩
        · exact Or.inr hgoing

theorem Parts.leaves (hparts : Parts s h x) (ha : a.browser? = some h) (hid : h.jobId = a.context.jobId)
    (hl : a.isLaunching = false) (hlaunching : x.1.supervisor.registry.launching = s.supervisor.registry.launching) :
    a.Leaves s x where
  handles g hg := by
    obtain ⟨hheld, hown⟩ := hparts.handles g hg
    by_cases he : g = h
    · subst he
      exact Or.inr ⟨hid, hown rfl⟩
    · exact Or.inl ⟨hheld, fun hb => he (Option.some.inj (ha.symm.trans hb)).symm⟩
  launching jobId hmem := Or.inl ⟨hlaunching ▸ hmem, fun he => Bool.noConfusion (hl.symm.trans he)⟩
  browser g hg := hparts.browser g hg ▸ hid
  background := hparts.background

/-- A poll of an attempt that is not done. -/
theorem leaves_poll (a : Attempt) (signals : AttemptSignals) (hs : s.supervisor.registry.Exclusive)
    (hgoing : a.isDone = false) (hid : ∀ h, a.browser? = some h → h.jobId = a.context.jobId) :
    a.Leaves s (a.poll s signals) := by
  unfold poll
  cases hphase : a.phase with
  | fresh => exact leaves_begin a signals hs (by simp [browser?, hphase]) (by simp [isLaunching, hphase])
  | launching due ending => exact (leaves_launch a signals due ending hs (by simp [browser?, hphase])).1
  | auditing h due deadline ending =>
      have hb : a.browser? = some h := by simp [browser?, hphase]
      exact (parts_audit a signals h due deadline ending hs).leaves hb (hid h hb) (by simp [isLaunching, hphase])
        (a.winds_audit signals h due deadline ending hs).clears.launching
  | releasing outcome r =>
      have hb : a.browser? = none := by simp [browser?, hphase]
      have hclears := (a.winds_release outcome r hs).clears
      have hrecedes := a.recedes_release s outcome r
      refine ⟨fun g hg => Or.inl ⟨hrecedes.handles.subset hg, by simp [hb]⟩, fun jobId hmem => Or.inl ⟨?_, ?_⟩,
        fun g hg => by simp at hg, List.Subset.refl _⟩
      · exact hclears.launching ▸ hmem
      · exact fun he => by simp [isLaunching, hphase] at he
  | ended | broken | dropped => simp [isDone, hphase] at hgoing

theorem leaves_drop (a : Attempt) (s : Site) (hgoing : a.isDone = false)
    (hid : ∀ h, a.browser? = some h → h.jobId = a.context.jobId) : a.Leaves s (a.drop s) := by
  unfold drop
  dsimp only
  rw [hgoing]
  cases hphase : a.phase with
  | launching =>
      have hb : a.browser? = none := by simp [browser?, hphase]
      refine ⟨fun g hg => Or.inl ⟨hg, by simp [hb]⟩, fun jobId hmem => Or.inl ?_, fun g hg => (by cases hg),
        List.Subset.refl _⟩
      exact (List.mem_filter.mp hmem).imp_right fun hne _ => by simpa using hne
  | auditing h =>
      have hb : a.browser? = some h := by simp [browser?, hphase]
      have hparts : Parts s h (s.leave h, { a with phase := .dropped }) :=
        ⟨fun g hg => ⟨hg, fun _ => Or.inr ⟨rfl, List.mem_append_right _ (List.mem_singleton_self _)⟩⟩,
          fun g hg => (by cases hg), List.subset_append_left _ _⟩
      exact hparts.leaves hb (hid h hb) (by simp [isLaunching, hphase]) rfl
  | fresh | releasing => exact leaves_same (by simp [browser?, hphase]) rfl (by simp [isLaunching, hphase])
  | ended | broken | dropped => simp [isDone, hphase] at hgoing

/-! ## Browsers that are refused -/

/-- Why the attempt ended without a browser. -/
def refusal? (a : Attempt) : Option LaunchError :=
  match a.phase with
  | .ended (.failed (.launch e)) => some e
  | _ => none

theorem phase_of_refusal? {e : LaunchError} (h : a.refusal? = some e) : a.phase = .ended (.failed (.launch e)) := by
  unfold refusal? at h
  split at h
  · cases h
    assumption
  · cases h

/-- A start ends as the launcher says, and an attempt that gives its browser back was not refused one. -/
def Traced (a : Attempt) (l : Launcher) : Prop :=
  match a.phase with
  | .launching _ ending => ∃ n, (l.launch a.context.jobId n).ending = ending
  | .releasing outcome _ => ∀ e, outcome ≠ .failed (.launch e)
  | _ => True

/-- The attempt got a browser: from here on it is not refused one. -/
structure IsServed (a : Attempt) : Prop where
  traced : ∀ l, a.Traced l
  unrefused : ∀ e, a.phase ≠ .ended (.failed (.launch e))
  kept : a.phase ≠ .dropped

theorem isServed_release (a : Attempt) (s : Site) {outcome : AttemptOutcome} (r : Release)
    (ho : ∀ e, outcome ≠ .failed (.launch e)) : (a.release s outcome r).2.IsServed := by
  unfold release releasePhase
  dsimp only
  split
  · split
    · exact ⟨fun _ => trivial, fun e he => ho e (AttemptPhase.ended.inj he), AttemptPhase.noConfusion⟩
    · exact ⟨fun _ => trivial, fun _ => AttemptPhase.noConfusion, AttemptPhase.noConfusion⟩
  · exact ⟨fun _ => ho, fun _ => AttemptPhase.noConfusion, AttemptPhase.noConfusion⟩

theorem isServed_audit (a : Attempt) (s : Site) (signals : AttemptSignals) (h : BrowserHandle) (due deadline : Nat)
    (ending : AuditEnding) : (a.audit s signals h due deadline ending).2.IsServed := by
  have hback : ∀ {outcome : AttemptOutcome}, (∀ e, outcome ≠ .failed (.launch e)) →
      (a.giveBack s h outcome).2.IsServed := isServed_release a s _
  unfold audit
  split
  · exact hback fun e he => by cases he
  · split
    · cases ending with
      | scored => exact hback fun e he => by cases he
      | failed e => cases e <;> exact hback fun e he => by cases he
      | broken => exact ⟨fun _ => trivial, fun _ => AttemptPhase.noConfusion, AttemptPhase.noConfusion⟩
    · split
      · exact hback fun e he => by cases he
      · exact ⟨fun _ => trivial, fun _ => AttemptPhase.noConfusion, AttemptPhase.noConfusion⟩

theorem isServed_beginAudit (a : Attempt) (s : Site) (signals : AttemptSignals) (h : BrowserHandle) :
    (a.beginAudit s signals h).2.IsServed := by
  unfold beginAudit
  split
  · exact isServed_release a s _ fun e he => by cases he
  · exact isServed_audit ..

/-- What became of the attempt's start, if it asked for one, is what the launcher said, and nobody abandoned it. -/
structure LaunchesBy (b : Attempt) (l : Launcher) : Prop where
  traced : b.Traced l
  refused : ∀ e, b.phase = .ended (.failed (.launch e)) → ∃ n, (l.launch b.context.jobId n).ending = .failed e
  kept : b.phase ≠ .dropped

theorem IsServed.launchesBy (h : a.IsServed) (l : Launcher) : a.LaunchesBy l :=
  ⟨h.traced l, fun e he => absurd he (h.unrefused e), h.kept⟩

theorem launchesBy_launch {l : Launcher} (s : Site) (signals : AttemptSignals) (due : Nat) {ending : LaunchEnding}
    (hending : ∃ n, (l.launch a.context.jobId n).ending = ending) : (a.launch s signals due ending).2.LaunchesBy l := by
  unfold launch
  dsimp only
  split
  · exact ⟨trivial, fun e he => (by cases he), AttemptPhase.noConfusion⟩
  · split
    · exact ⟨hending, fun _ => AttemptPhase.noConfusion, AttemptPhase.noConfusion⟩
    · cases ending with
      | ready => exact (isServed_beginAudit ..).launchesBy l
      | failed e =>
          refine ⟨trivial, fun e' he => ?_, AttemptPhase.noConfusion⟩
          cases he
          exact hending
      | broken => exact ⟨trivial, fun _ => AttemptPhase.noConfusion, AttemptPhase.noConfusion⟩

/-- An attempt that asks for a browser is refused it by the registry at once, or the launcher decides. -/
theorem begin_cases (a : Attempt) (s : Site) (signals : AttemptSignals) :
    (a.begin s signals).2.LaunchesBy s.supervisor.launcher ∨ signals.stop = false ∧
      ∃ e, s.supervisor.registry.reserve a.context.jobId = .error e ∧
        (a.begin s signals).2.phase = .ended (.failed (.launch e)) := by
  unfold begin
  split
  · exact Or.inl ⟨trivial, fun e he => (by cases he), AttemptPhase.noConfusion⟩
  · split
    · exact Or.inl ⟨trivial, fun e he => (by cases he), AttemptPhase.noConfusion⟩
    · rename_i hstop
      split
      · rename_i e hbegun
        exact Or.inr ⟨by simpa using hstop, e, beginLaunch_error hbegun, rfl⟩
      · rename_i supervisor launch hbegun
        obtain ⟨_, _, _, rfl⟩ := beginLaunch_eq hbegun
        exact Or.inl (launchesBy_launch _ signals _ ⟨_, rfl⟩)

theorem Traced.poll (h : a.Traced s.supervisor.launcher) (hgoing : a.isDone = false) (signals : AttemptSignals) :
    (a.poll s signals).2.LaunchesBy s.supervisor.launcher ∨ a.phase = .fresh ∧ signals.stop = false ∧
      ∃ e, s.supervisor.registry.reserve a.context.jobId = .error e ∧
        (a.poll s signals).2.phase = .ended (.failed (.launch e)) := by
  unfold Traced at h
  unfold Attempt.poll
  cases hphase : a.phase with
  | fresh => exact (a.begin_cases s signals).imp_right fun hrefused => ⟨rfl, hrefused⟩
  | launching due ending =>
      rw [hphase] at h
      exact Or.inl (launchesBy_launch s signals due h)
  | auditing => exact Or.inl ((isServed_audit ..).launchesBy _)
  | releasing =>
      rw [hphase] at h
      exact Or.inl ((isServed_release a s _ h).launchesBy _)
  | ended | broken | dropped => simp [isDone, hphase] at hgoing

theorem drop_phase (a : Attempt) (s : Site) (hgoing : a.isDone = false) : (a.drop s).2.phase = .dropped := by
  unfold drop
  dsimp only
  rw [hgoing]
  rfl

end Attempt

end PageAudit
