import PageAudit.Proofs.Attempt.Outcomes

/-!
# Attempts pay for their browsers

Whatever an attempt does keeps the balance of every process: the browser that it gets stands for the start, and the kill
is asked for in the same poll in which the browser is taken out of the registry. So an attempt owes no kills, and neither
does the background.
-/

namespace PageAudit

open Supervisor

namespace Attempt

/-- The kills that an attempt has still to ask for. -/
def owed (a : Attempt) : List Nat :=
  match a.phase with
  | .releasing _ r => r.owed
  | _ => []

/-- An attempt goes on from a site, and nothing is owed for it. -/
structure Pays (s : Site) (x : Site × Attempt) : Prop where
  balance : ∀ pid, x.1.supervisor.balance [] pid = s.supervisor.balance [] pid
  owed : x.2.owed = []
  background : ∀ r ∈ x.1.background, r ∈ s.background ∨ r.owed = []
  timeLimit : x.1.timeLimit = s.timeLimit

variable {a b : Attempt} {s t : Site} {signals : AttemptSignals} {x : Site × Attempt}

theorem Pays.after (h : Pays t x) (hbalance : ∀ pid, t.supervisor.balance [] pid = s.supervisor.balance [] pid)
    (hbackground : t.background = s.background) (hlimit : t.timeLimit = s.timeLimit) : Pays s x where
  balance pid := (h.balance pid).trans (hbalance pid)
  owed := h.owed
  background := hbackground ▸ h.background
  timeLimit := h.timeLimit.trans hlimit

theorem pays_same (s : Site) (hb : b.owed = []) : Pays s (s, b) :=
  ⟨fun _ => rfl, hb, fun _ => Or.inl, rfl⟩

theorem pays_release (a : Attempt) (outcome : AttemptOutcome) {r : Release} (hs : s.supervisor.registry.Exclusive)
    (hr : r.owed = []) : Pays s (a.release s outcome r) := by
  refine ⟨fun pid => Release.balance_poll hs hr pid, ?_, fun _ => Or.inl, rfl⟩
  unfold release releasePhase
  dsimp only
  split
  · split <;> rfl
  · exact Release.owed_poll hr _

theorem pays_giveBack (a : Attempt) (h : BrowserHandle) (outcome : AttemptOutcome)
    (hs : s.supervisor.registry.Exclusive) : Pays s (a.giveBack s h outcome) :=
  pays_release a outcome hs rfl

/-- A browser that is left to the background is still registered. -/
theorem pays_leave (s : Site) (h : BrowserHandle) (hb : b.owed = []) : Pays s (s.leave h, b) where
  balance _ := rfl
  owed := hb
  background r hr := (List.mem_append.mp hr).imp_right fun hr => by rw [List.mem_singleton.mp hr]; rfl
  timeLimit := rfl

theorem pays_audit (a : Attempt) (signals : AttemptSignals) (h : BrowserHandle) (due deadline : Nat)
    (ending : AuditEnding) (hs : s.supervisor.registry.Exclusive) :
    Pays s (a.audit s signals h due deadline ending) := by
  unfold audit
  split
  · exact pays_giveBack a h _ hs
  · split
    · cases ending with
      | scored => exact pays_giveBack a h _ hs
      | failed e => cases e <;> exact pays_giveBack a h _ hs
      | broken => exact pays_leave s h rfl
    · split
      · exact pays_giveBack a h _ hs
      · exact pays_same s rfl

theorem pays_beginAudit (a : Attempt) (signals : AttemptSignals) (h : BrowserHandle)
    (hs : s.supervisor.registry.Exclusive) : Pays s (a.beginAudit s signals h) := by
  unfold beginAudit
  split
  · exact pays_giveBack a h _ hs
  · exact (pays_audit (s := (s.beginAudit a.context.url h.endpoint).1) a signals h _ _ _ hs).after (fun _ => rfl) rfl rfl

theorem pays_launch (a : Attempt) (signals : AttemptSignals) (due : Nat) (ending : LaunchEnding)
    (hs : s.supervisor.registry.Exclusive) (hj : a.context.jobId ∈ s.supervisor.registry.launching) :
    Pays s (a.launch s signals due ending) := by
  have hcancelled : ∀ {b : Attempt}, b.owed = [] →
      Pays s ({ s with supervisor := s.supervisor.cancelLaunch a.context.jobId }, b) := fun hb =>
    ⟨fun _ => rfl, hb, fun _ => Or.inl, rfl⟩
  unfold launch
  dsimp only
  split
  · exact hcancelled rfl
  · split
    · exact pays_same s rfl
    · cases ending with
      | ready =>
          have haudit := pays_beginAudit
            (s := { s with supervisor := (s.supervisor.endLaunch a.context.jobId a.context.attempt).1 }) a signals
            (s.supervisor.endLaunch a.context.jobId a.context.attempt).2 hs.register
          exact haudit.after (fun pid => balance_endLaunch hs hj a.context.attempt [] pid) rfl rfl
      | failed | broken => exact hcancelled rfl

theorem pays_begin (a : Attempt) (signals : AttemptSignals) (hs : s.supervisor.registry.Exclusive) :
    Pays s (a.begin s signals) := by
  unfold begin
  split
  · exact pays_same s rfl
  · split
    · exact pays_same s rfl
    · split
      · exact pays_same s rfl
      · rename_i supervisor launch hbegun
        obtain ⟨htends, -, hlaunching⟩ := tends_beginLaunch hbegun fun _ => False
        have hj : a.context.jobId ∈ supervisor.registry.launching := by simp [hlaunching]
        have hlaunch := pays_launch (s := { s with supervisor }) a signals (s.clock + launch.delay) launch.ending
          (htends.exclusive hs) hj
        exact hlaunch.after (fun pid => balance_beginLaunch hbegun [] pid) rfl rfl

theorem pays_poll (a : Attempt) (signals : AttemptSignals) (hs : s.supervisor.registry.Exclusive)
    (hj : a.isLaunching = true → a.context.jobId ∈ s.supervisor.registry.launching) (ha : a.owed = []) :
    Pays s (a.poll s signals) := by
  unfold poll
  cases hphase : a.phase with
  | fresh => exact pays_begin a signals hs
  | launching due ending => exact pays_launch a signals due ending hs (hj (by simp [isLaunching, hphase]))
  | auditing h due deadline ending => exact pays_audit a signals h due deadline ending hs
  | releasing outcome r => exact pays_release a outcome hs (by simpa [owed, hphase] using ha)
  | ended | broken | dropped => exact pays_same s ha

theorem pays_drop (a : Attempt) (s : Site) (ha : a.owed = []) : Pays s (a.drop s) := by
  have hdropped : (if a.isDone then a else { a with phase := .dropped }).owed = [] := by
    split
    · exact ha
    · rfl
  unfold drop
  dsimp only
  cases a.phase with
  | launching => exact ⟨fun _ => rfl, hdropped, fun _ => Or.inl, rfl⟩
  | auditing h => exact pays_leave s h hdropped
  | _ => exact pays_same s hdropped

end Attempt

/-- Neither does the background owe anything. -/
theorem Site.balance_pollBackground {s : Site} (hs : s.supervisor.registry.Exclusive)
    (hbackground : ∀ r ∈ s.background, r.owed = []) (n pid : Nat) :
    (s.pollBackground n).supervisor.balance [] pid = s.supervisor.balance [] pid ∧
      ∀ r ∈ (s.pollBackground n).background, r.owed = [] := by
  unfold pollBackground
  cases hn : s.background[n]? with
  | none => exact ⟨rfl, hbackground⟩
  | some r =>
      have hr := hbackground r (List.mem_of_getElem? hn)
      refine ⟨Release.balance_poll hs hr pid, fun r' hr' => ?_⟩
      rcases List.mem_or_eq_of_mem_set hr' with hold | rfl
      · exact hbackground r' hold
      · exact Release.owed_poll hr _

namespace AttemptPoll

variable {p : AttemptPoll}

/-- The processes that are started in a poll; there is one at most. -/
def started (p : AttemptPoll) : List Nat :=
  match p.acquired? with
  | some (.ok h) => [h.pid]
  | _ => []

/-- What a poll of an attempt starts and registers. -/
theorem starts_poll (p : AttemptPoll) (hlauncher : p.after.1.supervisor.launcher = p.site.supervisor.launcher) :
    p.after.1.supervisor.starts = p.site.supervisor.starts ++ p.started ∧
      ∀ g ∈ p.after.1.supervisor.registry.handles, g ∈ p.site.supervisor.registry.handles ∨ g.pid ∈ p.started := by
  rcases p.idle_or_gets with ⟨hnone, -, henrols⟩ | ⟨supervisor, h, hgets⟩
  · have hstarted : p.started = [] := by
      unfold started
      split
      · exact absurd ‹_› (hnone _)
      · rfl
    rw [hstarted, List.append_nil]
    refine ⟨?_, fun g hg => Or.inl ((henrols.handles g hg).resolve_right (by simp))⟩
    rw [Supervisor.starts, Supervisor.starts, hlauncher, henrols.launched]
    rfl
  · have hstarted : p.started = [h.pid] := by simp [started, hgets.acquired]
    have henrols : Enrols p.site.supervisor p.after.1.supervisor [h] := by
      rw [hgets.after]
      exact hgets.enrols.recedes (p.attempt.recedes_beginAudit { p.site with supervisor } p.signals h)
    rw [hstarted]
    refine ⟨?_, fun g hg => (henrols.handles g hg).imp_right fun hnew => ?_⟩
    · rw [Supervisor.starts, Supervisor.starts, hlauncher, henrols.launched, List.length_singleton, List.range_succ,
        List.map_append, List.map_singleton, hgets.pid]
    · simp [List.mem_singleton.mp hnew]

end AttemptPoll

end PageAudit
