import PageAudit.Proofs.Ledger.Store
import PageAudit.Proofs.Supervisor.Minding
import PageAudit.Proofs.Supervisor.Traffic
import PageAudit.Supervisor.Session

/-!
# Recovery from the ledger

A process that was lent stays in the ledger until a kill has ended it, whatever becomes of its lease. A supervisor that
begins with the ledger of one that was lost asks for the end of every process that the other one has left.
-/

namespace PageAudit

open Files

theorem amend_of_ok {ledger : Option Slot} {change : Slot → Except LedgerError Slot} {slot new : Slot}
    (hslot : ledger = some slot) (h : change slot = .ok new) : amend ledger change = some new := by
  simp [amend, hslot, h]

theorem recordedIn_of_load {slot : Slot} {entries : List LedgerEntry} (h : Ledger.load slot = .ok entries) :
    recordedIn (some slot) = entries.map (·.pid) := by
  simp [recordedIn, h]

namespace Errand

/-- The task has nothing to write down. -/
def Quiet : Errand → Prop
  | recording _ | killed _ _ | striking _ _ => False
  | _ => True

theorem quiet_of_kills {pids : List Nat} {e : Errand} (h : kills pids = some e) : e.Quiet := by
  cases pids with
  | nil => cases h
  | cons pid rest =>
      cases h
      trivial

end Errand

namespace Supervisor

/-! ## Sweeping -/

/-- A kill from its beginning to its end. -/
def kill (v : Supervisor) (pid : Nat) : Supervisor :=
  ((v.beginKill pid).1.waitUntil (v.beginKill pid).2.due).endKill (v.beginKill pid).2

@[simp] theorem kill_launcher (v : Supervisor) (pid : Nat) : (v.kill pid).launcher = v.launcher :=
  endKill_launcher ..

@[simp] theorem kill_killCalls (v : Supervisor) (pid : Nat) : (v.kill pid).killCalls = v.killCalls ++ [pid] :=
  endKill_killCalls ..

@[simp] theorem kill_handles (v : Supervisor) (pid : Nat) : (v.kill pid).registry.handles = v.registry.handles :=
  endKill_handles ..

variable {v : Supervisor}

/-- A launcher that breaks down in no kill lets a row go on to its end. -/
theorem carryOut_cons (hv : v.launcher.Steady) (k : Kills) (pid : Nat) (rest : List Nat) :
    v.carryOut k (pid :: rest) =
      (v.kill pid).carryOut (k.conclude pid (v.launcher.kill pid v.killCalls.length).ending) rest := by
  have hreturns : ((v.launcher.kill pid v.killCalls.length).ending).isBroken = false := hv pid v.killCalls.length
  rw [carryOut]
  exact if_neg (Bool.eq_false_iff.mp hreturns)

theorem carryOut_killCalls (hv : v.launcher.Steady) (k : Kills) (pids : List Nat) :
    (v.carryOut k pids).1.killCalls = v.killCalls ++ pids := by
  induction pids generalizing v k with
  | nil => simp [carryOut]
  | cons pid rest ih => rw [carryOut_cons hv, ih (by rwa [kill_launcher]), kill_killCalls, ← List.append_cons]

theorem mem_killCalls_sweep {pid : Nat} (hv : v.launcher.Steady) (hfree : v.registry.handles = [])
    (hpid : pid ∈ v.recorded) : pid ∈ v.sweep.1.killCalls := by
  have horphan : pid ∈ v.registry.orphans v.recorded := by
    refine List.mem_filter.mpr ⟨mem_foldl_insertAscending.mpr (Or.inl hpid), ?_⟩
    simp [Registry.pids, hfree]
  show pid ∈ (carryOut v.beginSweep.1 _ v.beginSweep.2).1.killCalls
  rw [carryOut_killCalls (v := v.beginSweep.1) hv]
  exact List.mem_append_right _ horphan

end Supervisor

namespace Traffic

variable {s t u : Traffic} {n : Nat} {a : Act} {e : Option Errand} {pid : Nat} {trace : List (Nat × Act)}

/-! ## Process numbers -/

/-- A process that is started is none of those that are alive, and its entry can be written down: its numbers have 32 bits
and its stamp exists. -/
def Unused (s : Traffic) : Act → Prop
  | .register h => h.pid ∉ s.alive ∧ (h.entry s.runId).Recordable
  | _ => True

/-- No task has still to write down that the process has ended. -/
def Settled (s : Traffic) (pid : Nat) : Prop :=
  ∀ n rest, s.errands n ≠ some (.killed pid rest) ∧ s.errands n ≠ some (.striking pid rest)

/-- A process that is started has the number of none that is alive, nor of one whose end is being written down. -/
def Fresh (s : Traffic) (a : Act) : Prop :=
  s.Unused a ∧ ∀ h, a = .register h → s.Settled h.pid

/-- All tasks wait. -/
def AtRest (s : Traffic) : Prop :=
  ∀ n e, s.errands n = some e → e.Waits

/-- Tasks that take turns: each goes on until it waits, and no other one comes in between. A number that is not alive
may be used again at once. -/
inductive Turns : Traffic → Traffic → Prop
  | nil (s : Traffic) : Turns s s
  | cons {s t u : Traffic} {n : Nat} {trace : List (Nat × Act)} (hs : s.AtRest) (hturn : Runs Unused s trace t)
      (hone : ∀ x ∈ trace, x.1 = n) (hrest : Turns t u) : Turns s u

theorem runs_fresh_of_turn (h : Runs Unused s trace t) (hone : ∀ x ∈ trace, x.1 = n)
    (hothers : ∀ m e, m ≠ n → s.errands m = some e → e.Waits) : Runs Fresh s trace t := by
  induction h with
  | nil s => exact .nil s
  | @cons s t u m a trace hfits hstep hrest ih =>
      obtain rfl : m = n := hone (m, a) List.mem_cons_self
      refine .cons ⟨hfits, fun h ha k rest => ?_⟩ hstep (ih (fun x hx => hone x (List.mem_cons_of_mem _ hx)) ?_)
      · subst ha
        cases hstep with
        | register hn =>
            -- The task itself waits for its start, and the others wait as well.
            by_cases hk : k = m
            · subst hk
              simp [hn]
            · exact ⟨fun he => hothers k _ hk he, fun he => hothers k _ hk he⟩
      · intro k e hk he
        rw [hstep.errands_of_ne hk] at he
        exact hothers k e hk he

theorem Turns.append (h : Turns s t) (h' : Turns t u) : Turns s u := by
  induction h with
  | nil s => exact h'
  | cons hs hturn hone _ ih => exact .cons hs hturn hone (ih h')

/-- A task that waits at the end of its turn leaves the others waiting as well. -/
theorem Turns.next (n : Nat) (acts : List Act) (h : Turns s t ∧ t.AtRest)
    (hturn : Runs Unused t (acts.map (n, ·)) u) (hwaits : ∀ e, u.errands n = some e → e.Waits) :
    Turns s u ∧ u.AtRest := by
  have hone : ∀ x ∈ acts.map (n, ·), x.1 = n := by simp
  refine ⟨h.1.append (.cons h.2 hturn hone (.nil u)), fun m e he => ?_⟩
  by_cases hm : m = n
  · exact hwaits e (hm ▸ he)
  · exact h.2 m e (hturn.errands_of_ne hone hm ▸ he)

theorem Turns.runs (h : Turns s u) : ∃ trace, Runs Fresh s trace u := by
  induction h with
  | nil s => exact ⟨[], .nil s⟩
  | cons hs hturn hone hrest ih =>
      obtain ⟨trace, hruns⟩ := ih
      exact ⟨_, (runs_fresh_of_turn hturn hone fun m e _ he => hs m e he).append hruns⟩

/-! ## The ledger keeps what was lent -/

/-- The processes that were lent are alive and in the ledger. -/
structure Recorded (s : Traffic) : Prop where
  kept : ∃ slot entries, s.ledger = some slot ∧ Ledger.Keeps slot entries ∧ ∀ pid ∈ s.lent, pid ∈ entries.map (·.pid)
  living : ∀ pid ∈ s.lent, pid ∈ s.alive
  /-- What is written down to have ended has ended. -/
  ended : ∀ pid ∈ s.alive, s.Settled pid
  recordable : ∀ n h, s.errands n = some (.recording h) → (h.entry s.runId).Recordable

theorem Settled.put (hs : s.Settled pid) (herrands : t.errands = s.errands)
    (he : ∀ rest, e ≠ some (.killed pid rest) ∧ e ≠ some (.striking pid rest)) : (t.put n e).Settled pid := by
  intro m rest
  by_cases hm : m = n
  · subst hm
    rw [put_errands_self]
    exact he rest
  · rw [put_errands_of_ne _ _ hm, herrands]
    exact hs m rest

theorem recordable_put (hs : s.Recorded) (herrands : t.errands = s.errands) (hrunId : t.runId = s.runId)
    (he : ∀ h, e = some (.recording h) → (h.entry s.runId).Recordable) :
    ∀ m h, (t.put n e).errands m = some (.recording h) → (h.entry (t.put n e).runId).Recordable := by
  intro m h hm
  rw [put_runId, hrunId]
  by_cases hmn : m = n
  · subst hmn
    rw [put_errands_self] at hm
    exact he h hm
  · rw [put_errands_of_ne _ _ hmn, herrands] at hm
    exact hs.recordable m h hm

theorem recorded_opened {capacity : Nat} {runId : String} {slot : Slot} {entries : List LedgerEntry}
    (h : Ledger.Keeps slot entries) : (opened capacity runId (some slot)).Recorded where
  kept := ⟨slot, entries, rfl, h, fun _ hpid => nomatch hpid⟩
  living _ hpid := nomatch hpid
  ended _ hpid := nomatch hpid
  recordable _ _ hn := nomatch hn

/-- What does not concern the ledger and the processes. -/
theorem Recorded.keep (hs : s.Recorded) (hledger : t.ledger = s.ledger) (hrunId : t.runId = s.runId)
    (herrands : t.errands = s.errands) (halive : t.alive = s.alive) (hlent : t.lent = s.lent)
    (he : ∀ e', e = some e' → e'.Quiet) : (t.put n e).Recorded := by
  refine ⟨?_, ?_, fun pid hpid => ?_, recordable_put hs herrands hrunId fun h hrec => (he _ hrec).elim⟩
  · simpa only [put_ledger, put_lent, hledger, hlent] using hs.kept
  · simpa only [put_alive, put_lent, halive, hlent] using hs.living
  · rw [put_alive, halive] at hpid
    exact (hs.ended pid hpid).put herrands fun rest => ⟨fun h => he _ h, fun h => he _ h⟩

theorem Recorded.register (hs : s.Recorded) {h : BrowserHandle} {r : Registry} (hsettled : s.Settled h.pid)
    (hentry : (h.entry s.runId).Recordable) :
    ({ s with
        registry := r
        started := h :: s.started
        alive := insertAscending h.pid s.alive }.put n (some (.recording h))).Recorded := by
  refine ⟨hs.kept, fun pid hlent => mem_insertAscending.mpr (Or.inr (hs.living pid hlent)), fun pid halive => ?_,
    recordable_put hs rfl rfl fun g hg => ?_⟩
  · have hold : s.Settled pid := by
      rcases mem_insertAscending.mp halive with rfl | halive
      · exact hsettled
      · exact hs.ended pid halive
    exact hold.put rfl (by simp)
  · cases hg
    exact hentry

theorem Recorded.record (hs : s.Recorded) {h : BrowserHandle} (hn : s.errands n = some (.recording h)) :
    ({ s with
        ledger := amend s.ledger fun slot => Ledger.record slot (h.entry s.runId)
        lent := if h.pid ∈ s.alive then h.pid :: s.lent else s.lent }.put n none).Recorded := by
  obtain ⟨slot, entries, hslot, hkeeps, hlent⟩ := hs.kept
  obtain ⟨new, hrecord, hkeeps⟩ := hkeeps.record (hs.recordable n h hn)
  have hcases : ∀ pid ∈ (if h.pid ∈ s.alive then h.pid :: s.lent else s.lent),
      pid = h.pid ∧ pid ∈ s.alive ∨ pid ∈ s.lent := by
    intro pid hpid
    split at hpid
    · rename_i halive
      rcases List.mem_cons.mp hpid with rfl | hpid
      · exact Or.inl ⟨rfl, halive⟩
      · exact Or.inr hpid
    · exact Or.inr hpid
  refine ⟨⟨new, _, amend_of_ok hslot hrecord, hkeeps, fun pid hpid => Ledger.mem_pids_insert.mpr ?_⟩,
    fun pid hpid => ?_, fun pid halive => (hs.ended pid halive).put rfl (by simp), recordable_put hs rfl rfl (by simp)⟩
  · exact (hcases pid hpid).imp And.left (hlent pid)
  · exact (hcases pid hpid).elim And.right (hs.living pid)

theorem Recorded.succeed (hs : s.Recorded) (gone : Nat) (rest : List Nat) :
    ({ s with
        alive := s.alive.filter (· != gone)
        lent := s.lent.filter (· != gone)
        dismissed := s.dismissed.filter (· != gone) }.put n (some (.killed gone rest))).Recorded := by
  obtain ⟨slot, entries, hslot, hkeeps, hlent⟩ := hs.kept
  refine ⟨⟨slot, entries, hslot, hkeeps, fun pid hpid => hlent pid (List.mem_of_mem_filter hpid)⟩,
    fun pid hpid => ?_, fun pid hpid => ?_, recordable_put hs rfl rfl (by simp)⟩
  · obtain ⟨hpid, hne⟩ := List.mem_filter.mp hpid
    exact List.mem_filter.mpr ⟨hs.living pid hpid, hne⟩
  · obtain ⟨hpid, hne⟩ := List.mem_filter.mp hpid
    refine (hs.ended pid hpid).put rfl fun rest => ⟨?_, by simp⟩
    rintro ⟨⟩
    simp at hne

theorem Recorded.note (hs : s.Recorded) {gone : Nat} {rest : List Nat} {r : Registry}
    (hn : s.errands n = some (.killed gone rest)) :
    ({ s with registry := r }.put n (some (.striking gone rest))).Recorded := by
  refine ⟨hs.kept, hs.living, fun pid hpid => ?_, recordable_put hs rfl rfl (by simp)⟩
  refine (hs.ended pid hpid).put rfl fun rest => ⟨by simp, ?_⟩
  rintro ⟨⟩
  exact (hs.ended _ hpid n _).1 hn

theorem Recorded.strike (hs : s.Recorded) {gone : Nat} {rest : List Nat}
    (hn : s.errands n = some (.striking gone rest)) :
    ({ s with ledger := amend s.ledger fun slot => Ledger.remove slot gone }.put n (Errand.kills rest)).Recorded := by
  obtain ⟨slot, entries, hslot, hkeeps, hlent⟩ := hs.kept
  obtain ⟨new, hremove, hkeeps⟩ := hkeeps.remove gone
  have hquiet : ∀ {e'}, Errand.kills rest = some e' → e'.Quiet := Errand.quiet_of_kills
  refine ⟨⟨new, _, amend_of_ok hslot hremove, hkeeps, fun pid hpid => Ledger.mem_pids_erase.mpr ⟨hlent pid hpid, ?_⟩⟩,
    hs.living, fun pid hpid => ?_, recordable_put hs rfl rfl fun h hrec => (hquiet hrec).elim⟩
  · -- What is struck out has ended, and what was lent has not.
    rintro rfl
    exact (hs.ended _ (hs.living _ hpid) n _).2 hn
  · exact (hs.ended pid hpid).put rfl fun rest => ⟨fun h => hquiet h, fun h => hquiet h⟩

theorem Recorded.step (hs : s.Recorded) (hfits : s.Fresh a) (h : Step n a s t) : t.Recorded := by
  cases h with
  | register hn => exact hs.register (hfits.2 _ rfl) hfits.1.2
  | record hn => exact hs.record hn
  | succeed hn => exact hs.succeed _ _
  | note hn => exact hs.note hn
  | strike hn => exact hs.strike hn
  | drain hn | collect hn | fail hn => exact hs.keep rfl rfl rfl rfl rfl fun _ => Errand.quiet_of_kills
  | _ hn => exact hs.keep rfl rfl rfl rfl rfl (by simp [Errand.Quiet])

/-- What was lent and not ended is in the ledger. A supervisor that begins with this ledger and sweeps asks for its
end. -/
theorem lent_recoverable {capacity : Nat} {runId : String} {slot : Slot} {entries : List LedgerEntry}
    (hkeeps : Ledger.Keeps slot entries)
    (h : (∃ trace, Runs Fresh (opened capacity runId (some slot)) trace s) ∨
      Turns (opened capacity runId (some slot)) s) :
    (∃ slot entries, s.ledger = some slot ∧ Ledger.load slot = .ok entries ∧
      ∀ pid ∈ s.lent, pid ∈ entries.map (·.pid)) ∧
    ∀ v : Supervisor, v.launcher.Steady → v.registry.handles = [] → v.ledger = s.ledger →
      ∀ pid ∈ s.lent, pid ∈ v.sweep.1.killCalls := by
  obtain ⟨trace, hruns⟩ : ∃ trace, Runs Fresh (opened capacity runId (some slot)) trace s :=
    h.elim id Turns.runs
  have hs : s.Recorded :=
    hruns.preserves (P := Recorded) (fun _ _ _ _ hfits hstep hs => hs.step hfits hstep) (recorded_opened hkeeps)
  obtain ⟨last, kept, hlast, hload, hlent⟩ := hs.kept
  refine ⟨⟨last, kept, hlast, hload.load, hlent⟩, fun v hsteady hfree hledger pid hpid => ?_⟩
  refine Supervisor.mem_killCalls_sweep hsteady hfree ?_
  rw [Supervisor.recorded_eq_recordedIn, hledger, hlast, recordedIn_of_load hload.load]
  exact hlent pid hpid

theorem recordable_first (jobId : String) : (BrowserHandle.entry ⟨10000, "ws", jobId, 1, 0⟩ "run").Recordable :=
  ⟨by simp [BrowserHandle.entry, Decimal.wordMax], by simp [BrowserHandle.entry, Decimal.wordMax],
    Calendar.Stamp.exists_ofMillis (by simp)⟩

/-- A release is stopped while its kill is awaited. -/
theorem runs_stopped :
    ∃ trace s, Runs Fresh (opened 1 "run" (some { content := .absent })) trace s ∧ s.registry.handles = [] ∧
      s.registry.pendingKills = [] ∧ s.lent = [10000] := by
  have hfresh : Fresh ({ opened 1 "run" (some { content := .absent }) with
      registry := { capacity := 1, launching := ["a"] } }.put 0 (some (.launching "a" 1)))
      (.register ⟨10000, "ws", "a", 1, 0⟩) := by
    refine ⟨⟨List.not_mem_nil, recordable_first "a"⟩, fun h _ n rest => ?_⟩
    by_cases hn : n = 0
    · simp [hn]
    · simp [put_errands_of_ne _ _ hn, opened]
  have hrun : Runs Fresh (opened 1 "run" (some { content := .absent }))
      [(0, .reserve "a" 1), (0, .register ⟨10000, "ws", "a", 1, 0⟩), (0, .record),
        (1, .giveBack ⟨10000, "ws", "a", 1, 0⟩), (1, .takeOut), (1, .abort)] _ :=
    .cons ⟨trivial, by simp⟩ (.reserve rfl rfl) (.cons hfresh (.register rfl) (.cons ⟨trivial, by simp⟩ (.record rfl)
      (.cons ⟨trivial, by simp⟩ (.giveBack rfl) (.cons ⟨trivial, by simp⟩ (.takeOut rfl rfl)
        (.single ⟨trivial, by simp⟩ (.abort rfl))))))
  exact ⟨_, _, hrun, rfl, rfl, rfl⟩

/-- A browser is given back and its kill succeeds; the next one is started with the same process number. -/
theorem turns_reuse :
    ∃ s, Turns (opened 1 "run" (some { content := .absent })) s ∧ s.started.map (·.pid) = [10000, 10000] ∧
      s.lent = [10000] := by
  have hbegun : Turns (opened 1 "run" (some { content := .absent })) (opened 1 "run" (some { content := .absent })) ∧
      (opened 1 "run" (some { content := .absent })).AtRest := ⟨.nil _, fun _ _ h => nomatch h⟩
  have hasked := Turns.next 0 [.reserve "a" 1] hbegun (.single trivial (.reserve rfl rfl)) (by simp [Errand.Waits])
  have hlent := Turns.next 0 [.register ⟨10000, "ws", "a", 1, 0⟩, .record] hasked
    (.cons ⟨List.not_mem_nil, recordable_first "a"⟩ (.register rfl) (.single trivial (.record rfl))) (by simp)
  have hleft := Turns.next 1 [.giveBack ⟨10000, "ws", "a", 1, 0⟩, .takeOut] hlent
    (.cons trivial (.giveBack rfl) (.single trivial (.takeOut rfl rfl))) (by simp [Errand.Waits])
  have hended := Turns.next 1 [.succeed, .note, .strike] hleft
    (.cons trivial (.succeed rfl) (.cons trivial (.note rfl) (.single trivial (.strike rfl)))) (by simp [Errand.kills])
  have hagain := Turns.next 2 [.reserve "b" 1] hended (.single trivial (.reserve rfl rfl)) (by simp [Errand.Waits])
  obtain ⟨hturns, -⟩ := Turns.next 2 [.register ⟨10000, "ws", "b", 1, 0⟩, .record] hagain
    (.cons ⟨List.not_mem_nil, recordable_first "b"⟩ (.register rfl) (.single trivial (.record rfl))) (by simp)
  exact ⟨_, hturns, rfl, rfl⟩

/-- A release is stopped while its kill is awaited; and, by turns, a process number is used again. The file was missing
at first. -/
theorem stopped_release_recoverable :
    (∃ trace s, Runs Fresh (opened 1 "run" (some { content := .absent })) trace s ∧ s.registry.handles = [] ∧
      s.registry.pendingKills = [] ∧ s.lent = [10000] ∧
      (∃ slot entries, s.ledger = some slot ∧ Ledger.load slot = .ok entries ∧ 10000 ∈ entries.map (·.pid)) ∧
      ∀ v : Supervisor, v.launcher.Steady → v.registry.handles = [] → v.ledger = s.ledger →
        10000 ∈ v.sweep.1.killCalls) ∧
    ∃ s, Turns (opened 1 "run" (some { content := .absent })) s ∧ s.started.map (·.pid) = [10000, 10000] ∧
      s.lent = [10000] ∧
      (∃ slot entries, s.ledger = some slot ∧ Ledger.load slot = .ok entries ∧ 10000 ∈ entries.map (·.pid)) ∧
      ∀ v : Supervisor, v.launcher.Steady → v.registry.handles = [] → v.ledger = s.ledger →
        10000 ∈ v.sweep.1.killCalls := by
  have hkeeps : Ledger.Keeps { content := .absent } [] := ⟨rfl, rfl⟩
  obtain ⟨trace, s, hruns, hfree, hnone, hlent⟩ := runs_stopped
  obtain ⟨t, hturns, hstarted, hlent'⟩ := turns_reuse
  have hstopped := lent_recoverable hkeeps (.inl ⟨trace, hruns⟩)
  have hreused := lent_recoverable hkeeps (.inr hturns)
  simp only [hlent, List.mem_singleton, forall_eq] at hstopped
  simp only [hlent', List.mem_singleton, forall_eq] at hreused
  exact ⟨⟨trace, s, hruns, hfree, hnone, hlent, hstopped⟩, t, hturns, hstarted, hlent', hreused⟩

end Traffic

end PageAudit
