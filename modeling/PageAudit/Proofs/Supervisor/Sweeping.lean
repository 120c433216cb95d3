import PageAudit.Proofs.Supervisor.Limits
import PageAudit.Proofs.Supervisor.Operations
import PageAudit.Proofs.Supervisor.Recovery

/-!
# What a sweep comes to

A sweep that nothing interrupts asks for one kill of every process that an earlier kill or an earlier run has left, and
for no other one. The processes that it cannot end are what the next sweep finds.
-/

namespace PageAudit

open Files

theorem insertAscending_of_greater {n : Nat} {l : List Nat} (h : ∀ m ∈ l, m < n) :
    insertAscending n l = l ++ [n] := by
  induction l with
  | nil => rfl
  | cons m rest ih =>
      have hm : m < n := h m List.mem_cons_self
      rw [insertAscending, if_neg (by omega), if_neg (by simp; omega), ih fun k hk => h k (List.mem_cons_of_mem _ hk)]
      rfl

/-! ## How the kills of a row end -/

namespace Launcher

/-- The kill of a process does not end it, after so many kills that were asked for before. -/
def withstands (l : Launcher) (x : Nat × Nat) : Bool :=
  (l.kill x.1 x.2).ending != .done

/-- The processes of a row that their kills do not end, after so many kills that were asked for before. -/
def spared (l : Launcher) (asked : Nat) (pids : List Nat) : List Nat :=
  ((pids.zipIdx asked).filter l.withstands).map (·.1)

/-- The processes of a row that their kills end. -/
def felled (l : Launcher) (asked : Nat) (pids : List Nat) : List Nat :=
  ((pids.zipIdx asked).filter fun x => !l.withstands x).map (·.1)

variable {l : Launcher} {asked pid : Nat} {pids : List Nat}

theorem ending_of_failed (hl : l.Steady) (h : l.withstands (pid, asked) = true) :
    ∃ cause, (l.kill pid asked).ending = .failed cause := by
  have hreturns := hl pid asked
  cases hending : (l.kill pid asked).ending with
  | done => simp [withstands, hending] at h
  | failed cause => exact ⟨cause, rfl⟩
  | broken message => simp [hending, KillEnding.isBroken] at hreturns

theorem ending_of_ended (h : l.withstands (pid, asked) = false) : (l.kill pid asked).ending = .done := by
  simpa [withstands] using h

theorem spared_cons_of_failed (h : l.withstands (pid, asked) = true) :
    l.spared asked (pid :: pids) = pid :: l.spared (asked + 1) pids := by
  simp [spared, h]

theorem spared_cons_of_ended (h : l.withstands (pid, asked) = false) :
    l.spared asked (pid :: pids) = l.spared (asked + 1) pids := by
  simp [spared, h]

theorem felled_cons_of_failed (h : l.withstands (pid, asked) = true) :
    l.felled asked (pid :: pids) = l.felled (asked + 1) pids := by
  simp [felled, h]

theorem felled_cons_of_ended (h : l.withstands (pid, asked) = false) :
    l.felled asked (pid :: pids) = pid :: l.felled (asked + 1) pids := by
  simp [felled, h]

theorem spared_sublist : (l.spared asked pids).Sublist pids := by
  have h := (List.filter_sublist (p := l.withstands) (l := pids.zipIdx asked)).map (·.1)
  rwa [List.zipIdx_map_fst] at h

/-- Every process of a row is either ended or not. -/
theorem felled_append_spared_perm : (l.felled asked pids ++ l.spared asked pids).Perm pids := by
  induction pids generalizing asked with
  | nil => exact .nil
  | cons pid rest ih =>
      cases hkill : l.withstands (pid, asked) with
      | true =>
          rw [felled_cons_of_failed hkill, spared_cons_of_failed hkill]
          exact List.perm_middle.trans (ih.cons pid)
      | false =>
          rw [felled_cons_of_ended hkill, spared_cons_of_ended hkill]
          exact ih.cons pid

end Launcher

/-! ## Rows of kills -/

namespace Supervisor

variable {v : Supervisor} {entries : List LedgerEntry} {pid : Nat} {pids : List Nat} {k : Kills}

/-- The ledger, if one is kept, can be written and holds the entries. -/
structure Books (v : Supervisor) (entries : List LedgerEntry) : Prop where
  keeps : ∀ slot, v.ledger = some slot → Ledger.Keeps slot entries
  none_kept : v.ledger = none → entries = []

theorem Books.recorded (h : v.Books entries) : v.recorded = entries.map (·.pid) := by
  rw [recorded_eq_recordedIn]
  cases hledger : v.ledger with
  | some slot => exact recordedIn_of_load (h.keeps slot hledger).load
  | none =>
      rw [h.none_kept hledger]
      rfl

theorem Books.of_ledger_eq {w : Supervisor} (h : v.Books entries) (hledger : w.ledger = v.ledger) :
    w.Books entries :=
  ⟨fun slot hslot => h.keeps slot (hledger ▸ hslot), fun hnone => h.none_kept (hledger ▸ hnone)⟩

theorem Books.strike (h : v.Books entries) (pid : Nat) :
    (v.withLedger fun slot => Ledger.remove slot pid).Books (Ledger.erase entries pid) := by
  rw [withLedger_eq_amend]
  cases hledger : v.ledger with
  | some slot =>
      obtain ⟨new, hremove, hkeeps⟩ := (h.keeps slot hledger).remove pid
      have hnew : amend (some slot) (fun slot => Ledger.remove slot pid) = some new := amend_of_ok rfl hremove
      refine ⟨fun slot hslot => ?_, fun hnone => (nomatch hnew.symm.trans hnone)⟩
      exact Option.some.inj (hnew.symm.trans hslot) ▸ hkeeps
  | none =>
      rw [h.none_kept hledger]
      exact ⟨fun _ hslot => (nomatch hslot), fun _ => rfl⟩

theorem kill_of_failed (hv : v.launcher.Steady) (h : v.launcher.withstands (pid, v.killCalls.length) = true) :
    v.kill pid = { (v.beginKill pid).1.waitUntil (v.beginKill pid).2.due with
      registry := v.registry.notePending pid } := by
  obtain ⟨cause, hending⟩ := Launcher.ending_of_failed hv h
  simp only [kill, endKill, killEnding, beginKill, hending, waitUntil]

theorem kill_of_ended (h : v.launcher.withstands (pid, v.killCalls.length) = false) :
    v.kill pid = { (v.beginKill pid).1.waitUntil (v.beginKill pid).2.due with
      registry := v.registry.noteKilled pid
      alive := v.alive.filter (· != pid) }.withLedger fun slot => Ledger.remove slot pid := by
  simp only [kill, endKill, killEnding, beginKill, Launcher.ending_of_ended h, waitUntil]

theorem carryOut_handles (hv : v.launcher.Steady) : (v.carryOut k pids).1.registry.handles = v.registry.handles := by
  induction pids generalizing v k with
  | nil => rfl
  | cons pid rest ih => rw [carryOut_cons hv, ih (by rwa [kill_launcher]), kill_handles]

theorem carryOut_launcher (hv : v.launcher.Steady) : (v.carryOut k pids).1.launcher = v.launcher := by
  induction pids generalizing v k with
  | nil => rfl
  | cons pid rest ih => rw [carryOut_cons hv, ih (by rwa [kill_launcher]), kill_launcher]

theorem carryOut_kills (hv : v.launcher.Steady) :
    (v.carryOut k pids).2.ended = k.ended ++ v.launcher.felled v.killCalls.length pids ∧
      (v.carryOut k pids).2.failed = k.failed ++ v.launcher.spared v.killCalls.length pids ∧
      (v.carryOut k pids).2.broken = k.broken := by
  induction pids generalizing v k with
  | nil => simp [carryOut, Launcher.felled, Launcher.spared]
  | cons pid rest ih =>
      obtain ⟨hended, hfailed, hwhole⟩ := ih (v := v.kill pid) (by rwa [kill_launcher])
        (k := k.conclude pid (v.launcher.kill pid v.killCalls.length).ending)
      rw [carryOut_cons hv, hended, hfailed, hwhole, kill_launcher, kill_killCalls, List.length_append,
        List.length_singleton]
      cases h : v.launcher.withstands (pid, v.killCalls.length) with
      | true =>
          obtain ⟨cause, hending⟩ := Launcher.ending_of_failed hv h
          rw [hending, Launcher.felled_cons_of_failed h, Launcher.spared_cons_of_failed h]
          simp [Kills.conclude]
      | false =>
          rw [Launcher.ending_of_ended h, Launcher.felled_cons_of_ended h, Launcher.spared_cons_of_ended h]
          simp [Kills.conclude]

/-- The processes that could not be ended are noted one after the other. -/
theorem carryOut_pendingKills (hv : v.launcher.Steady) (h : (v.registry.pendingKills ++ pids).Pairwise (· < ·)) :
    (v.carryOut k pids).1.registry.pendingKills =
      v.registry.pendingKills ++ v.launcher.spared v.killCalls.length pids := by
  induction pids generalizing v k with
  | nil => simp [carryOut, Launcher.spared]
  | cons pid rest ih =>
      obtain ⟨hnoted, hrest, hless⟩ := List.pairwise_append.mp h
      have hbelow : ∀ m ∈ v.registry.pendingKills, m < pid := fun m hm => hless m hm pid List.mem_cons_self
      cases hkill : v.launcher.withstands (pid, v.killCalls.length) with
      | true =>
          have hnote : (v.kill pid).registry.pendingKills = v.registry.pendingKills ++ [pid] := by
            rw [kill_of_failed hv hkill]
            exact insertAscending_of_greater hbelow
          have hsorted : ((v.kill pid).registry.pendingKills ++ rest).Pairwise (· < ·) := by
            rw [hnote]
            simpa using h
          rw [carryOut_cons hv, ih (by rwa [kill_launcher]) hsorted, hnote, Launcher.spared_cons_of_failed hkill]
          simp
      | false =>
          have hnote : (v.kill pid).registry.pendingKills = v.registry.pendingKills := by
            rw [kill_of_ended hkill]
            exact List.filter_eq_self.mpr fun m hm => bne_iff_ne.mpr (Nat.ne_of_lt (hbelow m hm))
          have hsorted := h.sublist ((List.sublist_cons_self pid rest).append_left _)
          rw [carryOut_cons hv, ih (by rwa [kill_launcher]) (by rwa [hnote]), hnote,
            Launcher.spared_cons_of_ended hkill]
          simp

/-- The entries of the processes that have ended are struck out, and the others stay in their order. -/
theorem Books.carryOut (h : v.Books entries) (hv : v.launcher.Steady) :
    (v.carryOut k pids).1.Books
      (entries.filter fun e => !(v.launcher.felled v.killCalls.length pids).contains e.pid) := by
  induction pids generalizing v k entries with
  | nil => simpa [Supervisor.carryOut, Launcher.felled] using h
  | cons pid rest ih =>
      cases hkill : v.launcher.withstands (pid, v.killCalls.length) with
      | true =>
          have hsame : (v.kill pid).Books entries := h.of_ledger_eq (by rw [kill_of_failed hv hkill]; rfl)
          simpa [carryOut_cons hv, Launcher.felled_cons_of_failed hkill] using ih hsame (by rwa [kill_launcher])
      | false =>
          have hstruck : (v.kill pid).Books (Ledger.erase entries pid) := by
            rw [kill_of_ended hkill]
            exact Books.strike (v := { (v.beginKill pid).1.waitUntil (v.beginKill pid).2.due with
              registry := v.registry.noteKilled pid
              alive := v.alive.filter (· != pid) }) (h.of_ledger_eq rfl) pid
          have hrest := ih (k := k.conclude pid (v.launcher.kill pid v.killCalls.length).ending) hstruck
            (by rwa [kill_launcher])
          rw [Ledger.erase, List.filter_filter] at hrest
          rw [carryOut_cons hv, Launcher.felled_cons_of_ended hkill]
          convert hrest using 2
          funext e
          rw [Bool.eq_iff_iff]
          simp [and_comm]

end Supervisor

/-! ## What a sweep finds -/

namespace Registry

variable {r : Registry} {recorded : List Nat}

theorem mem_orphans {pid : Nat} :
    pid ∈ r.orphans recorded ↔ (pid ∈ r.pendingKills ∨ pid ∈ recorded) ∧ pid ∉ r.pids := by
  rw [orphans, List.mem_filter, mem_foldl_insertAscending, or_comm]
  simp

theorem pairwise_orphans (h : r.pendingKills.Pairwise (· < ·)) : (r.orphans recorded).Pairwise (· < ·) := by
  refine List.Pairwise.filter _ ?_
  induction recorded generalizing r with
  | nil => exact h
  | cons pid rest ih => exact ih (r := r.notePending pid) (pairwise_insertAscending h)

end Registry

theorem eq_of_ascending {l l' : List Nat} (h : l.Pairwise (· < ·)) (h' : l'.Pairwise (· < ·))
    (hmem : ∀ n, n ∈ l ↔ n ∈ l') : l = l' := by
  have hperm : l.Perm l' :=
    (List.perm_ext_iff_of_nodup (h.imp Nat.ne_of_lt) (h'.imp Nat.ne_of_lt)).mpr hmem
  exact hperm.eq_of_pairwise (fun a b _ _ hab hba => absurd hab (Nat.lt_asymm hba)) h h'

namespace Supervisor

variable {v : Supervisor} {entries : List LedgerEntry}

/-- The processes that a sweep finds, ascending. -/
def leftovers (v : Supervisor) : List Nat :=
  v.registry.orphans v.recorded

theorem mem_leftovers (h : v.Books entries) {pid : Nat} :
    pid ∈ v.leftovers ↔
      (pid ∈ v.registry.pendingKills ∨ pid ∈ entries.map (·.pid)) ∧ pid ∉ v.registry.handles.map (·.pid) := by
  rw [leftovers, Registry.mem_orphans, h.recorded]
  rfl

theorem sweep_eq (v : Supervisor) :
    v.sweep = ((v.beginSweep.1.carryOut { waiting := [] } v.leftovers).1,
      (v.beginSweep.1.carryOut { waiting := [] } v.leftovers).2.result
        (v.beginSweep.1.carryOut { waiting := [] } v.leftovers).2.sweepReport) :=
  rfl

theorem sweep_report (hv : v.launcher.Steady) :
    v.sweep.2 = .ok
      { found := v.leftovers.length
        terminated := (v.launcher.felled v.killCalls.length v.leftovers).length
        failed := (v.launcher.spared v.killCalls.length v.leftovers).length } := by
  obtain ⟨hended, hfailed, hwhole⟩ :=
    show _ ∧ _ ∧ (v.beginSweep.1.carryOut { waiting := [] } v.leftovers).2.broken = none from carryOut_kills hv
  have hperm : (v.launcher.felled v.killCalls.length v.leftovers ++
      v.launcher.spared v.killCalls.length v.leftovers).Perm v.leftovers := Launcher.felled_append_spared_perm
  simp only [sweep_eq, Kills.result, Kills.sweepReport, Kills.count, hended, hfailed, hwhole, List.nil_append,
    ← hperm.length_eq, List.length_append]
  rfl

theorem sweep_pendingKills (hv : v.launcher.Steady) (h : v.registry.pendingKills.Pairwise (· < ·)) :
    v.sweep.1.registry.pendingKills = v.launcher.spared v.killCalls.length v.leftovers :=
  carryOut_pendingKills (v := v.beginSweep.1) (k := { waiting := [] }) hv (Registry.pairwise_orphans h)

theorem Books.sweep (h : v.Books entries) (hv : v.launcher.Steady) :
    v.sweep.1.Books
      (entries.filter fun e => !(v.launcher.felled v.killCalls.length v.leftovers).contains e.pid) :=
  Books.carryOut (v := v.beginSweep.1) (k := { waiting := [] }) (h.of_ledger_eq rfl) hv

theorem sweep_handles (hv : v.launcher.Steady) : v.sweep.1.registry.handles = v.registry.handles :=
  carryOut_handles (v := v.beginSweep.1) hv

/-- What is in the ledger after a sweep is held or was not ended. -/
theorem leftovers_sweep (hv : v.launcher.Steady) (hpending : v.registry.pendingKills.Pairwise (· < ·))
    (hbooks : v.Books entries) : v.sweep.1.leftovers = v.launcher.spared v.killCalls.length v.leftovers := by
  let ended := v.launcher.felled v.killCalls.length v.leftovers
  let failed := v.launcher.spared v.killCalls.length v.leftovers
  have hperm : (ended ++ failed).Perm v.leftovers := Launcher.felled_append_spared_perm
  have hsub : failed.Sublist v.leftovers := Launcher.spared_sublist
  have hsorted : failed.Pairwise (· < ·) := (Registry.pairwise_orphans hpending).sublist hsub
  have hnoted : v.sweep.1.registry.pendingKills = failed := sweep_pendingKills hv hpending
  refine eq_of_ascending (Registry.pairwise_orphans (hnoted ▸ hsorted)) hsorted fun pid => ?_
  rw [mem_leftovers (hbooks.sweep hv), hnoted, sweep_handles hv]
  constructor
  · rintro ⟨hpid | hpid, hfree⟩
    · exact hpid
    · obtain ⟨e, he, rfl⟩ := List.mem_map.mp hpid
      obtain ⟨he, hstays⟩ := List.mem_filter.mp he
      have hfound : e.pid ∈ v.leftovers := (mem_leftovers hbooks).mpr ⟨Or.inr (List.mem_map_of_mem he), hfree⟩
      rcases List.mem_append.mp (hperm.mem_iff.mpr hfound) with hgone | hkept
      · simp [ended, hgone] at hstays
      · exact hkept
  · exact fun hpid => ⟨Or.inl hpid, ((mem_leftovers hbooks).mp (hsub.mem hpid)).2⟩

theorem sweep_launcher (hv : v.launcher.Steady) : v.sweep.1.launcher = v.launcher :=
  carryOut_launcher (v := v.beginSweep.1) hv

/-- A sweep in which no kill breaks down asks for exactly one kill of every process that was left to it or is in the
ledger, unless its browser is held, in ascending order, and reports how many there were. Those that it could not end are
left to the next sweep, which finds exactly them, and those that it ended are struck out of the ledger; the browsers that
are held stay as they are. -/
theorem sweep_settles (hv : v.launcher.Steady) (hpending : v.registry.pendingKills.Pairwise (· < ·))
    (hbooks : v.Books entries) :
    let w := v.sweep.1
    ∃ r again : SweepReport, v.sweep.2 = .ok r ∧ w.sweep.2 = .ok again ∧ ∃ found : List Nat,
      (∀ pid, pid ∈ found ↔
        (pid ∈ v.registry.pendingKills ∨ pid ∈ entries.map (·.pid)) ∧ pid ∉ v.registry.handles.map (·.pid)) ∧
      found.Pairwise (· < ·) ∧ w.killCalls = v.killCalls ++ found ∧
      r.found = found.length ∧ r.found = r.terminated + r.failed ∧
      r.terminated = (v.launcher.felled v.killCalls.length found).length ∧
      r.failed = (v.launcher.spared v.killCalls.length found).length ∧
      w.registry.pendingKills = v.launcher.spared v.killCalls.length found ∧
      w.Books (entries.filter fun e => !(v.launcher.felled v.killCalls.length found).contains e.pid) ∧
      w.registry.handles = v.registry.handles ∧
      again.found = r.failed := by
  intro w
  have hagain := sweep_report (v := w) (by rwa [sweep_launcher hv])
  rw [leftovers_sweep hv hpending hbooks] at hagain
  have hperm : (v.launcher.felled v.killCalls.length v.leftovers ++
      v.launcher.spared v.killCalls.length v.leftovers).Perm v.leftovers := Launcher.felled_append_spared_perm
  exact ⟨_, _, sweep_report hv, hagain, v.leftovers, fun pid => mem_leftovers hbooks,
    Registry.pairwise_orphans hpending, carryOut_killCalls (v := v.beginSweep.1) hv _ _, rfl,
    hperm.length_eq.symm.trans List.length_append, rfl, rfl, sweep_pendingKills hv hpending, hbooks.sweep hv,
    sweep_handles hv, rfl⟩

/-- An entry of an earlier run. -/
def strayEntry (pid : Nat) : LedgerEntry :=
  { pid, jobId := "a", attempt := 1, runId := "run-0", launchedAt := .ofMillis 0 }

/-- A ledger that holds a process twice, and one whose browser is held. -/
def strays : List LedgerEntry :=
  [10001, 10003, 10001, 10002].map strayEntry

/-- A supervisor that holds one browser. One of the processes that were left to it cannot be ended. -/
def littered : Supervisor :=
  { launcher := .stubborn, runId := "run"
    registry := { capacity := 1, handles := [⟨10003, "ws", "b", 1, 0⟩], pendingKills := [10000, 10002] }
    ledger := some { content := .text (Ledger.write strays) } }

theorem littered_books : littered.Books strays := by
  have hnumbers : ∀ pid ∈ [10001, 10003, 10001, 10002], pid ≤ Decimal.wordMax 32 := by decide
  have hrecordable : ∀ e ∈ strays, e.Recordable := by
    intro e he
    obtain ⟨pid, hpid, rfl⟩ := List.mem_map.mp he
    exact ⟨hnumbers pid hpid, show 1 ≤ Decimal.wordMax 32 by decide, Calendar.Stamp.exists_ofMillis (by decide)⟩
  refine ⟨fun slot hslot => ?_, fun hnone => (nomatch hnone)⟩
  obtain rfl := Option.some.inj hslot
  exact Ledger.keeps_write hrecordable

theorem littered_sweep_settles :
    littered.launcher.Steady ∧ littered.registry.pendingKills.Pairwise (· < ·) ∧ littered.Books strays ∧
      littered.sweep.1.killCalls = [10000, 10001, 10002] ∧
      littered.sweep.2 = .ok { found := 3, terminated := 2, failed := 1 } ∧
      littered.sweep.1.registry.pendingKills = [10000] ∧ littered.sweep.1.Books [strayEntry 10003] ∧
      ∃ again : SweepReport, littered.sweep.1.sweep.2 = .ok again ∧ again.found = 1 := by
  have hsteady : littered.launcher.Steady := fun pid _ => by
    show KillEnding.isBroken (if pid == 10000 then _ else _) = false
    split <;> rfl
  have hpending : littered.registry.pendingKills.Pairwise (· < ·) := by decide
  obtain ⟨r, again, hr, hagain, found, hmem, hascending, hkills, hfound, -, hterminated, hfailed, hnoted, hstruck, -,
    hleft⟩ := sweep_settles hsteady hpending littered_books
  obtain rfl : found = [10000, 10001, 10002] := by
    refine eq_of_ascending hascending (by decide) fun pid => ?_
    rw [hmem]
    simp [littered, strays, strayEntry]
    omega
  have hended : littered.launcher.felled littered.killCalls.length [10000, 10001, 10002] = [10001, 10002] := by decide
  have hspared : littered.launcher.spared littered.killCalls.length [10000, 10001, 10002] = [10000] := by decide
  have hstays : (strays.filter fun e => ! [10001, 10002].contains e.pid) = [strayEntry 10003] := by decide
  rw [hended] at hterminated hstruck
  rw [hstays] at hstruck
  rw [hspared] at hfailed hnoted
  have hreport : r = { found := 3, terminated := 2, failed := 1 } := SweepReport.ext hfound hterminated hfailed
  exact ⟨hsteady, hpending, littered_books, hkills, hreport ▸ hr, hnoted, hstruck, again, hagain, hleft.trans hfailed⟩

end Supervisor

/-! ## What is left to a sweep -/

namespace Traffic

variable {s t : Traffic} {n : Nat} {a : Act}

/-- Whatever tasks do, the processes that are left to the next sweep stand there once and ascending. -/
theorem Step.ascending (h : Step n a s t) (hs : s.registry.pendingKills.Pairwise (· < ·)) :
    t.registry.pendingKills.Pairwise (· < ·) := by
  cases h with
  | reserve hn hr =>
      obtain ⟨-, rfl⟩ := Registry.reserve_eq hr
      exact hs
  | takeOut hn hr =>
      unfold Registry.unregister? at hr
      split at hr
      · cases hr
        exact hs
      · cases hr
  | noteForfeited hn | fail hn => exact pairwise_insertAscending hs
  | takeOver hn => exact .nil
  | note hn => exact hs.filter _
  | _ => exact hs

theorem desk_pendingKills_ascending (launcher : Launcher) (runId : String) (capacity : Nat) (ledger : Option Slot)
    (requests : List DeskRequest) :
    let opened : Desk := { supervisor := { launcher, runId, registry := .ofCapacity capacity, ledger } }
    (requests.foldl (fun d request => (d.answer request).1) opened).supervisor.registry.pendingKills.Pairwise
      (· < ·) := by
  intro d
  obtain ⟨trace, t, hruns, ht, -⟩ := serves_answers requests d (opened capacity runId ledger)
    ⟨rfl, rfl, rfl, rfl⟩ fun _ => rfl
  rw [ht.registry]
  exact hruns.preserves (P := fun t => t.registry.pendingKills.Pairwise (· < ·))
    (fun _ _ _ _ _ hstep hs => hstep.ascending hs) .nil

end Traffic

end PageAudit
