import Mathlib.Data.List.Perm.Subperm
import PageAudit.Proofs.Supervisor.Places
import PageAudit.Supervisor.Desk

/-!
# How many browsers are alive

The capacity bounds the browsers in the registry. A process that was taken out of it still lives until a kill has ended
it, and is not counted any more: there may be as many processes beyond the capacity as there are such ones.
-/

namespace PageAudit

open Files

/-! ## Ascending numbers -/

theorem pairwise_insertAscending {n : Nat} {l : List Nat} (h : l.Pairwise (· < ·)) :
    (insertAscending n l).Pairwise (· < ·) := by
  induction l with
  | nil => exact List.pairwise_singleton _ _
  | cons m rest ih =>
      obtain ⟨hm, hrest⟩ := List.pairwise_cons.mp h
      rw [insertAscending]
      split
      · rename_i hlt
        refine List.pairwise_cons.mpr ⟨fun k hk => ?_, h⟩
        rcases List.mem_cons.mp hk with rfl | hk
        · exact hlt
        · exact Nat.lt_trans hlt (hm k hk)
      · split
        · exact h
        · rename_i hlt hne
          refine List.pairwise_cons.mpr ⟨fun k hk => ?_, ih hrest⟩
          rcases mem_insertAscending.mp hk with rfl | hk
          · rw [beq_iff_eq] at hne
            omega
          · exact hm k hk

namespace Registry

theorem mem_pids_removeJob {r : Registry} {jobId : String} {pid : Nat} (h : pid ∈ r.pids) :
    pid ∈ (r.removeJob jobId).pids ∨ pid ∈ r.pidsOf jobId := by
  obtain ⟨g, hg, rfl⟩ := List.mem_map.mp h
  by_cases hid : g.jobId = jobId
  · exact Or.inr (List.mem_map.mpr ⟨g, List.mem_filter.mpr ⟨hg, by simpa using hid⟩, rfl⟩)
  · exact Or.inl (List.mem_map.mpr ⟨g, List.mem_filter.mpr ⟨hg, by simpa using hid⟩, rfl⟩)

theorem eq_of_capacityExhausted {r : Registry} {jobId : String} {live limit : Nat}
    (h : r.reserve jobId = .error (.capacityExhausted live limit)) :
    live = r.live ∧ limit = r.capacity ∧ r.capacity ≤ r.live := by
  unfold reserve at h
  split at h
  · cases h
  · split at h
    · rename_i hfull
      cases h
      exact ⟨rfl, rfl, hfull⟩
    · cases h

end Registry

namespace Traffic

variable {s t : Traffic} {n : Nat} {a : Act} {capacity : Nat}

/-- Every process that is alive is registered or was taken out of the registry. -/
structure Accounted (s : Traffic) : Prop where
  ascending : s.alive.Pairwise (· < ·)
  kept : ∀ pid ∈ s.alive, pid ∈ s.registry.pids ∨ pid ∈ s.dismissed

theorem accounted_opened (capacity : Nat) (runId : String) (ledger : Option Slot) :
    (opened capacity runId ledger).Accounted :=
  ⟨.nil, fun _ h => by cases h⟩

theorem Accounted.step (hs : s.Accounted) (hplaces : s.Reserved capacity) (h : Step n a s t) : t.Accounted := by
  cases h with
  | reserve hn hr =>
      obtain ⟨-, rfl⟩ := Registry.reserve_eq hr
      exact ⟨hs.ascending, hs.kept⟩
  | @register _ h hn =>
      refine ⟨pairwise_insertAscending hs.ascending, fun pid hpid => ?_⟩
      have hpids : (s.registry.register h).pids = s.registry.pids ++ [h.pid] := by
        rw [Registry.pids, hplaces.exclusive.register_handles ((hplaces.awaited _).mpr ⟨n, _, hn⟩), List.map_append]
        rfl
      show pid ∈ (s.registry.register h).pids ∨ pid ∈ s.dismissed
      rw [hpids, List.mem_append, List.mem_singleton]
      rcases mem_insertAscending.mp hpid with rfl | hold
      · exact Or.inl (Or.inr rfl)
      · exact (hs.kept pid hold).imp_left Or.inl
  | takeOut hn hr =>
      obtain ⟨-, -, -, hpids⟩ := hplaces.exclusive.unregister? hr
      refine ⟨hs.ascending, fun pid hpid => ?_⟩
      rcases hs.kept pid hpid with hheld | hgone
      · rcases hpids pid hheld with hheld | rfl
        · exact Or.inl hheld
        · exact Or.inr List.mem_cons_self
      · exact Or.inr (List.mem_cons_of_mem _ hgone)
  | forfeit hn =>
      refine ⟨hs.ascending, fun pid hpid => ?_⟩
      rcases hs.kept pid hpid with hheld | hgone
      · exact (Registry.mem_pids_removeJob hheld).imp_right (List.mem_append_left _)
      · exact Or.inr (List.mem_append_right _ hgone)
  | drain hn =>
      refine ⟨hs.ascending, fun pid hpid => Or.inr (List.mem_append.mpr (hs.kept pid hpid))⟩
  | succeed hn =>
      refine ⟨hs.ascending.filter _, fun pid hpid => ?_⟩
      obtain ⟨hpid, hne⟩ := List.mem_filter.mp hpid
      exact (hs.kept pid hpid).imp_right fun hgone => List.mem_filter.mpr ⟨hgone, hne⟩
  | _ => exact ⟨hs.ascending, hs.kept⟩

theorem Accounted.alive_le (hs : s.Accounted) :
    s.alive.length ≤ s.registry.handles.length + (s.alive.filter (· ∈ s.dismissed)).length := by
  let others := s.alive.filter fun pid => !decide (pid ∈ s.dismissed)
  have hheld : others ⊆ s.registry.pids := by
    intro pid hpid
    obtain ⟨hpid, hstays⟩ := List.mem_filter.mp hpid
    exact (hs.kept pid hpid).resolve_right (by simpa using hstays)
  have honce : others.Nodup := (hs.ascending.imp Nat.ne_of_lt).filter _
  have hfew : others.length ≤ s.registry.handles.length := by
    simpa [Registry.pids] using (List.subperm_of_subset honce hheld).length_le
  have hsplit : s.alive.length = (s.alive.filter (· ∈ s.dismissed)).length + others.length :=
    List.length_eq_length_filter_add _
  omega

/-- At any time there are no more processes alive and being started than the capacity and the processes that were taken
out of the registry and have not been ended. The capacity is said to be exhausted only when that many browsers are held
and being started. -/
theorem alive_limited {runId : String} {ledger : Option Slot} {trace : List (Nat × Act)}
    (h : Runs Anyhow (opened capacity runId ledger) trace s) :
    s.alive.length + s.registry.launching.length ≤
        max capacity 1 + (s.alive.filter (· ∈ s.dismissed)).length ∧
      ∀ jobId live limit, s.registry.reserve jobId = .error (.capacityExhausted live limit) →
        live = max capacity 1 ∧ limit = max capacity 1 ∧
          live = s.registry.handles.length + s.registry.launching.length := by
  obtain ⟨hplaces, haccounted⟩ : s.Reserved (max capacity 1) ∧ s.Accounted :=
    h.preserves (P := fun t => t.Reserved (max capacity 1) ∧ t.Accounted)
      (fun _ _ _ _ _ hstep hs => ⟨hs.1.step hstep, hs.2.step hs.1 hstep⟩)
      ⟨reserved_opened capacity runId ledger, accounted_opened capacity runId ledger⟩
  have hroom : s.registry.handles.length + s.registry.launching.length ≤ max capacity 1 := hplaces.room
  refine ⟨?_, fun jobId live limit hrefused => ?_⟩
  · have halive := haccounted.alive_le
    omega
  · obtain ⟨rfl, rfl, hfull⟩ := Registry.eq_of_capacityExhausted hrefused
    rw [hplaces.capacity_eq] at hfull ⊢
    exact ⟨Nat.le_antisymm hroom hfull, rfl, rfl⟩

/-- A browser whose kill is still awaited, and another one of the same job. -/
theorem second_browser_alive_limited :
    ∃ trace s, Runs Anyhow (opened 1 "run" none) trace s ∧ s.alive = [10000, 10001] ∧
      s.alive.length + s.registry.launching.length ≤ max 1 1 + (s.alive.filter (· ∈ s.dismissed)).length := by
  have hrun : Runs Anyhow (opened 1 "run" none)
      [(0, .reserve "a" 1), (0, .register ⟨10000, "ws", "a", 1, 0⟩), (0, .record),
        (1, .giveBack ⟨10000, "ws", "a", 1, 0⟩), (1, .takeOut),
        (2, .reserve "a" 2), (2, .register ⟨10001, "ws", "a", 2, 0⟩)] _ :=
    .cons trivial (.reserve rfl rfl) (.cons trivial (.register rfl) (.cons trivial (.record rfl)
      (.cons trivial (.giveBack rfl) (.cons trivial (.takeOut rfl rfl) (.cons trivial (.reserve rfl rfl)
        (.single trivial (.register rfl)))))))
  exact ⟨_, _, hrun, rfl, (alive_limited hrun).1⟩

end Traffic

/-- A launcher that cannot end its first process. -/
def Launcher.stubborn : Launcher where
  launch _ _ := {}
  kill pid _ := { ending := if pid == 10000 then .failed "permission denied" else .done }
  pid n := 10000 + n
  endpoint _ := "ws"

/-- The capacity is one, but after a kill that failed two processes are alive. -/
theorem Desk.failed_kill_exceeds_capacity :
    let opened : Desk := { supervisor := { launcher := .stubborn, runId := "run", registry := .ofCapacity 1 } }
    let last := [.acquire "first" "a" 1 none, .endLease "first" .released, .acquire "second" "b" 1 none].foldl
      (fun d request => (d.answer request).1) opened
    last.supervisor.registry.capacity = 1 ∧ last.supervisor.launched = 2 ∧
      last.supervisor.alive = [10000, 10001] := by
  decide +kernel

end PageAudit
