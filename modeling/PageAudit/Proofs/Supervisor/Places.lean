import PageAudit.Proofs.Supervisor.Minding
import PageAudit.Proofs.Supervisor.Traffic

/-!
# Reserved places

A job holds one browser or has one started, there is a place for every browser that is held or being started, and a
place is reserved exactly as long as a task waits for the start. A start that comes to nothing leaves no trace: without
it, the other tasks could have done the same and come to the same state.
-/

namespace PageAudit

open Files

namespace Registry

variable {r t : Registry} {jobId : String} {h : BrowserHandle}

theorem live_lt_of_reserve (ht : r.reserve jobId = .ok t) : r.live < r.capacity := by
  unfold reserve at ht
  split at ht
  · cases ht
  · split at ht
    · cases ht
    · omega

theorem Exclusive.find?_eq (hr : r.Exclusive) (hh : h ∈ r.handles) :
    r.handles.find? (·.jobId == h.jobId) = some h := by
  cases hfound : r.handles.find? (·.jobId == h.jobId) with
  | none => simpa using List.find?_eq_none.mp hfound h hh
  | some g =>
      have hid : g.jobId = h.jobId := by simpa using List.find?_some hfound
      rw [hr.handle_eq (List.mem_of_find?_eq_some hfound) hh hid]

theorem unregister?_eq (ht : r.unregister? h = some t) : r.holds h = true ∧ t = r.removeJob h.jobId := by
  unfold unregister? at ht
  split at ht
  · rename_i hholds
    cases ht
    exact ⟨hholds, rfl⟩
  · cases ht

theorem reserve_cancelReservation {other : String} (hne : jobId ≠ other) (ht : r.reserve jobId = .ok t) :
    (r.cancelReservation other).reserve jobId = .ok (t.cancelReservation other) := by
  obtain ⟨hfree, rfl⟩ := reserve_eq ht
  have hroom := live_lt_of_reserve ht
  have hfewer : (r.cancelReservation other).live ≤ r.live :=
    Nat.add_le_add_left (List.length_filter_le ..) _
  have hfree' : (r.cancelReservation other).isTaken jobId = false := by
    simp only [isTaken, cancelReservation, Bool.or_eq_false_iff, List.any_eq_false, List.contains_eq_mem,
      decide_eq_false_iff_not, List.mem_filter, not_and]
    refine ⟨fun g hg hid => hfree (List.mem_append_left _ (List.mem_map.mpr ⟨g, hg, by simpa using hid⟩)), ?_⟩
    exact fun hmem => absurd (List.mem_append_right _ hmem) hfree
  have hplace : ¬(r.cancelReservation other).capacity ≤ (r.cancelReservation other).live := by
    show ¬r.capacity ≤ _
    omega
  have hkept : [jobId].filter (· != other) = [jobId] := by simp [hne]
  rw [reserve, if_neg (by simp [hfree']), if_neg hplace]
  simp only [cancelReservation, List.filter_append, hkept]

theorem unregister?_cancelReservation (r : Registry) (h : BrowserHandle) (jobId : String) :
    (r.cancelReservation jobId).unregister? h = (r.unregister? h).map (·.cancelReservation jobId) := by
  show (if r.holds h then _ else _) = _
  rw [unregister?]
  split <;> rfl

theorem register_cancelReservation (r : Registry) (h : BrowserHandle) (jobId : String) :
    (r.cancelReservation jobId).register h = (r.register h).cancelReservation jobId := by
  simp only [register, cancelReservation, List.filter_filter, Bool.and_comm]

theorem cancelReservation_comm (r : Registry) (jobId other : String) :
    (r.cancelReservation jobId).cancelReservation other = (r.cancelReservation other).cancelReservation jobId := by
  simp only [cancelReservation, List.filter_filter, Bool.and_comm]

end Registry

@[simp] theorem Errand.kills_ne_launching {pids : List Nat} {jobId : String} {attempt : Nat} :
    Errand.kills pids ≠ some (.launching jobId attempt) := by
  cases pids with
  | nil => simp [kills]
  | cons pid rest => simp [kills]

namespace Traffic

variable {s t u : Traffic} {n m : Nat} {a : Act} {e : Option Errand} {capacity : Nat} {jobId : String} {attempt : Nat}

/-! ## Places -/

/-- The task waits for the start of a browser for the job. -/
def Awaits (s : Traffic) (n : Nat) (jobId : String) : Prop :=
  ∃ attempt, s.errands n = some (.launching jobId attempt)

/-- The places are reserved for the tasks that wait for a start. -/
structure Reserved (s : Traffic) (capacity : Nat) : Prop where
  capacity_eq : s.registry.capacity = capacity
  exclusive : s.registry.Exclusive
  room : s.registry.live ≤ capacity
  awaited : ∀ jobId, jobId ∈ s.registry.launching ↔ ∃ n, s.Awaits n jobId
  single : ∀ n m jobId, s.Awaits n jobId → s.Awaits m jobId → n = m

theorem reserved_opened (capacity : Nat) (runId : String) (ledger : Option Slot) :
    (opened capacity runId ledger).Reserved (max capacity 1) :=
  ⟨rfl, List.nodup_nil, Nat.zero_le _, fun jobId => by simp [opened, Awaits, Registry.ofCapacity], fun n m jobId h => by
    simp [opened, Awaits] at h⟩

theorem awaits_put (he : ∀ jobId attempt, e ≠ some (.launching jobId attempt)) :
    (s.put n e).Awaits m jobId ↔ m ≠ n ∧ s.Awaits m jobId := by
  by_cases hm : m = n
  · subst hm
    simp [Awaits, he]
  · simp [Awaits, put_errands_of_ne _ _ hm, hm]

theorem awaits_put_launching {other : String} (hn : s.errands n = none) :
    (s.put n (some (.launching jobId attempt))).Awaits m other ↔ m = n ∧ other = jobId ∨ s.Awaits m other := by
  by_cases hm : m = n
  · subst hm
    simp [Awaits, hn, eq_comm]
  · simp [Awaits, put_errands_of_ne _ _ hm, hm]

/-- A task that has no place reserved does something that needs none. -/
theorem Reserved.keep (hs : s.Reserved capacity) (hcapacity : t.registry.capacity = s.registry.capacity)
    (hhandles : t.registry.handles.Sublist s.registry.handles)
    (hlaunching : t.registry.launching = s.registry.launching) (herrands : t.errands = s.errands)
    (hn : ∀ jobId attempt, s.errands n ≠ some (.launching jobId attempt))
    (he : ∀ jobId attempt, e ≠ some (.launching jobId attempt)) : (t.put n e).Reserved capacity := by
  have hsame : ∀ m jobId, (t.put n e).Awaits m jobId ↔ s.Awaits m jobId := by
    intro m jobId
    rw [awaits_put he, Awaits, herrands]
    refine ⟨And.right, fun h => ⟨?_, h⟩⟩
    rintro rfl
    obtain ⟨attempt, h⟩ := h
    exact hn jobId attempt h
  refine ⟨hcapacity.trans hs.capacity_eq, ?_, ?_, fun jobId => ?_, fun n' m' jobId h h' => ?_⟩
  · exact hs.exclusive.of_sublist hhandles (hlaunching ▸ List.Sublist.refl _)
  · refine Nat.le_trans ?_ hs.room
    show t.registry.handles.length + t.registry.launching.length ≤ _
    rw [hlaunching]
    exact Nat.add_le_add_right hhandles.length_le _
  · rw [put_registry, hlaunching, hs.awaited]
    simp only [hsame]
  · exact hs.single n' m' jobId ((hsame ..).mp h) ((hsame ..).mp h')

/-- A task that waited for a start gives its place back or fills it. -/
theorem Reserved.leave (hs : s.Reserved capacity) (hn : s.Awaits n jobId) (herrands : t.errands = s.errands)
    (hcapacity : t.registry.capacity = s.registry.capacity) (hexclusive : t.registry.Exclusive)
    (hlaunching : t.registry.launching = s.registry.launching.filter (· != jobId))
    (hroom : t.registry.live ≤ s.registry.live)
    (he : ∀ jobId attempt, e ≠ some (.launching jobId attempt)) : (t.put n e).Reserved capacity := by
  have hothers : ∀ m other, (t.put n e).Awaits m other ↔ m ≠ n ∧ s.Awaits m other := by
    intro m other
    rw [awaits_put he, Awaits, herrands, Awaits]
  refine ⟨hcapacity.trans hs.capacity_eq, hexclusive, Nat.le_trans hroom hs.room, fun other => ?_,
    fun n' m' other h h' => ?_⟩
  · rw [put_registry, hlaunching, List.mem_filter, bne_iff_ne, hs.awaited]
    simp only [hothers]
    constructor
    · rintro ⟨⟨m, hm⟩, hne⟩
      refine ⟨m, ?_, hm⟩
      rintro rfl
      obtain ⟨⟨_, h⟩, ⟨_, h'⟩⟩ := And.intro hm hn
      rw [h] at h'
      cases h'
      exact hne rfl
    · rintro ⟨m, hne, hm⟩
      refine ⟨⟨m, hm⟩, ?_⟩
      rintro rfl
      exact hne (hs.single m n other hm hn)
  · exact hs.single n' m' other ((hothers ..).mp h).2 ((hothers ..).mp h').2

theorem Reserved.reserve (hs : s.Reserved capacity) {registry : Registry}
    (hn : s.errands n = none) (hr : s.registry.reserve jobId = .ok registry) :
    ({ s with registry }.put n (some (.launching jobId attempt))).Reserved capacity := by
  have hawaits : ∀ m other, ({ s with registry }.put n (some (.launching jobId attempt))).Awaits m other ↔
      m = n ∧ other = jobId ∨ s.Awaits m other := fun m other => awaits_put_launching hn
  have hexclusive := hs.exclusive.reserve hr
  have hlt := Registry.live_lt_of_reserve hr
  obtain ⟨hfree, rfl⟩ := Registry.reserve_eq hr
  have hunawaited : ∀ m, ¬s.Awaits m jobId := fun m hm =>
    hfree (List.mem_append_right _ ((hs.awaited jobId).mpr ⟨m, hm⟩))
  refine ⟨hs.capacity_eq, hexclusive, ?_, fun other => ?_, fun n' m' other h h' => ?_⟩
  · rw [hs.capacity_eq] at hlt
    show s.registry.handles.length + (s.registry.launching ++ [jobId]).length ≤ capacity
    rw [List.length_append, List.length_singleton]
    exact hlt
  · show other ∈ s.registry.launching ++ [jobId] ↔ _
    rw [List.mem_append, List.mem_singleton, hs.awaited]
    simp only [hawaits]
    constructor
    · rintro (⟨m, hm⟩ | rfl)
      · exact ⟨m, Or.inr hm⟩
      · exact ⟨n, Or.inl ⟨rfl, rfl⟩⟩
    · rintro ⟨m, ⟨-, rfl⟩ | hm⟩
      · exact Or.inr rfl
      · exact Or.inl ⟨m, hm⟩
  · rcases (hawaits ..).mp h with ⟨rfl, rfl⟩ | hold
    · rcases (hawaits ..).mp h' with ⟨rfl, -⟩ | hold'
      · rfl
      · exact absurd hold' (hunawaited m')
    · rcases (hawaits ..).mp h' with ⟨-, rfl⟩ | hold'
      · exact absurd hold (hunawaited n')
      · exact hs.single n' m' other hold hold'

theorem Reserved.step (hs : s.Reserved capacity) (h : Step n a s t) : t.Reserved capacity := by
  cases h with
  | reserve hn hr => exact hs.reserve hn hr
  | giveUp hn =>
      refine hs.leave ⟨_, hn⟩ rfl rfl ?_ rfl ?_ (by simp)
      · exact hs.exclusive.of_sublist (List.Sublist.refl _) List.filter_sublist
      · exact Nat.add_le_add_left (List.length_filter_le ..) _
  | @register _ h hn =>
      have hplace : h.jobId ∈ s.registry.launching := (hs.awaited _).mpr ⟨n, _, hn⟩
      refine hs.leave ⟨_, hn⟩ rfl rfl hs.exclusive.register rfl ?_ (by simp)
      -- The browser takes the place that was reserved for it.
      have hfewer : (s.registry.launching.filter (· != h.jobId)).length < s.registry.launching.length :=
        List.length_filter_lt_length_iff_exists.mpr ⟨_, hplace, by simp⟩
      show (s.registry.register h).handles.length + (s.registry.launching.filter (· != h.jobId)).length ≤ _
      rw [hs.exclusive.register_handles hplace, List.length_append, List.length_singleton, Registry.live]
      omega
  | takeOut hn hr =>
      obtain ⟨-, rfl⟩ := Registry.unregister?_eq hr
      exact hs.keep rfl List.filter_sublist rfl rfl (by simp [hn]) (by simp)
  | forfeit hn => exact hs.keep rfl List.filter_sublist rfl rfl (by simp [hn]) (by simp)
  | drain hn => exact hs.keep rfl (List.nil_sublist _) rfl rfl (by simp [hn]) (by simp)
  -- All other acts leave the browsers and the places alone.
  | _ hn => exact hs.keep rfl (.refl _) rfl rfl (by simp [hn]) (by simp)

theorem Runs.reserved {fits : Traffic → Act → Prop} {runId : String} {ledger : Option Slot} {trace : List (Nat × Act)}
    (h : Runs fits (opened capacity runId ledger) trace s) : s.Reserved (max capacity 1) :=
  h.preserves (P := fun t => t.Reserved (max capacity 1)) (fun _ _ _ _ _ hstep hs => hs.step hstep)
    (reserved_opened capacity runId ledger)

/-! ## Starts that come to nothing -/

/-- The traffic without the start that a task waits for. -/
def without (s : Traffic) (n : Nat) (jobId : String) : Traffic :=
  { s with registry := s.registry.cancelReservation jobId }.put n none

theorem without_registry : (s.without n jobId).registry = s.registry.cancelReservation jobId :=
  rfl

theorem without_put (hm : m ≠ n) (e : Option Errand) :
    (s.put m e).without n jobId = (s.without n jobId).put m e := by
  simp [without, put, Function.update_comm hm]

theorem without_errands (hm : m ≠ n) : (s.without n jobId).errands m = s.errands m :=
  put_errands_of_ne _ _ hm

/-- Another task does the same without the start. -/
theorem Reserved.step_without (hs : s.Reserved capacity) (hn : s.Awaits n jobId) (h : Step m a s t) (hm : m ≠ n) :
    Step m a (s.without n jobId) (t.without n jobId) := by
  have hidle : ∀ {e}, s.errands m = e → (s.without n jobId).errands m = e := fun he =>
    (without_errands hm).trans he
  cases h with
  | reserve he hr =>
      have hfree := (Registry.reserve_eq hr).1
      rw [without_put hm]
      refine .reserve (hidle he) (Registry.reserve_cancelReservation ?_ hr)
      rintro rfl
      exact hfree (List.mem_append_right _ ((hs.awaited _).mpr ⟨n, hn⟩))
  | giveUp he =>
      have hstep := Step.giveUp (hidle he)
      rw [without_registry, Registry.cancelReservation_comm] at hstep
      rw [without_put hm]
      exact hstep
  | register he =>
      have hstep := Step.register (hidle he)
      rw [without_registry, Registry.register_cancelReservation] at hstep
      rw [without_put hm]
      exact hstep
  | takeOut he hr =>
      rw [without_put hm]
      exact .takeOut (hidle he) (by simp [without, Registry.unregister?_cancelReservation, hr])
  | passOver he hr =>
      rw [without_put hm]
      exact .passOver (hidle he) (by simp [without, Registry.unregister?_cancelReservation, hr])
  | _ he =>
      rw [without_put hm]
      constructor
      exact hidle he

theorem without_of_reserve (h : Step n (.reserve jobId attempt) s t) :
    t.without n jobId = s := by
  cases h with
  | reserve hn hr =>
      obtain ⟨hfree, rfl⟩ := Registry.reserve_eq hr
      have hgone : (s.registry.launching ++ [jobId]).filter (· != jobId) = s.registry.launching := by
        rw [List.filter_append, List.filter_singleton, bne_self_eq_false, cond_false, List.append_nil]
        refine List.filter_eq_self.mpr fun other hother => bne_iff_ne.mpr ?_
        rintro rfl
        exact hfree (List.mem_append_right _ hother)
      have hidle : Function.update s.errands n none = s.errands := by
        rw [← hn, Function.update_eq_self]
      simp [without, put, Registry.cancelReservation, hgone, hidle]

theorem eq_without_of_giveUp (h : Step n .giveUp s t) (hn : s.Awaits n jobId) : t = s.without n jobId := by
  cases h with
  | giveUp he =>
      obtain ⟨attempt, hn⟩ := hn
      rw [hn] at he
      cases he
      rfl

theorem Reserved.runs_without {trace : List (Nat × Act)} (h : Runs Anyhow s trace t) (hs : s.Reserved capacity)
    (hn : s.Awaits n jobId) (hothers : ∀ x ∈ trace, x.1 ≠ n) :
    t.Awaits n jobId ∧ Runs Anyhow (s.without n jobId) trace (t.without n jobId) := by
  induction h with
  | nil s => exact ⟨hn, .nil _⟩
  | @cons s t u m a trace hfits hstep hrest ih =>
      have hm : m ≠ n := hothers (m, a) List.mem_cons_self
      have hstill : t.Awaits n jobId := by
        rw [Awaits, hstep.errands_of_ne hm.symm]
        exact hn
      obtain ⟨hend, hruns⟩ := ih (hs.step hstep) hstill fun x hx => hothers x (List.mem_cons_of_mem _ hx)
      exact ⟨hend, .cons trivial (hs.step_without hn hstep hm) hruns⟩

/-! ## The registry at any time -/

/-- What the registry looks like while tasks go on. -/
structure Orderly (s : Traffic) (capacity : Nat) : Prop where
  room : s.registry.handles.length + s.registry.launching.length ≤ capacity
  /-- No job holds a browser while one is started for it. -/
  apart : ∀ h ∈ s.registry.handles, h.jobId ∉ s.registry.launching
  /-- A browser is found under the job that it belongs to. -/
  own : ∀ h ∈ s.registry.handles, s.registry.handles.find? (·.jobId == h.jobId) = some h
  /-- A job has at most one browser. -/
  once : (s.registry.handles.map (·.jobId)).Nodup
  /-- A browser that was started is put beside all others. -/
  beside : ∀ n h t, Step n (.register h) s t → t.registry.handles = s.registry.handles ++ [h]
  /-- Starts are those that tasks wait for, each of them one. -/
  awaited : ∀ jobId, jobId ∈ s.registry.launching ↔ ∃ n, s.Awaits n jobId
  single : s.registry.launching.Nodup ∧ ∀ n m jobId, s.Awaits n jobId → s.Awaits m jobId → n = m

theorem Reserved.orderly (hs : s.Reserved capacity) : s.Orderly capacity where
  room := hs.room
  apart h hh hlaunching := List.disjoint_of_nodup_append hs.exclusive (List.mem_map_of_mem hh) hlaunching
  own _ hh := hs.exclusive.find?_eq hh
  once := hs.exclusive.of_append_left
  beside n h t hstep := by
    cases hstep with
    | register hn => exact hs.exclusive.register_handles ((hs.awaited _).mpr ⟨n, _, hn⟩)
  awaited := hs.awaited
  single := ⟨hs.exclusive.of_append_right, hs.single⟩

/-- However tasks come in between each other and whatever the launcher answers, the registry is in order, and a start
that fails, breaks down or is stopped leaves what the other tasks have made of the state before it. -/
theorem places_kept {runId : String} {ledger : Option Slot} {trace : List (Nat × Act)}
    (h : Runs Anyhow (opened capacity runId ledger) trace s) :
    s.Orderly (max capacity 1) ∧
      ∀ n jobId attempt begun others u t, Step n (.reserve jobId attempt) s begun → Runs Anyhow begun others u →
        (∀ x ∈ others, x.1 ≠ n) → Step n .giveUp u t →
          Runs Anyhow s others t ∧ ∀ t', Runs Anyhow s others t' → t' = t := by
  have hs := h.reserved
  refine ⟨hs.orderly, fun n jobId attempt begun others u t hreserve hruns hothers hgiveUp => ?_⟩
  have hawaits : begun.Awaits n jobId := by
    cases hreserve with
    | reserve hn hr => exact ⟨attempt, put_errands_self ..⟩
  obtain ⟨hstill, herased⟩ := (hs.step hreserve).runs_without hruns hawaits hothers
  rw [without_of_reserve hreserve, ← eq_without_of_giveUp hgiveUp hstill] at herased
  exact ⟨herased, fun t' ht' => ht'.unique herased⟩

theorem failed_start_places_kept :
    ∃ s begun u t, Runs Anyhow (opened 2 "run" none) [(0, .reserve "a" 1)] s ∧ Step 1 (.reserve "b" 1) s begun ∧
      Runs Anyhow begun [(0, .register ⟨10000, "ws", "a", 1, 0⟩), (0, .record)] u ∧ Step 1 .giveUp u t ∧ s.Orderly 2 ∧
      Runs Anyhow s [(0, .register ⟨10000, "ws", "a", 1, 0⟩), (0, .record)] t := by
  have hfirst : Runs Anyhow (opened 2 "run" none) [(0, .reserve "a" 1)] _ := .single trivial (.reserve rfl rfl)
  obtain ⟨horderly, herased⟩ := places_kept hfirst
  refine ⟨_, _, _, _, hfirst, .reserve rfl rfl, .cons trivial (.register rfl) (.single trivial (.record rfl)),
    .giveUp rfl, horderly, ?_⟩
  exact (herased 1 "b" 1 _ _ _ _ (.reserve rfl rfl) (.cons trivial (.register rfl) (.single trivial (.record rfl)))
    (by decide) (.giveUp rfl)).1

end Traffic

end PageAudit
