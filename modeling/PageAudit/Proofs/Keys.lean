import Mathlib.Data.List.Nodup

/-!
# Lists by key

Elements with a key: those of one key are taken away, the first of each key is kept, the list is cut.
-/

namespace PageAudit

section Keys

variable {α β : Type} [DecidableEq β] {key : α → β} {k gone : β} {l : List α}

theorem mem_keys_filter_ne : k ∈ (l.filter (key · != gone)).map key ↔ k ∈ l.map key ∧ k ≠ gone := by
  simp only [List.mem_map, List.mem_filter, bne_iff_ne]
  constructor
  · rintro ⟨a, ⟨ha, hne⟩, rfl⟩
    exact ⟨⟨a, ha, rfl⟩, hne⟩
  · rintro ⟨⟨a, ha, rfl⟩, hne⟩
    exact ⟨a, ⟨ha, hne⟩, rfl⟩

theorem filter_ne_eq_self (h : gone ∉ l.map key) : l.filter (key · != gone) = l := by
  refine List.filter_eq_self.mpr fun a ha => bne_iff_ne.mpr ?_
  rintro rfl
  exact h (List.mem_map_of_mem ha)

/-- If no key occurs twice, an element is the only one of its key. -/
theorem filter_key_eq (h : (l.map key).Nodup) {a : α} (ha : a ∈ l) : l.filter (key · == key a) = [a] := by
  induction l with
  | nil => cases ha
  | cons b l ih =>
      obtain ⟨hfresh, hl⟩ := List.nodup_cons.mp h
      rcases List.mem_cons.mp ha with rfl | ha
      · have hothers : l.filter (key · == key a) = [] :=
          List.filter_eq_nil_iff.mpr fun c hc hsame => hfresh (beq_iff_eq.mp hsame ▸ List.mem_map_of_mem hc)
        rw [List.filter_cons, if_pos (beq_self_eq_true (key a)), hothers]
      · have hother : ¬(key b == key a) = true := fun hsame =>
          hfresh (beq_iff_eq.mp hsame ▸ List.mem_map_of_mem ha)
        rw [List.filter_cons, if_neg hother, ih hl ha]

/-- The first element of each key. -/
def firsts (key : α → β) (l : List α) : List α :=
  l.eraseDupsBy fun a b => key a == key b

theorem firsts_cons (a : α) (l : List α) : firsts key (a :: l) = a :: firsts key (l.filter (key · != key a)) := by
  have hother : (fun b => decide ((key b == key a) = false)) = (key · != key a) := by
    funext b
    cases h : key b == key a <;> simp [bne, h]
  rw [firsts, List.eraseDupsBy_cons, hother]
  rfl

/-- Taking a key away first or last is the same. -/
theorem firsts_filter (k : β) (l : List α) :
    firsts key (l.filter (key · != k)) = (firsts key l).filter (key · != k) := by
  induction hn : l.length using Nat.strongRecOn generalizing l with
  | ind n ih =>
      cases l with
      | nil => rfl
      | cons a l =>
          have hless : (l.filter (key · != key a)).length < n :=
            Nat.lt_of_le_of_lt (List.length_filter_le _ _) (hn ▸ Nat.lt_succ_self _)
          rw [firsts_cons]
          by_cases hk : key a = k
          · -- the key that goes is that of the first element
            subst hk
            rw [List.filter_cons_of_neg (by simp), List.filter_cons_of_neg (by simp), ← ih _ hless _ rfl,
              List.filter_filter]
            simp only [Bool.and_self]
          · have hkeep : (key a != k) = true := bne_iff_ne.mpr hk
            rw [List.filter_cons, if_pos hkeep, List.filter_cons, if_pos hkeep, firsts_cons, ← ih _ hless _ rfl,
              List.filter_comm]

/-- If no key occurs twice, what was cut off leaves no gap when one key is taken away. -/
theorem take_filter_take (k : β) (h : (l.map key).Nodup) (n : Nat) :
    ((l.take (n + 1)).filter (key · != k)).take n = (l.filter (key · != k)).take n := by
  induction l generalizing n with
  | nil => rfl
  | cons a l ih =>
      obtain ⟨hfresh, hl⟩ := List.nodup_cons.mp h
      rw [List.take_succ_cons]
      by_cases hk : key a = k
      · subst hk
        have hcut : key a ∉ (l.take n).map key := fun hmem => hfresh (((List.take_sublist n l).map key).mem hmem)
        rw [List.filter_cons_of_neg (by simp), List.filter_cons_of_neg (by simp), filter_ne_eq_self hfresh,
          filter_ne_eq_self hcut, List.take_take, Nat.min_self]
      · have hkeep : (key a != k) = true := bne_iff_ne.mpr hk
        rw [List.filter_cons, if_pos hkeep, List.filter_cons, if_pos hkeep]
        cases n with
        | zero => rfl
        | succ n => rw [List.take_succ_cons, List.take_succ_cons, ih hl]

end Keys

end PageAudit
