import PageAudit.Pool.State
import Mathlib.Data.List.Perm.Basic
import Mathlib.Data.List.Nodup

/-!
# Plan order

The ready jobs stand in plan order, one for each position. Putting a job in its place keeps the order and adds
just that job, as long as its position is free.
-/

namespace PageAudit

/-- Jobs in plan order, no two of one position. -/
def InPlanOrder (jobs : List Job) : Prop :=
  jobs.Pairwise fun a b => a.planIndex < b.planIndex

theorem InPlanOrder.nodup {jobs : List Job} (h : InPlanOrder jobs) : (jobs.map (·.planIndex)).Nodup :=
  List.pairwise_map.mpr (h.imp Nat.ne_of_lt)

theorem mem_insertByPlan {j k : Job} {jobs : List Job} (h : k ∈ insertByPlan j jobs) : k = j ∨ k ∈ jobs := by
  induction jobs with
  | nil => simpa [insertByPlan] using h
  | cons a rest ih =>
      simp only [insertByPlan] at h
      split at h
      · simpa using h
      · split at h
        · rcases List.mem_cons.mp h with rfl | hk
          · exact Or.inl rfl
          · exact Or.inr (List.mem_cons_of_mem _ hk)
        · rcases List.mem_cons.mp h with rfl | hk
          · exact Or.inr List.mem_cons_self
          · rcases ih hk with rfl | hk
            · exact Or.inl rfl
            · exact Or.inr (List.mem_cons_of_mem _ hk)

theorem InPlanOrder.insert {j : Job} {jobs : List Job} (h : InPlanOrder jobs) :
    InPlanOrder (insertByPlan j jobs) := by
  induction jobs with
  | nil => simp [insertByPlan, InPlanOrder]
  | cons a rest ih =>
      obtain ⟨ha, hrest⟩ := List.pairwise_cons.mp h
      simp only [insertByPlan]
      split
      · rename_i hlt
        refine List.pairwise_cons.mpr ⟨fun b hb => ?_, h⟩
        rcases List.mem_cons.mp hb with rfl | hb
        · exact hlt
        · exact Nat.lt_trans hlt (ha b hb)
      · split
        · rename_i heq
          have heq : j.planIndex = a.planIndex := by simpa using heq
          exact List.pairwise_cons.mpr ⟨fun b hb => heq ▸ ha b hb, hrest⟩
        · rename_i hle hne
          have hne : j.planIndex ≠ a.planIndex := by simpa using hne
          refine List.pairwise_cons.mpr ⟨fun b hb => ?_, ih hrest⟩
          rcases mem_insertByPlan hb with rfl | hb
          · omega
          · exact ha b hb

theorem insertByPlan_perm {j : Job} {jobs : List Job} (h : j.planIndex ∉ jobs.map (·.planIndex)) :
    (insertByPlan j jobs).Perm (j :: jobs) := by
  induction jobs with
  | nil => exact List.Perm.refl _
  | cons a rest ih =>
      simp only [List.map_cons, List.mem_cons, not_or] at h
      simp only [insertByPlan]
      split
      · exact List.Perm.refl _
      · split
        · rename_i heq
          exact absurd (by simpa using heq) h.1
        · exact ((ih h.2).cons a).trans (List.Perm.swap j a rest)

/-! ## Several jobs -/

/-- Puts jobs at their places, one after the other. -/
def insertAllByPlan (more ready : List Job) : List Job :=
  more.foldl (fun ready j => insertByPlan j ready) ready

theorem InPlanOrder.insertAll {more ready : List Job} (h : InPlanOrder ready) :
    InPlanOrder (insertAllByPlan more ready) := by
  induction more generalizing ready with
  | nil => exact h
  | cons j more ih => exact ih h.insert

theorem insertAllByPlan_perm {more ready : List Job} (h : ((more ++ ready).map (·.planIndex)).Nodup) :
    (insertAllByPlan more ready).Perm (more ++ ready) := by
  induction more generalizing ready with
  | nil => exact List.Perm.refl _
  | cons j more ih =>
      simp only [List.cons_append, List.map_cons, List.nodup_cons] at h
      have hj : j.planIndex ∉ ready.map (·.planIndex) := fun hm => h.1 (by
        rw [List.map_append]; exact List.mem_append_right _ hm)
      have hp := insertByPlan_perm hj
      have hnext : ((more ++ insertByPlan j ready).map (·.planIndex)).Nodup := by
        refine (((hp.append_left more).trans List.perm_middle).map (·.planIndex)).nodup_iff.mpr ?_
        simpa using h
      exact ((ih hnext).trans (hp.append_left more)).trans List.perm_middle

theorem mem_insertAllByPlan {k : Job} {more ready : List Job} (h : k ∈ insertAllByPlan more ready) :
    k ∈ more ∨ k ∈ ready := by
  induction more generalizing ready with
  | nil => exact Or.inr h
  | cons j more ih =>
      rcases ih h with hk | hk
      · exact Or.inl (List.mem_cons_of_mem _ hk)
      · rcases mem_insertByPlan hk with rfl | hk
        · exact Or.inl List.mem_cons_self
        · exact Or.inr hk

theorem sortByPlan_perm (jobs : List Job) : (sortByPlan jobs).Perm jobs :=
  List.mergeSort_perm _ _

theorem mem_sortByPlan {j : Job} {jobs : List Job} : j ∈ sortByPlan jobs ↔ j ∈ jobs :=
  (sortByPlan_perm jobs).mem_iff

theorem InPlanOrder.sort {jobs : List Job} (h : (jobs.map (·.planIndex)).Nodup) : InPlanOrder (sortByPlan jobs) := by
  have hsorted : (sortByPlan jobs).Pairwise fun a b => decide (a.planIndex ≤ b.planIndex) = true :=
    List.pairwise_mergeSort (fun a b c hab hbc => by simp at *; omega) (fun a b => by simp; omega) jobs
  have hdistinct : ((sortByPlan jobs).map (·.planIndex)).Nodup := ((sortByPlan_perm jobs).map _).nodup_iff.mpr h
  refine (hsorted.and (List.pairwise_map.mp hdistinct)).imp fun {a b} hab => ?_
  exact Nat.lt_of_le_of_ne (of_decide_eq_true hab.1) hab.2

end PageAudit
