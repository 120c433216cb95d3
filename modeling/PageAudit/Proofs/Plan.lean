import PageAudit.Plan
import Mathlib.Data.List.Nodup
import Mathlib.Data.List.Range

/-!
# Accepted plans

The jobs of a plan that was accepted are queued, have identifiers of their own and stand at their positions.
-/

namespace PageAudit

theorem validateFrom_ok {seen : List String} {index : Nat} {jobs : List Job}
    (h : validateFrom seen index jobs = .ok ()) :
    (∀ j ∈ jobs, j.state = .queued ∧ j.id ∉ seen) ∧ (jobs.map (·.id)).Nodup ∧
      jobs.map (·.planIndex) = List.range' index jobs.length := by
  induction jobs generalizing seen index with
  | nil => exact ⟨fun _ hj => absurd hj List.not_mem_nil, List.nodup_nil, rfl⟩
  | cons j rest ih =>
      unfold validateFrom at h
      split at h
      · cases h
      rename_i hseen
      split at h
      · cases h
      rename_i hplace
      split at h
      · cases h
      rename_i hstate
      obtain ⟨hrest, hnodup, hindices⟩ := ih h
      refine ⟨fun k hk => ?_, ?_, ?_⟩
      · rcases List.mem_cons.mp hk with rfl | hk
        · exact ⟨by simpa using hstate, by simpa using hseen⟩
        · exact ⟨(hrest k hk).1, fun hm => (hrest k hk).2 (List.mem_cons_of_mem _ hm)⟩
      · refine List.nodup_cons.mpr ⟨fun hm => ?_, hnodup⟩
        obtain ⟨k, hk, hid⟩ := List.mem_map.mp hm
        exact (hrest k hk).2 (hid ▸ List.mem_cons_self)
      · have hindex : j.planIndex = index := by simpa using hplace
        simp only [List.map_cons, hindices, hindex, List.length_cons, List.range'_succ]

/-- What is known of the jobs of a plan that was accepted. -/
structure AcceptedPlan (plan : List Job) : Prop where
  queued : ∀ j ∈ plan, j.state = .queued
  ids : (plan.map (·.id)).Nodup
  indices : plan.map (·.planIndex) = List.range plan.length

theorem AcceptedPlan.of_validate {plan : List Job} (h : validatePlan plan = .ok ()) : AcceptedPlan plan := by
  obtain ⟨hjobs, hids, hindices⟩ := validateFrom_ok h
  exact ⟨fun j hj => (hjobs j hj).1, hids, hindices.trans List.range_eq_range'.symm⟩

namespace AcceptedPlan

variable {plan : List Job} {i : Nat} {job : Job}

theorem nodup (h : AcceptedPlan plan) : (plan.map (·.planIndex)).Nodup := by
  rw [h.indices]
  exact List.nodup_range

theorem planIndex_eq (h : AcceptedPlan plan) (hi : plan[i]? = some job) : job.planIndex = i := by
  have hmap : (plan.map (·.planIndex))[i]? = some job.planIndex := by
    rw [List.getElem?_map, hi]
    rfl
  rw [h.indices] at hmap
  obtain ⟨_, hget⟩ := List.getElem?_eq_some_iff.mp hmap
  rw [← hget, List.getElem_range]

end AcceptedPlan

end PageAudit
