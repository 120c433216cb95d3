import PageAudit.Concurrency.Window
import Mathlib.Data.List.Count
import Mathlib.Data.List.DropRight

/-!
# Outcomes in a window

A window never forgets how many outcomes it may hold, it holds the last of those that were recorded, and an outcome adds
at most itself to the successes.
-/

namespace PageAudit.Window

variable {w : Window} {history : List Verdict}

theorem count_record_le (w : Window) (v : Verdict) :
    (w.record v).entries.count .success ≤ w.entries.count .success + [v].count .success := by
  unfold record
  dsimp only
  rw [List.count_append]
  refine Nat.add_le_add_right ?_ _
  split
  · exact (List.drop_sublist 1 w.entries).count_le _
  · exact Nat.le_refl _

/-- The last `n` of what came, one more coming: if there are `n`, the first of them gives way. -/
theorem rtake_slide {α : Type} {kept came : List α} {n : Nat} (hsize : 1 ≤ n) (h : kept = came.rtake n) (x : α) :
    (if kept.length == n then kept.drop 1 else kept) ++ [x] = (came ++ [x]).rtake n := by
  obtain ⟨m, rfl⟩ := Nat.exists_eq_add_one.mpr hsize
  rw [List.rtake_concat_succ]
  simp only [h, List.rtake, List.length_drop, beq_iff_eq]
  by_cases hfull : m + 1 ≤ came.length
  · have hlength : came.length - (came.length - (m + 1)) = m + 1 := by omega
    have hnext : came.length - (m + 1) + 1 = came.length - m := by omega
    simp [hlength, hnext]
  · have hlength : came.length ≠ m + 1 := by omega
    have hnone : came.length - (m + 1) = 0 ∧ came.length - m = 0 := by omega
    simp [hnone, hlength]

theorem record_rtake (hsize : 1 ≤ w.capacity) (h : w.entries = history.rtake w.capacity) (v : Verdict) :
    (w.record v).entries = (history ++ [v]).rtake w.capacity :=
  rtake_slide hsize h v

theorem entries_of_full (full : w.isFull = true) (healthy : w.allSuccesses = true) :
    w.entries = List.replicate w.capacity .success := by
  rw [List.eq_replicate_iff]
  exact ⟨by simpa [isFull] using full, by simpa [allSuccesses] using healthy⟩

theorem count_of_full (full : w.isFull = true) (healthy : w.allSuccesses = true) :
    w.entries.count .success = w.capacity := by
  rw [entries_of_full full healthy, List.count_replicate_self]

end PageAudit.Window
