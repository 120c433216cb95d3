import PageAudit.Document.Record
import PageAudit.Proofs.Json.RoundTrip

/-!
# Lists of records there and back

A file holds a list of records. If each of them is read back from its own value, so is the list from its text.
-/

namespace PageAudit.Document

open Decimal

variable {bits n : Nat} {d : Data}

theorem Data.word?_nat (h : n ≤ wordMax bits) : Data.word? bits (.nat n) = some n := by
  simp only [Data.word?, Data.nat, Bool.and_eq_true, decide_eq_true_eq]
  rw [if_pos ⟨Int.natCast_nonneg n, by omega⟩, Int.toNat_natCast]

theorem Data.le_of_word? (h : d.word? bits = some n) : n ≤ wordMax bits := by
  unfold Data.word? at h
  split at h
  · split at h
    · rename_i hbounds
      simp only [Bool.and_eq_true, decide_eq_true_eq] at hbounds
      cases h
      omega
    · cases h
  · cases h

end PageAudit.Document

namespace PageAudit.Json

open PageAudit.Document PageAudit.Decimal

theorem isExact_nat {n : Nat} (h : n ≤ wordMax 64) : IsExact (.nat n) := by
  simp only [Data.nat, IsExact]
  omega

/-- A list that was written is read back, if its elements are. -/
theorem readList_indented {α : Type} {data : α → Data} {read : Data → Option α} {xs : List α}
    (hexact : ∀ x ∈ xs, IsExact (data x)) (hread : ∀ x ∈ xs, read (data x) = some x) :
    (read? (indented (.list (xs.map data)) ++ "\n") >>= Data.list? read) = some xs := by
  have hlist : IsExact (.list (xs.map data)) := areExact_iff.mpr (List.forall_mem_map.mpr hexact)
  have hjson : read? (indented (.list (xs.map data)) ++ "\n") = some (.list (xs.map data)) :=
    read?_indented hlist (.cons (by decide)) (by decide)
  have hitems : (xs.map data).mapM read = some xs := by
    clear hexact hlist hjson
    induction xs with
    | nil => rfl
    | cons x xs ih =>
        obtain ⟨hx, hxs⟩ := List.forall_mem_cons.mp hread
        simp [List.mapM_cons, hx, ih hxs]
  rw [hjson]
  exact hitems

end PageAudit.Json
