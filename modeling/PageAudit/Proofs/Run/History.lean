import Mathlib.Data.Finset.Card
import PageAudit.Proofs.Json.Records
import PageAudit.Proofs.Keys
import PageAudit.Run.History

/-!
# The history after any runs

Recording a run puts it first, drops the older account of the same run and cuts the list. What was cut off cannot matter
later, so doing this run by run is the same as doing it once at the end.
-/

namespace PageAudit

open Document Files Json Decimal

/-! ## Accounts in a file -/

/-- An account that is read back as it was written: its numbers have 64 bits. -/
structure HistoryEntry.Recordable (e : HistoryEntry) : Prop where
  jobCount : e.jobCount ≤ wordMax 64
  succeeded : e.succeeded ≤ wordMax 64
  failed : e.failed ≤ wordMax 64
  cancelled : e.cancelled ≤ wordMax 64

namespace HistoryEntry

variable {e : HistoryEntry}

theorem data_isExact (h : e.Recordable) : IsExact e.data := by
  simp only [data, IsExact, HaveExact, and_true, true_and]
  exact ⟨isExact_nat h.jobCount, isExact_nat h.succeeded, isExact_nat h.failed, isExact_nat h.cancelled⟩

theorem ofData?_data (h : e.Recordable) : ofData? e.data = some e := by
  have hstate : RunState.ofData? (.str e.finalState.name) = some e.finalState := by
    cases e.finalState <;> decide
  have hrecord : e.data.record? ["id", "created_at", "job_count", "succeeded", "failed", "cancelled", "final_state",
      "output_dir"] .refused =
      some (.byName [("id", .str e.id), ("created_at", .str e.createdAt), ("job_count", .nat e.jobCount),
        ("succeeded", .nat e.succeeded), ("failed", .nat e.failed), ("cancelled", .nat e.cancelled),
        ("final_state", .str e.finalState.name), ("output_dir", .str e.outputDir)]) := by
    simp only [data, Data.record?, List.map]
    rw [if_pos (by decide)]
  simp [ofData?, hrecord, Record.field?, Record.find?, List.lookup_cons, Data.word?_nat h.jobCount,
    Data.word?_nat h.succeeded, Data.word?_nat h.failed, Data.word?_nat h.cancelled, hstate, Data.str?]

end HistoryEntry

namespace History

variable {slot after : Slot} {entries : List HistoryEntry} {e : HistoryEntry}

theorem read?_write (h : ∀ e ∈ entries, e.Recordable) : read? (write entries) = some entries :=
  readList_indented (fun e he => HistoryEntry.data_isExact (h e he)) fun e he => HistoryEntry.ofData?_data (h e he)

/-- A run that was recorded is put into the accounts of the file. -/
theorem load_record (h : record slot e = .ok after) (hentries : ∀ f ∈ insert (load slot) e, f.Recordable) :
    load after = insert (load slot) e := by
  unfold record Slot.write at h
  split at h
  · cases h
  · split at h
    · cases h
      exact congrArg (Option.getD · []) (read?_write hentries)
    · cases h

/-- The latest account of each run, the newest first. -/
def latest (entries : List HistoryEntry) : List HistoryEntry :=
  firsts (·.id) entries.reverse

theorem latest_concat (entries : List HistoryEntry) (e : HistoryEntry) :
    latest (entries ++ [e]) = e :: (latest entries).filter (·.id != e.id) := by
  rw [latest, List.reverse_concat, firsts_cons, firsts_filter, latest]

theorem nodup_latest (entries : List HistoryEntry) : ((latest entries).map (·.id)).Nodup := by
  induction entries using List.reverseRecOn with
  | nil => exact .nil
  | append_singleton entries e ih =>
      rw [latest_concat, List.map_cons, List.nodup_cons]
      exact ⟨fun hmem => (mem_keys_filter_ne.mp hmem).2 rfl, (List.filter_sublist.map _).nodup ih⟩

theorem mem_of_mem_latest (h : e ∈ latest entries) : e ∈ entries := by
  induction entries using List.reverseRecOn with
  | nil => cases h
  | append_singleton entries f ih =>
      rw [latest_concat, List.mem_cons] at h
      rcases h with rfl | h
      · exact List.mem_concat_self
      · exact List.mem_append_left _ (ih (List.mem_of_mem_filter h))

theorem mem_ids_latest {entries : List HistoryEntry} {id : String} :
    id ∈ (latest entries).map (·.id) ↔ id ∈ entries.map (·.id) := by
  induction entries using List.reverseRecOn with
  | nil => rfl
  | append_singleton entries e ih =>
      rw [latest_concat, List.map_cons, List.mem_cons, mem_keys_filter_ne, ih, List.map_append, List.mem_append,
        List.map_singleton, List.mem_singleton]
      tauto

theorem head?_latest (entries : List HistoryEntry) : (latest entries).head? = entries.getLast? := by
  rcases List.eq_nil_or_concat' entries with rfl | ⟨earlier, e, rfl⟩
  · rfl
  · rw [latest_concat, List.head?_cons, List.getLast?_concat]

theorem length_latest (entries : List HistoryEntry) : (latest entries).length = (entries.map (·.id)).toFinset.card := by
  have hids : ((latest entries).map (·.id)).toFinset = (entries.map (·.id)).toFinset := by
    ext id
    rw [List.mem_toFinset, List.mem_toFinset, mem_ids_latest]
  rw [← hids, List.toFinset_card_of_nodup (nodup_latest entries), List.length_map]

/-- Cutting off before a run is recorded makes no difference. -/
theorem insert_take_latest (entries : List HistoryEntry) (e : HistoryEntry) :
    insert ((latest entries).take limit) e = (latest (entries ++ [e])).take limit := by
  rw [insert, latest_concat, limit, List.take_succ_cons, List.take_succ_cons,
    take_filter_take e.id (nodup_latest entries)]

/-- What was cut off does not come back. -/
theorem mem_take_latest_append {earlier later : List HistoryEntry} (h : e ∈ (latest (earlier ++ later)).take limit) :
    e ∈ (latest earlier).take limit ∨ e ∈ later := by
  induction later using List.reverseRecOn with
  | nil =>
      rw [List.append_nil] at h
      exact Or.inl h
  | append_singleton later f ih =>
      rw [← List.append_assoc, ← insert_take_latest] at h
      rcases List.mem_cons.mp (List.mem_of_mem_take h) with rfl | h
      · exact Or.inr List.mem_concat_self
      · exact (ih (List.mem_of_mem_filter h)).imp_right (List.mem_append_left _)

/-! ## Any runs -/

theorem record_ok (hwritable : slot.writable = true) (hfile : slot.content ≠ .directory) (e : HistoryEntry) :
    ∃ after, record slot e = .ok after ∧ after.writable = true ∧ after.content ≠ .directory :=
  ⟨{ slot with content := .text (write (insert (load slot) e)) }, by simp [record, Slot.write, hfile, hwritable],
    hwritable, nofun⟩

theorem records_ok (hwritable : slot.writable = true) (hfile : slot.content ≠ .directory)
    (entries : List HistoryEntry) : ∃ after, entries.foldlM record slot = .ok after := by
  induction entries generalizing slot with
  | nil => exact ⟨slot, rfl⟩
  | cons e entries ih =>
      obtain ⟨between, hrecord, hwritable, hfile⟩ := record_ok hwritable hfile e
      obtain ⟨after, hafter⟩ := ih hwritable hfile
      exact ⟨after, by rw [List.foldlM_cons, hrecord]; exact hafter⟩

/-- After any runs the file has the first hundred of the latest accounts. -/
theorem load_records (hstart : slot.content = .absent) (hentries : ∀ e ∈ entries, e.Recordable)
    (h : entries.foldlM record slot = .ok after) : load after = (latest entries).take limit := by
  induction entries using List.reverseRecOn generalizing after with
  | nil =>
      cases h
      simp only [load, hstart, Content.read]
      rfl
  | append_singleton entries e ih =>
      rw [List.foldlM_append] at h
      cases hbetween : entries.foldlM record slot with
      | error fault =>
          rw [hbetween] at h
          cases h
      | ok between =>
          rw [hbetween] at h
          have hrecord : record between e = .ok after := by
            rw [← bind_pure (record between e)]
            exact h
          have hload := ih (fun f hf => hentries f (List.mem_append_left _ hf)) hbetween
          have hinsert : insert (load between) e = (latest (entries ++ [e])).take limit :=
            hload ▸ insert_take_latest entries e
          rw [load_record hrecord ?_, hinsert]
          intro f hf
          rw [hinsert] at hf
          exact hentries f (mem_of_mem_latest (List.mem_of_mem_take hf))

/-- **Run history.** Record any runs, some perhaps again, where there was no file. A file that can be written takes all of
them. The file then gives the first hundred of the accounts from the newest on, each run with its latest account only:
no run stands there twice, the newest account is first, there are as many accounts as runs up to a hundred, and each is as
it was recorded. An account that was cut off comes back only if it is recorded again. -/
theorem recorded_runs (hstart : slot.content = .absent) (hentries : ∀ e ∈ entries, e.Recordable) :
    (slot.writable = true → ∃ after, entries.foldlM record slot = .ok after) ∧
    ∀ after, entries.foldlM record slot = .ok after →
      load after = (firsts (·.id) entries.reverse).take 100 ∧
      ((load after).map (·.id)).Nodup ∧
      (load after).head? = entries.getLast? ∧
      (load after).length = min 100 (entries.map (·.id)).toFinset.card ∧
      (∀ e ∈ load after, e ∈ entries) ∧
      ∀ earlier later between, entries = earlier ++ later → earlier.foldlM record slot = .ok between →
        ∀ e ∈ load after, e ∈ load between ∨ e ∈ later := by
  refine ⟨fun hwritable => records_ok hwritable (by simp [hstart]) entries, fun after h => ?_⟩
  have hload := load_records hstart hentries h
  rw [hload]
  refine ⟨rfl, ?_, ?_, ?_, ?_, ?_⟩
  · exact ((List.take_sublist _ _).map _).nodup (nodup_latest entries)
  · rw [List.head?_take, if_neg (by decide), head?_latest]
  · rw [List.length_take, length_latest]
    rfl
  · exact fun e he => mem_of_mem_latest (List.mem_of_mem_take he)
  · rintro earlier later between rfl hbetween e he
    rw [load_records hstart (fun f hf => hentries f (List.mem_append_left _ hf)) hbetween]
    exact mem_take_latest_append he

/-- Two runs, the first of which is recorded again. -/
theorem three_accounts_recorded :
    let first : HistoryEntry :=
      { id := "run-1", createdAt := "2026-01-01T00:00:00Z", jobCount := 3, succeeded := 1, failed := 0, cancelled := 2,
        finalState := .aborted, outputDir := "audit-runs/run-1" }
    let second : HistoryEntry := { first with id := "run-2", createdAt := "说\"\n" }
    let again : HistoryEntry := { first with succeeded := 3, cancelled := 0, finalState := .completed }
    let entries := [first, second, again]
    ({} : Slot).content = .absent ∧ (∀ e ∈ entries, e.Recordable) ∧ ({} : Slot).writable = true ∧
    ∃ between after, [first, second].foldlM record {} = .ok between ∧ entries.foldlM record {} = .ok after ∧
      load after = [again, second] ∧ (load after).length = min 100 2 ∧
      ∀ e ∈ load after, e ∈ load between ∨ e ∈ [again] := by
  intro first second again entries
  have hentries : ∀ e ∈ entries, e.Recordable := by
    simp only [entries, List.forall_mem_cons]
    exact ⟨⟨by decide, by decide, by decide, by decide⟩, ⟨by decide, by decide, by decide, by decide⟩,
      ⟨by decide, by decide, by decide, by decide⟩, List.forall_mem_nil _⟩
  have hearlier : ∀ e ∈ [first, second], e.Recordable := fun e he => hentries e (List.mem_append_left [again] he)
  have hstart : ({} : Slot).content = .absent := rfl
  obtain ⟨between, hbetween⟩ := (recorded_runs hstart hearlier).1 rfl
  obtain ⟨after, hafter⟩ := (recorded_runs hstart hentries).1 rfl
  obtain ⟨hload, -, -, hlength, -, hback⟩ := (recorded_runs hstart hentries).2 after hafter
  exact ⟨hstart, hentries, rfl, between, after, hbetween, hafter, hload.trans (by decide), hlength.trans (by decide),
    hback [first, second] [again] between rfl hbetween⟩

end History

end PageAudit
