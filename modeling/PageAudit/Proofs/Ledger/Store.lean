import PageAudit.Ledger.Store
import PageAudit.Proofs.Calendar.Stamps
import PageAudit.Proofs.Json.Records
import PageAudit.Proofs.Keys

/-!
# The ledger file there and back

A file that can be read and written keeps its entries: after a process was recorded or removed, reading the file gives
the old entries with exactly that change.
-/

namespace PageAudit

open Document Calendar Files Text Json Decimal

/-! ## Entries -/

/-- An entry that is read back as it was written: its numbers have 32 bits and its stamp exists. -/
structure LedgerEntry.Recordable (e : LedgerEntry) : Prop where
  pid : e.pid ≤ wordMax 32
  attempt : e.attempt ≤ wordMax 32
  launchedAt : e.launchedAt.Exists

namespace LedgerEntry

variable {e : LedgerEntry} {d : Data}

theorem data_isExact (h : e.Recordable) : IsExact e.data := by
  have hwide : wordMax 32 ≤ wordMax 64 := by decide
  simp only [data, IsExact, HaveExact, and_true, true_and]
  exact ⟨isExact_nat (h.pid.trans hwide), isExact_nat (h.attempt.trans hwide)⟩

theorem ofData?_data (h : e.Recordable) : ofData? e.data = some e := by
  have hstamp : stampOfData? (.str e.launchedAt.write) = some e.launchedAt := by
    simp only [stampOfData?, Data.str?, Option.bind_eq_bind, Option.bind_some, Stamp.read?_write h.launchedAt]
  have hrecord : e.data.record? ["pid", "job_id", "attempt", "run_id", "launched_at"] .refused =
      some (.byName [("pid", .nat e.pid), ("job_id", .str e.jobId), ("attempt", .nat e.attempt),
        ("run_id", .str e.runId), ("launched_at", .str e.launchedAt.write)]) := by
    simp only [data, Data.record?, List.map]
    rw [if_pos (by decide)]
  simp [ofData?, hrecord, Record.field?, Record.find?, List.lookup_cons, Data.word?_nat h.pid,
    Data.word?_nat h.attempt, hstamp, Data.str?]

theorem recordable_of_ofData? (h : ofData? d = some e) : e.Recordable := by
  unfold ofData? at h
  obtain ⟨r, -, h⟩ := Option.bind_eq_some_iff.mp h
  obtain ⟨pid, hpid, h⟩ := Option.bind_eq_some_iff.mp h
  obtain ⟨jobId, -, h⟩ := Option.bind_eq_some_iff.mp h
  obtain ⟨attempt, hattempt, h⟩ := Option.bind_eq_some_iff.mp h
  obtain ⟨runId, -, h⟩ := Option.bind_eq_some_iff.mp h
  obtain ⟨launchedAt, hlaunched, h⟩ := Option.bind_eq_some_iff.mp h
  cases h
  obtain ⟨_, -, hpid⟩ := Option.bind_eq_some_iff.mp hpid
  obtain ⟨_, -, hattempt⟩ := Option.bind_eq_some_iff.mp hattempt
  obtain ⟨_, -, hlaunched⟩ := Option.bind_eq_some_iff.mp hlaunched
  obtain ⟨_, -, hlaunched⟩ := Option.bind_eq_some_iff.mp hlaunched
  exact ⟨Data.le_of_word? hpid, Data.le_of_word? hattempt, .of_read? hlaunched⟩

end LedgerEntry

/-! ## Files -/

namespace Ledger

variable {entries : List LedgerEntry} {slot : Slot}

theorem not_isBlankText_write (entries : List LedgerEntry) : isBlankText (write entries) = false := by
  have hopen : ∃ cs, (write entries).toList = '[' :: cs := by
    cases entries with
    | nil => exact ⟨_, by simp [write, indented, indentedChars]; rfl⟩
    | cons e es => exact ⟨_, by simp [write, indented, indentedChars]; rfl⟩
  obtain ⟨cs, hcs⟩ := hopen
  rw [isBlankText, hcs]
  rfl

theorem read?_write (h : ∀ e ∈ entries, e.Recordable) : read? (write entries) = some entries := by
  rw [read?, not_isBlankText_write]
  exact readList_indented (fun e he => LedgerEntry.data_isExact (h e he)) fun e he => LedgerEntry.ofData?_data (h e he)

theorem recordable_of_read? {s : String} (h : read? s = some entries) : ∀ e ∈ entries, e.Recordable := by
  have hitems : ∀ (items : List Data) (entries : List LedgerEntry), items.mapM LedgerEntry.ofData? = some entries →
      ∀ e ∈ entries, e.Recordable := by
    intro items
    induction items with
    | nil =>
        intro entries h
        cases h
        simp
    | cons d ds ih =>
        intro entries h
        rw [List.mapM_cons] at h
        obtain ⟨e, he, h⟩ := Option.bind_eq_some_iff.mp h
        obtain ⟨es, hes, h⟩ := Option.bind_eq_some_iff.mp h
        cases h
        exact List.forall_mem_cons.mpr ⟨LedgerEntry.recordable_of_ofData? he, ih es hes⟩
  unfold read? at h
  split at h
  · cases h
    simp
  · obtain ⟨d, -, h⟩ := Option.bind_eq_some_iff.mp h
    cases d with
    | list items => exact hitems items entries h
    | _ => cases h

theorem recordable_of_load (h : load slot = .ok entries) : ∀ e ∈ entries, e.Recordable := by
  unfold load at h
  split at h
  · cases h
    simp
  · cases h
  · split at h
    · rename_i hread
      cases h
      exact recordable_of_read? hread
    · cases h

theorem recordable_insert {e : LedgerEntry} (he : e.Recordable) (h : ∀ f ∈ entries, f.Recordable) :
    ∀ f ∈ insert entries e, f.Recordable := by
  intro f hf
  rcases List.mem_append.mp hf with hf | hf
  · exact h f (List.mem_of_mem_filter hf)
  · exact List.mem_singleton.mp hf ▸ he

theorem recordable_erase {pid : Nat} (h : ∀ f ∈ entries, f.Recordable) : ∀ f ∈ erase entries pid, f.Recordable :=
  fun f hf => h f (List.mem_of_mem_filter hf)

theorem erase_eq_self {pid : Nat} (h : entries.any (·.pid == pid) = false) : erase entries pid = entries := by
  refine filter_ne_eq_self fun hmem => ?_
  obtain ⟨e, he, hpid⟩ := List.mem_map.mp hmem
  exact List.any_eq_false.mp h e he (beq_iff_eq.mpr hpid)

/-- The file can be written, and its entries can be read. -/
structure Keeps (slot : Slot) (entries : List LedgerEntry) : Prop where
  writable : slot.writable = true
  load : load slot = .ok entries

/-- A file that was written. -/
theorem keeps_write (h : ∀ e ∈ entries, e.Recordable) : Keeps { content := .text (write entries) } entries :=
  ⟨rfl, by simp [load, Content.read, read?_write h]⟩

namespace Keeps

variable {e : LedgerEntry}

theorem save (h : Keeps slot entries) {new : List LedgerEntry} (hnew : ∀ e ∈ new, e.Recordable) :
    ∃ t, save slot new = .ok t ∧ Keeps t new := by
  have hfile : (slot.content == .directory) = false := by
    rw [beq_eq_false_iff_ne]
    intro hdir
    have hload := h.load
    simp [Ledger.load, hdir, Content.read] at hload
  refine ⟨{ slot with content := .text (write new) }, ?_, h.writable, ?_⟩
  · simp [Ledger.save, Slot.write, hfile, h.writable]
  · simp [Ledger.load, Content.read, read?_write hnew]

/-- Recording a process puts its entry in place of those it had. -/
theorem record (h : Keeps slot entries) (he : e.Recordable) :
    ∃ t, record slot e = .ok t ∧ Keeps t (insert entries e) := by
  obtain ⟨t, hsave, ht⟩ := h.save (recordable_insert he (recordable_of_load h.load))
  exact ⟨t, by simp [Ledger.record, h.load, bind, Except.bind, hsave], ht⟩

/-- Removing a process takes its entries away. -/
theorem remove (h : Keeps slot entries) (pid : Nat) :
    ∃ t, remove slot pid = .ok t ∧ Keeps t (erase entries pid) := by
  by_cases hany : entries.any (·.pid == pid) = true
  · obtain ⟨t, hsave, ht⟩ := h.save (recordable_erase (recordable_of_load h.load))
    exact ⟨t, by simp only [Ledger.remove, h.load, bind, Except.bind, hany, if_true, hsave], ht⟩
  · refine ⟨slot, ?_, (erase_eq_self (Bool.eq_false_of_not_eq_true hany)).symm ▸ h⟩
    simp [Ledger.remove, h.load, bind, Except.bind, hany, pure, Except.pure]

end Keeps

theorem mem_pids_insert {e : LedgerEntry} {pid : Nat} :
    pid ∈ (insert entries e).map (·.pid) ↔ pid = e.pid ∨ pid ∈ entries.map (·.pid) := by
  by_cases hpid : pid = e.pid
  · simp [insert, hpid]
  · simp only [insert, List.map_append, List.mem_append, List.mem_map, List.mem_filter, bne_iff_ne]
    constructor
    · rintro (⟨f, ⟨hf, -⟩, rfl⟩ | ⟨f, hf, rfl⟩)
      · exact Or.inr ⟨f, hf, rfl⟩
      · exact Or.inl (List.mem_singleton.mp hf ▸ rfl)
    · rintro (h | ⟨f, hf, rfl⟩)
      · exact absurd h hpid
      · exact Or.inl ⟨f, ⟨hf, hpid⟩, rfl⟩

theorem mem_pids_erase {pid gone : Nat} :
    pid ∈ (erase entries gone).map (·.pid) ↔ pid ∈ entries.map (·.pid) ∧ pid ≠ gone :=
  mem_keys_filter_ne

end Ledger

end PageAudit
