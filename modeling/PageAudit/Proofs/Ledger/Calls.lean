import PageAudit.Ledger.Folder
import PageAudit.Proofs.Ledger.Store

/-!
# The ledger after any calls

A call that fails at any of its steps leaves the ledger's file as it was; one that returns leaves its own change and
nothing else. So after any calls the file holds what the calls that returned make of the entries at the start.
-/

namespace PageAudit

open Document Files Text

/-! ## Files that hold entries -/

namespace Ledger

/-- The entries that a file holds: none if it is missing or blank, else those that are written in it. -/
inductive Holds : Content → List LedgerEntry → Prop where
  | missing : Holds .absent []
  | blank {s : String} (hblank : isBlankText s = true) : Holds (.text s) []
  | wellFormed {s : String} {entries : List LedgerEntry} (htext : isBlankText s = false)
      (hread : (Json.read? s >>= Data.list? LedgerEntry.ofData?) = some entries) : Holds (.text s) entries

variable {entries : List LedgerEntry} {slot : Slot}

theorem Holds.of_read? {s : String} (h : read? s = some entries) : Holds (.text s) entries := by
  unfold read? at h
  split at h
  · rename_i hblank
    cases h
    exact .blank hblank
  · rename_i hblank
    exact .wellFormed (Bool.eq_false_of_not_eq_true hblank) h

theorem load_eq_ok_iff : load slot = .ok entries ↔ Holds slot.content entries := by
  constructor
  · intro h
    obtain ⟨content, writable⟩ := slot
    cases content with
    | absent =>
        cases h
        exact .missing
    | text s =>
        simp only [load, Content.read] at h
        split at h
        · rename_i hread
          cases h
          exact .of_read? hread
        · cases h
    | binary | directory => cases h
  · obtain ⟨content, writable⟩ := slot
    rintro (_ | hblank | ⟨htext, hread⟩)
    · rfl
    · simp [load, Content.read, read?, hblank]
    · simp [load, Content.read, read?, htext, hread]

/-- A file holds one list of entries. -/
theorem Holds.unique {content : Content} {other : List LedgerEntry} (h : Holds content entries)
    (h' : Holds content other) : entries = other := by
  have hload : load { content := content } = .ok entries := load_eq_ok_iff.mpr h
  have hload' : load { content := content } = .ok other := load_eq_ok_iff.mpr h'
  exact Except.ok.inj (hload.symm.trans hload')

theorem Holds.recordable {content : Content} (h : Holds content entries) : ∀ e ∈ entries, e.Recordable :=
  recordable_of_load (load_eq_ok_iff.mpr h : load { content := content } = .ok entries)

/-- What is written is read back. -/
theorem holds_write (h : ∀ e ∈ entries, e.Recordable) : Holds (.text (write entries)) entries :=
  .of_read? (read?_write h)

theorem filter_erase (entries : List LedgerEntry) (gone pid : Nat) :
    (erase entries gone).filter (·.pid == pid) = if gone = pid then [] else entries.filter (·.pid == pid) := by
  rw [erase, List.filter_filter]
  split
  · rename_i hgone
    refine List.filter_eq_nil_iff.mpr fun e _ => ?_
    simp [hgone]
  · rename_i hgone
    refine List.filter_congr fun e _ => ?_
    by_cases hpid : e.pid = pid
    · simp [hpid, Ne.symm hgone]
    · simp [hpid]

end Ledger

/-! ## What calls do to the entries -/

namespace LedgerCall

variable {entries : List LedgerEntry} {call : LedgerCall}

/-- A process that the call records can be written down. -/
def Recordable : LedgerCall → Prop
  | .record e => e.Recordable
  | .remove _ => True

/-- What the call leaves of the process that it is about. -/
def left : LedgerCall → List LedgerEntry
  | .record e => [e]
  | .remove _ => []

theorem recordable_apply (hcall : call.Recordable) (h : ∀ e ∈ entries, e.Recordable) :
    ∀ e ∈ call.apply entries, e.Recordable := by
  cases call with
  | record e => exact Ledger.recordable_insert hcall h
  | remove pid => exact Ledger.recordable_erase h

/-- A call replaces the entries of its own process and keeps the others. -/
theorem filter_apply (call : LedgerCall) (entries : List LedgerEntry) (pid : Nat) :
    (call.apply entries).filter (·.pid == pid) =
      if call.pid = pid then call.left else entries.filter (·.pid == pid) := by
  cases call with
  | record e =>
      have hothers := Ledger.filter_erase entries e.pid pid
      simp only [Ledger.erase] at hothers
      simp only [LedgerCall.apply, Ledger.insert, List.filter_append, hothers, LedgerCall.pid, left]
      by_cases hpid : e.pid = pid <;> simp [hpid]
  | remove gone => exact Ledger.filter_erase entries gone pid

/-- The entries of a process are those that the last call about it left, else those that were there at the start. -/
theorem filter_replay (calls : List LedgerCall) (entries : List LedgerEntry) (pid : Nat) :
    (calls.foldl LedgerCall.apply entries).filter (·.pid == pid) =
      match calls.reverse.find? (·.pid == pid) with
      | some call => call.left
      | none => entries.filter (·.pid == pid) := by
  induction calls using List.reverseRecOn with
  | nil => rfl
  | append_singleton calls call ih =>
      rw [List.foldl_append, List.foldl_cons, List.foldl_nil, filter_apply, List.reverse_concat, List.find?_cons]
      by_cases hpid : call.pid = pid
      · rw [if_pos hpid, beq_iff_eq.mpr hpid]
      · rw [if_neg hpid, ih, beq_eq_false_iff_ne.mpr hpid]

/-- A process that was recorded has one entry at most. -/
theorem count_replay_le {calls : List LedgerCall} {e : LedgerEntry} (h : .record e ∈ calls)
    (entries : List LedgerEntry) : ((calls.foldl LedgerCall.apply entries).map (·.pid)).count e.pid ≤ 1 := by
  obtain ⟨call, hlast⟩ : ∃ call, calls.reverse.find? (·.pid == e.pid) = some call := by
    refine Option.isSome_iff_exists.mp (List.find?_isSome.mpr ⟨.record e, List.mem_reverse.mpr h, ?_⟩)
    exact beq_self_eq_true _
  have hentries := filter_replay calls entries e.pid
  rw [hlast] at hentries
  have hcount : ((calls.foldl LedgerCall.apply entries).map (·.pid)).count e.pid =
      ((calls.foldl LedgerCall.apply entries).filter (·.pid == e.pid)).length := by
    rw [List.count, List.countP_map, List.countP_eq_length_filter]
    rfl
  rw [hcount, hentries]
  cases call <;> simp [left]

end LedgerCall

/-! ## One call -/

namespace LedgerFolder

variable {folder : LedgerFolder} {faults : LedgerFaults} {entries : List LedgerEntry} {call : LedgerCall}

/-- Saving puts the entries in the ledger's place, or fails and leaves what stands there. -/
theorem save_cases (folder : LedgerFolder) (faults : LedgerFaults) (entries : List LedgerEntry) :
    ((folder.save faults entries).1 = .ok () ∧ (folder.save faults entries).2.ledger = .text (Ledger.write entries)) ∨
    ∃ fault, (folder.save faults entries).1 = .error fault ∧ (folder.save faults entries).2.ledger = folder.ledger := by
  unfold save
  split
  · exact Or.inr ⟨_, rfl, rfl⟩
  · exact Or.inr ⟨_, rfl, rfl⟩
  · split
    · exact Or.inr ⟨_, rfl, rfl⟩
    · unfold rename
      split
      · exact Or.inr ⟨_, rfl, rfl⟩
      · split
        · exact Or.inr ⟨_, rfl, rfl⟩
        · exact Or.inl ⟨rfl, rfl⟩

theorem save_error {fault : LedgerError} (h : (folder.save faults entries).1 = .error fault) :
    (folder.save faults entries).2.ledger = folder.ledger := by
  rcases save_cases folder faults entries with ⟨hok, -⟩ | ⟨_, -, hledger⟩
  · rw [hok] at h
    cases h
  · exact hledger

theorem save_ok (h : (folder.save faults entries).1 = .ok ()) :
    (folder.save faults entries).2.ledger = .text (Ledger.write entries) := by
  rcases save_cases folder faults entries with ⟨-, hledger⟩ | ⟨_, herror, -⟩
  · exact hledger
  · rw [herror] at h
    cases h

theorem load_eq_ok_iff :
    folder.load faults = .ok entries ↔ faults.reading = none ∧ Ledger.Holds folder.ledger entries := by
  unfold load
  split
  · rename_i hfault
    simp [hfault]
  · rename_i hread
    simp only [hread, true_and, Ledger.load_eq_ok_iff]

/-- What a call does: it cannot read the ledger, it saves its change, or it has nothing to change. -/
theorem perform_cases (folder : LedgerFolder) (faults : LedgerFaults) (call : LedgerCall) :
    (∃ fault, folder.load faults = .error fault ∧ folder.perform faults call = (.error fault, folder)) ∨
    ∃ entries, folder.load faults = .ok entries ∧
      (folder.perform faults call = folder.save faults (call.apply entries) ∨
        call.apply entries = entries ∧ folder.perform faults call = (.ok (), folder)) := by
  cases hload : folder.load faults with
  | error fault => exact Or.inl ⟨fault, rfl, by simp only [perform, hload]⟩
  | ok entries =>
      refine Or.inr ⟨entries, rfl, ?_⟩
      cases call with
      | record e => exact Or.inl (by simp only [perform, hload])
      | remove pid =>
          cases hany : entries.any (·.pid == pid) with
          | true => exact Or.inl (by simp only [perform, hload, hany, if_true])
          | false => exact Or.inr ⟨Ledger.erase_eq_self hany, by simp [perform, hload, hany]⟩

/-- A call that returns an error leaves the ledger's file, whatever stands there. -/
theorem perform_error {fault : LedgerError} (h : (folder.perform faults call).1 = .error fault) :
    (folder.perform faults call).2.ledger = folder.ledger := by
  rcases perform_cases folder faults call with ⟨_, -, hperform⟩ | ⟨_, -, hperform | ⟨-, hperform⟩⟩
  · rw [hperform]
  · rw [hperform] at h ⊢
    exact save_error h
  · rw [hperform]

/-- A call that returns leaves its own change. -/
theorem perform_ok (h : Ledger.Holds folder.ledger entries) (hcall : call.Recordable)
    (hok : (folder.perform faults call).1 = .ok ()) :
    Ledger.Holds (folder.perform faults call).2.ledger (call.apply entries) := by
  rcases perform_cases folder faults call with ⟨_, -, hperform⟩ | ⟨found, hload, hperform⟩
  · rw [hperform] at hok
    cases hok
  · obtain rfl := h.unique (load_eq_ok_iff.mp hload).2
    rcases hperform with hperform | ⟨hsame, hperform⟩
    · rw [hperform] at hok ⊢
      rw [save_ok hok]
      exact Ledger.holds_write (LedgerCall.recordable_apply hcall h.recordable)
    · rw [hperform, hsame]
      exact h

/-- A file that cannot be read as a ledger makes every call fail. -/
theorem perform_unreadable (h : ∀ entries, ¬Ledger.Holds folder.ledger entries) (faults : LedgerFaults)
    (call : LedgerCall) : ∃ fault, folder.perform faults call = (.error fault, folder) := by
  rcases perform_cases folder faults call with ⟨fault, -, hperform⟩ | ⟨entries, hload, -⟩
  · exact ⟨fault, hperform⟩
  · exact absurd (load_eq_ok_iff.mp hload).2 (h entries)

/-- Removing a process without entries changes nothing. -/
theorem perform_remove_absent {pid : Nat} (h : folder.load faults = .ok entries) (habsent : pid ∉ entries.map (·.pid)) :
    folder.perform faults (.remove pid) = (.ok (), folder) := by
  have hany : entries.any (·.pid == pid) = false := by
    refine List.any_eq_false.mpr fun e he hpid => habsent ?_
    exact List.mem_map.mpr ⟨e, he, beq_iff_eq.mp hpid⟩
  simp [perform, h, hany]

/-- A call none of whose steps fails returns. -/
theorem perform_of_no_faults (h : Ledger.Holds folder.ledger entries) (hdraft : folder.draft ≠ .directory) :
    (folder.perform {} call).1 = .ok () ∧ (folder.perform {} call).2.draft ≠ .directory := by
  have hledger : folder.ledger ≠ .directory := by
    intro hdir
    rw [hdir] at h
    cases h
  have hload : folder.load {} = .ok entries := load_eq_ok_iff.mpr ⟨rfl, h⟩
  rcases perform_cases folder {} call with ⟨_, hfault, -⟩ | ⟨_, -, hperform | ⟨-, hperform⟩⟩
  · rw [hload] at hfault
    cases hfault
  · rw [hperform]
    simp [save, rename, hdraft, hledger]
  · rw [hperform]
    exact ⟨rfl, hdraft⟩

/-- A call on a slot is one on the folder whose draft can be written as the slot can. -/
theorem onSlot_eq (slot : Slot) (call : LedgerCall) :
    call.onSlot slot =
      match ({ ledger := slot.content } : LedgerFolder).perform (.ofSlot slot) call with
      | (.ok (), folder) => .ok { slot with content := folder.ledger }
      | (.error fault, _) => .error fault := by
  have hload : ({ ledger := slot.content } : LedgerFolder).load (.ofSlot slot) = Ledger.load slot := rfl
  have hsave (entries : List LedgerEntry) (hfile : slot.content ≠ .directory) :
      Ledger.save slot entries =
        match ({ ledger := slot.content } : LedgerFolder).save (.ofSlot slot) entries with
        | (.ok (), folder) => .ok { slot with content := folder.ledger }
        | (.error fault, _) => .error fault := by
    cases hwritable : slot.writable <;>
      simp [Ledger.save, Slot.write, save, rename, LedgerFaults.ofSlot, hfile, hwritable]
  simp only [perform, hload]
  cases hread : Ledger.load slot with
  | error fault => cases call <;> simp [LedgerCall.onSlot, Ledger.record, Ledger.remove, hread, bind, Except.bind]
  | ok entries =>
      have hfile : slot.content ≠ .directory := by
        intro hdir
        simp [Ledger.load, hdir, Content.read] at hread
      cases call with
      | record e =>
          simp only [LedgerCall.onSlot, Ledger.record, hread, bind, Except.bind]
          exact hsave _ hfile
      | remove pid =>
          simp only [LedgerCall.onSlot, Ledger.remove, hread, bind, Except.bind]
          split
          · exact hsave _ hfile
          · rfl

/-! ## Any calls -/

theorem succeeding_ok {rest : List (LedgerFaults × LedgerCall)} (h : (folder.perform faults call).1 = .ok ()) :
    folder.succeeding ((faults, call) :: rest) = call :: (folder.perform faults call).2.succeeding rest := by
  simp [succeeding, h, Except.isOk, Except.toBool]

theorem succeeding_error {rest : List (LedgerFaults × LedgerCall)} {fault : LedgerError}
    (h : (folder.perform faults call).1 = .error fault) :
    folder.succeeding ((faults, call) :: rest) = (folder.perform faults call).2.succeeding rest := by
  simp [succeeding, h, Except.isOk, Except.toBool]

/-- The calls that return lead from the entries at the start to those of the ledger's file. -/
theorem holds_performAll {calls : List (LedgerFaults × LedgerCall)} (h : Ledger.Holds folder.ledger entries)
    (hcalls : ∀ call ∈ calls, call.2.Recordable) :
    Ledger.Holds (folder.performAll calls).ledger ((folder.succeeding calls).foldl LedgerCall.apply entries) := by
  induction calls generalizing folder entries with
  | nil => exact h
  | cons call rest ih =>
      obtain ⟨faults, call⟩ := call
      obtain ⟨hcall, hrest⟩ := List.forall_mem_cons.mp hcalls
      cases hresult : (folder.perform faults call).1 with
      | ok =>
          rw [performAll, succeeding_ok hresult, List.foldl_cons]
          exact ih (perform_ok h hcall hresult) hrest
      | error fault =>
          rw [performAll, succeeding_error hresult]
          exact ih ((perform_error hresult).symm ▸ h) hrest

theorem succeeding_of_no_faults {calls : List (LedgerFaults × LedgerCall)} (h : Ledger.Holds folder.ledger entries)
    (hcalls : ∀ call ∈ calls, call.2.Recordable) (hfaults : ∀ call ∈ calls, call.1 = {})
    (hdraft : folder.draft ≠ .directory) : folder.succeeding calls = calls.map (·.2) := by
  induction calls generalizing folder entries with
  | nil => rfl
  | cons call rest ih =>
      obtain ⟨faults, call⟩ := call
      obtain ⟨hcall, hrest⟩ := List.forall_mem_cons.mp hcalls
      obtain ⟨rfl, hnone⟩ := List.forall_mem_cons.mp hfaults
      obtain ⟨hok, hafter⟩ : (folder.perform {} call).1 = .ok () ∧ (folder.perform {} call).2.draft ≠ .directory :=
        perform_of_no_faults h hdraft
      rw [succeeding_ok hok, ih (perform_ok h hcall hok) hrest hnone hafter, List.map_cons]

/-- **Ledger calls.** Start from a ledger that is missing, blank or well formed, and let any steps of any calls fail.
Then loading gives what the calls that returned make of the entries at the start: the entries of a process are those that
the last call about it left, and a process that was recorded has one entry at most. Calls none of whose steps fails all
return. A call on a ledger that cannot be read fails; one that fails leaves the ledger's file as it was, and so does
removing a process without entries. On a slot, a call is the same with an unwritable slot as a draft that cannot be
written. -/
theorem calls_replayed :
    (∀ (folder : LedgerFolder) (entries : List LedgerEntry) (calls : List (LedgerFaults × LedgerCall)),
      Ledger.Holds folder.ledger entries → (∀ call ∈ calls, call.2.Recordable) →
      let done := folder.succeeding calls
      let after := done.foldl LedgerCall.apply entries
      (folder.performAll calls).load {} = .ok after ∧
      (∀ pid : Nat, after.filter (·.pid == pid) =
        match done.reverse.find? (·.pid == pid) with
        | some call => call.left
        | none => entries.filter (·.pid == pid)) ∧
      (∀ e : LedgerEntry, .record e ∈ done → (after.map (·.pid)).count e.pid ≤ 1) ∧
      ((∀ call ∈ calls, call.1 = {}) → folder.draft ≠ .directory → done = calls.map (·.2))) ∧
    (∀ (folder : LedgerFolder) (faults : LedgerFaults) (call : LedgerCall),
      (∀ entries, ¬Ledger.Holds folder.ledger entries) → ∃ fault, folder.perform faults call = (.error fault, folder)) ∧
    (∀ (folder : LedgerFolder) (faults : LedgerFaults) (call : LedgerCall) (fault : LedgerError),
      (folder.perform faults call).1 = .error fault → (folder.perform faults call).2.ledger = folder.ledger) ∧
    (∀ (folder : LedgerFolder) (faults : LedgerFaults) (entries : List LedgerEntry) (pid : Nat),
      folder.load faults = .ok entries → pid ∉ entries.map (·.pid) →
      folder.perform faults (.remove pid) = (.ok (), folder)) ∧
    ∀ (slot : Slot) (call : LedgerCall), call.onSlot slot =
      match ({ ledger := slot.content } : LedgerFolder).perform (.ofSlot slot) call with
      | (.ok (), folder) => .ok { slot with content := folder.ledger }
      | (.error fault, _) => .error fault := by
  refine ⟨fun folder entries calls h hcalls => ⟨?_, ?_, ?_, ?_⟩, ?_, ?_, ?_, onSlot_eq⟩
  · exact load_eq_ok_iff.mpr ⟨rfl, holds_performAll h hcalls⟩
  · exact LedgerCall.filter_replay _ entries
  · exact fun e hrecord => LedgerCall.count_replay_le hrecord entries
  · exact succeeding_of_no_faults h hcalls
  · exact fun folder faults call h => perform_unreadable h faults call
  · exact fun folder faults call fault h => perform_error h
  · exact fun folder faults entries pid h habsent => perform_remove_absent h habsent

/-- An entry of an earlier run. -/
def oldEntry : LedgerEntry :=
  { pid := 3, jobId := "pricing", attempt := 1, runId := "run-1", launchedAt := .ofMillis 0 }

/-- An entry of this run. -/
def newEntry : LedgerEntry :=
  { pid := 7, jobId := "home", attempt := 1, runId := "run-2", launchedAt := .ofMillis 1250 }

/-- A ledger with the old entry. -/
def oldFolder : LedgerFolder :=
  { ledger := .text (Ledger.write [oldEntry]) }

/-- Half of a draft is written. -/
def halfDraft : LedgerFaults :=
  { draft := some (.denied, .text "[") }

theorem oldFolder_holds : Ledger.Holds oldFolder.ledger [oldEntry] := by
  have hstamp : oldEntry.launchedAt.Exists := Calendar.Stamp.exists_ofMillis (by decide)
  exact Ledger.holds_write (List.forall_mem_singleton.mpr ⟨by decide, by decide, hstamp⟩)

theorem perform_halfDraft :
    oldFolder.perform halfDraft (.remove 3) = (.error (.io .denied), { oldFolder with draft := .text "[" }) := by
  have hload : oldFolder.load halfDraft = .ok [oldEntry] := load_eq_ok_iff.mpr ⟨rfl, oldFolder_holds⟩
  rcases perform_cases oldFolder halfDraft (.remove 3) with
    ⟨_, hfault, -⟩ | ⟨found, hfound, hperform | ⟨hsame, -⟩⟩
  · rw [hload] at hfault
    cases hfault
  · exact hperform
  · obtain rfl := oldFolder_holds.unique (load_eq_ok_iff.mp hfound).2
    exact absurd hsame (by decide)

/-- Removing the old entry leaves half a draft, another one is recorded, and nothing else is there to remove. -/
theorem old_entry_replayed :
    let rest : List (LedgerFaults × LedgerCall) := [({}, .record newEntry), ({}, .remove 9)]
    let calls := (halfDraft, .remove 3) :: rest
    let broken : LedgerFolder := { ledger := .binary [255] }
    Ledger.Holds oldFolder.ledger [oldEntry] ∧ (∀ call ∈ calls, call.2.Recordable) ∧
    (oldFolder.performAll calls).load {} = .ok [oldEntry, newEntry] ∧
    ([oldEntry, newEntry].map (·.pid)).count 7 ≤ 1 ∧
    (∃ fault, broken.perform {} (.remove 3) = (.error fault, broken)) ∧
    (oldFolder.perform halfDraft (.remove 3)).2.ledger = oldFolder.ledger ∧
    oldFolder.perform {} (.remove 9) = (.ok (), oldFolder) := by
  intro rest calls broken
  have hstamp : newEntry.launchedAt.Exists := Calendar.Stamp.exists_ofMillis (by decide)
  have hrest : ∀ call ∈ rest, call.2.Recordable :=
    List.forall_mem_cons.mpr ⟨⟨by decide, by decide, hstamp⟩, List.forall_mem_singleton.mpr trivial⟩
  have hcalls : ∀ call ∈ calls, call.2.Recordable := List.forall_mem_cons.mpr ⟨trivial, hrest⟩
  have hbroken (entries : List LedgerEntry) : ¬Ledger.Holds broken.ledger entries := by
    intro h
    cases h
  have hdone : oldFolder.succeeding calls = [.record newEntry, .remove 9] := by
    obtain ⟨-, -, -, hall⟩ := calls_replayed.1 { oldFolder with draft := .text "[" } [oldEntry] rest oldFolder_holds hrest
    rw [succeeding_error (congrArg Prod.fst perform_halfDraft), perform_halfDraft, hall (by simp [rest]) (by simp)]
    rfl
  obtain ⟨hafter, -, hcount, -⟩ := calls_replayed.1 oldFolder [oldEntry] calls oldFolder_holds hcalls
  rw [hdone] at hafter hcount
  refine ⟨oldFolder_holds, hcalls, hafter, hcount newEntry List.mem_cons_self, ?_, ?_, ?_⟩
  · exact calls_replayed.2.1 broken {} (.remove 3) hbroken
  · exact calls_replayed.2.2.1 oldFolder halfDraft (.remove 3) (.io .denied) (congrArg Prod.fst perform_halfDraft)
  · exact calls_replayed.2.2.2.1 oldFolder {} [oldEntry] 9 (load_eq_ok_iff.mpr ⟨rfl, oldFolder_holds⟩) (by simp [oldEntry])

end LedgerFolder

end PageAudit
