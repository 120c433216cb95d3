import PageAudit.Progress.Reporter
import PageAudit.Proofs.Calendar.Stamps
import PageAudit.Proofs.Text.Lines

/-!
# The log file of a run

The reporter only adds to the log file: for every event that ends a job a text with a time in front and a line feed behind,
in the order of the events. Such a text is one line unless the identifier of the job or the message of the error brings line
feeds of its own.
-/

namespace PageAudit

open Calendar Decimal Files Text

/-! ## Adding to a file -/

/-- The octets of a file; none where no file is. -/
def Files.Content.octets : Content → List Nat
  | .text s => utf8Octets s
  | .binary octets => octets
  | .absent | .directory => []

theorem Files.Content.octets_ofOctets (octets : List Nat) : (Content.ofOctets octets).octets = octets := by
  rw [ofOctets]
  cases hread : decodeUtf8? octets with
  | none => rfl
  | some s => exact decodeUtf8?_eq_some_iff.mp hread

theorem Files.Content.ofOctets_ne_directory (octets : List Nat) : Content.ofOctets octets ≠ .directory := by
  rw [ofOctets]
  cases decodeUtf8? octets <;> simp

/-- Texts can be added at the place. -/
structure Files.Slot.Appendable (slot : Slot) : Prop where
  writable : slot.writable = true
  file : slot.content ≠ .directory

theorem Files.Slot.Appendable.append {slot : Slot} (h : slot.Appendable) (s : String) :
    ∃ next, slot.append s = .ok next ∧ next.Appendable ∧
      next.content.octets = slot.content.octets ++ utf8Octets s := by
  obtain ⟨hwritable, hfile⟩ := h
  obtain ⟨content, writable⟩ := slot
  subst hwritable
  cases content with
  | absent => exact ⟨_, rfl, ⟨rfl, by simp⟩, rfl⟩
  | text old => exact ⟨_, rfl, ⟨rfl, by simp⟩, utf8Octets_append old s⟩
  | binary octets => exact ⟨_, rfl, ⟨rfl, Content.ofOctets_ne_directory _⟩, Content.octets_ofOctets _⟩
  | directory => exact absurd rfl hfile

/-! ## Line feeds in what is written -/

/-- The number of line feeds in a text. -/
def lineFeeds (s : String) : Nat :=
  s.toList.count '\n'

theorem lineFeeds_append (s t : String) : lineFeeds (s ++ t) = lineFeeds s + lineFeeds t := by
  rw [lineFeeds, String.toList_append, List.count_append, lineFeeds, lineFeeds]

theorem lineFeeds_eq_zero {s : String} (h : '\n' ∉ s.toList) : lineFeeds s = 0 :=
  List.count_eq_zero.mpr h

theorem lineFeeds_text (s : String) : lineFeeds (toString s) = lineFeeds s :=
  rfl

theorem lineFeeds_toString (n : Nat) : lineFeeds (toString n) = 0 := by
  refine lineFeeds_eq_zero ?_
  rw [Nat.toString_eq_ofList_toDigits, String.toList_ofList]
  exact not_mem_toDigits (by decide) n

theorem lineFeeds_padded (width n : Nat) : lineFeeds (padded width n) = 0 := by
  refine lineFeeds_eq_zero fun hmem => ?_
  rw [toList_padded] at hmem
  exact absurd (isDigit_of_mem_paddedChars hmem) (by decide)

theorem lineFeeds_plain (s : Stamp) : lineFeeds s.plain = 0 := by
  have hyear : lineFeeds (yearText s.date.year) = 0 := by
    rw [yearText]
    split
    · exact lineFeeds_padded _ _
    · split <;> rw [lineFeeds_append, lineFeeds_padded] <;> rfl
  simp only [Stamp.plain, Date.text, Stamp.timeText, lineFeeds_append, lineFeeds_padded, hyear]
  rfl

theorem lineFeeds_name (k : ErrorKind) : lineFeeds k.name = 0 := by
  cases k <;> rfl

/-! ## The texts of events -/

namespace ProgressEvent

theorem isSome_outcomeText? (e : ProgressEvent) : e.outcomeText?.isSome = e.isTerminal := by
  cases e <;> rfl

/-- The text in the log file for an event; empty unless the event ends a job. -/
def outcomeText (e : ProgressEvent) : String :=
  e.outcomeText?.getD ""

/-- The line feeds that an event brings in the texts of its outcome. -/
def broughtFeeds : ProgressEvent → Nat
  | .succeeded jobId .. | .cancelled jobId _ => lineFeeds jobId
  | .failedPermanent jobId _ _ _ message => lineFeeds jobId + lineFeeds message
  | _ => 0

theorem lineFeeds_outcomeText (e : ProgressEvent) : lineFeeds e.outcomeText = e.broughtFeeds := by
  cases e with
  | succeeded | failedPermanent | cancelled =>
      simp (disch := decide) only [outcomeText, outcomeText?, Option.getD_some, lineFeeds_append, lineFeeds_text,
        lineFeeds_toString, lineFeeds_name, lineFeeds_eq_zero, Nat.zero_add, Nat.add_zero, broughtFeeds]
  | queued | started | retried | concurrencyChanged => rfl

/-- The outcome of a job tells which job it is. -/
theorem jobId_in_outcomeText {e : ProgressEvent} (h : e.isTerminal = true) :
    ∃ id, e.jobId? = some id ∧ id.toList <:+: e.outcomeText.toList := by
  have hfront (id rest : String) : id.toList <:+: ("任务 " ++ id ++ rest).toList :=
    ⟨_, _, by rw [String.toList_append, String.toList_append]⟩
  cases e with
  | succeeded | failedPermanent | cancelled =>
      refine ⟨_, rfl, ?_⟩
      simp only [outcomeText, outcomeText?, Option.getD_some, String.append_assoc]
      rw [← String.append_assoc]
      exact hfront _ _
  | queued | started | retried | concurrencyChanged => cases h

end ProgressEvent

/-- What is added to the log file for an event at a time. -/
def logText (x : Stamp × ProgressEvent) : String :=
  x.1.plain ++ " | " ++ x.2.outcomeText ++ "\n"

theorem endsLine_logText (x : Stamp × ProgressEvent) : EndsLine (utf8Octets (logText x)) := by
  rw [logText, utf8Octets_append, utf8Octets_lineFeed]
  exact endsLine_ended _

theorem lineFeeds_logText (x : Stamp × ProgressEvent) : lineFeeds (logText x) = x.2.broughtFeeds + 1 := by
  have hbar : lineFeeds " | " = 0 := rfl
  have hend : lineFeeds "\n" = 1 := rfl
  rw [logText, lineFeeds_append, lineFeeds_append, lineFeeds_append, lineFeeds_plain, hbar, hend,
    ProgressEvent.lineFeeds_outcomeText, Nat.zero_add]

/-- There is one line more than the event brings line feeds. -/
theorem length_octetLines_logText (x : Stamp × ProgressEvent) :
    (octetLines (utf8Octets (logText x))).length = x.2.broughtFeeds + 1 := by
  rw [length_octetLines (endsLine_logText x), count_utf8Octets, ← lineFeeds_logText, lineFeeds]

/-- Without line feeds of its own the text is one line. -/
theorem octetLines_logText {x : Stamp × ProgressEvent} (h : x.2.broughtFeeds = 0) :
    octetLines (utf8Octets (logText x)) = [utf8Octets (logText x)] := by
  have hlength := length_octetLines_logText x
  rw [h] at hlength
  obtain ⟨line, hline⟩ := List.length_eq_one_iff.mp hlength
  have hall := flatten_octetLines (utf8Octets (logText x))
  rw [hline, List.flatten_singleton] at hall
  rw [hline, hall]

/-! ## The file after some events -/

namespace Reporter

/-- One event: its outcome, if it ends a job, goes to the end of the file. -/
theorem logFile_take {r : Reporter} {path : String} {slot : Slot} (hlog : r.logFile = some (path, slot))
    (hslot : slot.Appendable) (x : Stamp × ProgressEvent) :
    ∃ next, (r.take x.1.plain x.2).logFile = some (path, next) ∧ next.Appendable ∧
      next.content.octets = slot.content.octets ++ if x.2.isTerminal then utf8Octets (logText x) else [] := by
  cases htext : x.2.outcomeText? with
  | none =>
      have hrunning : x.2.isTerminal = false := by
        rw [← x.2.isSome_outcomeText?, htext]
        rfl
      refine ⟨slot, ?_, hslot, by simp [hrunning]⟩
      simp [take, appendOutcome, hlog, htext]
  | some text =>
      have hended : x.2.isTerminal = true := by
        rw [← x.2.isSome_outcomeText?, htext]
        rfl
      have hlogText : logText x = x.1.plain ++ " | " ++ text ++ "\n" := by
        rw [logText, ProgressEvent.outcomeText, htext, Option.getD_some]
      obtain ⟨next, happend, hnext, hoctets⟩ := hslot.append (logText x)
      refine ⟨next, ?_, hnext, by rw [hoctets, if_pos hended]⟩
      rw [hlogText] at happend
      simp [take, appendOutcome, hlog, htext, happend]

/-- The ends of jobs among some events. -/
def endings (events : List (Stamp × ProgressEvent)) : List (Stamp × ProgressEvent) :=
  events.filter fun x => x.2.isTerminal

theorem logFile_takeTimed {r : Reporter} {path : String} {slot : Slot} (hlog : r.logFile = some (path, slot))
    (hslot : slot.Appendable) (events : List (Stamp × ProgressEvent)) :
    ∃ next, (r.takeTimed events).logFile = some (path, next) ∧
      next.content.octets = slot.content.octets ++ (endings events).flatMap fun x => utf8Octets (logText x) := by
  induction events generalizing r slot with
  | nil => exact ⟨slot, hlog, (List.append_nil _).symm⟩
  | cons x events ih =>
      obtain ⟨between, hbetween, hopen, hfirst⟩ := logFile_take hlog hslot x
      obtain ⟨next, hnext, hrest⟩ := ih hbetween hopen
      refine ⟨next, hnext, ?_⟩
      rw [hrest, hfirst, List.append_assoc, endings, endings, List.filter_cons]
      split
      · rw [List.flatMap_cons]
      · rfl

theorem length_octetLines_endings (ends : List (Stamp × ProgressEvent)) :
    (octetLines (ends.flatMap fun x => utf8Octets (logText x))).length =
      ends.length + (ends.map fun x => x.2.broughtFeeds).sum := by
  induction ends with
  | nil => rfl
  | cons x ends ih =>
      rw [List.flatMap_cons, octetLines_append _ (endsLine_logText x), List.length_append, ih,
        length_octetLines_logText, List.length_cons, List.map_cons, List.sum_cons]
      omega

theorem octetLines_endings {ends : List (Stamp × ProgressEvent)} (h : ∀ x ∈ ends, x.2.broughtFeeds = 0) :
    octetLines (ends.flatMap fun x => utf8Octets (logText x)) = ends.map fun x => utf8Octets (logText x) := by
  induction ends with
  | nil => rfl
  | cons x ends ih =>
      obtain ⟨hx, hends⟩ := List.forall_mem_cons.mp h
      rw [List.flatMap_cons, octetLines_append _ (endsLine_logText x), octetLines_logText hx, ih hends]
      rfl

/-- The file grows at its end by what is written for each event that ends a job, in order, with the job's identifier in it,
and by nothing else. If it was empty or ended in a line feed, its lines stay, and there are as many new ones as ends of jobs
and line feeds that these bring; without such line feeds, one for each. -/
theorem log_file_grows {r : Reporter} {path : String} {slot : Slot} (hlog : r.logFile = some (path, slot))
    (hslot : slot.Appendable) (events : List (Stamp × ProgressEvent)) :
    ∃ next, (r.takeTimed events).logFile = some (path, next) ∧
      next.content.octets = slot.content.octets ++ (endings events).flatMap (fun x => utf8Octets (logText x)) ∧
      (∀ x ∈ endings events, ∃ id, x.2.jobId? = some id ∧ id.toList <:+: (logText x).toList) ∧
      (EndsLine slot.content.octets →
        (octetLines next.content.octets).length = (octetLines slot.content.octets).length +
          (endings events).length + ((endings events).map fun x => x.2.broughtFeeds).sum ∧
        ((∀ x ∈ endings events, x.2.broughtFeeds = 0) →
          octetLines next.content.octets =
            octetLines slot.content.octets ++ (endings events).map fun x => utf8Octets (logText x))) := by
  obtain ⟨next, hnext, hoctets⟩ := logFile_takeTimed hlog hslot events
  refine ⟨next, hnext, hoctets, fun x hx => ?_, fun hold => ?_⟩
  · obtain ⟨id, hid, before, after, htext⟩ := ProgressEvent.jobId_in_outcomeText (List.mem_filter.mp hx).2
    refine ⟨id, hid, x.1.plain.toList ++ " | ".toList ++ before, after ++ "\n".toList, ?_⟩
    simp only [logText, String.toList_append, ← htext, List.append_assoc]
  · rw [hoctets, octetLines_append _ hold]
    refine ⟨?_, fun hplain => by rw [octetLines_endings hplain]⟩
    rw [List.length_append, length_octetLines_endings, Nat.add_assoc]

/-- A reporter with a log file of one line. -/
def resumed : Reporter :=
  { logFile := some ("run.log", { content := .text "begun\n" }) }

/-- The beginning of a year. -/
def newYear : Stamp :=
  { date := ⟨2024, 1, 1⟩, hour := 0, minute := 0, second := 0, nanos := 0 }

/-- One job ends well, and the line about it follows the line that was there. -/
theorem success_log_file_grows :
    resumed.logFile = some ("run.log", { content := .text "begun\n" }) ∧
    Slot.Appendable { content := .text "begun\n" } ∧ EndsLine (utf8Octets "begun\n") ∧
    ∃ next, (resumed.takeTimed [(newYear, .queued "a" "https://e/a"), (newYear, .succeeded "a" 1 5)]).logFile =
        some ("run.log", next) ∧
      octetLines next.content.octets =
        [utf8Octets "begun\n", utf8Octets "2024-01-01 00:00:00 | 任务 a | 成功 | 执行 1 次 | 耗时 5ms\n"] := by
  have hlog : resumed.logFile = some ("run.log", { content := .text "begun\n" }) := rfl
  have hslot : Slot.Appendable { content := .text "begun\n" } := ⟨rfl, by simp⟩
  have hold : EndsLine (utf8Octets "begun\n") := by
    have hlast : (utf8Octets "begun\n").getLast? = some 0x0A := by decide +kernel
    exact fun a ha => Option.some.inj (ha.symm.trans hlast)
  refine ⟨hlog, hslot, hold, ?_⟩
  obtain ⟨next, hnext, -, -, hlines⟩ :=
    log_file_grows hlog hslot [(newYear, .queued "a" "https://e/a"), (newYear, .succeeded "a" 1 5)]
  refine ⟨next, hnext, ((hlines hold).2 (by decide +kernel)).trans ?_⟩
  decide +kernel

/-- One event whose message has two lines becomes two lines of the file. -/
theorem message_of_two_lines :
    let event : ProgressEvent := .failedPermanent "a" 1 .fatal .fatal "first\nsecond"
    let start : Reporter := { logFile := some ("run.log", {}) }
    event.isTerminal = true ∧
    (start.takeTimed [(newYear, event)]).logFile.map (fun x => (octetLines x.2.content.octets).length) = some 2 := by
  decide +kernel

end Reporter

end PageAudit
