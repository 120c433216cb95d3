import PageAudit.Engine.Output
import PageAudit.Proofs.Text.Lines

/-!
# What an engine is heard to say

The output of an engine comes down to the metrics and errors that its lines tell, each line read by itself. Noise may stand
anywhere between them. Nothing is heard from the first line on that is no text.
-/

namespace PageAudit

open Document Text Files

/-! ## What a line tells -/

/-- The metrics of a result. -/
def EngineLine.metrics? : EngineLine → Option Metrics
  | .result entries => some (numericMetrics entries)
  | _ => none

/-- The error that is named. -/
def EngineLine.error? : EngineLine → Option AuditError
  | .error kind message timeoutMs => some (engineError kind message timeoutMs)
  | _ => none

/-- What is drawn from a line of text. -/
def drawn? {α : Type} (part : EngineLine → Option α) (line : String) : Option α :=
  EngineLine.read? line >>= part

/-- The metrics that a line of octets tells. -/
def metricsOf? (line : List Nat) : Option Metrics :=
  decodeUtf8? line >>= drawn? EngineLine.metrics?

/-- The error that a line of octets tells. -/
def errorOf? (line : List Nat) : Option AuditError :=
  decodeUtf8? line >>= drawn? EngineLine.error?

/-- A line of text that is neither a result nor an error. -/
def IsNoise (line : List Nat) : Prop :=
  ∃ s, decodeUtf8? line = some s ∧ ∀ told, EngineLine.read? s = some told → told = .other

theorem IsNoise.isUtf8 {line : List Nat} (h : IsNoise line) : isUtf8 line = true := by
  obtain ⟨s, hs, -⟩ := h
  rw [Text.isUtf8, hs]
  rfl

/-- Nothing is drawn from noise of what only results and errors have. -/
theorem IsNoise.draws_nothing {α : Type} {part : EngineLine → Option α} (hpart : part .other = none) {line : List Nat}
    (h : IsNoise line) : decodeUtf8? line >>= drawn? part = none := by
  obtain ⟨s, hs, hnoise⟩ := h
  cases hread : EngineLine.read? s with
  | none => simp [hs, drawn?, hread]
  | some told => simp [hs, drawn?, hread, hnoise told hread, hpart]

theorem drawn?_congr {α : Type} (part : EngineLine → Option α) {s t : String} (h : trim s = trim t) :
    drawn? part s = drawn? part t := by
  rw [drawn?, drawn?, EngineLine.read?, EngineLine.read?, h]

theorem drawn?_empty {α : Type} (part : EngineLine → Option α) : drawn? part "" = none := by
  have hread : Json.read? (trim "") = none := by decide +kernel
  rw [drawn?, EngineLine.read?, hread]
  rfl

/-! ## Lines taken in order -/

theorem EngineOutput.take_eq (o : EngineOutput) (line : String) :
    o.take line =
      { metrics := (drawn? EngineLine.metrics? line).or o.metrics
        error := o.error.or (drawn? EngineLine.error? line) } := by
  rw [take, drawn?, drawn?]
  cases EngineLine.read? line with
  | none => simp
  | some l => cases l <;> simp [EngineLine.metrics?, EngineLine.error?]

theorem getLast?_filterMap_cons {α β : Type} (f : α → Option β) (a : α) (l : List α) :
    ((a :: l).filterMap f).getLast? = (l.filterMap f).getLast?.or (f a) := by
  rw [List.filterMap_cons]
  cases f a with
  | none => rw [Option.or_none]
  | some b => rw [List.getLast?_cons, Option.or_some]

theorem head?_filterMap_cons {α β : Type} (f : α → Option β) (a : α) (l : List α) :
    ((a :: l).filterMap f).head? = (f a).or (l.filterMap f).head? := by
  rw [List.filterMap_cons]
  cases f a <;> rfl

/-- The last metrics hold, and the first error. -/
theorem EngineOutput.foldl_take (lines : List String) (o : EngineOutput) :
    lines.foldl take o =
      { metrics := (lines.filterMap (drawn? EngineLine.metrics?)).getLast?.or o.metrics
        error := o.error.or (lines.filterMap (drawn? EngineLine.error?)).head? } := by
  induction lines generalizing o with
  | nil => simp
  | cons line lines ih =>
      rw [List.foldl_cons, ih, take_eq, getLast?_filterMap_cons, head?_filterMap_cons, Option.or_assoc, Option.or_assoc]

/-- What lines of octets tell up to the first that is no text. -/
def EngineOutput.heardIn (lines : List (List Nat)) : EngineOutput :=
  let heard := lines.takeWhile isUtf8
  { metrics := (heard.filterMap metricsOf?).getLast?, error := (heard.filterMap errorOf?).head? }

/-- Noise does not show. -/
theorem EngineOutput.heardIn_noise {before after : List (List Nat)} {line : List Nat} (h : IsNoise line) :
    heardIn (before ++ line :: after) = heardIn (before ++ after) := by
  have hmetrics : metricsOf? line = none := h.draws_nothing rfl
  have herror : errorOf? line = none := h.draws_nothing rfl
  rw [heardIn, heardIn, List.takeWhile_append, List.takeWhile_append, List.takeWhile_cons_of_pos h.isUtf8]
  split
  · simp only [List.filterMap_append, List.filterMap_cons_none hmetrics, List.filterMap_cons_none herror]
  · rfl

/-- From a line on that is no text nothing is heard. -/
theorem EngineOutput.heardIn_broken {before after : List (List Nat)} {line : List Nat} (hline : isUtf8 line = false) :
    heardIn (before ++ line :: after) = heardIn before := by
  have hheard : (before ++ line :: after).takeWhile isUtf8 = before.takeWhile isUtf8 := by
    rw [List.takeWhile_append, List.takeWhile_cons_of_neg (by simp [hline]), List.append_nil]
    split
    · rename_i hall
      exact ((List.takeWhile_prefix isUtf8).eq_of_length hall).symm
    · rfl
  rw [heardIn, heardIn, hheard]

namespace ProcessOutput

/-- What the engine has said. -/
def said (p : ProcessOutput) : EngineOutput :=
  .ofLines (readLines p.stdout).lines

/-- The process with other lines of output. -/
def withLines (p : ProcessOutput) (lines : List (List Nat)) : ProcessOutput :=
  { p with stdout := [0x0A].intercalate lines }

theorem said_withLines (p : ProcessOutput) {lines : List (List Nat)} (h : ∀ line ∈ lines, 0x0A ∉ line) :
    (p.withLines lines).said = .heardIn lines := by
  rw [said, EngineOutput.ofLines, EngineOutput.foldl_take, withLines,
    filterMap_readLines (drawn?_congr _) (drawn?_empty _) h, filterMap_readLines (drawn?_congr _) (drawn?_empty _) h,
    Option.or_none, Option.none_or]
  rfl

theorem withLines_splitOn (p : ProcessOutput) : p.withLines (p.stdout.splitOn 0x0A) = p := by
  rw [withLines, List.intercalate_splitOn]

theorem outcome_of_said_eq {p q : ProcessOutput} (hsaid : p.said = q.said) (hstatus : p.status = q.status)
    (hstderr : p.stderr = q.stderr) : p.outcome = q.outcome := by
  rw [said, said] at hsaid
  rw [outcome, outcome, hsaid, hstatus, hstderr]

theorem outcome_of_error {p : ProcessOutput} {e : AuditError} (h : p.said.error = some e) : p.outcome = .error e := by
  rw [said] at h
  rw [outcome, h]

theorem outcome_of_metrics {p : ProcessOutput} {metrics : Metrics} (herror : p.said.error = none)
    (hmetrics : p.said.metrics = some metrics) : p.outcome = .ok metrics := by
  rw [said] at herror hmetrics
  rw [outcome, herror, hmetrics]

/-- The engine has said the last metrics and the first error of the lines up to the first that is no text, and an error
wins. Noise between the lines shows nowhere; a line between them that is no text ends what is heard. -/
theorem said_by_lines (p : ProcessOutput) :
    p.said = .heardIn (p.stdout.splitOn 0x0A) ∧
    (∀ e, p.said.error = some e → p.outcome = .error e) ∧
    (∀ metrics, p.said.error = none → p.said.metrics = some metrics → p.outcome = .ok metrics) ∧
    ∀ before line after, p.stdout.splitOn 0x0A = before ++ after → 0x0A ∉ line →
      (IsNoise line →
        (p.withLines (before ++ line :: after)).said = p.said ∧
        (p.withLines (before ++ line :: after)).outcome = p.outcome) ∧
      (isUtf8 line = false →
        (p.withLines (before ++ line :: after)).said = (p.withLines before).said ∧
        (p.withLines (before ++ line :: after)).outcome = (p.withLines before).outcome) := by
  have hown := lineFeed_not_mem_splitOn p.stdout
  have hsaid : p.said = .heardIn (p.stdout.splitOn 0x0A) :=
    (congrArg said p.withLines_splitOn).symm.trans (p.said_withLines hown)
  refine ⟨hsaid, fun e => outcome_of_error, fun metrics => outcome_of_metrics, ?_⟩
  intro before line after hsplit hline
  rw [hsplit] at hown hsaid
  obtain ⟨hbefore, hafter⟩ := List.forall_mem_append.mp hown
  have hinserted : (p.withLines (before ++ line :: after)).said = .heardIn (before ++ line :: after) :=
    p.said_withLines (List.forall_mem_append.mpr ⟨hbefore, List.forall_mem_cons.mpr ⟨hline, hafter⟩⟩)
  constructor
  · intro hnoise
    have hsame : (p.withLines (before ++ line :: after)).said = p.said := by
      rw [hinserted, EngineOutput.heardIn_noise hnoise, hsaid]
    exact ⟨hsame, outcome_of_said_eq hsame rfl rfl⟩
  · intro hbroken
    have hsame : (p.withLines (before ++ line :: after)).said = (p.withLines before).said := by
      rw [hinserted, EngineOutput.heardIn_broken hbroken, p.said_withLines hbefore]
    exact ⟨hsame, outcome_of_said_eq hsame rfl rfl⟩

/-- A result without metrics as a line. -/
def bareResult : List Nat := utf8Octets "\x7b\"type\":\"result\",\"metrics\":\x7b\x7d\x7d"

/-- A word between two results shows nowhere, and behind an octet that is no text only the first of them is heard. -/
theorem results_said_by_lines :
    let p : ProcessOutput := withLines {} [bareResult, bareResult]
    let word := utf8Octets "loading"
    p.stdout.splitOn 0x0A = [bareResult] ++ [bareResult] ∧ 0x0A ∉ word ∧ IsNoise word ∧ 0x0A ∉ [0xFF] ∧
    isUtf8 [0xFF] = false ∧
    (p.withLines [bareResult, word, bareResult]).outcome = p.outcome ∧
    (p.withLines [bareResult, [0xFF], bareResult]).outcome = (p.withLines [bareResult]).outcome := by
  intro p word
  have hsplit : p.stdout.splitOn 0x0A = [bareResult] ++ [bareResult] := by decide +kernel
  have hword : 0x0A ∉ word := by decide +kernel
  have hunread : EngineLine.read? "loading" = none := Option.isNone_iff_eq_none.mp (by decide +kernel)
  have hnoise : IsNoise word :=
    ⟨"loading", decodeUtf8?_eq_some_iff.mpr rfl, fun told h => absurd (hunread.symm.trans h) (by simp)⟩
  have hbroken : isUtf8 [0xFF] = false := by decide
  exact ⟨hsplit, hword, hnoise, by decide, hbroken,
    (((said_by_lines p).2.2.2 [bareResult] word [bareResult] hsplit hword).1 hnoise).2,
    (((said_by_lines p).2.2.2 [bareResult] [0xFF] [bareResult] hsplit (by decide)).2 hbroken).2⟩

/-- A result behind an octet that is no text is lost. -/
theorem broken_line_hides_result :
    isUtf8 [0xFF] = false ∧ (withLines {} [bareResult]).outcome.isOk = true ∧
    (withLines {} [[0xFF], bareResult]).outcome = .error (.engine "审计引擎未返回结果") := by
  refine ⟨by decide, by decide +kernel, ?_⟩
  rfl

end ProcessOutput

end PageAudit
