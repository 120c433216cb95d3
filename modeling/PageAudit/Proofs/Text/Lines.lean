import PageAudit.Proofs.Text.Utf8
import PageAudit.Text.Basic

/-!
# Lines and their ends

Octets are taken apart at their line feeds, so what is added behind a line feed leaves the lines before it as they are.
A reader gets the lines before the first that is no text.
-/

namespace PageAudit.Text

open Files

/-! ## Taking octets apart -/

theorem octetLines_ne_nil {octets : List Nat} (h : octets ≠ []) : octetLines octets ≠ [] := by
  cases octets with
  | nil => exact absurd rfl h
  | cons a rest =>
      rw [octetLines]
      split
      · exact List.cons_ne_nil _ _
      · split <;> exact List.cons_ne_nil _ _

/-- An octet other than the line feed joins the first line. -/
theorem octetLines_cons {a : Nat} {rest line : List Nat} {more : List (List Nat)} (ha : a ≠ 0x0A)
    (h : octetLines rest = line :: more) : octetLines (a :: rest) = (a :: line) :: more := by
  rw [octetLines, if_neg (by simpa using ha), h]

theorem octetLines_ended {line : List Nat} (rest : List Nat) (h : 0x0A ∉ line) :
    octetLines (line ++ 0x0A :: rest) = (line ++ [0x0A]) :: octetLines rest := by
  induction line with
  | nil => rfl
  | cons a line ih =>
      obtain ⟨ha, hline⟩ := not_or.mp (mt List.mem_cons.mpr h)
      exact octetLines_cons (Ne.symm ha) (ih hline)

theorem octetLines_unended {line : List Nat} (h : 0x0A ∉ line) (hne : line ≠ []) : octetLines line = [line] := by
  induction line with
  | nil => exact absurd rfl hne
  | cons a line ih =>
      obtain ⟨ha, hline⟩ := not_or.mp (mt List.mem_cons.mpr h)
      cases line with
      | nil => rw [octetLines, if_neg (by simpa using Ne.symm ha)]; rfl
      | cons b line => exact octetLines_cons (Ne.symm ha) (ih hline (List.cons_ne_nil _ _))

theorem flatten_octetLines (octets : List Nat) : (octetLines octets).flatten = octets := by
  induction octets with
  | nil => rfl
  | cons a rest ih =>
      by_cases ha : a = 0x0A
      · subst ha
        exact congrArg _ ih
      · cases hlines : octetLines rest with
        | nil =>
            rw [hlines] at ih
            rw [octetLines, if_neg (by simpa using ha), hlines, ← ih]
            rfl
        | cons line more =>
            rw [hlines] at ih
            rw [octetLines_cons ha hlines, ← ih]
            rfl

theorem lineFeed_not_mem_splitOn (octets : List Nat) : ∀ line ∈ octets.splitOn 0x0A, 0x0A ∉ line := by
  induction octets with
  | nil => simp
  | cons a octets ih =>
      rw [List.splitOn_cons_eq_if_modifyHead]
      split
      · exact List.forall_mem_cons.mpr ⟨List.not_mem_nil, ih⟩
      · rename_i ha
        obtain ⟨line, more, hsplit⟩ := List.exists_cons_of_ne_nil (List.splitOn_ne_nil 0x0A octets)
        rw [hsplit] at ih ⊢
        obtain ⟨hline, hmore⟩ := List.forall_mem_cons.mp ih
        refine List.forall_mem_cons.mpr ⟨fun hmem => ?_, hmore⟩
        rcases List.mem_cons.mp hmem with rfl | hmem
        · exact ha rfl
        · exact hline hmem

/-- Octets that end at the end of a line. -/
def EndsLine (octets : List Nat) : Prop :=
  ∀ a, octets.getLast? = some a → a = 0x0A

theorem endsLine_ended (octets : List Nat) : EndsLine (octets ++ [0x0A]) := by
  intro a h
  simpa [eq_comm] using h

theorem EndsLine.tail {a b : Nat} {octets : List Nat} (h : EndsLine (a :: b :: octets)) : EndsLine (b :: octets) := by
  intro c hc
  exact h c (by rwa [List.getLast?_cons_cons])

/-- What stands behind the end of a line begins a line. -/
theorem octetLines_append {before : List Nat} (after : List Nat) (h : EndsLine before) :
    octetLines (before ++ after) = octetLines before ++ octetLines after := by
  induction before with
  | nil => rfl
  | cons a before ih =>
      by_cases ha : a = 0x0A
      · subst ha
        cases before with
        | nil => rfl
        | cons b before => exact congrArg _ (ih h.tail)
      · cases before with
        | nil => exact absurd (h a rfl) ha
        | cons b before =>
            obtain ⟨line, more, hlines⟩ := List.exists_cons_of_ne_nil (octetLines_ne_nil (List.cons_ne_nil b before))
            rw [octetLines_cons ha hlines]
            refine octetLines_cons ha ((ih h.tail).trans ?_)
            rw [hlines]
            rfl

/-- There are as many lines as line feeds. -/
theorem length_octetLines {octets : List Nat} (h : EndsLine octets) :
    (octetLines octets).length = octets.count 0x0A := by
  induction octets with
  | nil => rfl
  | cons a octets ih =>
      by_cases ha : a = 0x0A
      · subst ha
        cases octets with
        | nil => rfl
        | cons b octets => rw [List.count_cons_self, ← ih h.tail]; rfl
      · cases octets with
        | nil => exact absurd (h a rfl) ha
        | cons b octets =>
            obtain ⟨line, more, hlines⟩ := List.exists_cons_of_ne_nil (octetLines_ne_nil (List.cons_ne_nil b octets))
            have hlength := ih h.tail
            rw [hlines] at hlength
            rw [octetLines_cons ha hlines, List.count_cons_of_ne ha, ← hlength]
            rfl

/-! ## Reading lines -/

theorem utf8Octets_append (s t : String) : utf8Octets (s ++ t) = utf8Octets s ++ utf8Octets t := by
  simp only [utf8Octets_eq, String.toList_append, List.flatMap_append]

theorem charOctets_lineFeed : charOctets '\n' = [0x0A] :=
  charOctets_one (by decide)

theorem utf8Octets_lineFeed : utf8Octets "\n" = [0x0A] := by
  rw [utf8Octets_eq]
  exact charOctets_lineFeed

theorem lineFeed_mem_charOctets {c : Char} : 0x0A ∈ charOctets c ↔ c = '\n' := by
  constructor
  · intro h
    have hone : c.toNat = 0x0A := by
      by_cases hone : c.toNat ≤ 0x7F
      · rw [charOctets_one hone] at h
        exact (List.mem_singleton.mp h).symm
      by_cases htwo : c.toNat ≤ 0x7FF
      · simp only [charOctets_two (by omega) htwo, List.mem_cons, List.not_mem_nil, or_false] at h
        omega
      by_cases hthree : c.toNat ≤ 0xFFFF
      · simp only [charOctets_three (by omega) hthree, List.mem_cons, List.not_mem_nil, or_false] at h
        omega
      · simp only [charOctets_four (Nat.lt_of_not_le hthree), List.mem_cons, List.not_mem_nil, or_false] at h
        omega
    exact Char.toNat_inj.mp hone
  · rintro rfl
    rw [charOctets_lineFeed]
    exact List.mem_singleton_self _

/-- A text has a line feed among its octets for every one among its characters. -/
theorem count_utf8Octets (s : String) : (utf8Octets s).count 0x0A = s.toList.count '\n' := by
  rw [utf8Octets_eq]
  induction s.toList with
  | nil => rfl
  | cons c cs ih =>
      rw [List.flatMap_cons, List.count_append, ih]
      by_cases hc : c = '\n'
      · subst hc
        rw [charOctets_lineFeed, List.count_cons_self, List.count_cons_self, Nat.add_comm]
        rfl
      · rw [List.count_eq_zero.mpr (mt lineFeed_mem_charOctets.mp hc), List.count_cons_of_ne hc, Nat.zero_add]

theorem decodeUtf8?_of_isUtf8 {octets : List Nat} (h : isUtf8 octets = true) :
    ∃ s, decodeUtf8? octets = some s :=
  Option.isSome_iff_exists.mp h

theorem decodeUtf8?_eq_none {octets : List Nat} (h : isUtf8 octets = false) : decodeUtf8? octets = none :=
  Option.isSome_eq_false_iff.mp h |> Option.isNone_iff_eq_none.mp

/-- A line feed at the end changes nothing about octets being a text. -/
theorem decodeUtf8?_ended (line : List Nat) :
    decodeUtf8? (line ++ [0x0A]) = (decodeUtf8? line).map (· ++ "\n") := by
  refine Option.ext fun t => ?_
  rw [decodeUtf8?_eq_some_iff, Option.map_eq_some_iff]
  constructor
  · intro ht
    rw [utf8Octets_eq] at ht
    -- The last character of the text is the one that the line feed belongs to.
    rcases List.eq_nil_or_concat t.toList with hnil | ⟨cs, c, hcs⟩
    · rw [hnil] at ht
      simp at ht
    · rw [hcs, List.concat_eq_append, List.flatMap_append, List.flatMap_singleton] at ht
      have hlast := congrArg List.getLast? ht
      rw [List.getLast?_append, List.getLast?_eq_some_getLast (charOctets_ne_nil c), Option.some_or,
        List.getLast?_concat] at hlast
      obtain rfl := lineFeed_mem_charOctets.mp (Option.some.inj hlast ▸ List.getLast_mem (charOctets_ne_nil c))
      rw [charOctets_lineFeed] at ht
      refine ⟨String.ofList cs, decodeUtf8?_eq_some_iff.mpr ?_, String.toList_inj.mp ?_⟩
      · rw [utf8Octets_ofList]
        exact List.append_cancel_right ht
      · rw [String.toList_append, String.toList_ofList, hcs, List.concat_eq_append]
        rfl
  · rintro ⟨s, hs, rfl⟩
    rw [utf8Octets_append, decodeUtf8?_eq_some_iff.mp hs, utf8Octets_lineFeed]

theorem isUtf8_ended (line : List Nat) : isUtf8 (line ++ [0x0A]) = isUtf8 line := by
  rw [isUtf8, decodeUtf8?_ended, Option.isSome_map, isUtf8]

/-- A line as a reader gets it. -/
def lineText? (line : List Nat) : Option String :=
  (decodeUtf8? line).map fun s => String.ofList (dropEnding s.toList)

/-- A reader gets the lines before the first that is no text. -/
theorem readLinesFrom_lines (lines : List (List Nat)) :
    (readLinesFrom lines).lines = (lines.takeWhile isUtf8).filterMap lineText? := by
  induction lines with
  | nil => rfl
  | cons line more ih =>
      cases hline : isUtf8 line with
      | true =>
          obtain ⟨s, hs⟩ := decodeUtf8?_of_isUtf8 hline
          rw [readLinesFrom, utf8Fault?_eq_none_iff.mpr hline, hs, List.takeWhile_cons_of_pos hline]
          simp only [List.filterMap_cons, lineText?, hs, Option.map_some, ← ih]
      | false =>
          rw [readLinesFrom, decodeUtf8?_eq_none hline, List.takeWhile_cons_of_neg (by simp [hline])]
          cases utf8Fault? line <;> rfl

/-! ## Trimmed lines -/

theorem trimChars_append_blank (cs : List Char) {c : Char} (h : isBlank c = true) :
    trimChars (cs ++ [c]) = trimChars cs := by
  rw [trimChars, trimChars, List.dropWhile_append]
  split
  · rename_i hall
    rw [List.isEmpty_iff.mp hall, List.dropWhile_cons_of_pos h]
    rfl
  · rw [List.reverse_append, List.reverse_singleton, List.singleton_append, List.dropWhile_cons_of_pos h]

/-- The ending of a line does not show once the line is trimmed. -/
theorem trimChars_dropEnding (cs : List Char) : trimChars (dropEnding cs) = trimChars cs := by
  have hreverse : cs = cs.reverse.reverse := (List.reverse_reverse cs).symm
  rw [dropEnding]
  split
  · rename_i before heq
    rw [hreverse, heq, List.reverse_cons, List.reverse_cons, trimChars_append_blank _ (by decide),
      trimChars_append_blank _ (by decide)]
  · rename_i before heq
    rw [hreverse, heq, List.reverse_cons, trimChars_append_blank _ (by decide)]
  · rfl

theorem trim_append_lineFeed (s : String) : trim (s ++ "\n") = trim s := by
  rw [trim, trim, String.toList_append]
  exact congrArg _ (trimChars_append_blank _ (by decide))

theorem trim_dropEnding (s : String) : trim (String.ofList (dropEnding s.toList)) = trim s := by
  rw [trim, trim, String.toList_ofList, trimChars_dropEnding]

theorem filterMap_takeWhile_cons {α β : Type} {p : α → Bool} {f g : α → Option β} {a b : α} {l l' : List α}
    (hp : p a = p b) (hab : f a = g b) (hl : (l.takeWhile p).filterMap f = (l'.takeWhile p).filterMap g) :
    ((a :: l).takeWhile p).filterMap f = ((b :: l').takeWhile p).filterMap g := by
  rw [List.takeWhile_cons, List.takeWhile_cons, hp]
  split
  · rw [List.filterMap_cons, List.filterMap_cons, hab, hl]
  · rfl

/-- What is drawn from each line that a reader gets, as long as it goes by the trimmed line and nothing is drawn from an
empty one, is what is drawn from the texts between line feeds. -/
theorem filterMap_readLines {α : Type} {f : String → Option α} (hf : ∀ {s t}, trim s = trim t → f s = f t)
    (hempty : f "" = none) {lines : List (List Nat)} (hlines : ∀ line ∈ lines, 0x0A ∉ line) :
    (readLines ([0x0A].intercalate lines)).lines.filterMap f =
      (lines.takeWhile isUtf8).filterMap fun line => decodeUtf8? line >>= f := by
  have hread (line : List Nat) : (lineText? line).bind f = decodeUtf8? line >>= f := by
    rw [lineText?]
    cases decodeUtf8? line with
    | none => rfl
    | some s => exact hf (trim_dropEnding s)
  have hended (line : List Nat) : (lineText? (line ++ [0x0A])).bind f = decodeUtf8? line >>= f := by
    rw [hread, decodeUtf8?_ended]
    cases decodeUtf8? line with
    | none => rfl
    | some s => exact hf (trim_append_lineFeed s)
  rw [readLines, readLinesFrom_lines, List.filterMap_filterMap]
  induction lines with
  | nil => rfl
  | cons line lines ih =>
      have hline := hlines line List.mem_cons_self
      cases lines with
      | nil =>
          rw [List.intercalate_singleton]
          by_cases hnil : line = []
          · -- Behind the last line feed there is no line.
            subst hnil
            have hdraw : decodeUtf8? [] >>= f = none := hempty
            exact (List.filterMap_cons_none (f := fun line => decodeUtf8? line >>= f) (l := []) hdraw).symm
          · rw [octetLines_unended hline hnil]
            exact filterMap_takeWhile_cons rfl (hread line) rfl
      | cons next lines =>
          rw [List.intercalate_cons_cons, List.append_assoc, List.singleton_append, octetLines_ended _ hline]
          exact filterMap_takeWhile_cons (isUtf8_ended line) (hended line)
            (ih fun l hl => hlines l (List.mem_cons_of_mem _ hl))

end PageAudit.Text
