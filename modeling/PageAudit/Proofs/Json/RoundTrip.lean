import Mathlib.Data.List.DropRight
import PageAudit.Json.Printer
import PageAudit.Json.Reader
import PageAudit.Proofs.Decimal.Digits

/-!
# JSON there and back

What the printer writes in indented lines, the reader takes back to the same value. Doubles are left out: the reader
computes them by a rule of its own.
-/

namespace PageAudit.Json

open PageAudit.Document PageAudit.Decimal

/-! ## Texts -/

theorem hexOf?_hexDigit : ∀ n < 16, hexOf? (hexDigit n) = some n := by decide

theorem skipSpace_of_not {c : Char} (h : isSpace c = false) (cs : List Char) :
    skipSpace (c :: cs) = c :: cs := by
  simp [skipSpace, h]

theorem skipSpace_newline (level : Nat) (cs : List Char) :
    skipSpace (newline level ++ cs) = skipSpace cs := by
  have hblanks : ∀ n, (List.replicate n ' ' ++ cs).dropWhile isSpace = cs.dropWhile isSpace := by
    intro n
    induction n with
    | zero => rfl
    | succ n ih => simpa [List.replicate_succ, isSpace] using ih
  simpa [skipSpace, newline, isSpace] using hblanks (2 * level)

theorem readPieces_short {e c : Char} (he : e ≠ 'u') (hc : shortEscape? e = some c) (rest : List Char) :
    readPieces ('\\' :: e :: rest) = (readPieces rest).map fun q => (.char c :: q.1, q.2) := by
  rw [readPieces, hc]
  · cases readPieces rest <;> rfl
  · simp [he]

theorem readPieces_plain {c : Char} (hquote : c ≠ '"') (hslash : c ≠ '\\') (hcontrol : ¬c.toNat < 0x20)
    (rest : List Char) :
    readPieces (c :: rest) = (readPieces rest).map fun q => (.char c :: q.1, q.2) := by
  rw [readPieces]
  · simp [hslash, hcontrol]
    cases readPieces rest <;> rfl
  all_goals simp_all

theorem readPieces_unit {n : Nat} (hn : n < 0x20) (rest : List Char) :
    readPieces ('\\' :: 'u' :: '0' :: '0' :: hexDigit (n / 16) :: hexDigit (n % 16) :: rest) =
      (readPieces rest).map fun q => (.unit n :: q.1, q.2) := by
  have hhigh := hexOf?_hexDigit (n / 16) (by omega)
  have hlow := hexOf?_hexDigit (n % 16) (by omega)
  have hzero : hexOf? '0' = some 0 := by decide
  have hvalue : n / 16 * 16 + n % 16 = n := by omega
  simp only [readPieces, hex4?, hzero, hhigh, hlow, bind, Option.bind, pure, Nat.zero_mul, Nat.zero_add, hvalue]
  cases readPieces rest <;> rfl

/-- A character is written after a backslash, in hexadecimal digits, or as it is. -/
theorem escapeChar_cases (c : Char) :
    (∃ e, e ≠ 'u' ∧ shortEscape? e = some c ∧ escapeChar c = ['\\', e]) ∨
      (c.toNat < 0x20 ∧
        escapeChar c = ['\\', 'u', '0', '0', hexDigit (c.toNat / 16), hexDigit (c.toNat % 16)]) ∨
      (c ≠ '"' ∧ c ≠ '\\' ∧ ¬c.toNat < 0x20 ∧ escapeChar c = [c]) := by
  have hshort : ∀ d e, e ≠ 'u' → shortEscape? e = some d → escapeChar d = ['\\', e] → c = d →
      ∃ e, e ≠ 'u' ∧ shortEscape? e = some c ∧ escapeChar c = ['\\', e] := by
    rintro d e he hread hwrite rfl
    exact ⟨e, he, hread, hwrite⟩
  by_cases hquote : c = '"'
  · exact Or.inl (hshort '"' '"' (by decide) (by decide) (by decide) hquote)
  by_cases hslash : c = '\\'
  · exact Or.inl (hshort '\\' '\\' (by decide) (by decide) (by decide) hslash)
  by_cases hback : c = '\x08'
  · exact Or.inl (hshort '\x08' 'b' (by decide) (by decide) (by decide) hback)
  by_cases htab : c = '\t'
  · exact Or.inl (hshort '\t' 't' (by decide) (by decide) (by decide) htab)
  by_cases hfeed : c = '\n'
  · exact Or.inl (hshort '\n' 'n' (by decide) (by decide) (by decide) hfeed)
  by_cases hform : c = '\x0c'
  · exact Or.inl (hshort '\x0c' 'f' (by decide) (by decide) (by decide) hform)
  by_cases hreturn : c = '\r'
  · exact Or.inl (hshort '\r' 'r' (by decide) (by decide) (by decide) hreturn)
  by_cases hcontrol : c.toNat < 0x20
  · exact Or.inr (Or.inl ⟨hcontrol, by simp [escapeChar, *]⟩)
  · exact Or.inr (Or.inr ⟨hquote, hslash, hcontrol, by simp [escapeChar, *]⟩)

/-- The spelling of a character is read as one piece that stands for it. -/
theorem readPieces_escapeChar (c : Char) (rest : List Char) :
    ∃ p : Piece, readPieces (escapeChar c ++ rest) = (readPieces rest).map (fun q => (p :: q.1, q.2)) ∧
      ∀ ps, joinPieces (p :: ps) = (joinPieces ps).map (c :: ·) := by
  rcases escapeChar_cases c with ⟨e, he, hread, hwrite⟩ | ⟨hcontrol, hwrite⟩ | ⟨hquote, hslash, hcontrol, hwrite⟩
  · exact ⟨.char c, hwrite ▸ readPieces_short he hread rest, fun _ => rfl⟩
  · refine ⟨.unit c.toNat, hwrite ▸ readPieces_unit hcontrol rest, fun ps => ?_⟩
    have hhigh : isHigh c.toNat = false := by simp [isHigh]; omega
    have hlow : isLow c.toNat = false := by simp [isLow]; omega
    rcases ps with _ | ⟨_ | _, _⟩ <;> simp [joinPieces, hhigh, hlow, Char.ofNat_toNat]
  · exact ⟨.char c, hwrite ▸ readPieces_plain hquote hslash hcontrol rest, fun _ => rfl⟩

theorem readText_escape (cs rest : List Char) :
    readText (cs.flatMap escapeChar ++ '"' :: rest) = some (some (String.ofList cs), rest) := by
  have hpieces : ∃ ps, readPieces (cs.flatMap escapeChar ++ '"' :: rest) = some (ps, rest) ∧
      joinPieces ps = some cs := by
    induction cs with
    | nil => exact ⟨[], by simp [readPieces], rfl⟩
    | cons c cs ih =>
        obtain ⟨ps, hread, hjoin⟩ := ih
        obtain ⟨p, hp, hc⟩ := readPieces_escapeChar c (cs.flatMap escapeChar ++ '"' :: rest)
        refine ⟨p :: ps, ?_, ?_⟩
        · rw [List.flatMap_cons, List.append_assoc, hp, hread]
          rfl
        · rw [hc, hjoin]
          rfl
  obtain ⟨ps, hread, hjoin⟩ := hpieces
  simp [readText, hread, hjoin]

/-! ## Whole numbers -/

/-- What follows does not go on with a number. -/
def Ended (cs : List Char) : Prop :=
  ∀ c ∈ cs.head?, c.isDigit = false ∧ c ≠ '.' ∧ c ≠ 'e' ∧ c ≠ 'E'

theorem Ended.nil : Ended [] := by simp [Ended]

theorem Ended.cons {c : Char} {cs : List Char} (h : c.isDigit = false ∧ c ≠ '.' ∧ c ≠ 'e' ∧ c ≠ 'E') :
    Ended (c :: cs) := by
  simpa [Ended] using h

theorem Ended.noDigit {cs : List Char} (h : Ended cs) : NoDigit cs := fun c hc => (h c hc).1

theorem readWhole_toDigits (n : Nat) {rest : List Char} (hrest : Ended rest) :
    readWhole (Nat.toDigits 10 n ++ rest) = some (digitValues n, rest) := by
  unfold readWhole
  rw [takeDigits_toDigits n hrest.noDigit]
  by_cases hn : n = 0
  · simp [hn, digitValues_of_lt]
  · have hhead := digitValues_head hn
    split
    · rename_i h
      exact absurd (congrArg Prod.fst h) (digitValues_ne_nil n)
    · rename_i h
      obtain ⟨hdigits, -⟩ := Prod.mk.inj h
      simp [hdigits] at hhead
    · rfl

theorem readUnsigned_toDigits {negative : Bool} {n : Nat} {i : Int} {rest : List Char} (hrest : Ended rest)
    (hwhole : (Literal.mk negative (digitValues n) none none).number = .whole i) :
    readUnsigned negative (Nat.toDigits 10 n ++ rest) = some (.int i, rest) := by
  have hfraction : readFraction rest = some (none, rest) := by
    cases rest with
    | nil => rfl
    | cons c rest =>
        unfold readFraction
        split
        · rename_i h
          cases h
          exact absurd rfl (hrest '.' rfl).2.1
        · rfl
  have hexponent : readExponent rest = some (none, rest) := by
    cases rest with
    | nil => rfl
    | cons c rest =>
        obtain ⟨-, -, he, hE⟩ := hrest c rfl
        simp [readExponent, he, hE]
  simp [readUnsigned, readWhole_toDigits n hrest, hfraction, hexponent, hwhole]

theorem number_of_word {n : Nat} (hn : n ≤ wordMax 64) :
    (Literal.mk false (digitValues n) none none).number = .whole n := by
  simp [Literal.number, pushDigits_digitValues hn]

theorem number_of_negative {n : Nat} (hpos : n ≠ 0) (hn : n ≤ Nat.pow 2 63) :
    (Literal.mk true (digitValues n) none none).number = .whole (-n) := by
  have hword : n ≤ wordMax 64 := Nat.le_trans hn (by decide)
  have hfits : ¬Nat.pow 2 63 < n := Nat.not_lt.mpr hn
  simp [Literal.number, pushDigits_digitValues hword, hpos, hfits]

/-! ## Values -/

mutual
/-- A value without doubles whose whole numbers fit 64 bits. -/
def IsExact : Data → Prop
  | .null | .bool _ | .str _ => True
  | .int i => -i ≤ (Nat.pow 2 63 : Nat) ∧ i ≤ wordMax 64
  | .list items => AreExact items
  | .map entries => HaveExact entries
  | .float _ | .unreadable => False

/-- Such values. -/
def AreExact : List Data → Prop
  | [] => True
  | d :: ds => IsExact d ∧ AreExact ds

/-- Entries with such values. -/
def HaveExact : List (String × Data) → Prop
  | [] => True
  | (_, d) :: es => IsExact d ∧ HaveExact es
end

theorem areExact_iff {ds : List Data} : AreExact ds ↔ ∀ d ∈ ds, IsExact d := by
  induction ds with
  | nil => simp [AreExact]
  | cons d ds ih => simp [AreExact, ih]

/-- A digit in front begins a whole number. -/
theorem readValue_digit {c : Char} (hc : c.isDigit = true) (n : Nat) (cs : List Char) :
    readValue (n + 1) (c :: cs) = readUnsigned false (c :: cs) := by
  have hspace : isSpace c = false := by
    simp only [isSpace, Bool.or_eq_false_iff, beq_eq_false_iff_ne, ne_eq]
    refine ⟨⟨⟨?_, ?_⟩, ?_⟩, ?_⟩ <;> (rintro rfl; revert hc; decide)
  rw [readValue, skipSpace_of_not hspace]
  split
  case h_8 => rfl
  all_goals
    rename_i h
    cases h
    exact absurd hc (by decide)

theorem readValue_int {i : Int} (hi : IsExact (.int i)) (n : Nat) {rest : List Char} (hrest : Ended rest) :
    readValue (n + 1) (writeInt i ++ rest) = some (.int i, rest) := by
  obtain ⟨hlow, hhigh⟩ := hi
  unfold writeInt
  split
  · rename_i hpos
    have hnumber := number_of_word (n := i.toNat) (by omega)
    rw [Int.toNat_of_nonneg hpos] at hnumber
    obtain ⟨c, cs, hcs⟩ := List.exists_cons_of_ne_nil (Nat.toDigits_ne_nil (n := i.toNat) (b := 10))
    have hc : c.isDigit = true :=
      Nat.isDigit_of_mem_toDigits (by decide) (by decide) (hcs ▸ List.mem_cons_self : c ∈ Nat.toDigits 10 i.toNat)
    rw [hcs, List.cons_append, readValue_digit hc, ← List.cons_append, ← hcs]
    exact readUnsigned_toDigits hrest hnumber
  · rename_i hneg
    have hnumber := number_of_negative (n := i.natAbs) (by omega) (by omega)
    have hread := readUnsigned_toDigits hrest hnumber
    have hvalue : -(i.natAbs : Int) = i := by omega
    rw [hvalue] at hread
    rw [readValue, List.cons_append, skipSpace_of_not (by decide)]
    exact hread

theorem skipSpace_skipSpace (cs : List Char) : skipSpace (skipSpace cs) = skipSpace cs :=
  List.dropWhile_idempotent ..

theorem readValue_skipSpace (n : Nat) (cs : List Char) : readValue n (skipSpace cs) = readValue n cs := by
  cases n with
  | zero => rfl
  | succ n => rw [readValue, readValue, skipSpace_skipSpace]

theorem readItems_skipSpace (n : Nat) (cs : List Char) : readItems n (skipSpace cs) = readItems n cs := by
  cases n with
  | zero => rfl
  | succ n => rw [readItems, readItems, readValue_skipSpace]

theorem readEntries_skipSpace (n : Nat) (cs : List Char) : readEntries n (skipSpace cs) = readEntries n cs := by
  cases n with
  | zero => rfl
  | succ n => rw [readEntries, readEntries, skipSpace_skipSpace]

theorem readValue_newline (n level : Nat) (cs : List Char) :
    readValue n (newline level ++ cs) = readValue n cs := by
  rw [← readValue_skipSpace, skipSpace_newline, readValue_skipSpace]

theorem readValue_space (n : Nat) (cs : List Char) : readValue n (' ' :: cs) = readValue n cs := by
  have hskip : skipSpace (' ' :: cs) = skipSpace cs := by simp [skipSpace, isSpace]
  rw [← readValue_skipSpace, hskip, readValue_skipSpace]

/-- A list that is not empty is read item by item. -/
theorem readValue_list {n : Nat} {cs rest : List Char} {ds : List Data} (h : readItems n cs = some (ds, rest)) :
    readValue (n + 1) ('[' :: cs) = some (.list ds, rest) := by
  have hopen : ∀ more, skipSpace cs ≠ ']' :: more := by
    intro more hcs
    rw [← readItems_skipSpace, hcs] at h
    rcases n with _ | _ | n <;> simp [readItems, readValue, skipSpace, isSpace, readUnsigned, readWhole,
      takeDigits, digitOf?] at h
  rw [← readItems_skipSpace] at h
  rw [readValue, skipSpace_of_not (by decide)]
  split
  case h_2 heq =>
    cases heq
    split
    · exact absurd ‹_› (hopen _)
    · rw [h]
      rfl
  all_goals simp_all

theorem mapOf_map_some (es : List (String × Data)) : mapOf (es.map fun e => (some e.1, e.2)) = .map es := by
  have hkeys : (es.map fun e => (some e.1, e.2)).mapM (fun x => x.1.map fun k => (k, x.2)) = some es := by
    induction es with
    | nil => rfl
    | cons e es ih => simp [List.mapM_cons, ih]
  unfold mapOf
  rw [hkeys]

/-- A map that is not empty is read entry by entry. -/
theorem readValue_map {n : Nat} {cs rest : List Char} {es : List (String × Data)}
    (h : readEntries n cs = some (es.map fun e => (some e.1, e.2), rest)) :
    readValue (n + 1) ('{' :: cs) = some (.map es, rest) := by
  have hopen : ∀ more, skipSpace cs ≠ '}' :: more := by
    intro more hcs
    rw [← readEntries_skipSpace, hcs] at h
    rcases n with _ | n <;> simp [readEntries, skipSpace, isSpace] at h
  rw [← readEntries_skipSpace] at h
  rw [readValue, skipSpace_of_not (by decide)]
  split
  case h_1 heq =>
    cases heq
    split
    · exact absurd ‹_› (hopen _)
    · rw [h]
      simp [mapOf_map_some]
  all_goals simp_all

theorem readValue_leaf {d : Data} (hd : IsExact d) (hlist : ∀ ds, d ≠ .list ds) (hmap : ∀ es, d ≠ .map es) (n : Nat)
    {rest : List Char} (hrest : Ended rest) : readValue (n + 1) (writeLeaf d ++ rest) = some (d, rest) := by
  cases d with
  | null => simp [writeLeaf, readValue, skipSpace, isSpace, takeWord]
  | bool b => cases b <;> simp [writeLeaf, readValue, skipSpace, isSpace, takeWord]
  | int i => exact readValue_int hd n hrest
  | float x => exact hd.elim
  | str s =>
      have hread := readText_escape s.toList rest
      simp [writeLeaf, writeText, readValue, skipSpace, isSpace, hread]
  | list ds => exact absurd rfl (hlist ds)
  | map es => exact absurd rfl (hmap es)
  | unreadable => exact hd.elim

theorem writeLeaf_length {d : Data} (hd : IsExact d) : 0 < (writeLeaf d).length := by
  cases d with
  | bool b => cases b <;> simp [writeLeaf]
  | int i =>
      simp only [writeLeaf, writeInt]
      split
      · exact Nat.length_toDigits_pos
      · simp
  | float x => exact hd.elim
  | str s => simp [writeLeaf, writeText]
  | null | list | map | unreadable => simp [writeLeaf]

theorem readValue_indented_leaf {d : Data} (hd : IsExact d) (hlist : ∀ ds, d ≠ .list ds) (hmap : ∀ es, d ≠ .map es)
    {level n : Nat} {rest : List Char} (hrest : Ended rest) (hn : 2 * (indentedChars level d).length ≤ n) :
    readValue n (indentedChars level d ++ rest) = some (d, rest) := by
  have hleaf : indentedChars level d = writeLeaf d := by
    cases d with
    | list ds => exact absurd rfl (hlist ds)
    | map es => exact absurd rfl (hmap es)
    | _ => simp [indentedChars]
  have hpos := writeLeaf_length hd
  obtain ⟨n, rfl⟩ : ∃ m, n = m + 1 := ⟨n - 1, by rw [hleaf] at hn; omega⟩
  rw [hleaf]
  exact readValue_leaf hd hlist hmap n hrest

theorem ended_newline (level : Nat) (cs : List Char) : Ended (newline level ++ cs) :=
  Ended.cons (by decide)

mutual
theorem readValue_indented : ∀ (d : Data) (level n : Nat) (rest : List Char), IsExact d → Ended rest →
    2 * (indentedChars level d).length ≤ n → readValue n (indentedChars level d ++ rest) = some (d, rest)
  | .list [], level, n, rest, _, _, hn => by
      obtain ⟨n, rfl⟩ : ∃ m, n = m + 1 := ⟨n - 1, by simp [indentedChars] at hn; omega⟩
      simp [indentedChars, readValue, skipSpace, isSpace]
  | .list (d :: ds), level, n, rest, hd, hrest, hn => by
      simp only [indentedChars, List.length_cons] at hn ⊢
      obtain ⟨n, rfl⟩ : ∃ m, n = m + 1 := ⟨n - 1, by omega⟩
      exact readValue_list (readItems_indented (d :: ds) level n rest (by simp) hd (by omega))
  | .map [], level, n, rest, _, _, hn => by
      obtain ⟨n, rfl⟩ : ∃ m, n = m + 1 := ⟨n - 1, by simp [indentedChars] at hn; omega⟩
      simp [indentedChars, readValue, skipSpace, isSpace]
  | .map (e :: es), level, n, rest, hd, hrest, hn => by
      simp only [indentedChars, List.length_cons] at hn ⊢
      obtain ⟨n, rfl⟩ : ∃ m, n = m + 1 := ⟨n - 1, by omega⟩
      exact readValue_map (readEntries_indented (e :: es) level n rest (by simp) hd (by omega))
  | .null, _, _, _, hd, hrest, hn => readValue_indented_leaf hd (by simp) (by simp) hrest hn
  | .bool _, _, _, _, hd, hrest, hn => readValue_indented_leaf hd (by simp) (by simp) hrest hn
  | .int _, _, _, _, hd, hrest, hn => readValue_indented_leaf hd (by simp) (by simp) hrest hn
  | .str _, _, _, _, hd, hrest, hn => readValue_indented_leaf hd (by simp) (by simp) hrest hn

theorem readItems_indented : ∀ (ds : List Data) (level n : Nat) (rest : List Char), ds ≠ [] → AreExact ds →
    2 * (indentedItems level ds).length < n → readItems n (indentedItems level ds ++ rest) = some (ds, rest)
  | [], _, _, _, hds, _, _ => absurd rfl hds
  | [d], level, n + 1, rest, _, hd, hn => by
      simp only [indentedItems, List.length_append, List.length_cons, List.append_assoc] at hn ⊢
      have hvalue := readValue_indented d (level + 1) n (newline level ++ (']' :: rest)) hd.1 (ended_newline _ _)
        (by omega)
      have hclose : isSpace ']' = false := by decide
      simp [readItems, readValue_newline, hvalue, skipSpace_newline, skipSpace_of_not hclose]
  | d :: d' :: ds, level, n + 1, rest, _, hd, hn => by
      simp only [indentedItems, List.length_append, List.length_cons, List.append_assoc] at hn ⊢
      have hvalue := readValue_indented d (level + 1) n (',' :: (indentedItems level (d' :: ds) ++ rest)) hd.1
        (.cons (by decide)) (by omega)
      have hmore := readItems_indented (d' :: ds) level n rest (by simp) hd.2 (by omega)
      have hcomma : isSpace ',' = false := by decide
      simp [readItems, readValue_newline, hvalue, hmore, skipSpace_of_not hcomma]

theorem readEntries_indented : ∀ (es : List (String × Data)) (level n : Nat) (rest : List Char), es ≠ [] →
    HaveExact es → 2 * (indentedEntries level es).length < n →
    readEntries n (indentedEntries level es ++ rest) = some (es.map fun e => (some e.1, e.2), rest)
  | [], _, _, _, hes, _, _ => absurd rfl hes
  | [(k, d)], level, n + 1, rest, _, hd, hn => by
      simp only [indentedEntries, List.length_append, List.length_cons, List.append_assoc, List.cons_append] at hn ⊢
      have hvalue := readValue_indented d (level + 1) n (newline level ++ ('}' :: rest)) hd.1 (ended_newline _ _)
        (by omega)
      have hkey := readText_escape k.toList
        (':' :: ' ' :: (indentedChars (level + 1) d ++ (newline level ++ ('}' :: rest))))
      have hquote : isSpace '"' = false := by decide
      have hcolon : isSpace ':' = false := by decide
      have hclose : isSpace '}' = false := by decide
      simp [readEntries, writeText, skipSpace_newline, skipSpace_of_not hquote, skipSpace_of_not hcolon,
        skipSpace_of_not hclose, hkey, readValue_space, hvalue]
  | (k, d) :: e :: es, level, n + 1, rest, _, hd, hn => by
      simp only [indentedEntries, List.length_append, List.length_cons, List.append_assoc, List.cons_append] at hn ⊢
      have hvalue := readValue_indented d (level + 1) n (',' :: (indentedEntries level (e :: es) ++ rest)) hd.1
        (.cons (by decide)) (by omega)
      have hmore := readEntries_indented (e :: es) level n rest (by simp) hd.2 (by omega)
      have hkey := readText_escape k.toList
        (':' :: ' ' :: (indentedChars (level + 1) d ++ (',' :: (indentedEntries level (e :: es) ++ rest))))
      have hquote : isSpace '"' = false := by decide
      have hcolon : isSpace ':' = false := by decide
      have hcomma : isSpace ',' = false := by decide
      simp [readEntries, writeText, skipSpace_newline, skipSpace_of_not hquote, skipSpace_of_not hcolon,
        skipSpace_of_not hcomma, hkey, readValue_space, hvalue, hmore]
end

/-- What was written in indented lines is read back, with or without a line feed at the end. -/
theorem read?_indented {d : Data} (hd : IsExact d) {rest : List Char} (hrest : Ended rest)
    (hblank : skipSpace rest = []) : read? (indented d ++ String.ofList rest) = some d := by
  have hchars : (indented d ++ String.ofList rest).toList = indentedChars 0 d ++ rest := by simp [indented]
  have hread := readValue_indented d 0 (2 * (indentedChars 0 d ++ rest).length + 2) rest hd hrest
    (by rw [List.length_append]; omega)
  unfold read?
  simp only [hchars, hread, hblank]
  rfl

end PageAudit.Json
