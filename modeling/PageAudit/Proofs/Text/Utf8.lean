import PageAudit.Files.Slot
import PageAudit.Text.Lines

/-!
# Octets and the texts that they write

The strict reading accepts exactly the octets that a text is written with, and gives that text back. Octets have no fault
just when they can be read.
-/

namespace PageAudit.Text

open Files

/-- The octets of a character. -/
def charOctets (c : Char) : List Nat :=
  (String.utf8EncodeChar c).map UInt8.toNat

theorem toList_loop_octets (bs : ByteArray) (i : Nat) (read : List UInt8) :
    ByteArray.toList.loop bs i read = read.reverse ++ bs.data.toList.drop i := by
  fun_induction ByteArray.toList.loop bs i read with
  | case1 i read hlt ih =>
      have hi : i < bs.data.toList.length := by simpa using hlt
      have hget : bs.get! i = bs.data.toList[i] := getElem!_pos bs.data i (by simpa using hlt)
      rw [ih, List.drop_eq_getElem_cons hi, hget, List.reverse_cons, List.append_assoc]
      rfl
  | case2 i read hge =>
      have hend : bs.data.toList.length ≤ i := by simpa using hge
      rw [List.drop_eq_nil_of_le hend, List.append_nil]

theorem utf8Octets_ofList (cs : List Char) : utf8Octets (String.ofList cs) = cs.flatMap charOctets := by
  have hoctets : (String.ofList cs).toUTF8.toList = cs.flatMap String.utf8EncodeChar := by
    rw [ByteArray.toList, toList_loop_octets, String.toUTF8_eq_toByteArray, String.toByteArray_ofList, List.utf8Encode]
    simp
  rw [utf8Octets, hoctets, List.map_flatMap]
  rfl

theorem utf8Octets_eq (s : String) : utf8Octets s = s.toList.flatMap charOctets := by
  rw [← utf8Octets_ofList, String.ofList_toList]

/-! ## The octets of a character by its size -/

section Sizes

variable {c : Char}

theorem toNat_range (c : Char) : c.toNat < 0xD800 ∨ 0xDFFF < c.toNat ∧ c.toNat < 0x110000 :=
  c.valid

theorem charOctets_one (h : c.toNat ≤ 0x7F) : charOctets c = [c.toNat] := by
  have h' : c.val.toNat ≤ 0x7F := h
  simp only [charOctets, String.utf8EncodeChar, if_pos h', List.map_cons, List.map_nil, UInt8.toNat_ofNat']
  simp only [Char.toNat, List.cons.injEq, and_true]
  omega

theorem charOctets_two (h : 0x7F < c.toNat) (hle : c.toNat ≤ 0x7FF) :
    charOctets c = [c.toNat / 64 + 0xC0, c.toNat % 64 + 0x80] := by
  have h' : ¬c.val.toNat ≤ 0x7F := Nat.not_le.mpr h
  have hle' : c.val.toNat ≤ 0x7FF := hle
  simp only [charOctets, String.utf8EncodeChar, if_neg h', if_pos hle', List.map_cons, List.map_nil,
    UInt8.toNat_ofNat']
  simp only [Char.toNat, List.cons.injEq, and_true]
  omega

theorem charOctets_three (h : 0x7FF < c.toNat) (hle : c.toNat ≤ 0xFFFF) :
    charOctets c = [c.toNat / 4096 + 0xE0, c.toNat / 64 % 64 + 0x80, c.toNat % 64 + 0x80] := by
  have hone : ¬c.val.toNat ≤ 0x7F := by
    have : 0x7FF < c.val.toNat := h
    omega
  have htwo : ¬c.val.toNat ≤ 0x7FF := Nat.not_le.mpr h
  have hle' : c.val.toNat ≤ 0xFFFF := hle
  simp only [charOctets, String.utf8EncodeChar, if_neg hone, if_neg htwo, if_pos hle', List.map_cons, List.map_nil,
    UInt8.toNat_ofNat']
  simp only [Char.toNat, List.cons.injEq, and_true]
  omega

theorem charOctets_four (h : 0xFFFF < c.toNat) :
    charOctets c = [c.toNat / 262144 + 0xF0, c.toNat / 4096 % 64 + 0x80, c.toNat / 64 % 64 + 0x80,
      c.toNat % 64 + 0x80] := by
  have h' : 0xFFFF < c.val.toNat := h
  have hrange := toNat_range c
  simp only [Char.toNat] at hrange
  simp only [charOctets, String.utf8EncodeChar, if_neg (show ¬c.val.toNat ≤ 0x7F by omega),
    if_neg (show ¬c.val.toNat ≤ 0x7FF by omega), if_neg (show ¬c.val.toNat ≤ 0xFFFF by omega), List.map_cons,
    List.map_nil, UInt8.toNat_ofNat']
  simp only [Char.toNat, List.cons.injEq, and_true]
  omega

end Sizes

/-! ## Reading one character -/

theorem isTail_iff {b : Nat} : isTail b = true ↔ 0x80 ≤ b ∧ b ≤ 0xBF := by
  simp [isTail]

theorem isSecond_iff {a b : Nat} : isSecond a b = true ↔
    0x80 ≤ b ∧ b ≤ 0xBF ∧ (a = 0xE0 → 0xA0 ≤ b) ∧ (a = 0xED → b ≤ 0x9F) ∧ (a = 0xF0 → 0x90 ≤ b) ∧
      (a = 0xF4 → b ≤ 0x8F) := by
  unfold isSecond
  split
  · rename_i h
    simp_all
    omega
  · split
    · rename_i h
      simp_all
      omega
    · split
      · rename_i h
        simp_all
        omega
      · split
        · rename_i h
          simp_all
          omega
        · rw [isTail_iff]
          simp_all

/-- A character is read from its octets, whatever follows. -/
theorem utf8Step_charOctets (c : Char) (rest : List Nat) :
    ∃ a more, charOctets c = a :: more ∧ utf8Step a (more ++ rest) = .char c (more.length + 1) := by
  have hrange := toNat_range c
  have hself : Char.ofNat c.toNat = c := Char.ofNat_toNat c
  by_cases hone : c.toNat ≤ 0x7F
  · refine ⟨_, _, charOctets_one hone, ?_⟩
    simp only [utf8Step, if_pos (show c.toNat < 0x80 by omega), hself]
    rfl
  by_cases htwo : c.toNat ≤ 0x7FF
  · refine ⟨_, _, charOctets_two (by omega) htwo, ?_⟩
    have htail : isTail (c.toNat % 64 + 0x80) = true := isTail_iff.mpr (by omega)
    have hvalue : (c.toNat / 64 + 0xC0 - 0xC0) * 64 + (c.toNat % 64 + 0x80 - 0x80) = c.toNat := by omega
    simp only [utf8Step, List.cons_append, List.nil_append, htail, if_true, hvalue, hself]
    rw [if_neg (by omega), if_pos (by simp; omega)]
    rfl
  by_cases hthree : c.toNat ≤ 0xFFFF
  · refine ⟨_, _, charOctets_three (by omega) hthree, ?_⟩
    have hsecond : isSecond (c.toNat / 4096 + 0xE0) (c.toNat / 64 % 64 + 0x80) = true := isSecond_iff.mpr (by omega)
    have htail : isTail (c.toNat % 64 + 0x80) = true := isTail_iff.mpr (by omega)
    have hvalue : ((c.toNat / 4096 + 0xE0 - 0xE0) * 64 + (c.toNat / 64 % 64 + 0x80 - 0x80)) * 64 +
        (c.toNat % 64 + 0x80 - 0x80) = c.toNat := by omega
    simp only [utf8Step, List.cons_append, List.nil_append, hsecond, htail, hvalue, hself]
    rw [if_neg (by omega), if_neg (by simp), if_pos (by simp; omega)]
    rfl
  · refine ⟨_, _, charOctets_four (by omega), ?_⟩
    have hsecond : isSecond (c.toNat / 262144 + 0xF0) (c.toNat / 4096 % 64 + 0x80) = true :=
      isSecond_iff.mpr (by omega)
    have hthird : isTail (c.toNat / 64 % 64 + 0x80) = true := isTail_iff.mpr (by omega)
    have hfourth : isTail (c.toNat % 64 + 0x80) = true := isTail_iff.mpr (by omega)
    have hvalue : (((c.toNat / 262144 + 0xF0 - 0xF0) * 64 + (c.toNat / 4096 % 64 + 0x80 - 0x80)) * 64 +
        (c.toNat / 64 % 64 + 0x80 - 0x80)) * 64 + (c.toNat % 64 + 0x80 - 0x80) = c.toNat := by omega
    simp only [utf8Step, List.cons_append, List.nil_append, hsecond, hthird, hfourth, hvalue, hself]
    rw [if_neg (by omega), if_neg (by simp), if_neg (by simp), if_pos (by simp; omega)]
    rfl

theorem toNat_ofNat {n : Nat} (h : n < 0xD800 ∨ 0xDFFF < n ∧ n < 0x110000) : (Char.ofNat n).toNat = n := by
  have hvalid : n.isValidChar := h
  rw [Char.ofNat, dif_pos hvalid]
  rfl

/-! ## Octets that make a character -/

theorem charOctets_ofNat_one {a : Nat} (ha : a < 0x80) : charOctets (Char.ofNat a) = [a] := by
  have hvalue : (Char.ofNat a).toNat = a := toNat_ofNat (by omega)
  rw [charOctets_one (by omega), hvalue]

theorem charOctets_ofNat_two {a b : Nat} (ha : 0xC2 ≤ a ∧ a ≤ 0xDF) (hb : isTail b = true) :
    charOctets (Char.ofNat ((a - 0xC0) * 64 + (b - 0x80))) = [a, b] := by
  rw [isTail_iff] at hb
  have hvalue : (Char.ofNat ((a - 0xC0) * 64 + (b - 0x80))).toNat = (a - 0xC0) * 64 + (b - 0x80) :=
    toNat_ofNat (by omega)
  rw [charOctets_two (by omega) (by omega), hvalue,
    show ((a - 0xC0) * 64 + (b - 0x80)) / 64 + 0xC0 = a by omega,
    show ((a - 0xC0) * 64 + (b - 0x80)) % 64 + 0x80 = b by omega]

theorem charOctets_ofNat_three {a b d : Nat} (ha : 0xE0 ≤ a ∧ a ≤ 0xEF) (hb : isSecond a b = true)
    (hd : isTail d = true) :
    charOctets (Char.ofNat (((a - 0xE0) * 64 + (b - 0x80)) * 64 + (d - 0x80))) = [a, b, d] := by
  rw [isSecond_iff] at hb
  rw [isTail_iff] at hd
  have hvalue : (Char.ofNat (((a - 0xE0) * 64 + (b - 0x80)) * 64 + (d - 0x80))).toNat =
      ((a - 0xE0) * 64 + (b - 0x80)) * 64 + (d - 0x80) := toNat_ofNat (by omega)
  rw [charOctets_three (by omega) (by omega), hvalue,
    show (((a - 0xE0) * 64 + (b - 0x80)) * 64 + (d - 0x80)) / 4096 + 0xE0 = a by omega,
    show (((a - 0xE0) * 64 + (b - 0x80)) * 64 + (d - 0x80)) / 64 % 64 + 0x80 = b by omega,
    show (((a - 0xE0) * 64 + (b - 0x80)) * 64 + (d - 0x80)) % 64 + 0x80 = d by omega]

theorem charOctets_ofNat_four {a b d e : Nat} (ha : 0xF0 ≤ a ∧ a ≤ 0xF4) (hb : isSecond a b = true)
    (hd : isTail d = true) (he : isTail e = true) :
    charOctets (Char.ofNat ((((a - 0xF0) * 64 + (b - 0x80)) * 64 + (d - 0x80)) * 64 + (e - 0x80))) = [a, b, d, e] := by
  rw [isSecond_iff] at hb
  rw [isTail_iff] at hd he
  have hvalue : (Char.ofNat ((((a - 0xF0) * 64 + (b - 0x80)) * 64 + (d - 0x80)) * 64 + (e - 0x80))).toNat =
      (((a - 0xF0) * 64 + (b - 0x80)) * 64 + (d - 0x80)) * 64 + (e - 0x80) := toNat_ofNat (by omega)
  rw [charOctets_four (by omega), hvalue,
    show ((((a - 0xF0) * 64 + (b - 0x80)) * 64 + (d - 0x80)) * 64 + (e - 0x80)) / 262144 + 0xF0 = a by omega,
    show ((((a - 0xF0) * 64 + (b - 0x80)) * 64 + (d - 0x80)) * 64 + (e - 0x80)) / 4096 % 64 + 0x80 = b by omega,
    show ((((a - 0xF0) * 64 + (b - 0x80)) * 64 + (d - 0x80)) * 64 + (e - 0x80)) / 64 % 64 + 0x80 = d by omega,
    show ((((a - 0xF0) * 64 + (b - 0x80)) * 64 + (d - 0x80)) * 64 + (e - 0x80)) % 64 + 0x80 = e by omega]

/-- What is read as a character are the octets of that character. -/
theorem charOctets_of_utf8Step {a size : Nat} {rest : List Nat} {c : Char} (h : utf8Step a rest = .char c size) :
    a :: rest = charOctets c ++ rest.drop (size - 1) := by
  -- The cases are the branches of the reader; each but the first needs that many more octets.
  unfold utf8Step at h
  split at h
  · rename_i ha
    cases h
    rw [charOctets_ofNat_one ha]
    rfl
  split at h
  · rename_i ha
    split at h
    · split at h
      · rename_i hb
        obtain ⟨rfl, rfl⟩ := Utf8Step.char.inj h
        rw [charOctets_ofNat_two (by simpa using ha) hb]
        rfl
      · cases h
    · cases h
  split at h
  · rename_i ha
    split at h
    · split at h
      · cases h
      split at h
      · cases h
      rename_i hb hd
      obtain ⟨rfl, rfl⟩ := Utf8Step.char.inj h
      rw [charOctets_ofNat_three (by simpa using ha) (by simpa using hb) (by simpa using hd)]
      rfl
    · split at h <;> cases h
    · cases h
  split at h
  · rename_i ha
    split at h
    · split at h
      · cases h
      split at h
      · cases h
      split at h
      · cases h
      rename_i hb hd he
      obtain ⟨rfl, rfl⟩ := Utf8Step.char.inj h
      rw [charOctets_ofNat_four (by simpa using ha) (by simpa using hb) (by simpa using hd) (by simpa using he)]
      rfl
    · split at h
      · cases h
      · split at h <;> cases h
    · split at h <;> cases h
    · cases h
  · cases h

theorem charOctets_ne_nil (c : Char) : charOctets c ≠ [] := by
  obtain ⟨a, more, hc, -⟩ := utf8Step_charOctets c []
  simp [hc]

/-! ## Reading texts -/

theorem utf8Chars_charOctets (c : Char) (rest : List Nat) (n : Nat) :
    utf8Chars (n + 1) (charOctets c ++ rest) = some c :: utf8Chars n rest := by
  obtain ⟨a, more, hc, hstep⟩ := utf8Step_charOctets c rest
  simp [hc, utf8Chars, hstep]

/-- A text is read from its octets. -/
theorem utf8Chars_flatMap (cs : List Char) {n : Nat} (hn : (cs.flatMap charOctets).length ≤ n) :
    utf8Chars n (cs.flatMap charOctets) = cs.map some := by
  induction cs generalizing n with
  | nil => cases n <;> rfl
  | cons c cs ih =>
      rw [List.flatMap_cons, List.length_append] at hn
      have hpos := List.length_pos_iff.mpr (charOctets_ne_nil c)
      obtain ⟨m, rfl⟩ : ∃ m, n = m + 1 := ⟨n - 1, by omega⟩
      rw [List.flatMap_cons, utf8Chars_charOctets, ih (by omega)]
      rfl

/-- What is read without a fault are the octets of a text. -/
theorem flatMap_of_utf8Chars {n : Nat} {octets : List Nat} {cs : List Char} (hn : octets.length ≤ n)
    (h : utf8Chars n octets = cs.map some) : octets = cs.flatMap charOctets := by
  fun_induction utf8Chars n octets generalizing cs with
  | case1 octets =>
      have : cs = [] := by simpa using h.symm
      subst this
      simpa using hn
  | case2 n hn' =>
      have : cs = [] := by simpa using h.symm
      subst this
      rfl
  | case3 n a rest c size hstep ih =>
      cases cs with
      | nil => cases h
      | cons d cs =>
          obtain ⟨hd, hrest⟩ := List.cons.inj h
          cases hd
          rw [charOctets_of_utf8Step hstep, ih (by simp at hn ⊢; omega) hrest]
          rfl
  | case4 n a rest size hstep ih =>
      cases cs with
      | nil => cases h
      | cons d cs => cases h

theorem mapM_id_eq_some_iff {α : Type} {l : List (Option α)} {l' : List α} :
    l.mapM id = some l' ↔ l = l'.map some := by
  induction l generalizing l' with
  | nil => cases l' <;> simp
  | cons a l ih =>
      simp only [List.mapM_cons, id, Option.bind_eq_bind, Option.bind_eq_some_iff, Option.pure_def, Option.some.injEq]
      constructor
      · rintro ⟨a, rfl, l, hl, rfl⟩
        rw [ih.mp hl]
        rfl
      · intro h
        cases l' with
        | nil => cases h
        | cons b l' =>
            obtain ⟨rfl, hl⟩ := List.cons.inj h
            exact ⟨b, rfl, l', ih.mpr hl, rfl⟩

/-- The strict reading accepts exactly the octets of texts. -/
theorem decodeUtf8?_eq_some_iff {octets : List Nat} {s : String} :
    decodeUtf8? octets = some s ↔ utf8Octets s = octets := by
  rw [decodeUtf8?, Option.map_eq_some_iff, utf8Octets_eq]
  constructor
  · rintro ⟨cs, hread, rfl⟩
    rw [String.toList_ofList, ← flatMap_of_utf8Chars (Nat.le_refl _) (mapM_id_eq_some_iff.mp hread)]
  · rintro rfl
    exact ⟨s.toList, mapM_id_eq_some_iff.mpr (utf8Chars_flatMap _ (Nat.le_refl _)), String.ofList_toList⟩

/-- The octets are those of a text. -/
def isUtf8 (octets : List Nat) : Bool :=
  (decodeUtf8? octets).isSome

theorem isUtf8_iff {octets : List Nat} : isUtf8 octets = true ↔ ∃ s, utf8Octets s = octets := by
  simp only [isUtf8, Option.isSome_iff_exists, decodeUtf8?_eq_some_iff]

theorem findFault_eq_none_iff {n index : Nat} {octets : List Nat} (hn : octets.length ≤ n) :
    findFault n index octets = none ↔ ∃ cs, utf8Chars n octets = List.map some cs := by
  induction n generalizing index octets with
  | zero => exact ⟨fun _ => ⟨[], rfl⟩, fun _ => rfl⟩
  | succ n ih =>
      cases octets with
      | nil => exact ⟨fun _ => ⟨[], rfl⟩, fun _ => rfl⟩
      | cons a rest =>
          rw [findFault, utf8Chars]
          cases utf8Step a rest with
          | char c size =>
              dsimp only
              rw [ih (by simp at hn ⊢; omega)]
              constructor
              · rintro ⟨cs, hcs⟩
                exact ⟨c :: cs, congrArg _ hcs⟩
              · rintro ⟨cs, hcs⟩
                cases cs with
                | nil => cases hcs
                | cons d cs => exact ⟨cs, (List.cons.inj hcs).2⟩
          | broken size =>
              refine ⟨fun h => (nomatch h), ?_⟩
              rintro ⟨cs, hcs⟩
              cases cs with
              | nil => cases hcs
              | cons d cs => cases hcs

/-- There is a fault exactly where octets are no text. -/
theorem utf8Fault?_eq_none_iff {octets : List Nat} : utf8Fault? octets = none ↔ isUtf8 octets = true := by
  rw [utf8Fault?, findFault_eq_none_iff (Nat.le_refl _), isUtf8_iff]
  constructor
  · rintro ⟨cs, hcs⟩
    exact ⟨String.ofList cs, decodeUtf8?_eq_some_iff.mp (by simp [decodeUtf8?, mapM_id_eq_some_iff.mpr hcs])⟩
  · rintro ⟨s, rfl⟩
    exact ⟨s.toList, by rw [utf8Octets_eq, utf8Chars_flatMap _ (Nat.le_refl _)]⟩

end PageAudit.Text
