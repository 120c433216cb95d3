import PageAudit.Files.Tree

/-!
# Places in a file tree

A path that ends in a name leads to the place of that name below where its front leads. What is taken away at one place
leaves the places elsewhere as they are.
-/

namespace PageAudit.Files

/-! ## Segments -/

theorem splitSlash_eq_singleton {cs : List Char} (h : '/' ∉ cs) : splitSlash cs = [cs] := by
  induction cs with
  | nil => rfl
  | cons c cs ih =>
      obtain ⟨hc, hcs⟩ := not_or.mp (mt List.mem_cons.mpr h)
      rw [splitSlash, if_neg (by simpa using Ne.symm hc), ih hcs]

theorem splitSlash_ne_nil (cs : List Char) : splitSlash cs ≠ [] := by
  cases cs with
  | nil => exact List.cons_ne_nil _ _
  | cons c cs =>
      rw [splitSlash]
      split
      · exact List.cons_ne_nil _ _
      · split <;> exact List.cons_ne_nil _ _

/-- A character other than a slash joins the first segment. -/
theorem splitSlash_cons {c : Char} {cs first : List Char} {more : List (List Char)} (hc : c ≠ '/')
    (h : splitSlash cs = first :: more) : splitSlash (c :: cs) = (c :: first) :: more := by
  rw [splitSlash, if_neg (by simpa using hc), h]

/-- Characters without a slash join the last segment. -/
theorem splitSlash_append {cs last tail : List Char} {front : List (List Char)} (h : splitSlash cs = front ++ [last])
    (htail : '/' ∉ tail) : splitSlash (cs ++ tail) = front ++ [last ++ tail] := by
  induction cs generalizing front last with
  | nil =>
      obtain ⟨rfl, hlast⟩ := List.append_eq_singleton_iff.mp h.symm |>.resolve_right (by simp)
      cases hlast
      exact splitSlash_eq_singleton htail
  | cons c cs ih =>
      by_cases hc : c = '/'
      · subst hc
        cases front with
        | nil => exact absurd (List.cons.inj h).2 (splitSlash_ne_nil cs)
        | cons first front =>
            obtain ⟨rfl, hrest⟩ := List.cons.inj h
            exact congrArg _ (ih hrest)
      · obtain ⟨first, more, hcs⟩ := List.exists_cons_of_ne_nil (splitSlash_ne_nil cs)
        rw [splitSlash_cons hc hcs] at h
        cases front with
        | nil =>
            obtain ⟨rfl, rfl⟩ := List.cons.inj h
            have hlast : splitSlash cs = [] ++ [first] := hcs
            exact splitSlash_cons hc (ih hlast)
        | cons second front =>
            obtain ⟨rfl, rfl⟩ := List.cons.inj h
            have hlast : splitSlash cs = (first :: front) ++ [last] := hcs
            exact splitSlash_cons hc (ih hlast)

/-! ## Places of paths -/

theorem isAbsolute_append {path : String} (rest : String) (h : path ≠ "") :
    isAbsolute (path ++ rest) = isAbsolute path := by
  obtain ⟨c, cs, hpath⟩ := List.exists_cons_of_ne_nil (mt String.toList_eq_nil_iff.mp h)
  rw [isAbsolute, isAbsolute, String.toList_append, hpath]
  rfl

/-- What is added to a relative path is added to where it leads. -/
theorem join_append {base path rest : String} (hne : path ≠ "") (h : isAbsolute path = false) :
    join base (path ++ rest) = join base path ++ rest := by
  simp only [join, isAbsolute_append rest hne, h, Bool.false_eq_true, if_false]
  split <;> simp only [String.append_assoc]

/-- The step from a place to the next that a segment leads to. -/
def stepTo (place : Place) (segment : String) : Place :=
  if segment == "" || segment == "." then place else if segment == ".." then place.dropLast else place ++ [segment]

theorem placeOf_eq (t : Tree) (path : String) :
    t.placeOf path = (segments path).foldl stepTo (if isAbsolute path then [] else t.here) :=
  rfl

theorem stepTo_name {place : Place} {segment : String} (h : '-' ∈ segment.toList) :
    stepTo place segment = place ++ [segment] := by
  have hname {other : String} (hother : '-' ∉ other.toList) : (segment == other) = false := by
    rw [beq_eq_false_iff_ne]
    rintro rfl
    exact hother h
  rw [stepTo, hname (by decide), hname (by decide), hname (by decide)]
  rfl

theorem isAbsolute_named (front name : String) : isAbsolute (front ++ "-" ++ name) = isAbsolute front := by
  rw [isAbsolute, isAbsolute, String.toList_append, String.toList_append]
  cases front.toList <;> rfl

/-- Paths with the same front have the same segments but for the last. -/
theorem segments_named (front : String) :
    ∃ (before : List String) (first : String), ∀ name : String, '/' ∉ name.toList →
      segments (front ++ "-" ++ name) = before ++ [first ++ "-" ++ name] := by
  let body := if isAbsolute front then front.toList.drop 1 else front.toList
  have hsplit := (List.dropLast_concat_getLast (splitSlash_ne_nil body)).symm
  refine ⟨(splitSlash body).dropLast.map String.ofList,
    String.ofList ((splitSlash body).getLast (splitSlash_ne_nil body)), fun name hname => ?_⟩
  have hbody : (if isAbsolute front then (front ++ "-" ++ name).toList.drop 1 else (front ++ "-" ++ name).toList) =
      body ++ '-' :: name.toList := by
    have hlist : (front ++ "-" ++ name).toList = front.toList ++ '-' :: name.toList := by simp
    rw [hlist]
    by_cases habsolute : isAbsolute front = true
    · simp only [body, if_pos habsolute]
      rw [isAbsolute] at habsolute
      cases hfront : front.toList with
      | nil => simp [hfront] at habsolute
      | cons c cs => rfl
    · simp only [body, if_neg habsolute]
  have hslash : '/' ∉ '-' :: name.toList := by simpa using hname
  rw [segments, isAbsolute_named]
  simp only [hbody]
  rw [if_neg (by simp), splitSlash_append hsplit hslash, List.map_append, List.map_singleton]
  congr 2
  rw [← String.toList_inj]
  simp

/-- The places of paths with the same front and different names lie side by side. -/
theorem placeOf_named (t : Tree) (front : String) :
    ∃ (base : Place) (first : String), ∀ name : String, '/' ∉ name.toList →
      t.placeOf (front ++ "-" ++ name) = base ++ [first ++ "-" ++ name] := by
  obtain ⟨before, first, hsegments⟩ := segments_named front
  refine ⟨before.foldl stepTo (if isAbsolute front then [] else t.here), first, fun name hname => ?_⟩
  rw [placeOf_eq, isAbsolute_named, hsegments name hname, List.foldl_append, List.foldl_cons, List.foldl_nil]
  exact stepTo_name (by simp)

theorem stepTo_of_follow {t : Tree} {place next : Place} {segment : String} (h : t.follow place segment = .ok next) :
    stepTo place segment = next := by
  rw [Tree.follow] at h
  rw [stepTo]
  cases hplace : t.at? place with
  | none => simp [hplace] at h
  | some node =>
      simp only [hplace] at h
      split at h
      · cases h
      · split at h
        · rename_i hidle
          rw [if_pos hidle]
          exact Except.ok.inj h
        · rename_i hidle
          rw [if_neg hidle]
          split at h
          · rename_i hup
            rw [if_pos hup]
            exact Except.ok.inj h
          · rename_i hup
            rw [if_neg hup]
            exact Except.ok.inj h

/-- Following a path leads to its place. -/
theorem placeOf_of_locate {t : Tree} {path : String} {place : Place} (h : t.locate path = .ok place) :
    t.placeOf path = place := by
  rw [Tree.locate] at h
  split at h
  · cases h
  · rw [placeOf_eq]
    generalize (if isAbsolute path then [] else t.here) = start at h ⊢
    generalize segments path = ss at h ⊢
    induction ss generalizing start with
    | nil => exact Except.ok.inj h
    | cons segment rest ih =>
        rw [List.foldlM_cons] at h
        cases hnext : t.follow start segment with
        | error fault => simp [hnext, bind, Except.bind] at h
        | ok next =>
            simp only [hnext, bind, Except.bind] at h
            rw [List.foldl_cons, stepTo_of_follow hnext]
            exact ih next h

/-! ## Taking away -/

/-- Entries under other keys may be left out. -/
theorem lookup_filter {α β : Type} [BEq α] [LawfulBEq α] {p : α × β → Bool} {key : α} (h : ∀ b, p (key, b) = true)
    (entries : List (α × β)) : (entries.filter p).lookup key = entries.lookup key := by
  induction entries with
  | nil => rfl
  | cons entry entries ih =>
      obtain ⟨a, b⟩ := entry
      by_cases ha : key = a
      · subst ha
        rw [List.filter_cons_of_pos (h b), List.lookup_cons_self, List.lookup_cons_self]
      · have hne : (key == a) = false := beq_eq_false_iff_ne.mpr ha
        have hskip (more : List (α × β)) : ((a, b) :: more).lookup key = more.lookup key := by
          rw [List.lookup_cons, hne]
        rw [hskip, List.filter_cons]
        split
        · rw [hskip, ih]
        · exact ih

theorem at?_remove {t : Tree} {place other : Place} (h : ¬place <+: other) :
    (t.remove place).at? other = t.at? other := by
  have hother : place.isPrefixOf other = false := by
    rw [← Bool.not_eq_true, List.isPrefixOf_iff_prefix]
    exact h
  rw [Tree.at?, Tree.at?, Tree.remove]
  dsimp only
  rw [lookup_filter (fun node => by simp [hother])]

/-- A directory that is taken away leaves what is not below it. -/
theorem at?_removeDirectory {t : Tree} {path : String} {other : Place} (h : ¬t.placeOf path <+: other) :
    (t.removeDirectory path).at? other = t.at? other := by
  rw [Tree.removeDirectory]
  cases hlocate : t.locate path with
  | error fault => rfl
  | ok place =>
      dsimp only
      split
      · exact at?_remove (placeOf_of_locate hlocate ▸ h)
      · rfl

end PageAudit.Files
