import Mathlib.Data.List.DropRight
import PageAudit.Attempt.Url
import PageAudit.Retry

/-!
# Addresses with and without a host

An address is accepted just when it has a known scheme, an authority and no blank character. An authority may be nothing
but user information and a port, so an accepted address need not name a host. What is refused is refused for good.
-/

namespace PageAudit

open Text

/-! ## The grammar -/

/-- An address by its parts: a known scheme, an authority, and a rest that begins where an authority ends. -/
inductive HasAuthority : List Char → List Char → Prop where
  | parts {scheme authority rest : List Char} (hscheme : scheme ∈ ["http://".toList, "https://".toList])
      (hopen : ∀ c ∈ authority, endsAuthority c = false) (hend : ∀ c ∈ rest.head?, endsAuthority c = true) :
      HasAuthority (scheme ++ authority ++ rest) authority

/-- What follows the user information, which ends with the last `@`. -/
def hostAndPort (authority : List Char) : List Char :=
  authority.rtakeWhile (· != '@')

/-- A host without the port behind it: a colon and digits. -/
def withoutPort (cs : List Char) : List Char :=
  let front := cs.rdropWhile Char.isDigit
  if front.getLast? = some ':' then front.dropLast else cs

/-- The host that an authority names; empty if it names none. -/
def hostName (authority : List Char) : List Char :=
  withoutPort (hostAndPort authority)

/-- No character is blank. -/
def NoBlank (url : String) : Prop :=
  ∀ c ∈ url.toList, isBlank c = false

/-- An address of the web that names a host. -/
def NamesHost (url : String) : Prop :=
  ∃ authority, HasAuthority url.toList authority ∧ hostName authority ≠ [] ∧ NoBlank url

/-! ## Scheme and authority -/

theorem afterPrefix?_eq_some_iff {front cs rest : List Char} :
    afterPrefix? front cs = some rest ↔ cs = front ++ rest := by
  unfold afterPrefix?
  constructor
  · intro h
    split at h
    · rename_i hfront
      obtain ⟨more, rfl⟩ := List.isPrefixOf_iff_prefix.mp hfront
      simpa using h
    · cases h
  · rintro rfl
    rw [if_pos (List.isPrefixOf_iff_prefix.mpr (List.prefix_append front rest)), List.drop_left]

/-- The two schemes differ in their fifth character, so the order in which they are tried does not matter. -/
theorem afterScheme?_eq_some_iff {cs rest : List Char} :
    afterScheme? cs = some rest ↔ ∃ scheme ∈ ["http://".toList, "https://".toList], cs = scheme ++ rest := by
  have hapart : cs = "http://".toList ++ rest → afterPrefix? "https://".toList cs = none := by
    rintro rfl
    rfl
  simp only [afterScheme?, Option.orElse_eq_orElse, Option.orElse_eq_or, Option.or_eq_some_iff, afterPrefix?_eq_some_iff,
    List.mem_cons, List.not_mem_nil, or_false, exists_eq_or_imp, exists_eq_left]
  constructor
  · rintro (hsecure | ⟨-, hplain⟩)
    · exact Or.inr hsecure
    · exact Or.inl hplain
  · rintro (hplain | hsecure)
    · exact Or.inr ⟨hapart hplain, hplain⟩
    · exact Or.inl hsecure

theorem authority_append {found more : List Char} (hopen : ∀ c ∈ found, endsAuthority c = false)
    (hend : ∀ c ∈ more.head?, endsAuthority c = true) : authority (found ++ more) = found := by
  have hrest : more.takeWhile (!endsAuthority ·) = [] := by
    cases more with
    | nil => rfl
    | cons c more => exact List.takeWhile_cons_of_neg (by simp [hend c rfl])
  rw [authority, List.takeWhile_append_of_pos (by simpa using hopen), hrest, List.append_nil]

/-- The authority that is read is the one of the grammar. -/
theorem hasAuthority_iff {cs found : List Char} :
    HasAuthority cs found ↔ ∃ rest, afterScheme? cs = some rest ∧ authority rest = found := by
  constructor
  · rintro ⟨hscheme, hopen, hend⟩
    refine ⟨_, afterScheme?_eq_some_iff.mpr ⟨_, hscheme, List.append_assoc ..⟩, authority_append hopen hend⟩
  · rintro ⟨rest, hrest, rfl⟩
    obtain ⟨scheme, hscheme, rfl⟩ := afterScheme?_eq_some_iff.mp hrest
    have hparts : rest = authority rest ++ rest.dropWhile (!endsAuthority ·) := List.takeWhile_append_dropWhile.symm
    rw [hparts, ← List.append_assoc, ← hparts]
    refine .parts hscheme (fun c hc => ?_) (fun c hc => ?_)
    · simpa using List.mem_takeWhile_imp hc
    · have hhead := List.head?_dropWhile_not (!endsAuthority ·) rest
      rw [Option.mem_def.mp hc] at hhead
      simpa using hhead

theorem HasAuthority.unique {cs found other : List Char} (h : HasAuthority cs found) (h' : HasAuthority cs other) :
    found = other := by
  obtain ⟨rest, hrest, rfl⟩ := hasAuthority_iff.mp h
  obtain ⟨rest', hrest', rfl⟩ := hasAuthority_iff.mp h'
  rw [Option.some.inj (hrest.symm.trans hrest')]

/-! ## Host, user information and port -/

/-- Nothing but user information and a port, each of which may be missing. -/
def OnlyUserAndPort (authority : List Char) : Prop :=
  ∃ user port, authority = user ++ port ∧ (user = [] ∨ user.getLast? = some '@') ∧
    (port = [] ∨ ∃ digits, port = ':' :: digits ∧ ∀ c ∈ digits, c.isDigit = true)

theorem withoutPort_eq_nil_iff {cs : List Char} :
    withoutPort cs = [] ↔ cs = [] ∨ ∃ digits, cs = ':' :: digits ∧ ∀ c ∈ digits, c.isDigit = true := by
  simp only [withoutPort]
  constructor
  · intro h
    split at h
    · rename_i hcolon
      obtain ⟨front, hfront⟩ := List.getLast?_eq_some_iff.mp hcolon
      rw [hfront, List.dropLast_concat] at h
      rw [h, List.nil_append] at hfront
      have hparts : cs.rdropWhile Char.isDigit ++ cs.rtakeWhile Char.isDigit = cs := List.rdropWhile_append_rtakeWhile
      rw [hfront] at hparts
      exact Or.inr ⟨_, hparts.symm, fun c => List.mem_rtakeWhile_imp⟩
    · exact Or.inl h
  · rintro (rfl | ⟨digits, rfl, hdigits⟩)
    · rfl
    · have hfront : (':' :: digits).rdropWhile Char.isDigit = [':'] := by
        rw [List.rdropWhile, List.reverse_cons, List.dropWhile_append_of_pos (by simpa using hdigits)]
        rfl
      rw [hfront]
      rfl

/-- What follows the user information is found again, whatever the user information is. -/
theorem hostAndPort_append {user port : List Char} (huser : user = [] ∨ user.getLast? = some '@') (hport : '@' ∉ port) :
    hostAndPort (user ++ port) = port := by
  have hkept : ∀ c ∈ port.reverse, (c != '@') = true := by
    intro c hc
    exact bne_iff_ne.mpr (fun h => hport (h ▸ List.mem_reverse.mp hc))
  have hstop : user.reverse.takeWhile (· != '@') = [] := by
    rcases huser with rfl | hlast
    · rfl
    · obtain ⟨front, rfl⟩ := List.getLast?_eq_some_iff.mp hlast
      rw [List.reverse_concat]
      rfl
  rw [hostAndPort, List.rtakeWhile, List.reverse_append, List.takeWhile_append_of_pos hkept, hstop, List.append_nil,
    List.reverse_reverse]

theorem exists_user (authority : List Char) :
    ∃ user, authority = user ++ hostAndPort authority ∧ (user = [] ∨ user.getLast? = some '@') := by
  refine ⟨authority.rdropWhile (· != '@'), (List.rdropWhile_append_rtakeWhile).symm, ?_⟩
  by_cases hnil : authority.rdropWhile (· != '@') = []
  · exact Or.inl hnil
  · have hlast := List.rdropWhile_last_not (· != '@') authority hnil
    exact Or.inr (by rw [List.getLast?_eq_some_getLast hnil]; simpa using hlast)

theorem hostName_eq_nil_iff {authority : List Char} : hostName authority = [] ↔ OnlyUserAndPort authority := by
  rw [hostName, withoutPort_eq_nil_iff]
  constructor
  · intro hport
    obtain ⟨user, hparts, huser⟩ := exists_user authority
    exact ⟨user, _, hparts, huser, hport⟩
  · rintro ⟨user, port, rfl, huser, hport⟩
    have hat : '@' ∉ port := by
      rcases hport with rfl | ⟨digits, rfl, hdigits⟩
      · exact List.not_mem_nil
      · rintro (_ | ⟨_, hmem⟩)
        exact absurd (hdigits _ hmem) (by decide)
    rwa [hostAndPort_append huser hat]

/-! ## What is accepted and what is refused -/

theorem noBlank_iff {url : String} : NoBlank url ↔ url.toList.any isBlank = false := by
  simp [NoBlank]

theorem validateUrl_eq_ok_iff {url : String} :
    validateUrl url = .ok () ↔ ∃ authority, HasAuthority url.toList authority ∧ authority ≠ [] ∧ NoBlank url := by
  simp only [hasAuthority_iff, noBlank_iff]
  unfold validateUrl
  cases afterScheme? url.toList with
  | none => simp
  | some rest => simp [List.isEmpty_iff]

/-- What is refused is named, with a hint where the scheme is not known. -/
theorem validateUrl_error {url : String} {e : AuditError} (h : validateUrl url = .error e) :
    e = .invalidUrl url ∨ e = .invalidUrl (url ++ " (只支持 http/https)") := by
  unfold validateUrl at h
  split at h
  · cases h
    exact Or.inr rfl
  · split at h
    · cases h
      exact Or.inl rfl
    · cases h

/-- Accepted is what has a known scheme, an authority that is not empty and no blank character. Of that, just what has no
more in its authority than user information and a port names no host. A refusal is about the address and is final. -/
theorem accepted_addresses (url : String) :
    (validateUrl url = .ok () ↔ ∃ authority, HasAuthority url.toList authority ∧ authority ≠ [] ∧ NoBlank url) ∧
    (NamesHost url ↔
      validateUrl url = .ok () ∧ ∀ authority, HasAuthority url.toList authority → ¬OnlyUserAndPort authority) ∧
    ∀ e, validateUrl url = .error e →
      (e = .invalidUrl url ∨ e = .invalidUrl (url ++ " (只支持 http/https)")) ∧ e.kind = .fatal ∧
        (AttemptError.audit e).classify = .fatal := by
  refine ⟨validateUrl_eq_ok_iff, ?_, fun e he => ?_⟩
  · rw [validateUrl_eq_ok_iff]
    constructor
    · rintro ⟨found, hfound, hhost, hblank⟩
      rw [Ne, hostName_eq_nil_iff] at hhost
      refine ⟨⟨found, hfound, ?_, hblank⟩, fun other hother => hfound.unique hother ▸ hhost⟩
      rintro rfl
      exact hhost ⟨[], [], rfl, Or.inl rfl, Or.inl rfl⟩
    · rintro ⟨⟨found, hfound, -, hblank⟩, hmore⟩
      exact ⟨found, hfound, fun hnil => hmore found hfound (hostName_eq_nil_iff.mp hnil), hblank⟩
  · have hrefused := validateUrl_error he
    refine ⟨hrefused, ?_⟩
    rcases hrefused with rfl | rfl <;> exact ⟨rfl, rfl⟩

/-- An address with user information, a host, a port and a path names its host; without its scheme it is refused. -/
theorem staging_accepted :
    HasAuthority "https://ci@[::1]:8080/x".toList "ci@[::1]:8080".toList ∧
    hostName "ci@[::1]:8080".toList = "[::1]".toList ∧ validateUrl "https://ci@[::1]:8080/x" = .ok () ∧
    validateUrl "[::1]" = .error (.invalidUrl "[::1] (只支持 http/https)") ∧
    (AttemptError.audit (.invalidUrl "[::1] (只支持 http/https)")).classify = .fatal := by
  have hauthority : HasAuthority "https://ci@[::1]:8080/x".toList "ci@[::1]:8080".toList :=
    hasAuthority_iff.mpr ⟨"ci@[::1]:8080/x".toList, rfl, by decide⟩
  have hhost : hostName "ci@[::1]:8080".toList = "[::1]".toList := by decide
  have hnames : NamesHost "https://ci@[::1]:8080/x" := ⟨_, hauthority, by rw [hhost]; decide, noBlank_iff.mpr rfl⟩
  have hrefused : validateUrl "[::1]" = .error (.invalidUrl "[::1] (只支持 http/https)") := rfl
  exact ⟨hauthority, hhost, ((accepted_addresses _).2.1.mp hnames).1, hrefused,
    ((accepted_addresses _).2.2 _ hrefused).2.2⟩

/-- A port alone is accepted, though it names no host. -/
theorem port_without_host_accepted : validateUrl "http://:80" = .ok () ∧ ¬NamesHost "http://:80" := by
  have hauthority : HasAuthority "http://:80".toList ":80".toList := hasAuthority_iff.mpr ⟨":80".toList, rfl, by decide⟩
  refine ⟨rfl, ?_⟩
  rintro ⟨found, hfound, hhost, -⟩
  obtain rfl := hauthority.unique hfound
  exact hhost (by decide)

end PageAudit
