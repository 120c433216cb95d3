import PageAudit.Browser.Chrome
import PageAudit.Proofs.Decimal.Digits
import PageAudit.Proofs.Files.Tree

/-!
# Profile directories side by side

Of two attempts of one run, the profile directories differ just when the numbers of the attempts do or the identifiers of
the jobs as they are written. Different ones lie side by side, so a browser that is ended leaves the directory of the other.
-/

namespace PageAudit

open Decimal Files

/-- A list is taken apart at the last place of an element in one way only. -/
theorem append_cons_inj_of_not_mem {α : Type} {a : α} {before after before' after' : List α} (h : a ∉ after)
    (h' : a ∉ after') (heq : before ++ a :: after = before' ++ a :: after') : before = before' ∧ after = after' := by
  rcases List.append_eq_append_iff.mp heq with ⟨between, rfl, hrest⟩ | ⟨between, rfl, hrest⟩
  · cases between with
    | nil => exact ⟨(List.append_nil _).symm, (List.cons.inj hrest).2⟩
    | cons b between => exact absurd ((List.cons.inj hrest).2 ▸ by simp) h
  · cases between with
    | nil => exact ⟨List.append_nil _, (List.cons.inj hrest).2.symm⟩
    | cons b between => exact absurd ((List.cons.inj hrest).2 ▸ by simp) h'

theorem profileChar_ne_slash (c : Char) : profileChar c ≠ '/' := by
  rw [profileChar]
  split
  · rename_i hc
    rintro rfl
    exact absurd hc (by decide)
  · decide

namespace LaunchOptions

/-- The identifier of the job as it is written. -/
def writtenJob (o : LaunchOptions) : List Char :=
  o.jobId.toList.map profileChar

/-- What the name of the profile directory says about the job and the attempt. -/
def suffix (o : LaunchOptions) : String :=
  String.ofList o.writtenJob ++ "-" ++ toString o.attempt

theorem toList_suffix (o : LaunchOptions) : o.suffix.toList = o.writtenJob ++ '-' :: Nat.toDigits 10 o.attempt := by
  simp [suffix]

/-- The job as it is written and the number of the attempt are found in the name again. -/
theorem suffix_eq_iff {o other : LaunchOptions} :
    o.suffix = other.suffix ↔ o.attempt = other.attempt ∧ o.writtenJob = other.writtenJob := by
  constructor
  · intro h
    have hlist := congrArg String.toList h
    rw [toList_suffix, toList_suffix] at hlist
    obtain ⟨hjob, hattempt⟩ := append_cons_inj_of_not_mem (not_mem_toDigits (by decide) _)
      (not_mem_toDigits (by decide) _) hlist
    exact ⟨toDigits_inj hattempt, hjob⟩
  · rintro ⟨hattempt, hjob⟩
    rw [suffix, suffix, hattempt, hjob]

theorem slash_not_mem_suffix (o : LaunchOptions) : '/' ∉ o.suffix.toList := by
  rw [toList_suffix]
  intro hmem
  rcases List.mem_append.mp hmem with hjob | hattempt
  · obtain ⟨c, -, hc⟩ := List.mem_map.mp hjob
    exact profileChar_ne_slash c hc
  · rcases List.mem_cons.mp hattempt with hdash | hdigit
    · exact absurd hdash (by decide)
    · exact not_mem_toDigits (by decide) _ hdigit

theorem profileName_eq (o : LaunchOptions) : o.profileName = profileMark ++ "-" ++ o.runId ++ "-" ++ o.suffix := by
  simp only [profileName, suffix, writtenJob, String.append_assoc, toString]

/-- The directories of a run's attempts have the same front and then what tells them apart. -/
theorem profileDirectory_eq (o : LaunchOptions) (root : String) :
    o.profileDirectory root = join root (profileMark ++ "-" ++ o.runId) ++ "-" ++ o.suffix := by
  have hmark : profileMark ≠ "" := by decide
  have hrun : profileMark ++ "-" ++ o.runId ≠ "" := by simp [hmark]
  have hrelative : isAbsolute (profileMark ++ "-" ++ o.runId) = false := by
    rw [String.append_assoc, isAbsolute_append _ hmark]
    rfl
  rw [profileDirectory, profileName_eq, join_append (by simp [hmark]) (by rwa [isAbsolute_append _ hrun]),
    join_append hrun hrelative]

end LaunchOptions

namespace Chrome

variable {c : Chrome} {o other : LaunchOptions}

/-- Two attempts of one run share a directory just when they have the same number and their jobs are written alike. -/
theorem profileDirectory_eq_iff (hrun : o.runId = other.runId) :
    c.profileDirectory o = c.profileDirectory other ↔ o.attempt = other.attempt ∧ o.writtenJob = other.writtenJob := by
  rw [profileDirectory, profileDirectory, o.profileDirectory_eq, other.profileDirectory_eq, hrun,
    ← LaunchOptions.suffix_eq_iff]
  exact String.append_right_inj _

/-- Different directories of one run lie side by side. -/
theorem placeOf_profileDirectory_apart (files : Tree) (below : Place) (hrun : o.runId = other.runId)
    (h : c.profileDirectory o ≠ c.profileDirectory other) :
    ¬files.placeOf (c.profileDirectory o) <+: files.placeOf (c.profileDirectory other) ++ below := by
  rw [profileDirectory, profileDirectory, o.profileDirectory_eq, other.profileDirectory_eq, hrun] at h ⊢
  obtain ⟨base, first, hplace⟩ := placeOf_named files (join c.profileRoot (profileMark ++ "-" ++ other.runId))
  rw [hplace _ o.slash_not_mem_suffix, hplace _ other.slash_not_mem_suffix, List.append_assoc,
    List.prefix_append_right_inj, List.singleton_append, List.cons_prefix_cons]
  rintro ⟨hsame, -⟩
  exact h (congrArg _ ((String.append_right_inj _).mp hsame))

/-- A browser that is ended leaves the directory of another attempt with all that is below it. -/
theorem at?_kill (files : Tree) (ended : Except String Unit) (below : Place) (hrun : o.runId = other.runId)
    (h : c.profileDirectory o ≠ c.profileDirectory other) :
    (c.kill files ended o).2.at? (files.placeOf (c.profileDirectory other) ++ below) =
      files.at? (files.placeOf (c.profileDirectory other) ++ below) := by
  cases ended with
  | error cause => rfl
  | ok _ =>
      simp only [kill]
      exact at?_removeDirectory (placeOf_profileDirectory_apart files below hrun h)

/-- Attempts of one run have directories of their own unless they have the same number and their jobs are written alike;
different identifiers in which nothing is replaced are not. With directories of their own, ending one browser leaves the
directory of the other as it is. -/
theorem profiles_apart (c : Chrome) (o other : LaunchOptions) (hrun : o.runId = other.runId) :
    (c.profileDirectory o = c.profileDirectory other ↔ o.attempt = other.attempt ∧ o.writtenJob = other.writtenJob) ∧
    (o.writtenJob = o.jobId.toList → other.writtenJob = other.jobId.toList →
      (o.jobId, o.attempt) ≠ (other.jobId, other.attempt) → c.profileDirectory o ≠ c.profileDirectory other) ∧
    (c.profileDirectory o ≠ c.profileDirectory other → ∀ files ended below,
      (c.kill files ended o).2.at? (files.placeOf (c.profileDirectory other) ++ below) =
        files.at? (files.placeOf (c.profileDirectory other) ++ below)) := by
  refine ⟨profileDirectory_eq_iff hrun, fun hplain hplain' hne hsame => ?_,
    fun hne files ended below => at?_kill files ended below hrun hne⟩
  obtain ⟨hattempt, hjob⟩ := (profileDirectory_eq_iff hrun).mp hsame
  rw [hplain, hplain'] at hjob
  exact hne (Prod.ext (String.toList_inj.mp hjob) hattempt)

/-- A browser with its profile directories below `/tmp`. -/
def inTmp : Chrome := { executable := "/usr/bin/chromium", settings := {}, profileRoot := "/tmp" }

/-- A tree in which `/tmp` has directories of the given names. -/
def tmpWith (names : List String) : Tree :=
  { nodes := (["tmp"], ⟨.directory, false⟩) :: names.map fun name => (["tmp", name], ⟨.directory, false⟩), here := [] }

/-- The second attempt of one job and the twelfth of another, whose identifiers and numbers could run together. -/
theorem shops_apart :
    let o : LaunchOptions := { jobId := "shop-1", attempt := 2, runId := "run-1" }
    let other : LaunchOptions := { jobId := "shop", attempt := 12, runId := "run-1" }
    let files := tmpWith [o.profileName, other.profileName]
    o.runId = other.runId ∧ o.writtenJob = o.jobId.toList ∧ other.writtenJob = other.jobId.toList ∧
    (o.jobId, o.attempt) ≠ (other.jobId, other.attempt) ∧
    inTmp.profileDirectory o ≠ inTmp.profileDirectory other ∧
    (inTmp.kill files (.ok ()) o).2.at? ["tmp", other.profileName] = some ⟨.directory, false⟩ := by
  intro o other files
  have hplain : o.writtenJob = o.jobId.toList := by decide +kernel
  have hplain' : other.writtenJob = other.jobId.toList := by decide +kernel
  have hpairs : (o.jobId, o.attempt) ≠ (other.jobId, other.attempt) := by decide
  obtain ⟨-, hdirectories, hkill⟩ := profiles_apart inTmp o other rfl
  have hne := hdirectories hplain hplain' hpairs
  refine ⟨rfl, hplain, hplain', hpairs, hne, ?_⟩
  have hkept := hkill hne files (.ok ()) []
  have hplace : files.placeOf (inTmp.profileDirectory other) ++ [] = ["tmp", other.profileName] := by decide +kernel
  have hstands : files.at? ["tmp", other.profileName] = some ⟨.directory, false⟩ := by decide +kernel
  rw [hplace, hstands] at hkept
  exact hkept

/-- Two jobs with identifiers of two characters outside ASCII share a directory, and ending one browser takes away what is
the other's. -/
theorem jobs_share_profile :
    let o : LaunchOptions := { jobId := "首页", attempt := 1, runId := "run-1" }
    let other : LaunchOptions := { jobId := "关于", attempt := 1, runId := "run-1" }
    let files := tmpWith [other.profileName]
    o.jobId ≠ other.jobId ∧ inTmp.profileDirectory o = inTmp.profileDirectory other ∧
    files.at? (files.placeOf (inTmp.profileDirectory other)) = some ⟨.directory, false⟩ ∧
    (inTmp.kill files (.ok ()) o).2.at? (files.placeOf (inTmp.profileDirectory other)) = none := by
  refine ⟨by decide, by decide +kernel, by decide +kernel, by decide +kernel⟩

end Chrome

end PageAudit
