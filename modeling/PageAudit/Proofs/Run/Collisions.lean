import PageAudit.Proofs.Pool.Collisions
import PageAudit.Proofs.Run.Parts

/-!
# Attempts of a run that find a browser of their job

No attempt of a run is refused a browser because its job has one, unless it comes after an attempt of the same job that
broke down and before the release of that attempt's browser in the background.
-/

namespace PageAudit.Run

open Pool PoolSession Supervisor

/-- What is known of the browsers of a run that began with a launcher. -/
structure Lodged (launcher : Launcher) (r : Run) (plan : List Job) : Prop where
  watched : r.Watched plan
  listed : Listed plan r.session.pool
  housed : r.session.Housed
  launcher_eq : r.supervisor.launcher = launcher

variable {r : Run} {plan : List Job} {launcher : Launcher} {a : RunAction}

/-- An action of a run itself moves its pool at work, or one attempt, or one browser that is given back in the
background. -/
theorem Grounded.cases_perform (h : r.Grounded plan) (ha : a.IsOwn) :
    Advances r.session (r.perform a).session ∨
      (∃ i b, a = .poll (.part (.attempt (i + 1))) ∧ r.session.attempts[i]? = some b ∧ b.isDone = false ∧
        r.session.Tried i b (r.perform a).session) ∨
      ∃ n, a = .poll (.part (.background n)) := by
  rcases h.advances_perform ha with hadvances | ⟨seq, hseq, rfl⟩ | hbackground
  · exact Or.inl hadvances
  · rcases r.session.pollAttempt_cases hseq with he | ⟨b, hb, hgoing, ht⟩
    · refine Or.inl (.of_pool (p := r.session.pool) (Or.inl .refl) ?_ ?_ ?_)
      all_goals
        show _ = _
        simp only [perform, Run.poll, PoolSession.poll, he]
    · refine Or.inr (Or.inl ⟨seq - 1, b, ?_, hb, hgoing, ht⟩)
      rw [Nat.sub_add_cancel hseq]
  · exact Or.inr (Or.inr hbackground)

theorem Lodged.perform (h : r.Lodged launcher plan) (ha : a.IsOwn) : (r.perform a).Lodged launcher plan where
  watched := h.watched.perform ha
  listed := kept_listed.moves h.watched.orderly.1.sound h.listed (h.watched.orderly.after_moves [a])
  housed := by
    have hstaffed := h.watched.staffed
    rcases h.watched.orderly.1.cases_perform ha with hadvances | ⟨i, b, rfl, hb, hgoing, ht⟩ | ⟨n, rfl⟩
    · exact h.housed.advance hadvances
    · exact h.housed.tried hstaffed h.watched.manned hb hgoing ht
    · exact h.housed.pollBackground hstaffed.exclusive n
  launcher_eq := (attends_perform h.watched.staffed h.watched.manned ha).tends.launcher.trans h.launcher_eq

theorem Lodged.after (h : r.Lodged launcher plan) {actions : List RunAction} (hown : ∀ a ∈ actions, a.IsOwn) :
    (r.after actions).Lodged launcher plan := by
  induction actions generalizing r with
  | nil => exact h
  | cons a rest ih => exact ih (h.perform (hown a List.mem_cons_self)) fun b hb => hown b (List.mem_cons_of_mem _ hb)

theorem Lodged.ofPlan {config : Config} {site : Site} {draws : Nat → Nat → Nat}
    {probe : Nat → Except ProbeError MemoryReading} (h : Run.ofPlan? config plan site draws probe = some r)
    (hplan : AcceptedPlan plan) (hheld : site.supervisor.registry.handles = [])
    (hlaunching : site.supervisor.registry.launching = []) : r.Lodged site.supervisor.launcher plan := by
  have hexclusive : site.supervisor.registry.Exclusive := by
    simp [Registry.Exclusive, hheld, hlaunching]
  have hwatched := Watched.ofPlan h hplan hexclusive
  obtain ⟨pool, hpool, rfl⟩ := Option.map_eq_some_iff.mp h
  obtain ⟨_, _, _, rfl⟩ := submit?_eq hpool
  exact {
    watched := hwatched
    listed := fun _ hc => absurd hc List.not_mem_nil
    housed := {
      contexts := fun _ _ hi => by simp at hi
      browser := fun _ ha => absurd ha List.not_mem_nil
      traced := fun _ ha => absurd ha List.not_mem_nil
      dropped := fun _ ha => absurd ha List.not_mem_nil
      handles := fun g hg => by simp [hheld] at hg
      launching := fun jobId hmem => by simp [hlaunching] at hmem }
    launcher_eq := rfl }

/-- An attempt that was refused a browser because its job has one was refused before, or by the launcher, or it has just
collided. -/
theorem Lodged.refused_perform (h : r.Lodged launcher plan) (hids : (plan.map (·.id)).Nodup) (ha : a.IsOwn) {i : Nat}
    {b : Attempt} {id : String} (hb : (r.perform a).session.attempts[i]? = some b)
    (hrefused : b.phase = .ended (.failed (.launch (.handleAlreadyHeld id)))) :
    r.session.attempts[i]? = some b ∨
      (∃ n, (launcher.launch b.context.jobId n).ending = .failed (.handleAlreadyHeld id)) ∨
      a = .poll (.part (.attempt (i + 1))) ∧ r.session.Collides i := by
  rcases h.watched.orderly.1.cases_perform ha with hadvances | ⟨j, c, rfl, hc, hgoing, ht⟩ | ⟨n, rfl⟩
  · rcases hadvances.cases hb with hold | ⟨hfresh, _⟩
    · exact Or.inl hold
    · rw [hfresh] at hrefused
      cases hrefused
  · by_cases hij : i = j
    · subst hij
      have hcollides := h.housed.collides h.watched.orderly.1.sound h.watched.manned h.listed hids hc hgoing ht hb
        hrefused
      rw [show r.session.site.supervisor.launcher = launcher from h.launcher_eq] at hcollides
      exact Or.inr (hcollides.imp_right fun hcollides => ⟨rfl, hcollides⟩)
    · exact Or.inl ((ht.getElem?_ne hij).symm.trans hb)
  · exact Or.inl hb

theorem Lodged.refused_after (h : r.Lodged launcher plan) (hids : (plan.map (·.id)).Nodup) {actions : List RunAction}
    (hown : ∀ a ∈ actions, a.IsOwn) {i : Nat} {b : Attempt} {id : String}
    (hb : (r.after actions).session.attempts[i]? = some b)
    (hrefused : b.phase = .ended (.failed (.launch (.handleAlreadyHeld id)))) :
    r.session.attempts[i]? = some b ∨
      (∃ n, (launcher.launch b.context.jobId n).ending = .failed (.handleAlreadyHeld id)) ∨
      ∃ before, before ++ [.poll (.part (.attempt (i + 1)))] <+: actions ∧ (r.after before).session.Collides i := by
  -- A refusal is traced back to the action that brought it about, the last of the actions first.
  induction actions using List.reverseRecOn with
  | nil => exact Or.inl hb
  | append_singleton before a ih =>
      have hbefore : ∀ a ∈ before, a.IsOwn := fun a ha => hown a (List.mem_append_left _ ha)
      have hlast : (r.after (before ++ [a])) = (r.after before).perform a := by
        simp only [Run.after, List.foldl_append, List.foldl_cons, List.foldl_nil]
      rw [hlast] at hb
      rcases (h.after hbefore).refused_perform hids (hown a (by simp)) hb hrefused with hold | hlauncher | ⟨rfl, hnow⟩
      · refine (ih hbefore hold).imp_right (Or.imp_right ?_)
        rintro ⟨earlier, hearlier, hcollides⟩
        exact ⟨earlier, hearlier.trans (List.prefix_append _ _), hcollides⟩
      · exact Or.inr (Or.inl hlauncher)
      · exact Or.inr (Or.inr ⟨before, List.prefix_rfl, hnow⟩)

/-- No attempt of a run that alone uses its browsers is refused one because its job has one, unless the launcher says so
itself, or the attempt is polled before the browser of an earlier attempt that broke down is given back. -/
theorem refused_after_breakdown {config : Config} {plan : List Job} (hconfig : config.validate = .ok ())
    (hplan : validatePlan plan = .ok ()) {site : Site} (hheld : site.supervisor.registry.handles = [])
    (hlaunching : site.supervisor.registry.launching = []) (draws : Nat → Nat → Nat)
    (probe : Nat → Except ProbeError MemoryReading) :
    ∃ r, Run.ofPlan? config plan site draws probe = some r ∧
      ∀ actions : List RunAction, (∀ a ∈ actions, a.IsOwn) → ∀ (i : Nat) (b : Attempt) (id : String),
        (r.after actions).session.attempts[i]? = some b → b.refusal? = some (.handleAlreadyHeld id) →
          (∃ n, (site.supervisor.launcher.launch b.context.jobId n).ending = .failed (.handleAlreadyHeld id)) ∨
          ∃ before, before ++ [.poll (.part (.attempt (i + 1)))] <+: actions ∧
            (r.after before).session.Collides i := by
  have haccepted := AcceptedPlan.of_validate hplan
  have hpolicy := PoolPolicy.Valid.of_validate (Config.parts_of_validate hconfig).1
  obtain ⟨pool, hpool⟩ := Pool.submit?_isSome hpolicy.ordered
  have hmade : Run.ofPlan? config plan site draws probe = some _ := congrArg (Option.map _) hpool
  refine ⟨_, hmade, fun actions hown i b id hb hrefused => ?_⟩
  have hlodged := Lodged.ofPlan hmade haccepted hheld hlaunching
  refine (hlodged.refused_after haccepted.ids hown hb (Attempt.phase_of_refusal? hrefused)).resolve_left fun hold => ?_
  cases hold

/-- A place where the engine breaks down at the first audit of a page. -/
def brittleSite : Site :=
  { quietSite with engine :=
      { audit := fun _ n => { ending := if n = 0 then .broken "engine gone" else .scored [] } } }

/-- One attempt at a time, and failed jobs are tried again without delay. -/
def hastyConfig : Config :=
  { pool := { maxConcurrency := 1 }, retry := { backoffBaseMs := 0, backoffJitterMs := 0 } }

/-- An attempt breaks down, and the next one of its job is polled before the browser is given back in the background. -/
def hastyActions : List RunAction :=
  [.poll .coordinator, .poll (.part .turns), .poll (.part (.attempt 1)), .poll (.part .turns),
    .poll (.part (.attempt 2)), .poll (.part .turns), .poll .coordinator]

theorem retry_refused_after_breakdown : hastyConfig.validate = .ok () ∧ validatePlan (twoPages.take 1) = .ok () ∧
    brittleSite.supervisor.registry.handles = [] ∧ brittleSite.supervisor.registry.launching = [] ∧
    (∀ a ∈ hastyActions, a.IsOwn) ∧
    ∃ r, Run.ofPlan? hastyConfig (twoPages.take 1) brittleSite (fun _ _ => 0)
        (fun _ => .ok { used := 1, free := 1 }) = some r ∧
      ∃ b, (r.after hastyActions).session.attempts[1]? = some b ∧ b.refusal? = some (.handleAlreadyHeld "job-1") ∧
        ((∃ n, (brittleSite.supervisor.launcher.launch b.context.jobId n).ending =
            .failed (.handleAlreadyHeld "job-1")) ∨
          ∃ before, before ++ [.poll (.part (.attempt (1 + 1)))] <+: hastyActions ∧
            (r.after before).session.Collides 1) := by
  have hown : ∀ a ∈ hastyActions, a.IsOwn := by simp [hastyActions, RunAction.IsOwn]
  obtain ⟨r, hr, hrefused⟩ := refused_after_breakdown (rfl : hastyConfig.validate = .ok ())
    (rfl : validatePlan (twoPages.take 1) = .ok ()) (rfl : brittleSite.supervisor.registry.handles = [])
    (rfl : brittleSite.supervisor.registry.launching = []) (fun _ _ => 0) (fun _ => .ok { used := 1, free := 1 })
  have hsecond : (r.after hastyActions).session.attempts[1]?.bind (·.refusal?) = some (.handleAlreadyHeld "job-1") := by
    obtain rfl := Option.some.inj hr
    decide +kernel
  obtain ⟨b, hb, hrefusal⟩ := Option.bind_eq_some_iff.mp hsecond
  exact ⟨rfl, rfl, rfl, rfl, hown, r, hr, b, hb, hrefusal, hrefused hastyActions hown 1 b _ hb hrefusal⟩

/-- The launcher refuses nobody, attempts are left, and yet the job fails for good with its second attempt, since the
browser of the first is still registered. -/
theorem breakdown_fails_retry : hastyConfig.validate = .ok () ∧ validatePlan (twoPages.take 1) = .ok () ∧
    brittleSite.supervisor.registry = .ofCapacity 2 ∧
    (∀ jobId n, (brittleSite.supervisor.launcher.launch jobId n).ending = .ready) ∧
    (∀ a ∈ hastyActions, a.IsOwn) ∧
    ∃ r, Run.ofPlan? hastyConfig (twoPages.take 1) brittleSite (fun _ _ => 0)
        (fun _ => .ok { used := 1, free := 1 }) = some r ∧
      (r.after hastyActions).stage.report?.map (fun report => report.results.map fun x => (x.state, x.attemptsUsed)) =
        some [(.failedPermanent, 2)] ∧
      (r.after hastyActions).session.attempts.map (·.refusal?) = [none, some (.handleAlreadyHeld "job-1")] := by
  refine ⟨rfl, rfl, rfl, fun _ _ => rfl, by simp [hastyActions, RunAction.IsOwn], _, rfl, ?_, ?_⟩
  all_goals decide +kernel

end PageAudit.Run
