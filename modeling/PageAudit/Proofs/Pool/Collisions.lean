import PageAudit.Proofs.Attempt.Holdings
import PageAudit.Proofs.Pool.Minding
import PageAudit.Proofs.Pool.Parts

/-!
# Attempts that find a browser of their job

An attempt gives its browser back before it reports, so the next attempt of its job finds the place free. The exception
is an attempt that broke down: its browser is given back in the background, and if the next attempt is faster, it is
refused.
-/

namespace PageAudit

namespace Pool

/-- All attempts that were started are of jobs of the plan. -/
def Listed (jobs : List Job) (p : Pool) : Prop :=
  ∀ c ∈ p.started, ∃ j ∈ jobs, j.planIndex = c.planIndex ∧ j.id = c.jobId

variable {jobs : List Job} {p q : Pool}

theorem Placed.ready_job {job : Job} (h : Placed jobs [] p) (hjob : job ∈ p.ready) : ∃ k ∈ jobs, k.place = job.place := by
  have hmem : job.place ∈ p.places := List.mem_append_left _ (List.mem_map_of_mem hjob)
  exact List.mem_map.mp (h.accounted.mem_iff.mp hmem)

theorem kept_listed : Kept jobs (Listed jobs) where
  act := by
    intro p q hs h hact
    cases hact with
    | succeed _ taken | giveUp _ taken | postpone _ taken | callOff _ _ taken =>
        obtain ⟨_, _, _, _, _, _, _, he⟩ := taken.recordOutcome_eq _
        rw [he]
        exact h
    | requeue _ taken =>
        cases taken with
        | preempted => exact h
    | @launch job rest _ _ _ first =>
        intro c hc
        rcases List.mem_append.mp hc with hc | hc
        · exact h c hc
        · obtain ⟨k, hk, hplace⟩ := hs.placed.ready_job (first ▸ List.mem_cons_self : job ∈ p.ready)
          rw [List.mem_singleton.mp hc]
          exact ⟨k, hk, congrArg JobPlace.index hplace, congrArg JobPlace.id hplace⟩
    | _ => exact h
  news := by
    intro p q _ h hnews
    cases hnews <;> exact h
  receive := fun _ _ h => h

/-- An attempt in flight has the position that was noted when it was started. -/
theorem Flown.context (h : Flown p) (hp : Placed jobs [] p) {f : Flight} (hf : f ∈ p.inFlight) :
    ∃ c, p.started[f.seq - 1]? = some c ∧ c.planIndex = f.planIndex := by
  have hmem := h.places.mem_iff.mp (List.mem_map_of_mem hf)
  rcases List.mem_append.mp hmem with hmem | hmem
  · obtain ⟨e, he, hindex⟩ := List.mem_map.mp hmem
    obtain ⟨hfly, _, hcontext⟩ := h.running e he
    obtain rfl := h.eq_of_planIndex hp hf hfly hindex.symm
    exact ⟨_, hcontext, rfl⟩
  · obtain ⟨j, hj, hindex⟩ := List.mem_map.mp hmem
    obtain ⟨g, hg, hplace, _, c, hc, hcontext, _⟩ := h.preempted j hj
    obtain rfl := h.eq_of_planIndex hp hf hg (hindex.symm.trans hplace.symm)
    exact ⟨c, hc, hcontext.trans hplace.symm⟩

/-- A job has one attempt in flight. -/
theorem Sound.eq_of_jobId (h : Sound jobs p) (hl : Listed jobs p) (hids : (jobs.map (·.id)).Nodup) {i j : Nat}
    {c d : AttemptContext} (hi : p.isInFlight (i + 1) = true) (hj : p.isInFlight (j + 1) = true)
    (hc : p.started[i]? = some c) (hd : p.started[j]? = some d) (hid : c.jobId = d.jobId) : i = j := by
  have hflight : ∀ {n : Nat} {c : AttemptContext}, p.isInFlight (n + 1) = true → p.started[n]? = some c →
      ∃ f ∈ p.inFlight, f.seq = n + 1 ∧ c.planIndex = f.planIndex := by
    intro n c hn hc
    obtain ⟨f, hf, hseq⟩ := List.any_eq_true.mp (Bool.and_eq_true_iff.mp hn).2
    have hseq : f.seq = n + 1 := by simpa using hseq
    obtain ⟨c', hc', hindex⟩ := h.flown.context h.placed hf
    rw [hseq, Nat.add_sub_cancel, hc] at hc'
    exact ⟨f, hf, hseq, Option.some.inj hc' ▸ hindex⟩
  obtain ⟨f, hf, hfseq, hfindex⟩ := hflight hi hc
  obtain ⟨g, hg, hgseq, hgindex⟩ := hflight hj hd
  obtain ⟨k, hk, hkindex, hkid⟩ := hl c (List.mem_of_getElem? hc)
  obtain ⟨l, hl', hlindex, hlid⟩ := hl d (List.mem_of_getElem? hd)
  obtain rfl := List.inj_on_of_nodup_map hids hk hl' (hkid.trans (hid.trans hlid.symm))
  have hsame := h.flown.eq_of_planIndex h.placed hf hg
    (hfindex.symm.trans (hkindex.symm.trans (hlindex.trans hgindex)))
  rw [hsame, hgseq] at hfseq
  exact (Nat.succ.inj hfseq).symm

end Pool

namespace PoolSession

open Pool Supervisor

/-- Every browser that is registered, and every start that goes on, belongs to an attempt. -/
structure Housed (x : PoolSession) : Prop where
  contexts : ∀ (i : Nat) (a : Attempt), x.attempts[i]? = some a → x.pool.started[i]? = some a.context
  browser : ∀ a ∈ x.attempts, ∀ h, a.browser? = some h → h.jobId = a.context.jobId
  traced : ∀ a ∈ x.attempts, a.Traced x.site.supervisor.launcher
  dropped : ∀ a ∈ x.attempts, a.phase = .dropped → x.pool.Halted
  /-- A registered browser is used for an audit, or it was left to the background and its release has not begun. -/
  handles : ∀ h ∈ x.site.supervisor.registry.handles, ∃ a ∈ x.attempts, h.jobId = a.context.jobId ∧
    (a.browser? = some h ∨ a.isLost = true ∧ { handle := h } ∈ x.site.background)
  launching : ∀ jobId ∈ x.site.supervisor.registry.launching, ∃ a ∈ x.attempts,
    jobId = a.context.jobId ∧ a.isLaunching = true

/-- An attempt that is about to ask for a browser will be refused: a browser is registered that another attempt of its
job had when it broke down, and its release in the background has not begun. -/
def Collides (x : PoolSession) (i : Nat) : Prop :=
  ∃ a, x.attempts[i]? = some a ∧ a.phase = .fresh ∧ ∃ b ∈ x.attempts, b.context.jobId = a.context.jobId ∧
    (∃ message, b.phase = .broken message) ∧ ∃ h ∈ x.site.supervisor.registry.handles,
      h.jobId = a.context.jobId ∧ { handle := h } ∈ x.site.background

variable {jobs : List Job} {x y : PoolSession} {i : Nat} {a b : Attempt}

/-! ## What is kept -/

theorem Housed.advance (h : x.Housed) (ha : Advances x y) : y.Housed := by
  have hprolongs := ha.prolongs
  obtain ⟨supervisor, hsite, hspares⟩ := ha.site
  have hold : ∀ c ∈ x.attempts, c ∈ y.attempts := fun c hc => ha.attempts.subset hc
  have hcases : ∀ c ∈ y.attempts, c ∈ x.attempts ∨ c.phase = .fresh := fun c hc => by
    obtain ⟨j, hj⟩ := List.mem_iff_getElem?.mp hc
    exact (ha.cases hj).imp List.mem_of_getElem? And.left
  refine {
    contexts := fun j c hj => ?_
    browser := fun c hc g hg => ?_
    traced := fun c hc => ?_
    dropped := fun c hc hd => ?_
    handles := fun g hg => ?_
    launching := fun jobId hmem => ?_ }
  · exact (ha.cases hj).elim (fun hj => hprolongs.started_eq (h.contexts j c hj)) And.right
  · rcases hcases c hc with hc | hfresh
    · exact h.browser c hc g hg
    · simp [Attempt.browser?, hfresh] at hg
  · rcases hcases c hc with hc | hfresh
    · rw [hsite]
      exact hspares.launcher ▸ h.traced c hc
    · simp [Attempt.Traced, hfresh]
  · rcases hcases c hc with hc | hfresh
    · exact hprolongs.halted (h.dropped c hc hd)
    · rw [hfresh] at hd
      cases hd
  · rw [hsite] at hg ⊢
    obtain ⟨c, hc, hrest⟩ := h.handles g (hspares.handles.subset hg)
    exact ⟨c, hold c hc, hrest⟩
  · rw [hsite] at hmem
    obtain ⟨c, hc, hrest⟩ := h.launching jobId (hspares.launching ▸ hmem)
    exact ⟨c, hold c hc, hrest⟩

/-- What a poll of an attempt that is not done needs to leave behind. -/
theorem Housed.put (h : x.Housed) (hi : x.attempts[i]? = some a) (hgoing : a.isDone = false) {z : Site × Attempt}
    (hcontext : z.2.context = a.context) (hleaves : a.Leaves x.site z)
    (hlauncher : z.1.supervisor.launcher = x.site.supervisor.launcher)
    (htraced : z.2.Traced x.site.supervisor.launcher) (hdropped : z.2.phase = .dropped → x.pool.Halted)
    {listeners : List PoolTask} {roster : List Nat} {reports : List SlotReport} :
    Housed { x with
      site := z.1, attempts := x.attempts.set i z.2, listeners, pool := { x.pool with roster, reports } } := by
  have hlt := (List.getElem?_eq_some_iff.mp hi).1
  have hnew : z.2 ∈ x.attempts.set i z.2 := List.mem_set hlt _
  have hcases : ∀ c ∈ x.attempts.set i z.2, c = z.2 ∨ c ∈ x.attempts := fun c hc => by
    obtain ⟨j, hj⟩ := List.mem_iff_getElem?.mp hc
    exact (getElem?_set_cases hj).imp And.right fun hj => List.mem_of_getElem? hj.2
  have hother : ∀ c ∈ x.attempts, c ≠ a → c ∈ x.attempts.set i z.2 := fun c hc hne => by
    obtain ⟨j, hj⟩ := List.mem_iff_getElem?.mp hc
    have hji : i ≠ j := fun he => hne (Option.some.inj (hj.symm.trans (he ▸ hi)))
    exact List.mem_of_getElem? ((List.getElem?_set_ne hji).trans hj)
  refine {
    contexts := fun j c hj => ?_
    browser := fun c hc g hg => ?_
    traced := fun c hc => ?_
    dropped := fun c hc hd => ?_
    handles := fun g hg => ?_
    launching := fun jobId hmem => ?_ }
  · rcases getElem?_set_cases hj with ⟨rfl, rfl⟩ | ⟨_, hj⟩
    · rw [hcontext]
      exact h.contexts j a hi
    · exact h.contexts j c hj
  · rcases hcases c hc with rfl | hc
    · rw [hcontext]
      exact hleaves.browser g hg
    · exact h.browser c hc g hg
  · show c.Traced z.1.supervisor.launcher
    rw [hlauncher]
    rcases hcases c hc with rfl | hc
    · exact htraced
    · exact h.traced c hc
  · rcases hcases c hc with rfl | hc
    · exact hdropped hd
    · exact h.dropped c hc hd
  · rcases hleaves.handles g hg with ⟨hheld, hno⟩ | hown
    · obtain ⟨c, hc, hid, hrest⟩ := h.handles g hheld
      refine ⟨c, hother c hc fun he => ?_, hid, hrest.imp_right (And.imp_right fun hb => hleaves.background hb)⟩
      subst he
      rcases hrest with hb | ⟨hlost, _⟩
      · exact hno hb
      · exact Bool.noConfusion (hgoing.symm.trans (Attempt.isDone_of_isLost hlost))
    · exact ⟨z.2, hnew, hcontext ▸ hown⟩
  · rcases hleaves.launching jobId hmem with ⟨hplace, hno⟩ | hown
    · obtain ⟨c, hc, hid, hl⟩ := h.launching jobId hplace
      exact ⟨c, hother c hc fun he => by subst he; exact hno hl hid, hid, hl⟩
    · exact ⟨z.2, hnew, hcontext ▸ hown⟩

theorem Housed.tried (h : x.Housed) (hs : x.Staffed) (hm : x.Manned) (hi : x.attempts[i]? = some a)
    (hgoing : a.isDone = false) (ht : x.Tried i a y) : y.Housed := by
  have hmem := List.mem_of_getElem? hi
  have hid := h.browser a hmem
  cases ht with
  | polled =>
      have hproceeds := a.proceeds_poll (x.pool.signals (i + 1)) hs.exclusive (hs.reserved a hmem)
      have hleaves := a.leaves_poll (x.pool.signals (i + 1)) hs.exclusive hgoing hid
      rcases (h.traced a hmem).poll hgoing (x.pool.signals (i + 1)) with hlaunches | ⟨_, _, e, _, hended⟩
      · exact h.put hi hgoing hproceeds.context hleaves hproceeds.tends.launcher hlaunches.traced
          fun hd => absurd hd hlaunches.kept
      · exact h.put hi hgoing hproceeds.context hleaves hproceeds.tends.launcher
          (by simp [Attempt.Traced, hended]) fun hd => by simp [hended] at hd
  | dropped out =>
      have hproceeds := a.proceeds_drop x.site
      have hphase := a.drop_phase x.site hgoing
      exact h.put hi hgoing hproceeds.context (a.leaves_drop x.site hgoing hid) hproceeds.tends.launcher
        (by simp [Attempt.Traced, hphase]) fun _ => hm.halted hi hgoing out

theorem Housed.pollBackground (h : x.Housed) (hs : x.site.supervisor.registry.Exclusive) (n : Nat) :
    (x.poll (.background n)).Housed := by
  have hclears := x.site.clears_pollBackground n hs
  have hrecedes := x.site.recedes_pollBackground n
  refine { h with
    traced := fun c hc => ?_
    handles := fun g hg => ?_
    launching := fun jobId hmem => ?_ }
  · show c.Traced (x.site.pollBackground n).supervisor.launcher
    rw [hclears.launcher]
    exact h.traced c hc
  · obtain ⟨c, hc, hid, hrest⟩ := h.handles g (hrecedes.handles.subset hg)
    refine ⟨c, hc, hid, hrest.imp_right (And.imp_right fun hb => ?_)⟩
    -- The release that was polled cannot be that of a browser which is still registered.
    obtain ⟨m, hm⟩ := List.mem_iff_getElem?.mp hb
    show { handle := g } ∈ (x.site.pollBackground n).background
    change g ∈ (x.site.pollBackground n).supervisor.registry.handles at hg
    unfold Site.pollBackground at hg ⊢
    split at hg
    · rename_i r hr
      by_cases hmn : n = m
      · subst hmn
        obtain rfl := Option.some.inj (hr.symm.trans hm)
        exact absurd hg (Release.not_mem_poll hs g)
      · exact List.mem_of_getElem? ((List.getElem?_set_ne hmn).trans hm)
    · exact hb
  · exact h.launching jobId (hclears.launching ▸ hmem)

/-! ## Refusals -/

theorem reserve_alreadyHeld {r : Registry} {jobId id : String}
    (h : r.reserve jobId = .error (.handleAlreadyHeld id)) :
    (∃ g ∈ r.handles, g.jobId = jobId) ∨ jobId ∈ r.launching := by
  unfold Registry.reserve at h
  split at h
  · rename_i htaken
    rw [Registry.isTaken, Bool.or_eq_true] at htaken
    refine htaken.imp (fun hany => ?_) fun hc => by simpa using hc
    obtain ⟨g, hg, hid⟩ := List.any_eq_true.mp hany
    exact ⟨g, hg, by simpa using hid⟩
  · split at h <;> cases h

/-- An attempt that was refused a browser because its job has one was refused by the launcher itself, or it collided
with an attempt that had broken down. -/
theorem Housed.collides (h : x.Housed) (hsound : Sound jobs x.pool) (hm : x.Manned) (hl : Listed jobs x.pool)
    (hids : (jobs.map (·.id)).Nodup) (hi : x.attempts[i]? = some a) (hgoing : a.isDone = false) (ht : x.Tried i a y)
    (hb : y.attempts[i]? = some b) {id : String} (hrefused : b.phase = .ended (.failed (.launch (.handleAlreadyHeld id)))) :
    (∃ n, (x.site.supervisor.launcher.launch b.context.jobId n).ending = .failed (.handleAlreadyHeld id)) ∨
      x.Collides i := by
  have hmem := List.mem_of_getElem? hi
  have hlt := (List.getElem?_eq_some_iff.mp hi).1
  cases ht with
  | dropped =>
      obtain rfl := Option.some.inj ((List.getElem?_set_self hlt).symm.trans hb)
      rw [a.drop_phase x.site hgoing] at hrefused
      cases hrefused
  | polled flying =>
      obtain rfl := Option.some.inj ((List.getElem?_set_self hlt).symm.trans hb)
      rcases (h.traced a hmem).poll hgoing (x.pool.signals (i + 1)) with hlaunches | ⟨hfresh, hstop, e, hreserve, hended⟩
      · exact Or.inl (hlaunches.refused _ hrefused)
      · refine Or.inr ⟨a, hi, hfresh, ?_⟩
        obtain rfl : e = .handleAlreadyHeld id := by
          have he := hended.symm.trans hrefused
          simpa using he
        have hunhalted : ¬ x.pool.Halted := by
          rintro (hhard | hfault)
          · simp [Pool.signals, hhard] at hstop
          · simp [isInFlight, Option.isSome_iff_ne_none.mp hfault] at flying
        -- Another attempt of the job that is not done would be in flight together with this one.
        have hfreshest : ∀ c ∈ x.attempts, a.context.jobId = c.context.jobId → c.isDone = false → c.phase = .fresh := by
          intro c hc hid hcgoing
          obtain ⟨j, hj⟩ := List.mem_iff_getElem?.mp hc
          cases hout : x.pool.isInFlight (j + 1) with
          | false => exact absurd (hm.halted hj hcgoing hout) hunhalted
          | true =>
              obtain rfl := hsound.eq_of_jobId hl hids flying hout (h.contexts i a hi) (h.contexts j c hj) hid
              exact Option.some.inj (hi.symm.trans hj) ▸ hfresh
        rcases reserve_alreadyHeld hreserve with ⟨g, hg, hgid⟩ | hplace
        · obtain ⟨c, hc, hid, huses | ⟨hlost, hback⟩⟩ := h.handles g hg
          · have hcfresh := hfreshest c hc (hgid.symm.trans hid) (Attempt.not_isDone_of_browser? huses)
            simp [Attempt.browser?, hcfresh] at huses
          · refine ⟨c, hc, hid.symm.trans hgid, ?_, g, hg, hgid, hback⟩
            unfold Attempt.isLost at hlost
            cases hphase : c.phase with
            | broken message => exact ⟨message, rfl⟩
            | dropped => exact absurd (h.dropped c hc hphase) hunhalted
            | _ => simp [hphase] at hlost
        · obtain ⟨c, hc, hid, hlaunching⟩ := h.launching _ hplace
          have hcfresh := hfreshest c hc hid (Attempt.not_isDone_of_isLaunching hlaunching)
          simp [Attempt.isLaunching, hcfresh] at hlaunching

end PoolSession

end PageAudit
