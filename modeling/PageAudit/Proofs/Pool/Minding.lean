import PageAudit.Proofs.Attempt.Minding
import PageAudit.Proofs.Pool.Tracking

/-!
# A pool at work minds its processes

Every process that the attempts of a pool start is minded from then on, by the registry, by its attempt, in the
background or by the release of all browsers. The kills of the attempts that the pool gives up are the exception.
-/

namespace PageAudit.PoolSession

open Supervisor Pool

/-- Some part of a pool at work is going to end a process. -/
def Ends (x : PoolSession) (pid : Nat) : Prop :=
  pid ∈ x.attempts.flatMap Attempt.pids ∨ pid ∈ x.site.backgroundPids ∨ pid ∈ x.forced.toList.flatMap Kills.pids

/-- An attempt that is going to end a process has been given up by the pool, which told all attempts to stop or broke
down. -/
def GivesUp (x : PoolSession) (pid : Nat) : Prop :=
  x.pool.Halted ∧ ∃ i a, x.attempts[i]? = some a ∧ x.pool.isInFlight (i + 1) = false ∧ pid ∈ a.pids

/-- No two attempts start browsers for one job, and all browsers are released only when the pool asks for it. -/
structure Staffed (x : PoolSession) : Prop where
  exclusive : x.site.supervisor.registry.Exclusive
  reserved : ∀ a ∈ x.attempts, a.isLaunching = true → a.context.jobId ∈ x.site.supervisor.registry.launching
  apart : ∀ (i j : Nat) (a b : Attempt), x.attempts[i]? = some a → x.attempts[j]? = some b → a.isLaunching = true →
    b.isLaunching = true → a.context.jobId = b.context.jobId → i = j
  forcing : x.forced.isSome = true → x.pool.phase = .forcing

variable {x y : PoolSession} {i : Nat} {a b : Attempt} {rows : Nat → Prop}

/-! ## Attempts -/

/-- The part of a pool at work that an attempt has nothing to do with. -/
def EndsWithout (x : PoolSession) (i : Nat) (pid : Nat) : Prop :=
  (∃ j c, j ≠ i ∧ x.attempts[j]? = some c ∧ pid ∈ c.pids) ∨ pid ∈ x.site.backgroundPids ∨
    pid ∈ x.forced.toList.flatMap Kills.pids

theorem Ends.split (hi : x.attempts[i]? = some a) {pid : Nat} (h : x.Ends pid) :
    pid ∈ a.pids ∨ x.EndsWithout i pid := by
  rcases h with h | h
  · obtain ⟨c, hc, hpid⟩ := List.mem_flatMap.mp h
    obtain ⟨j, hj⟩ := List.mem_iff_getElem?.mp hc
    by_cases hji : j = i
    · subst hji
      obtain rfl := Option.some.inj (hi.symm.trans hj)
      exact Or.inl hpid
    · exact Or.inr (Or.inl ⟨j, c, hji, hj, hpid⟩)
  · exact Or.inr (Or.inr h)

theorem Replaced.tends (h : x.Replaced i a b y) (hgoes : a.Proceeds x.site rows (y.site, b)) :
    Tends x.site.supervisor y.site.supervisor (fun pid => rows pid ∨ x.EndsWithout i pid) y.Ends := by
  refine (hgoes.tends.frame (x.EndsWithout i)).mono (fun _ hp => hp) fun pid hp => ?_
  obtain ⟨hlt, _⟩ := List.getElem?_eq_some_iff.mp h.old
  unfold Ends
  rw [h.attempts, h.forced, hgoes.background]
  rcases hp with hp | ⟨j, c, hji, hj, hpid⟩ | hp
  · exact Or.inl (List.mem_flatMap.mpr ⟨b, List.mem_set hlt b, hp⟩)
  · refine Or.inl (List.mem_flatMap.mpr ⟨c, List.mem_of_getElem? (i := j) ?_, hpid⟩)
    rw [List.getElem?_set_ne (Ne.symm hji)]
    exact hj
  · exact Or.inr hp

theorem Staffed.replace (h : x.Staffed) (hr : x.Replaced i a b y) (hgoes : a.Proceeds x.site rows (y.site, b)) :
    y.Staffed := by
  have hcontext : b.context = a.context := hgoes.context
  -- A start that goes on for another attempt is for another job.
  have hother : ∀ {j : Nat} {c : Attempt}, j ≠ i → x.attempts[j]? = some c → c.isLaunching = true →
      b.isLaunching = true → c.context.jobId ≠ b.context.jobId := by
    intro j c hji hj hc hb hid
    rw [hcontext] at hid
    rcases hgoes.alone hb with ha | hfree
    · exact hji (h.apart j i c a hj hr.old hc ha hid)
    · exact hfree (hid ▸ h.reserved c (List.mem_of_getElem? hj) hc)
  refine {
    exclusive := hgoes.tends.exclusive h.exclusive
    reserved := fun c hc hl => ?_
    apart := fun j k c d hj hk hc hd hid => ?_
    forcing := fun hf => hr.phase.trans (h.forcing (hr.forced ▸ hf)) }
  · obtain ⟨j, hj⟩ := List.mem_iff_getElem?.mp hc
    rcases hr.cases hj with ⟨rfl, rfl⟩ | ⟨hji, hj⟩
    · rw [hcontext]
      exact hgoes.reserved hl
    · have hplace := h.reserved c (List.mem_of_getElem? hj) hl
      cases ha : a.isLaunching with
      | false => exact hgoes.kept ha _ hplace
      | true => exact hgoes.others _ hplace fun hid => hji (h.apart j i c a hj hr.old hl ha hid)
  · rcases hr.cases hj with ⟨rfl, rfl⟩ | ⟨hji, hj⟩ <;> rcases hr.cases hk with ⟨rfl, rfl⟩ | ⟨hki, hk⟩
    · rfl
    · exact absurd hid.symm (hother hki hk hd hc)
    · exact absurd hid (hother hji hj hc hd)
    · exact h.apart j k c d hj hk hc hd hid

/-- A part of a pool at work has gone on: no process is forgotten but those given up. -/
structure Attends (x y : PoolSession) : Prop where
  tends : Tends x.site.supervisor y.site.supervisor x.Ends fun pid => y.Ends pid ∨ x.GivesUp pid
  staffed : y.Staffed

theorem Staffed.attends_refl (h : x.Staffed) : Attends x x :=
  ⟨(Tends.refl _ x.Ends).mono (fun _ hp => hp) fun _ hp => Or.inl hp, h⟩

theorem Staffed.attends_replaced (h : x.Staffed) (hr : x.Replaced i a b y)
    (hgoes : a.Proceeds x.site rows (y.site, b)) (hrows : ∀ pid ∈ a.pids, rows pid ∨ x.GivesUp pid) :
    Attends x y := by
  refine ⟨((hr.tends hgoes).frame x.GivesUp).mono (fun pid hp => ?_) fun _ hp => hp, h.replace hr hgoes⟩
  rcases hp.split hr.old with hp | hp
  · exact (hrows pid hp).imp_left Or.inl
  · exact Or.inl (Or.inr hp)

theorem attends_pollAttempt (h : x.Staffed) (hm : x.Manned) {seq : Nat} (hseq : 0 < seq) : Attends x (x.pollAttempt seq) := by
  unfold pollAttempt
  cases ha : x.attempts[seq - 1]? with
  | none => exact h.attends_refl
  | some a =>
      dsimp only
      split
      · exact h.attends_refl
      · rename_i hgoing
        split
        · have hput := replaced_putAttempt ha (a.poll x.site (x.pool.signals seq)).1
            (a.poll x.site (x.pool.signals seq)).2
          have hgoes : a.Proceeds x.site (· ∈ a.pids)
              ((x.putAttempt seq (a.poll x.site (x.pool.signals seq)).1 (a.poll x.site (x.pool.signals seq)).2).site,
                (a.poll x.site (x.pool.signals seq)).2) := by
            rw [putAttempt_site]
            exact a.proceeds_poll _ h.exclusive (h.reserved a (List.mem_of_getElem? ha))
          have hkept : ∀ pid ∈ a.pids, pid ∈ a.pids ∨ x.GivesUp pid := fun _ hp => Or.inl hp
          split
          · rename_i outcome _
            have hphase : ∀ p : Pool, (p.receive seq outcome).phase = p.phase := fun p => by
              obtain ⟨_, _, he, _⟩ := p.receive_eq seq outcome
              rw [he]
            exact h.attends_replaced { hput with phase := (hphase _).trans hput.phase } hgoes hkept
          · exact h.attends_replaced hput hgoes hkept
        · rename_i hout
          have hgoes : a.Proceeds x.site (fun _ => False)
              ((x.putAttempt seq (a.drop x.site).1 (a.drop x.site).2).site, (a.drop x.site).2) := by
            rw [putAttempt_site]
            exact a.proceeds_drop x.site
          have hout : x.pool.isInFlight (seq - 1 + 1) = false := by
            rw [Nat.sub_add_cancel hseq]
            simpa using hout
          exact h.attends_replaced (replaced_putAttempt ha ..) hgoes fun pid hp =>
            Or.inr ⟨hm.halted ha (by simpa using hgoing) hout, seq - 1, a, ha, hout, hp⟩

/-! ## The pool -/

theorem Staffed.attends_pool (h : x.Staffed) (now : Nat) (p : Pool) (hp : x.pool.phase = .forcing → p.phase = .forcing) :
    Attends x { x with site := x.site.elapse now, pool := p } :=
  ⟨.of_minds rfl rfl id fun _ hminds hsteady halive => (hminds hsteady halive).imp_right (Or.imp_right Or.inl),
    ⟨h.exclusive, h.reserved, h.apart, fun hf => hp (h.forcing hf)⟩⟩

theorem step_forcing {p : Pool} (hp : p.phase = .forcing) {i : PoolInput} (hi : ∀ count, i ≠ .released count)
    (hbroke : ∀ message, i ≠ .launcherBroke message) : (p.step i).phase = .forcing := by
  cases i with
  | elapse | cancel | pressure | pressureClosed => exact hp
  | report seq outcome =>
      obtain ⟨_, _, he, _⟩ := p.receive_eq seq outcome
      show (p.receive seq outcome).phase = _
      rw [he]
      exact hp
  | released count => exact absurd rfl (hi count)
  | launcherBroke message => exact absurd rfl (hbroke message)
  | turn => simp [Pool.step, Pool.turn?, hp]

/-- The attempts, what is ended in the background and the phase are as they were, but the release of all browsers has
gone on. -/
structure Forces (x y : PoolSession) (rows : Nat → Prop) : Prop where
  clears : Clears x.site.supervisor y.site.supervisor rows (· ∈ y.forced.toList.flatMap Kills.pids)
  background : y.site.backgroundPids = x.site.backgroundPids
  attempts : y.attempts = x.attempts
  forcing : y.forced.isSome = true → y.pool.phase = .forcing

theorem forces_forceOn (hphase : x.pool.phase = .forcing) (k : Kills) : Forces x (x.forceOn k) (· ∈ k.pids) := by
  unfold forceOn
  dsimp only
  split
  · rename_i hdone
    exact ⟨(Kills.clears_poll_done hdone).mono (fun _ hp => hp) fun _ hp => hp.elim, rfl, rfl,
      fun hf => Bool.noConfusion hf⟩
  · exact ⟨(k.clears_poll _).mono (fun _ hp => hp) fun _ hp => by simpa using hp, rfl, rfl, fun _ => hphase⟩

theorem forces_turnOn (hforced : x.forced = none) : Forces x x.turnOn (fun _ => False) := by
  unfold turnOn
  dsimp only
  split
  · rename_i hphase
    have hforces := forces_forceOn
      (x := { x with pool := x.pool.poll, site := { x.site with supervisor := (Kills.ofAll x.site.supervisor).1 } })
      (by simpa using hphase) (Kills.ofAll x.site.supervisor).2
    exact { hforces with clears := (Kills.clears_ofAll _).trans hforces.clears }
  · exact ⟨(Clears.refl ..).of_none, rfl, rfl, fun hf => by simp [hforced] at hf⟩

theorem Staffed.attends_forces (h : x.Staffed) (hf : Forces x y rows)
    (hrows : ∀ pid ∈ x.forced.toList.flatMap Kills.pids, rows pid) {z : PoolSession} (hsite : z.site = y.site)
    (hforced : z.forced = y.forced) (hpool : z.pool = y.pool) {hired : List Attempt}
    (hattempts : z.attempts = y.attempts ++ hired) (hfresh : ∀ a ∈ hired, a.isLaunching = false) : Attends x z := by
  -- New attempts start no browser yet.
  have hold : ∀ {i : Nat} {a : Attempt}, z.attempts[i]? = some a → a.isLaunching = true →
      x.attempts[i]? = some a := by
    intro i a hi hl
    rw [hattempts, hf.attempts, List.getElem?_append] at hi
    split at hi
    · exact hi
    · exact Bool.noConfusion ((hfresh a (List.mem_of_getElem? hi)).symm.trans hl)
  have hlaunching : z.site.supervisor.registry.launching = x.site.supervisor.registry.launching := by
    rw [hsite]
    exact hf.clears.launching
  refine ⟨?_, {
    exclusive := hsite ▸ hf.clears.exclusive h.exclusive
    reserved := fun a ha hl => ?_
    apart := fun i j a b hi hj ha hb hid => h.apart i j a b (hold hi ha) (hold hj hb) ha hb hid
    forcing := fun hz => by
      rw [hpool]
      exact hf.forcing (hforced ▸ hz) }⟩
  · rw [hsite]
    refine (hf.clears.toTends.frame fun pid => pid ∈ x.attempts.flatMap Attempt.pids ∨
      pid ∈ x.site.backgroundPids).mono (fun pid hp => ?_) fun pid hp => Or.inl ?_
    · rcases hp with hp | hp | hp
      · exact Or.inr (Or.inl hp)
      · exact Or.inr (Or.inr hp)
      · exact Or.inl (hrows pid hp)
    · unfold Ends
      rw [hforced, hsite, hf.background, hattempts, hf.attempts, List.flatMap_append, List.mem_append]
      rcases hp with hp | hp | hp
      · exact Or.inr (Or.inr hp)
      · exact Or.inl (Or.inl hp)
      · exact Or.inr (Or.inl hp)
  · obtain ⟨i, hi⟩ := List.mem_iff_getElem?.mp ha
    rw [hlaunching]
    exact h.reserved a (List.mem_of_getElem? (hold hi hl)) hl

theorem attends_pollPool (h : x.Staffed) : Attends x x.pollPool := by
  have hcloses : ∀ {y : PoolSession} {rows : Nat → Prop}, Forces x y rows →
      (∀ pid ∈ x.forced.toList.flatMap Kills.pids, rows pid) → ∀ z : PoolSession, z.site = y.site →
      z.forced = y.forced → z.pool = y.pool → z.attempts = y.attempts → Attends x z.hire.noteEnd := by
    intro y rows hf hrows z hsite hforced hpool hattempts
    obtain ⟨_, he⟩ := z.hire.noteEnd_eq
    rw [he]
    refine h.attends_forces hf hrows hsite hforced hpool (congrArg (· ++ _) hattempts) fun a ha => ?_
    obtain ⟨context, _, rfl⟩ := List.mem_map.mp ha
    rfl
  unfold pollPool
  cases hforced : x.forced with
  | some k =>
      have hforces := forces_forceOn (h.forcing (by simp [hforced])) k
      have hrows : ∀ pid ∈ x.forced.toList.flatMap Kills.pids, pid ∈ k.pids := fun pid hp => by
        simpa [hforced] using hp
      dsimp only
      split <;> exact hcloses hforces hrows _ rfl rfl rfl rfl
  | none =>
      have hrows : ∀ pid ∈ x.forced.toList.flatMap Kills.pids, False := fun pid hp => by simp [hforced] at hp
      dsimp only
      split <;> exact hcloses (forces_turnOn hforced) hrows _ rfl rfl rfl rfl

/-- A poll of any part of a pool at work, but for an attempt that cannot be. -/
theorem attends_poll (h : x.Staffed) (hm : x.Manned) {t : PoolTask} (ht : t ≠ .attempt 0) : Attends x (x.poll t) := by
  cases t with
  | turns => exact attends_pollPool h
  | attempt seq => exact attends_pollAttempt h hm (Nat.pos_of_ne_zero fun he => ht (he ▸ rfl))
  | background n =>
      have hclears := x.site.clears_pollBackground n h.exclusive
      refine ⟨(hclears.toTends.frame fun pid => pid ∈ x.attempts.flatMap Attempt.pids ∨
        pid ∈ x.forced.toList.flatMap Kills.pids).mono (fun pid hp => ?_) fun pid hp => Or.inl ?_, {
          exclusive := hclears.exclusive h.exclusive
          reserved := fun a ha hl => hclears.launching ▸ h.reserved a ha hl
          apart := h.apart
          forcing := h.forcing }⟩
      · exact or_left_comm.mp hp
      · exact or_left_comm.mpr hp

end PageAudit.PoolSession
