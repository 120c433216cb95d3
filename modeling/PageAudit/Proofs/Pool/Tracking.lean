import PageAudit.Proofs.Pool.Draining
import PageAudit.Proofs.Pool.Session

/-!
# Attempts that are given up

A pool keeps track of every attempt that it has started until that has ended. It gives attempts up only after it told
all of them to stop, or when it breaks down.
-/

namespace PageAudit

namespace Pool

/-- All attempts were told to stop, or the pool broke down. -/
def Halted (p : Pool) : Prop :=
  p.hardStopped = true ∨ p.fault.isSome = true

/-- Every attempt that was started is done or in flight until the pool is halted, and only attempts that are done have
reported. -/
structure Tracked (done : Nat → Prop) (p : Pool) : Prop where
  attempts : ¬ p.Halted → ∀ seq, 0 < seq → seq ≤ p.nextSeq → (∃ f ∈ p.inFlight, f.seq = seq) ∨ done seq
  reports : ∀ r ∈ p.reports, done r.flight.seq

variable {jobs : List Job} {p q : Pool} {done : Nat → Prop}

theorem Tracked.mono {later : Nat → Prop} (h : Tracked done p) (hmore : ∀ seq, done seq → later seq) :
    Tracked later p where
  attempts hgoing seq hpos hle := (h.attempts hgoing seq hpos hle).imp_right (hmore seq)
  reports r hr := hmore _ (h.reports r hr)

theorem Tracked.of_frame (h : Tracked done p) (next : q.nextSeq = p.nextSeq) (halted : p.Halted → q.Halted)
    (flights : ∀ f ∈ p.inFlight, f ∈ q.inFlight ∨ done f.seq) (reports : q.reports ⊆ p.reports) :
    Tracked done q where
  attempts hgoing seq hpos hle := by
    rcases h.attempts (fun hp => hgoing (halted hp)) seq hpos (next ▸ hle) with ⟨f, hf, rfl⟩ | hdone
    · exact (flights f hf).imp_left fun hf => ⟨f, hf, rfl⟩
    · exact Or.inr hdone
  reports r hr := h.reports r (reports hr)

theorem Tracked.taken {r : SlotReport} {held : Bool} {job : Job} (h : Tracked done p) (ht : p.Taken r held job q)
    (o : AttemptOutcome) : Tracked done (q.recordOutcome o) := by
  have hdone := h.reports r ht.mem
  have hflights : ∀ f ∈ p.inFlight, f ∈ p.inFlight.filter (·.seq != r.flight.seq) ∨ done f.seq := by
    intro f hf
    by_cases hs : f.seq = r.flight.seq
    · exact Or.inr (hs ▸ hdone)
    · exact Or.inl (List.mem_filter.mpr ⟨hf, by simpa using hs⟩)
  obtain ⟨window, he⟩ := q.recordOutcome_eq o
  rw [he]
  cases ht with
  | running first | preempted first =>
      exact h.of_frame rfl id hflights fun x hx => first ▸ List.mem_cons_of_mem _ hx

/-- No act lets an attempt go that is not done, unless it halts the pool. -/
theorem Tracked.act (h : Tracked done p) (hb : Braked p) (hact : Act p q) : Tracked done q := by
  have hsame : ∀ {s : Pool}, s.nextSeq = p.nextSeq → (p.Halted → s.Halted) → s.inFlight = p.inFlight →
      s.reports = p.reports → Tracked done s := fun hnext hhalted hflights hreports =>
    h.of_frame hnext hhalted (fun f hf => Or.inl (hflights ▸ hf)) fun r hr => hreports ▸ hr
  cases hact with
  | succeed _ taken | giveUp _ taken | postpone _ taken | callOff _ _ taken =>
      have htaken := h.taken taken
      exact { htaken _ with }
  | requeue _ taken =>
      have htaken := h.taken taken .interrupted
      exact { htaken with }
  | breakDown | collapse => exact hsame rfl (fun _ => Or.inr rfl) rfl rfl
  | force => exact hsame rfl (fun _ => Or.inl rfl) rfl rfl
  | abandon _ passed =>
      -- There is time to settle only after all attempts were told to stop.
      have hstop : p.hardStopped = true := hb.forced (Or.inl (by cases hr : p.reapDeadline <;> simp_all))
      exact ⟨fun hgoing => absurd (Or.inl hstop) hgoing, fun _ hr => absurd hr List.not_mem_nil⟩
  | launch =>
      refine ⟨fun hgoing seq hpos hle => ?_, h.reports⟩
      rcases Nat.lt_or_eq_of_le hle with hlt | rfl
      · rcases h.attempts hgoing seq hpos (Nat.le_of_lt_succ hlt) with ⟨f, hf, hs⟩ | hdone
        · exact Or.inl ⟨f, List.mem_append_left _ hf, hs⟩
        · exact Or.inr hdone
      · exact Or.inl ⟨_, List.mem_append_right _ (List.mem_singleton_self _), rfl⟩
  | _ => exact hsame rfl id rfl rfl

theorem Tracked.acts (h : Tracked done p) (hs : Sound jobs p) (hb : Braked p) (hacts : Acts p q) :
    Tracked done q := by
  induction hacts with
  | refl => exact h
  | tail hfirst hact ih => exact ih.act (kept_braked.moves hs hb (Acts.moves hfirst)) hact

theorem Tracked.receive {seq : Nat} (h : Tracked done p) (hdone : done seq) (outcome : AttemptOutcome) :
    Tracked done (p.receive seq outcome) := by
  obtain ⟨_, _, he, hreports⟩ := p.receive_eq seq outcome
  rw [he]
  refine ⟨h.attempts, fun r hr => ?_⟩
  rcases hreports r hr with hr | ⟨hs, _⟩
  · exact h.reports r hr
  · exact hs ▸ hdone

theorem Tracked.submit {policy : PoolPolicy} {retry : RetryPolicy} {gracePeriod clock : Nat}
    {draws : Nat → Nat → Nat} {pressure : MemoryPressure}
    (h : submit? policy retry gracePeriod draws pressure clock jobs = some p) : Tracked done p := by
  obtain ⟨_, _, _, rfl⟩ := submit?_eq h
  exact ⟨fun _ seq hpos hle => absurd hle (Nat.not_le.mpr hpos), fun _ hr => absurd hr List.not_mem_nil⟩

theorem Act.nextSeq_le (hact : Act p q) : p.nextSeq ≤ q.nextSeq := by
  cases hact with
  | succeed _ taken | giveUp _ taken | postpone _ taken | callOff _ _ taken =>
      obtain ⟨_, _, _, _, _, _, _, he⟩ := taken.recordOutcome_eq _
      rw [he]
      exact Nat.le_refl _
  | requeue _ taken =>
      cases taken with
      | preempted => exact Nat.le_refl _
  | launch => exact Nat.le_succ _
  | _ => exact Nat.le_refl _

theorem Acts.nextSeq_le (hacts : Acts p q) : p.nextSeq ≤ q.nextSeq := by
  induction hacts with
  | refl => exact Nat.le_refl _
  | tail _ hact ih => exact Nat.le_trans ih hact.nextSeq_le

end Pool

/-! ## The attempts of a pool at work -/

theorem Attempt.isDone_of_outcome? {a : Attempt} {outcome : AttemptOutcome} (h : a.outcome? = some outcome) : a.isDone = true := by
  unfold outcome? at h
  unfold isDone
  cases hphase : a.phase <;> simp_all

namespace PoolSession

open Pool

/-- An attempt goes no further. -/
def HasDone (x : PoolSession) (seq : Nat) : Prop :=
  ∃ a, x.attempts[seq - 1]? = some a ∧ a.isDone = true

/-- A pool at work keeps track of its attempts, and all of them were started by it. -/
structure Manned (x : PoolSession) : Prop where
  tracked : Tracked x.HasDone x.pool
  hired : x.attempts.length ≤ x.pool.nextSeq

variable {jobs : List Job} {x y : PoolSession} {i : Nat} {a b : Attempt}

theorem Manned.of_pool (h : x.Manned) (hattempts : y.attempts = x.attempts)
    (htracked : ∀ {done : Nat → Prop}, Tracked done x.pool → Tracked done y.pool)
    (hnext : x.pool.nextSeq ≤ y.pool.nextSeq) : y.Manned := by
  refine ⟨?_, hattempts ▸ Nat.le_trans h.hired hnext⟩
  have hsame : y.HasDone = x.HasDone := by
    funext seq
    rw [HasDone, hattempts, HasDone]
  exact hsame ▸ htracked h.tracked

/-- An attempt that is neither done nor in flight belongs to a halted pool. -/
theorem Manned.halted (h : x.Manned) (hi : x.attempts[i]? = some a) (ha : a.isDone = false)
    (hout : x.pool.isInFlight (i + 1) = false) : x.pool.Halted := by
  by_contra hgoing
  obtain ⟨hlt, _⟩ := List.getElem?_eq_some_iff.mp hi
  rcases h.tracked.attempts hgoing (i + 1) i.succ_pos (Nat.le_trans hlt h.hired) with ⟨f, hf, hs⟩ | ⟨c, hc, hdone⟩
  · have hsound : x.pool.fault.isNone = true := by
      simpa using fun hfault => hgoing (Or.inr (Option.isSome_iff_ne_none.mpr hfault))
    have hflying : x.pool.inFlight.any (·.seq == i + 1) = true :=
      List.any_eq_true.mpr ⟨f, hf, by simpa using hs⟩
    simp [isInFlight, hsound, hflying] at hout
  · obtain rfl := Option.some.inj (hi.symm.trans hc)
    exact Bool.noConfusion (ha.symm.trans hdone)

/-- What a poll of an attempt does to the attempts. -/
structure Replaced (x : PoolSession) (i : Nat) (a b : Attempt) (y : PoolSession) : Prop where
  old : x.attempts[i]? = some a
  attempts : y.attempts = x.attempts.set i b
  forced : y.forced = x.forced
  phase : y.pool.phase = x.pool.phase

theorem Replaced.cases (h : x.Replaced i a b y) {j : Nat} {c : Attempt} (hj : y.attempts[j]? = some c) :
    j = i ∧ c = b ∨ j ≠ i ∧ x.attempts[j]? = some c := by
  obtain ⟨hlt, _⟩ := List.getElem?_eq_some_iff.mp h.old
  rw [h.attempts] at hj
  by_cases hji : j = i
  · subst hji
    rw [List.getElem?_set_self hlt] at hj
    exact Or.inl ⟨rfl, (Option.some.inj hj).symm⟩
  · rw [List.getElem?_set_ne (Ne.symm hji)] at hj
    exact Or.inr ⟨hji, hj⟩

theorem replaced_putAttempt {seq : Nat} (hi : x.attempts[seq - 1]? = some a) (site : Site) (b : Attempt) :
    x.Replaced (seq - 1) a b (x.putAttempt seq site b) := by
  obtain ⟨_, he⟩ := x.putAttempt_eq seq site b
  rw [he]
  exact ⟨hi, rfl, rfl, rfl⟩

theorem Replaced.hasDone (h : x.Replaced i a b y) (ha : a.isDone = false) {seq : Nat} (hx : x.HasDone seq) :
    y.HasDone seq := by
  obtain ⟨c, hc, hdone⟩ := hx
  refine ⟨c, ?_, hdone⟩
  rw [h.attempts, List.getElem?_set_ne ?_, hc]
  rintro rfl
  obtain rfl := Option.some.inj (h.old.symm.trans hc)
  exact Bool.noConfusion (ha.symm.trans hdone)

theorem Manned.pollAttempt (h : x.Manned) (seq : Nat) : (x.pollAttempt seq).Manned := by
  have hput : ∀ {a b : Attempt} (site : Site), x.attempts[seq - 1]? = some a → a.isDone = false →
      (x.putAttempt seq site b).Manned := by
    intro a b site ha hgoing
    have hreplaced := replaced_putAttempt ha site b
    refine ⟨?_, ?_⟩
    · rw [putAttempt_pool]
      exact h.tracked.mono fun _ => hreplaced.hasDone hgoing
    · rw [putAttempt_pool, hreplaced.attempts, List.length_set]
      exact h.hired
  unfold PoolSession.pollAttempt
  cases ha : x.attempts[seq - 1]? with
  | none => exact h
  | some a =>
      dsimp only
      split
      · exact h
      · rename_i hgoing
        have hgoing : a.isDone = false := by simpa using hgoing
        split
        · have hpolled := hput (a.poll x.site (x.pool.signals seq)).1 ha hgoing
            (b := (a.poll x.site (x.pool.signals seq)).2)
          split
          · -- An attempt that reports is done.
            rename_i outcome hout
            have hlt := (List.getElem?_eq_some_iff.mp ha).1
            have hdone : (x.putAttempt seq (a.poll x.site (x.pool.signals seq)).1
                (a.poll x.site (x.pool.signals seq)).2).HasDone seq := by
              refine ⟨_, ?_, Attempt.isDone_of_outcome? hout⟩
              rw [(replaced_putAttempt ha _ _).attempts, List.getElem?_set_self hlt]
            refine ⟨hpolled.tracked.receive hdone outcome, ?_⟩
            obtain ⟨_, _, he, _⟩ := Pool.receive_eq (x.putAttempt seq (a.poll x.site (x.pool.signals seq)).1
              (a.poll x.site (x.pool.signals seq)).2).pool seq outcome
            show _ ≤ (Pool.receive _ seq outcome).nextSeq
            rw [he]
            exact hpolled.hired
          · exact hpolled
        · exact hput _ ha hgoing

theorem forceOn_attempts (x : PoolSession) (k : Kills) : (x.forceOn k).attempts = x.attempts := by
  unfold forceOn
  dsimp only
  split <;> rfl

theorem turnOn_attempts (x : PoolSession) : x.turnOn.attempts = x.attempts := by
  unfold turnOn
  dsimp only
  split
  · exact forceOn_attempts ..
  · rfl

theorem pollPool_attempts (x : PoolSession) : x.pollPool.attempts = x.attempts ++
    (x.pollPool.pool.started.drop x.attempts.length).map fun context => ({ context } : Attempt) := by
  have hhired : ∀ y : PoolSession, y.attempts = x.attempts → y.hire.noteEnd.attempts = x.attempts ++
      (y.hire.noteEnd.pool.started.drop x.attempts.length).map fun context => ({ context } : Attempt) := by
    intro y hy
    obtain ⟨_, he⟩ := y.hire.noteEnd_eq
    rw [he, ← hy]
    rfl
  unfold pollPool
  cases x.forced with
  | some k =>
      dsimp only
      split <;> exact hhired _ (x.forceOn_attempts k)
  | none =>
      dsimp only
      split <;> exact hhired _ x.turnOn_attempts

theorem Manned.pollPool (h : x.Manned) (hs : Sound jobs x.pool) (hb : Braked x.pool) : x.pollPool.Manned := by
  have hacts := acts_pollPool hs
  have hstarted := (hs.acts hacts).flown.started
  refine ⟨(h.tracked.acts hs hb hacts).mono fun seq hx => ?_, ?_⟩
  · obtain ⟨a, ha, hdone⟩ := hx
    refine ⟨a, ?_, hdone⟩
    rw [pollPool_attempts, List.getElem?_append_left (List.getElem?_eq_some_iff.mp ha).1]
    exact ha
  · have hnext := Nat.le_trans h.hired hacts.nextSeq_le
    rw [pollPool_attempts, List.length_append, List.length_map, List.length_drop]
    omega

/-- A pool at work keeps track of its attempts whatever task is polled. -/
theorem Manned.poll (h : x.Manned) (hs : Sound jobs x.pool) (hb : Braked x.pool) (t : PoolTask) :
    (x.poll t).Manned := by
  cases t with
  | turns => exact h.pollPool hs hb
  | attempt seq => exact h.pollAttempt seq
  | background n => exact ⟨h.tracked, h.hired⟩

end PoolSession

end PageAudit
