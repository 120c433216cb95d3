import PageAudit.Pool.Session
import PageAudit.Proofs.Pool.Runs

/-!
# A pool at work moves

Whatever task of a pool at work is polled, the pool itself only moves: its turns are acts, and an attempt at most
reports.
-/

namespace PageAudit

namespace Pool

variable {jobs : List Job} {p : Pool}

theorem Sound.turns (h : Sound jobs p) (n : Nat) : Acts p (p.turns n) := by
  induction n generalizing p with
  | zero => exact Relation.ReflTransGen.refl
  | succ n ih =>
      unfold Pool.turns
      cases hq : p.turn? with
      | none => exact Relation.ReflTransGen.refl
      | some q =>
          have hacts := h.turn hq
          exact hacts.trans (ih (h.acts hacts))

theorem Sound.poll (h : Sound jobs p) : Acts p p.poll := by
  unfold Pool.poll
  cases hphase : p.phase with
  | fresh =>
      have hstart := h.start hphase
      exact hstart.trans ((h.acts hstart).turns _)
  | waiting => exact h.turns _
  | forcing => exact Relation.ReflTransGen.refl
  | ended => exact Relation.ReflTransGen.refl

end Pool

namespace PoolSession

open Pool

variable {jobs : List Job} {x : PoolSession}

theorem forceOn_pool (x : PoolSession) (k : Kills) :
    (x.forceOn k).pool = x.pool ∨ (∃ count, (x.forceOn k).pool = (x.pool.released count).poll) ∨
      ∃ message, (x.forceOn k).pool = x.pool.launcherBroke message := by
  unfold forceOn heed
  dsimp only
  split
  · dsimp only
    split
    · exact Or.inr (Or.inl ⟨_, rfl⟩)
    · exact Or.inr (Or.inr ⟨_, rfl⟩)
  · exact Or.inl rfl

theorem acts_forceOn {p : Pool} (h : Sound jobs p) (hp : x.pool = p) (k : Kills) : Acts p (x.forceOn k).pool := by
  rcases x.forceOn_pool k with he | ⟨count, he⟩ | ⟨message, he⟩
  · rw [he, hp]
  · have hreleased := h.released count
    rw [he, hp]
    exact hreleased.trans (h.acts hreleased).poll
  · rw [he, hp]
    exact p.acts_launcherBroke message

theorem acts_turnOn (h : Sound jobs x.pool) : Acts x.pool x.turnOn.pool := by
  have hpoll := h.poll
  unfold turnOn
  dsimp only
  split
  · exact hpoll.trans (acts_forceOn (h.acts hpoll) rfl _)
  · exact hpoll

theorem noteEnd_eq (x : PoolSession) : ∃ endedAt, x.noteEnd = { x with endedAt } := by
  unfold noteEnd
  split <;> exact ⟨_, rfl⟩

theorem noteEnd_pool (x : PoolSession) : x.noteEnd.pool = x.pool := by
  obtain ⟨_, he⟩ := x.noteEnd_eq
  rw [he]

theorem noteEnd_site (x : PoolSession) : x.noteEnd.site = x.site := by
  obtain ⟨_, he⟩ := x.noteEnd_eq
  rw [he]

theorem acts_pollPool (h : Sound jobs x.pool) : Acts x.pool x.pollPool.pool := by
  unfold pollPool
  dsimp only
  rw [noteEnd_pool]
  cases hforced : x.forced with
  | some k =>
      dsimp only
      split <;> exact acts_forceOn h rfl k
  | none =>
      dsimp only
      split <;> exact acts_turnOn h

theorem putAttempt_eq (x : PoolSession) (seq : Nat) (site : Site) (a : Attempt) :
    ∃ listeners, x.putAttempt seq site a = { x with site, attempts := x.attempts.set (seq - 1) a, listeners } := by
  unfold putAttempt
  dsimp only
  split
  · exact ⟨_, rfl⟩
  · split <;> exact ⟨_, rfl⟩

theorem putAttempt_pool (x : PoolSession) (seq : Nat) (site : Site) (a : Attempt) :
    (x.putAttempt seq site a).pool = x.pool := by
  obtain ⟨_, he⟩ := x.putAttempt_eq seq site a
  rw [he]

theorem putAttempt_site (x : PoolSession) (seq : Nat) (site : Site) (a : Attempt) :
    (x.putAttempt seq site a).site = site := by
  obtain ⟨_, he⟩ := x.putAttempt_eq seq site a
  rw [he]

theorem pollAttempt_pool (x : PoolSession) (seq : Nat) :
    (x.pollAttempt seq).pool = x.pool ∨ ∃ outcome, (x.pollAttempt seq).pool = x.pool.receive seq outcome := by
  unfold pollAttempt
  split
  · exact Or.inl rfl
  · split
    · exact Or.inl rfl
    · split
      · dsimp only
        split
        · exact Or.inr ⟨_, by rw [putAttempt_pool]⟩
        · exact Or.inl (putAttempt_pool ..)
      · exact Or.inl (putAttempt_pool ..)

theorem moves_poll (h : Sound jobs x.pool) (t : PoolTask) : Moves x.pool (x.poll t).pool := by
  cases t with
  | turns => exact (acts_pollPool h).moves
  | attempt seq =>
      rcases x.pollAttempt_pool seq with he | ⟨outcome, he⟩
      · show Moves x.pool (x.pollAttempt seq).pool
        rw [he]
      · show Moves x.pool (x.pollAttempt seq).pool
        rw [he]
        exact Relation.ReflTransGen.single (.receive seq outcome)
  | background n => exact Relation.ReflTransGen.refl

/-! ## The end -/

theorem forceOn_endedAt (x : PoolSession) (k : Kills) : (x.forceOn k).endedAt = x.endedAt := by
  unfold forceOn
  dsimp only
  split <;> rfl

theorem turnOn_endedAt (x : PoolSession) : x.turnOn.endedAt = x.endedAt := by
  unfold turnOn
  dsimp only
  split
  · exact forceOn_endedAt ..
  · rfl

theorem noteEnd_endedAt (x : PoolSession) : x.noteEnd.endedAt = x.endedAt ∨ x.noteEnd.pool.phase = .ended := by
  unfold noteEnd
  split
  · rename_i h
    simp only [Bool.and_eq_true, beq_iff_eq] at h
    exact Or.inr h.2
  · exact Or.inl rfl

theorem pollPool_endedAt (x : PoolSession) : x.pollPool.endedAt = x.endedAt ∨ x.pollPool.pool.phase = .ended := by
  unfold pollPool
  dsimp only
  refine (noteEnd_endedAt _).imp_left fun he => he.trans ?_
  cases hforced : x.forced with
  | some k =>
      dsimp only
      split <;> exact forceOn_endedAt x k
  | none =>
      dsimp only
      split <;> exact turnOn_endedAt x

theorem putAttempt_endedAt (x : PoolSession) (seq : Nat) (site : Site) (a : Attempt) :
    (x.putAttempt seq site a).endedAt = x.endedAt := by
  obtain ⟨_, he⟩ := x.putAttempt_eq seq site a
  rw [he]

theorem pollAttempt_endedAt (x : PoolSession) (seq : Nat) : (x.pollAttempt seq).endedAt = x.endedAt := by
  unfold pollAttempt
  split
  · rfl
  · split
    · rfl
    · split
      · dsimp only
        split <;> exact putAttempt_endedAt ..
      · exact putAttempt_endedAt ..

/-- The end of the pool is noted only when it has come. -/
theorem poll_endedAt (x : PoolSession) (t : PoolTask) :
    (x.poll t).endedAt = x.endedAt ∨ (x.poll t).pool.phase = .ended := by
  cases t with
  | turns => exact x.pollPool_endedAt
  | attempt seq => exact Or.inl (x.pollAttempt_endedAt seq)
  | background n => exact Or.inl rfl

end PoolSession

end PageAudit
