import PageAudit.Proofs.Run.Unaudited
import Mathlib.Data.Prod.Lex
import Mathlib.Order.OrderIsoNat

/-!
# Calls that return

A run that was cancelled before it began comes to its end: whatever else happens, it does so if time and again the kills
in progress are given their time, the pool is polled and the call takes a step. Every such round brings the run closer to
its end.
-/

namespace PageAudit

open Pool

/-! ## Rows of kills -/

namespace Kills

/-- What is left to be done of a row. -/
def size (k : Kills) : Nat :=
  2 * k.waiting.length + if k.current.isSome then 1 else 0

theorem isDone_conclude (k : Kills) (pid : Nat) {ending : KillEnding} (h : ending.isBroken = true) :
    (k.conclude pid ending).isDone = true := by
  cases ending with
  | broken => rfl
  | done | failed => exact Bool.noConfusion h

theorem length_waiting_conclude (k : Kills) (pid : Nat) (ending : KillEnding) :
    (k.conclude pid ending).waiting.length ≤ k.waiting.length := by
  cases ending with
  | broken => exact Nat.zero_le _
  | done | failed => exact Nat.le_refl _

theorem proceed_size {pids : List Nat} {s : Supervisor} {k : Kills} (hk : k.current = none) :
    (proceed pids s k).2.isDone = true ∨ (proceed pids s k).2.size < 2 * pids.length := by
  induction pids generalizing s k with
  | nil => simp [proceed, isDone, hk]
  | cons pid rest ih =>
      have hnone : ∀ ending, (k.conclude pid ending).current = none := k.conclude_current pid
      unfold proceed
      dsimp only
      split
      · simp [size]
        omega
      · split
        · rename_i hbroken
          exact Or.inl (isDone_conclude k pid hbroken)
        · refine (ih (hnone _)).imp_right fun hless => Nat.lt_trans hless ?_
          simp

/-- A poll of a row waits for the kill in progress, or it finishes the row or leaves less of it. -/
theorem poll_size (s : Supervisor) (k : Kills) :
    k.poll s = (s, k) ∧ (∃ t, k.due? = some t ∧ s.clock < t) ∨
      (k.poll s).2.isDone = true ∨ (k.poll s).2.size < k.size := by
  unfold poll
  cases hk : k.current with
  | none =>
      refine Or.inr ((proceed_size hk).imp_right fun hless => ?_)
      simpa [size, hk] using hless
  | some c =>
      dsimp only
      split
      · rename_i hwaits
        exact Or.inl ⟨rfl, c.due, by simp [due?, hk], hwaits⟩
      · refine Or.inr ((proceed_size (k.conclude_current c.pid _)).imp_right fun hless => Nat.lt_of_lt_of_le hless ?_)
        refine (Nat.mul_le_mul_left 2 (k.length_waiting_conclude c.pid _)).trans ?_
        simp [size, hk]

end Kills

/-! ## Stages -/

namespace RunStage

/-- How far a run is from its end: the stages to come, and what is left to be done in this one. -/
def rank : RunStage → ℕ ×ₗ ℕ
  | .idle => toLex (8, 0)
  | .sweeping k => toLex (7, k.size)
  | .pooling _ => toLex (6, 0)
  | .releasing _ _ k => toLex (5, k.size)
  | .clearing _ _ k => toLex (4, k.size)
  | .deciding .. => toLex (3, 0)
  | .showing .. => toLex (2, 0)
  | .reporting .. => toLex (1, 0)
  | .ended _ | .broken _ => toLex (0, 0)

/-- The run goes on no more. -/
def IsOver : RunStage → Prop
  | .ended _ | .broken _ => True
  | _ => False

theorem IsOver.rank_eq {stage : RunStage} (h : stage.IsOver) : stage.rank = toLex (0, 0) := by
  cases stage with
  | ended | broken => rfl
  | _ => exact h.elim

theorem rank_pos {stage : RunStage} (h : ¬ stage.IsOver) : toLex (0, 0) < stage.rank := by
  cases stage with
  | ended | broken => exact absurd trivial h
  | _ => exact Prod.Lex.toLex_lt_toLex.mpr (Or.inl (Nat.succ_pos _))

theorem lex_lt_left {a b c d : ℕ} (h : a < b) : toLex (a, c) < toLex (b, d) :=
  Prod.Lex.toLex_lt_toLex.mpr (Or.inl h)

theorem lex_lt_right {a b c : ℕ} (h : b < c) : toLex (a, b) < toLex (a, c) :=
  Prod.Lex.toLex_lt_toLex.mpr (Or.inr ⟨rfl, h⟩)

end RunStage

namespace Run

variable {r s : Run} {plan : List Job} {initial : SweepReport} {results : List Result} {begun : Supervisor}

open RunStage

/-- Something keeps the coordinator from going on: a kill in progress, the pool, or the end of the run. -/
def Stalls (r : Run) : Prop :=
  (∃ t, r.due? .coordinator = some t ∧ r.supervisor.clock < t) ∨
    (∃ initial, r.stage = .pooling initial ∧ r.session.endedAt = none) ∨ r.stage.IsOver

/-- A step leaves the run where it was, or it brings it closer to its end. -/
def Nears (r s : Run) : Prop :=
  s.stage = r.stage ∧ r.Stalls ∨ s.stage.rank < r.stage.rank

/-- What follows a row of kills, and a kill that breaks down, are closer to the end than the row. -/
theorem nears_killOn {k : Kills} {stage : Kills → RunStage} {next : Kills → Run → Run} {n : Nat}
    (hrank : ∀ k, (stage k).rank = toLex (n + 1, k.size))
    (hdue : ∀ (k : Kills) (s : Run), s.stage = stage k → s.due? .coordinator = k.due?)
    (hnext : ∀ (k : Kills) (s : Run), (next k s).stage.rank < toLex (n + 1, 0)) (hstage : r.stage = stage k) :
    Nears r (r.killOn k stage next) := by
  have hafter : ∀ {rank : ℕ ×ₗ ℕ}, rank < toLex (n + 1, 0) → rank < r.stage.rank := fun hless => by
    rw [hstage, hrank]
    exact hless.trans_le (by simp [Prod.Lex.toLex_le_toLex])
  refine killOn_induct (motive := fun s => Nears r s) (fun hopen => ?_) (fun _ _ => Or.inr (hafter (hnext _ _)))
    fun _ _ _ => Or.inr (hafter (lex_lt_left n.succ_pos))
  rcases k.poll_size r.supervisor with ⟨he, t, ht, hwaits⟩ | hdone | hless
  · exact Or.inl ⟨he ▸ hstage.symm, Or.inl ⟨t, (hdue k r hstage).trans ht, hwaits⟩⟩
  · exact Bool.noConfusion (hopen.symm.trans hdone)
  · have hleft : (stage (k.poll r.supervisor).2).rank < (stage k).rank := by
      rw [hrank, hrank]
      exact lex_lt_right hless
    exact Or.inr (hstage ▸ hleft)

theorem nears_clearOn {k : Kills} (hstage : r.stage = .clearing initial results k) :
    Nears r (r.clearOn initial results k) :=
  nears_killOn (fun _ => rfl) (fun _ _ hs => by simp only [Run.due?, hs]) (fun _ _ => lex_lt_left (by decide)) hstage

theorem rank_killOn {k : Kills} {stage : Kills → RunStage} {next : Kills → Run → Run} {n : Nat}
    (hrank : ∀ k, (stage k).rank = toLex (n + 1, k.size))
    (hnext : ∀ (k : Kills) (s : Run), (next k s).stage.rank < toLex (n + 1, 0)) :
    (r.killOn k stage next).stage.rank < toLex (n + 2, 0) :=
  killOn_induct (motive := fun s => s.stage.rank < toLex (n + 2, 0))
    (fun _ => (hrank _).trans_lt (lex_lt_left (Nat.lt_succ_self _)))
    (fun _ _ => (hnext _ _).trans (lex_lt_left (Nat.lt_succ_self _))) fun _ _ _ => lex_lt_left (Nat.succ_pos _)

theorem rank_beginClearing (r : Run) (initial : SweepReport) (results : List Result) :
    (r.beginClearing initial results).stage.rank < toLex (5, 0) :=
  rank_killOn (fun _ => rfl) fun _ _ => lex_lt_left (by decide)

theorem nears_releaseOn {k : Kills} (hstage : r.stage = .releasing initial results k) :
    Nears r (r.releaseOn initial results k) :=
  nears_killOn (fun _ => rfl) (fun _ _ hs => by simp only [Run.due?, hs])
    (fun _ s => s.rank_beginClearing initial results) hstage

theorem rank_releaseOn (r : Run) (initial : SweepReport) (results : List Result) (k : Kills) :
    (r.releaseOn initial results k).stage.rank < toLex (6, 0) :=
  rank_killOn (fun _ => rfl) fun _ s => s.rank_beginClearing initial results

theorem nears_sweepOn {k : Kills} (hstage : r.stage = .sweeping k) : Nears r (r.sweepOn k) :=
  nears_killOn (fun _ => rfl) (fun _ _ hs => by simp only [Run.due?, hs]) (fun _ _ => lex_lt_left (by decide)) hstage

theorem rank_sweepOn (r : Run) (k : Kills) : (r.sweepOn k).stage.rank < toLex (8, 0) :=
  rank_killOn (fun _ => rfl) fun _ _ => lex_lt_left (by decide)

theorem Foregone.nears_advance (h : r.Foregone begun plan) : Nears r r.advance := by
  unfold Run.advance
  cases hstage : r.stage with
  | idle =>
      dsimp only
      rw [h.enter_eq]
      unfold Nears
      rw [hstage]
      exact Or.inr (rank_sweepOn ..)
  | sweeping k =>
      simp only [Run.step, hstage]
      exact nears_sweepOn hstage
  | pooling initial =>
      simp only [Run.step, hstage]
      unfold collect
      split
      · rename_i hgoing
        exact Or.inl ⟨rfl, Or.inr (Or.inl ⟨initial, hstage, by simpa using hgoing⟩)⟩
      · unfold Nears
        rw [hstage]
        exact Or.inr (rank_releaseOn ..)
  | releasing _ _ k =>
      simp only [Run.step, hstage]
      exact nears_releaseOn hstage
  | clearing _ _ k =>
      simp only [Run.step, hstage]
      exact nears_clearOn hstage
  | deciding | showing | reporting =>
      simp only [Run.step, hstage]
      unfold Nears
      rw [hstage]
      exact Or.inr (lex_lt_left (by decide))
  | ended | broken =>
      simp only [Run.step, hstage]
      exact Or.inl ⟨rfl, Or.inr (Or.inr (hstage ▸ trivial))⟩

theorem Foregone.rank_evolves (h : r.Foregone begun plan) (hr : r.Evolves s) : s.stage.rank ≤ r.stage.rank := by
  cases hr with
  | stay | noteReason | drain | tell => exact le_refl _
  | advance => exact h.nears_advance.elim (fun hs => le_of_eq (congrArg rank hs.1)) le_of_lt
  | around _ calm apart => exact le_of_eq (congrArg rank (keepsCourse_around calm apart).stage)

end Run

namespace Coordinator

variable {x : Coordinator} {n : Nat} {plan : List Job} {begun : Supervisor} {actions : List CoordinatorAction}

/-- A coordinator whose run was cancelled before it began, with the call that leads it. -/
structure Foregone (x : Coordinator) (n : Nat) (begun : Supervisor) (plan : List Job) : Prop where
  leads : x.Leads n plan
  run : x.run.Foregone begun plan

theorem Foregone.perform (h : x.Foregone n begun plan) {a : CoordinatorAction} (ha : a.IsOwn) :
    (x.perform a).Foregone n begun plan ∧ (x.perform a).run.stage.rank ≤ x.run.stage.rank := by
  obtain ⟨hleads, hevolves⟩ := h.leads.perform ha
  exact ⟨⟨hleads, h.run.evolves hevolves⟩, h.run.rank_evolves hevolves⟩

theorem Foregone.after (h : x.Foregone n begun plan) (hown : ∀ a ∈ actions, a.IsOwn) :
    (x.after actions).Foregone n begun plan ∧ (x.after actions).run.stage.rank ≤ x.run.stage.rank := by
  induction actions generalizing x with
  | nil => exact ⟨h, le_refl _⟩
  | cons a rest ih =>
      obtain ⟨hnext, hle⟩ := h.perform (hown a List.mem_cons_self)
      obtain ⟨hlast, hle'⟩ := ih hnext fun b hb => hown b (List.mem_cons_of_mem _ hb)
      exact ⟨hlast, hle'.trans hle⟩

/-- A round of a call: whatever happens, then the kill in progress is given its time, the pool is polled, and the call
takes a step. -/
def Round (x : Coordinator) (n : Nat) (actions : List CoordinatorAction) : Prop :=
  (∀ a ∈ actions, a.IsOwn) ∧ ∃ before now,
    actions = before ++ [.part (.elapse now), .part (.poll (.part .turns)), .go n] ∧
    ∀ t, (x.after before).run.due? .coordinator = some t → t ≤ now

/-- What follows a number of rounds. -/
def afterRounds (x : Coordinator) (rounds : Nat → List CoordinatorAction) : Nat → Coordinator
  | 0 => x
  | k + 1 => (x.afterRounds rounds k).after (rounds k)

/-- The shortest round. -/
def nextRound (x : Coordinator) (n : Nat) : List CoordinatorAction :=
  [.part (.elapse ((x.run.due? .coordinator).getD x.run.clock)), .part (.poll (.part .turns)), .go n]

theorem nextRound_round (x : Coordinator) (n : Nat) : x.Round n (x.nextRound n) := by
  refine ⟨by simp [nextRound, CoordinatorAction.IsOwn, RunAction.IsOwn, RunAction.Cancels], [], _, rfl, fun t ht => ?_⟩
  rw [show x.run.due? .coordinator = some t from ht]
  exact le_refl _

/-- What follows a number of shortest rounds. -/
def afterNext (x : Coordinator) (n : Nat) : Nat → Coordinator
  | 0 => x
  | k + 1 => (x.afterNext n k).after ((x.afterNext n k).nextRound n)

/-- There is a round to follow every other. -/
theorem exists_rounds (x : Coordinator) (n : Nat) :
    ∃ rounds : Nat → List CoordinatorAction, ∀ k, (x.afterRounds rounds k).Round n (rounds k) := by
  have hnext : ∀ k, x.afterRounds (fun k => (x.afterNext n k).nextRound n) k = x.afterNext n k := by
    intro k
    induction k with
    | zero => rfl
    | succ k ih => rw [afterRounds, ih, afterNext]
  refine ⟨fun k => (x.afterNext n k).nextRound n, fun k => ?_⟩
  rw [hnext]
  exact nextRound_round _ n

/-- Once time has passed and the pool was polled, nothing keeps the run from going on but its end. -/
theorem Foregone.unstalled (h : x.Foregone n begun plan) {now : Nat}
    (hdue : ∀ t, x.run.due? .coordinator = some t → t ≤ now) :
    let y := (x.perform (.part (.elapse now))).perform (.part (.poll (.part .turns)))
    y.run.Stalls → y.run.stage.IsOver := by
  have helapsed := (h.perform (a := .part (.elapse now)) ⟨trivial, id, nofun⟩).1.run
  have hstage : (x.perform (.part (.elapse now))).run.stage = x.run.stage := rfl
  have hclock : (x.perform (.part (.elapse now))).run.supervisor.clock = now := rfl
  generalize x.perform (.part (.elapse now)) = y at helapsed hstage hclock
  obtain ⟨_, hended, hsite⟩ := helapsed.session.pollPool helapsed.orderly.1.sound
  have hkeeps := Run.keepsCourse_around (r := y.run) (a := .poll (.part .turns)) id nofun
  dsimp only
  show (y.run.around (.poll (.part .turns))).Stalls → (y.run.around (.poll (.part .turns))).stage.IsOver
  rintro (⟨t, ht, hwaits⟩ | ⟨initial, hpooling, hgoing⟩ | hover)
  · refine absurd (hdue t ?_) (Nat.not_le.mpr ?_)
    · rw [← ht]
      simp only [Run.due?, hkeeps.stage, hstage]
    · rw [← hclock]
      convert hwaits using 1
      rcases y.run.around_cases (.poll (.part .turns)) with ⟨he, _⟩ | ⟨he, _⟩
      · rw [he]
      · rw [he]
        exact (congrArg (fun s : Site => s.supervisor.clock) hsite).symm
  · rcases y.run.around_cases (.poll (.part .turns)) with ⟨_, hnone⟩ | ⟨he, _⟩
    · rw [hkeeps.stage] at hpooling
      rw [Run.hasQueued, hpooling] at hnone
      cases hnone
    · rw [he] at hgoing
      exact absurd (hgoing ▸ hended : (none : Option Nat).isSome = true) (by simp)
  · exact hover

/-- A round brings the run closer to its end, unless it has ended. -/
theorem Foregone.round (h : x.Foregone n begun plan) (hround : x.Round n actions)
    (hopen : ¬ x.run.stage.IsOver) : (x.after actions).run.stage.rank < x.run.stage.rank := by
  obtain ⟨hown, before, now, rfl, hdue⟩ := hround
  obtain ⟨hbefore, hle⟩ := h.after fun a ha => hown a (List.mem_append_left _ ha)
  obtain ⟨helapsed, hle'⟩ := hbefore.perform (a := .part (.elapse now)) ⟨trivial, id, nofun⟩
  obtain ⟨hpolled, hle''⟩ := helapsed.perform (a := .part (.poll (.part .turns))) ⟨trivial, id, nofun⟩
  have hready := (hle''.trans hle').trans hle
  have hunstalled := hbefore.unstalled hdue
  rw [after_append]
  show (((x.after before).perform (.part (.elapse now))).perform (.part (.poll (.part .turns))) |>.perform
    (.go n)).run.stage.rank < _
  rw [hpolled.leads.go_run]
  dsimp only at hunstalled
  generalize ((x.after before).perform (.part (.elapse now))).perform (.part (.poll (.part .turns))) = y at *
  rcases hpolled.run.nears_advance with ⟨hsame, hstalls⟩ | hless
  · rw [hsame, (hunstalled hstalls).rank_eq]
    exact RunStage.rank_pos hopen
  · exact hless.trans_le hready

theorem Foregone.afterRounds (h : x.Foregone n begun plan) {rounds : Nat → List CoordinatorAction}
    (hrounds : ∀ k, (x.afterRounds rounds k).Round n (rounds k)) (k : Nat) :
    (x.afterRounds rounds k).Foregone n begun plan := by
  induction k with
  | zero => exact h
  | succ k ih => exact (ih.after (hrounds k).1).1

/-- After enough rounds the call returns a report, as long as no kill breaks down. -/
theorem Foregone.returns (h : x.Foregone n begun plan) (hsteady : begun.launcher.Steady)
    {rounds : Nat → List CoordinatorAction} (hrounds : ∀ k, (x.afterRounds rounds k).Round n (rounds k)) :
    ∃ k report, (x.afterRounds rounds k).calls[n]? = some (.run plan (.answered (.ok report))) := by
  by_contra hnever
  have hopen : ∀ k, ¬ (x.afterRounds rounds k).run.stage.IsOver := by
    intro k hover
    have hlast := h.afterRounds hrounds k
    have haborts := hlast.run.stage
    have hunbroken := hlast.run.unbroken hsteady
    have hcall := hlast.leads.call
    cases hstage : (x.afterRounds rounds k).run.stage with
    | ended outcome =>
        rw [hstage] at haborts hcall
        cases outcome with
        | ok report => exact hnever ⟨k, report, hcall⟩
        | error => exact haborts
    | broken message =>
        rw [hstage] at hunbroken
        exact hunbroken
    | _ =>
        rw [hstage] at hover
        exact hover
  -- The ranks would go down for ever.
  refine not_strictAnti_of_wellFoundedLT (fun k => (x.afterRounds rounds k).run.stage.rank)
    (strictAnti_nat_of_succ_lt fun k => ?_)
  exact (h.afterRounds hrounds k).round (hrounds k) (hopen k)

end Coordinator

end PageAudit
