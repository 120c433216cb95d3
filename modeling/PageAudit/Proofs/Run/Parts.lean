import PageAudit.Proofs.Pool.Parts
import PageAudit.Proofs.Run.Browsers
import PageAudit.Proofs.Run.Steps

/-!
# The parts of a run

Whatever happens to a run by itself, its pool at work advances, or one of its attempts is polled, or one of the browsers
that are given back in the background.
-/

namespace PageAudit.Run

open Pool PoolSession Supervisor

variable {r : Run} {plan : List Job}

/-! ## The coordinator -/

/-- A session that differs in its browsers and in what the pool knows of the memory. -/
def Touched (x y : PoolSession) : Prop :=
  ∃ supervisor pressure, y = { x with site := { x.site with supervisor }, pool := { x.pool with pressure } }

theorem Touched.refl (x : PoolSession) : Touched x x := ⟨_, _, rfl⟩

theorem Touched.trans {x y z : PoolSession} (h : Touched x y) (h' : Touched y z) : Touched x z := by
  obtain ⟨_, _, rfl⟩ := h
  obtain ⟨_, _, rfl⟩ := h'
  exact ⟨_, _, rfl⟩

theorem Proceeds.touched {s : Run} (h : r.Proceeds s) : Touched r.session s.session := by
  cases h <;> exact ⟨_, _, rfl⟩

theorem step_session (r : Run) : Touched r.session r.step.session := by
  rcases r.step_cases with h | ⟨_, ⟨e, he⟩ | h⟩
  · exact h.touched
  · rw [he]
    exact .refl _
  · exact h.touched

theorem pollCoordinator_session (r : Run) : Touched r.session r.pollCoordinator.session :=
  pollCoordinator_induct (motive := fun s => Touched r.session s.session) r.step_session
    fun s hs => hs.trans s.step_session

theorem advances_pollCoordinator (r : Run) : Advances r.session r.pollCoordinator.session := by
  obtain ⟨supervisor, pressure, he⟩ := r.pollCoordinator_session
  have hsupervisor : r.pollCoordinator.supervisor = supervisor := by rw [Run.supervisor, he]
  have hspares : Spares r.supervisor r.pollCoordinator.supervisor :=
    .of_clears r.recedes_pollCoordinator r.steers_pollCoordinator.clears
  rw [he]
  exact {
    pool := Or.inr (.firstPressure pressure)
    site := ⟨supervisor, rfl, hsupervisor ▸ hspares⟩
    attempts := List.prefix_rfl
    hired := fun i a hi ha => by
      rw [List.getElem?_eq_none hi] at ha
      cases ha }

/-! ## All actions -/

/-- What an action of a run itself does to its pool at work. -/
theorem Grounded.advances_perform (h : r.Grounded plan) {a : RunAction} (ha : a.IsOwn) :
    Advances r.session (r.perform a).session ∨ (∃ seq, 0 < seq ∧ a = .poll (.part (.attempt seq))) ∨
      ∃ n, a = .poll (.part (.background n)) := by
  have hnews : ∀ {p : Pool}, News r.session.pool p → Advances r.session { r.session with pool := p } :=
    fun hp => .of_pool (Or.inr hp) rfl rfl rfl
  cases a with
  | elapse now =>
      refine Or.inl { hnews (.elapse now) with site := ⟨_, rfl, ?_⟩ }
      exact ⟨⟨rfl, rfl, rfl, List.Sublist.refl _⟩, rfl⟩
  | cancel => exact Or.inl (hnews .cancel)
  | disturb => exact ha.elim
  | reach i =>
      refine Or.inl ?_
      cases i with
      | elapse now => exact hnews (.elapse _)
      | cancel => exact hnews .cancel
      | pressure m => exact hnews (.pressure m)
      | pressureClosed => exact hnews .closed
      | report | released | launcherBroke => exact ha.elim
      | turn => exact .of_pool (Or.inl h.sound.step_turn) rfl rfl rfl
  | poll t =>
      cases t with
      | coordinator => exact Or.inl r.advances_pollCoordinator
      | monitor =>
          refine Or.inl ?_
          show Advances r.session r.pollMonitor.session
          unfold pollMonitor
          split
          · split
            · exact hnews (.firstPressure _)
            · dsimp only
              split
              · exact hnews (.pressure _)
              · exact hnews (.firstPressure _)
          · exact hnews (.firstPressure _)
      | part t =>
          cases t with
          | turns => exact Or.inl (advances_pollPool h.sound)
          | background n => exact Or.inr (Or.inr ⟨n, rfl⟩)
          | attempt seq =>
              exact Or.inr (Or.inl ⟨seq, Nat.pos_of_ne_zero fun he => by subst he; exact ha, rfl⟩)

end PageAudit.Run
