import Mathlib.Data.List.Forall2
import PageAudit.Proofs.Pool.Runs

/-!
# Endings

Every result of a pool was told by one event, of the same kind and with the same number of attempts, and no other
event tells of an end. Once a pool has ended it gives no more results and tells no more events.
-/

namespace PageAudit

/-- An event tells of a result: of the same end of the same job after the same number of attempts. -/
def ProgressEvent.Tells : ProgressEvent → Result → Prop
  | .succeeded id attempts _, r => r.state = .succeeded ∧ id = r.jobId ∧ attempts = r.attemptsUsed
  | .failedPermanent id attempts _ _ _, r => r.state = .failedPermanent ∧ id = r.jobId ∧ attempts = r.attemptsUsed
  | .cancelled id attempts, r => r.state = .cancelled ∧ id = r.jobId ∧ attempts = r.attemptsUsed
  | _, _ => False

namespace ProgressEvent.Tells

variable {e : ProgressEvent} {r : Result}

theorem jobId (h : e.Tells r) : e.jobId? = some r.jobId := by
  cases e with
  | succeeded | failedPermanent | cancelled => exact congrArg some h.2.1
  | _ => exact h.elim

theorem terminal (h : e.Tells r) : e.isTerminal = true ∧ r.state.isTerminal = true := by
  cases e with
  | succeeded | failedPermanent | cancelled =>
      rw [h.1]
      exact ⟨rfl, rfl⟩
  | _ => exact h.elim

end ProgressEvent.Tells

theorem forall₂_exists_of_mem {α β : Type} {R : α → β → Prop} {as : List α} {bs : List β} {a : α}
    (h : List.Forall₂ R as bs) (ha : a ∈ as) : ∃ b ∈ bs, R a b := by
  induction h with
  | nil => cases ha
  | cons hab _ ih =>
      rcases List.mem_cons.mp ha with rfl | ha
      · exact ⟨_, List.mem_cons_self, hab⟩
      · obtain ⟨b, hb, hR⟩ := ih ha
        exact ⟨b, List.mem_cons_of_mem _ hb, hR⟩

/-- Among events that tell of results of different jobs, just one is about the job of a given result. -/
theorem ProgressEvent.exists_unique_tells {es : List ProgressEvent} {rs : List Result} {r : Result}
    (h : List.Forall₂ Tells es rs) (hn : (rs.map (·.jobId)).Nodup) (hr : r ∈ rs) :
    ∃ e, es.filter (fun e => e.jobId? == some r.jobId) = [e] ∧ e.Tells r := by
  induction h with
  | nil => cases hr
  | @cons e first es rs he hes ih =>
      obtain ⟨hnot, hn⟩ := List.nodup_cons.mp hn
      rcases List.mem_cons.mp hr with rfl | hr
      · have hothers : es.filter (fun e => e.jobId? == some r.jobId) = [] := by
          refine List.filter_eq_nil_iff.mpr fun e' he' => ?_
          obtain ⟨r', hr', htells⟩ := forall₂_exists_of_mem hes he'
          rw [htells.jobId]
          simp only [beq_iff_eq, Option.some.injEq]
          exact fun hid => hnot (List.mem_map.mpr ⟨r', hr', hid⟩)
        exact ⟨e, by rw [List.filter_cons, he.jobId, hothers]; simp, he⟩
      · have hother : (e.jobId? == some r.jobId) = false := by
          rw [he.jobId, beq_eq_false_iff_ne]
          exact fun hid => hnot (List.mem_map.mpr ⟨r, hr, (Option.some.inj hid).symm⟩)
        obtain ⟨e', hone, htells⟩ := ih hn hr
        exact ⟨e', by rw [List.filter_cons, hother]; exact hone, htells⟩

theorem Result.event_isTerminal (r : Result) (reason : FinalizeReason) : (r.event reason).isTerminal = true := by
  unfold Result.event
  split <;> rfl

namespace Pool

/-- The events that tell of an end. -/
def endings (p : Pool) : List ProgressEvent :=
  (p.events.map (·.2)).filter (·.isTerminal)

/-- The events that tell of an end tell of the results, one by one. -/
def Told (p : Pool) : Prop :=
  List.Forall₂ ProgressEvent.Tells p.endings (p.results.map (·.2))

variable {jobs : List Job} {p q : Pool}

theorem Told.emit {r : Result} {reason : FinalizeReason} (h : Told p) (hr : (r.event reason).Tells r) :
    Told (p.emit r reason) := by
  have hendings : (p.emit r reason).endings = p.endings ++ [r.event reason] := by
    simp [endings, Pool.emit, notify, List.filter_append, r.event_isTerminal reason]
  have hresults : (p.emit r reason).results.map (·.2) = p.results.map (·.2) ++ [r] := by
    simp [Pool.emit, notify]
  rw [Told, hendings, hresults]
  exact List.rel_append h (.cons hr .nil)

theorem Told.calledOff {js : List Job} {reason : String} (h : Told p) : Told (p.calledOff reason js) := by
  have hendings : (p.calledOff reason js).endings =
      p.endings ++ js.map fun j => ProgressEvent.cancelled j.id j.attempt := by
    simp [endings, Pool.calledOff, List.filter_append, ProgressEvent.isTerminal, Function.comp_def, List.filter_map]
  have hresults : (p.calledOff reason js).results.map (·.2) =
      p.results.map (·.2) ++ js.map fun j => Result.cancelled (j.enter .cancelled) p.clock reason := by
    simp [Pool.calledOff]
  rw [Told, hendings, hresults]
  refine List.rel_append h ?_
  rw [List.forall₂_map_left_iff, List.forall₂_map_right_iff, List.forall₂_same]
  exact fun j _ => ⟨rfl, rfl, rfl⟩

theorem Told.of_eq (h : Told p) (hendings : q.endings = p.endings) (hresults : q.results = p.results) : Told q := by
  rw [Told, hendings, hresults]
  exact h

theorem Told.taken {r : SlotReport} {held : Bool} {job : Job} (h : Told p) (ht : p.Taken r held job q)
    (o : AttemptOutcome) : Told (q.recordOutcome o) := by
  obtain ⟨_, _, _, _, _, _, _, he⟩ := ht.recordOutcome_eq o
  rw [he]
  exact h

theorem endings_postponed (p : Pool) (j : Job) (delayMs : Nat) (classification : Classification)
    (e : AttemptError) : (p.postponed j delayMs classification e).endings = p.endings := by
  simp [endings, postponed, ProgressEvent.isTerminal]

theorem endings_launched (p : Pool) (job : Job) (rest : List Job) (slotId : Nat) :
    (p.launched job rest slotId).endings = p.endings := by
  simp [endings, launched, ProgressEvent.isTerminal]

theorem endings_shrunk (p : Pool) (target : Nat) (reason : ShrinkReason) (roster : List Nat) :
    (p.shrunk target reason roster).endings = p.endings := by
  simp [endings, shrunk, ProgressEvent.isTerminal]

theorem endings_grown (p : Pool) (target : Nat) : (p.grown target).endings = p.endings := by
  simp [endings, grown, ProgressEvent.isTerminal]

/-- An act tells of every result that it gives, and of no other. -/
theorem Told.act (h : Told p) (hact : Act p q) : Told q := by
  cases hact with
  | succeed _ taken | giveUp _ taken => exact (h.taken taken _).emit ⟨rfl, rfl, rfl⟩
  | postpone _ taken => exact (h.taken taken _).of_eq (endings_postponed ..) rfl
  | callOff _ _ taken => exact (h.taken taken _).calledOff
  | requeue _ taken => exact (h.taken taken .interrupted).of_eq rfl rfl
  | shrink => exact h.of_eq (endings_shrunk ..) rfl
  | grow => exact h.of_eq (endings_grown ..) rfl
  | drain | abandon => exact Told.calledOff (h.of_eq rfl rfl)
  | launch => exact h.of_eq (endings_launched ..) rfl
  | _ => exact h

theorem kept_told : Kept jobs Told where
  act := fun _ h hact => h.act hact
  news := by
    intro p q _ h hnews
    cases hnews <;> exact h
  receive := fun _ _ h => h

/-! ## After the end -/

/-- A pool that has ended does nothing more. -/
structure Final (p q : Pool) : Prop where
  phase : q.phase = .ended
  results : q.results = p.results
  events : q.events = p.events

theorem Move.final (hmove : Move p q) (hended : p.phase = .ended) : Final p q := by
  cases hmove with
  | act hact =>
      cases hact with
      | note => exact ⟨hended, rfl, rfl⟩
      | begin hphase | resume _ hphase | collapse _ hphase => exact absurd (hphase.symm.trans hended) (by decide)
      | succeed busy | giveUp busy | postpone busy | callOff _ busy | requeue busy | shrink _ busy | grow busy
      | breakDown busy | drain busy | force busy | reap busy | abandon busy | promote busy | launch busy
      | publish busy | close busy => exact absurd (busy.symm.trans hended) (by decide)
  | news hnews => cases hnews <;> exact ⟨hended, rfl, rfl⟩
  | receive seq outcome =>
      obtain ⟨_, _, he, _⟩ := p.receive_eq seq outcome
      rw [he]
      exact ⟨hended, rfl, rfl⟩

theorem Moves.final (hmoves : Moves p q) (hended : p.phase = .ended) : Final p q := by
  induction hmoves with
  | refl => exact ⟨hended, rfl, rfl⟩
  | tail _ hmove ih =>
      have hnext := hmove.final ih.phase
      exact ⟨hnext.phase, hnext.results.trans ih.results, hnext.events.trans ih.events⟩

end Pool

end PageAudit
