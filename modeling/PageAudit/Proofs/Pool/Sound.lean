import PageAudit.Proofs.Pool.Flights
import PageAudit.Proofs.Pool.Phases
import PageAudit.Proofs.Pool.Slots

/-!
# Sound pools

A pool is sound when its jobs, slots, attempts in flight and deadlines fit each other. Acts, news and reports
keep it sound.
-/

namespace PageAudit.Pool

/-- Jobs, attempts in flight, slots and phase of a pool fit each other. -/
structure Sound (jobs : List Job) (p : Pool) : Prop where
  placed : Placed jobs [] p
  flown : Flown p
  slotted : Slotted p
  phased : Phased p

variable {jobs : List Job} {p q : Pool}

theorem Sound.act (h : Sound jobs p) (hact : Act p q) : Sound jobs q :=
  ⟨h.placed.act hact, h.flown.act h.placed hact, h.slotted.act h.placed hact, h.phased.act hact⟩

theorem Sound.acts (h : Sound jobs p) (hacts : Acts p q) : Sound jobs q := by
  induction hacts with
  | refl => exact h
  | tail _ hact ih => exact ih.act hact

theorem Sound.news (h : Sound jobs p) (hnews : News p q) : Sound jobs q := by
  have hphased := h.phased.news hnews
  cases hnews with
  | elapse => exact ⟨{ h.placed with }, { h.flown with }, { h.slotted with }, hphased⟩
  | cancel => exact ⟨{ h.placed with }, { h.flown with }, { h.slotted with }, hphased⟩
  | pressure => exact ⟨{ h.placed with }, { h.flown with }, { h.slotted with }, hphased⟩
  | firstPressure => exact ⟨{ h.placed with }, { h.flown with }, { h.slotted with }, hphased⟩
  | closed => exact ⟨{ h.placed with }, { h.flown with }, { h.slotted with }, hphased⟩

/-- A report is put to the others, and its attempt may go off the roster. -/
theorem receive_eq (p : Pool) (seq : Nat) (outcome : AttemptOutcome) :
    ∃ roster reports, p.receive seq outcome = { p with roster, reports } ∧
      ∀ r ∈ reports, r ∈ p.reports ∨ (r.flight.seq = seq ∧ r.outcome = outcome) := by
  unfold receive
  split
  · rename_i flight hfind
    have hseq : flight.seq = seq := by simpa using List.find?_some hfind
    have hnew : ∀ r ∈ p.reports ++ [⟨flight, outcome⟩],
        r ∈ p.reports ∨ (r.flight.seq = seq ∧ r.outcome = outcome) := by
      intro r hr
      rcases List.mem_append.mp hr with hr | hr
      · exact Or.inl hr
      · rw [List.mem_singleton.mp hr]
        exact Or.inr ⟨hseq, rfl⟩
    split
    · exact ⟨_, _, rfl, fun r hr => Or.inl hr⟩
    · split
      · exact ⟨_, _, rfl, hnew⟩
      · exact ⟨_, _, rfl, hnew⟩
  · exact ⟨_, _, rfl, fun r hr => Or.inl hr⟩

theorem Sound.receive (h : Sound jobs p) (seq : Nat) (outcome : AttemptOutcome) :
    Sound jobs (p.receive seq outcome) := by
  have hflown := h.flown.receive seq outcome
  obtain ⟨roster, reports, he, _⟩ := p.receive_eq seq outcome
  rw [he] at hflown ⊢
  exact ⟨{ h.placed with }, hflown, { h.slotted with }, { h.phased with }⟩

theorem Sound.inFlight_nil_iff (h : Sound jobs p) : p.inFlight = [] ↔ p.running = [] ∧ p.preempted = [] := by
  have hlength := h.flown.places.length_eq
  simp only [List.length_map, List.length_append] at hlength
  rw [← List.length_eq_zero_iff, ← List.length_eq_zero_iff, ← List.length_eq_zero_iff]
  omega

/-- A pool that has ended has no attempts. -/
theorem Sound.not_isInFlight (h : Sound jobs p) (hp : p.phase = .ended) (seq : Nat) : p.isInFlight seq = false := by
  unfold isInFlight
  cases hf : p.fault with
  | some fault => rfl
  | none =>
      have hfinished := (h.phased.ended hp hf).1
      have hnone : p.inFlight = [] := by
        simp only [isFinished, Bool.and_eq_true, List.isEmpty_iff] at hfinished
        exact hfinished.2
      simp [hnone]

end PageAudit.Pool
