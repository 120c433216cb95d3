import PageAudit.Proofs.Pool.Places

/-!
# Phases

A pool breaks down only when the sum with its step leaves the words, or with its launcher while it releases all
browsers. It has deadlines and releases browsers by force only while it drains, it drains only after a cancellation, and
then no job waits any more.
-/

namespace PageAudit.Pool

/-- The phase of a pool fits its deadlines and what is left to be done. -/
structure Phased (p : Pool) : Prop where
  fault : p.fault = none ∨ p.phase = .ended ∧
    (p.fault = some .additionOverflow ∨ p.draining = true ∧ ∃ message, p.fault = some (.launcher message))
  drained : p.draining = true → p.ready = [] ∧ p.delayed = [] ∧ p.cancelled = true
  pressing : p.graceDeadline.isSome = true ∨ p.reapDeadline.isSome = true ∨ p.hardStopped = true →
    p.draining = true
  forcing : p.phase = .forcing → p.draining = true
  fresh : p.phase = .fresh → p.nextSeq = 0
  ended : p.phase = .ended → p.fault = none → p.isFinished = true ∧ p.report.finalConcurrency = p.allowed

variable {p q : Pool}

theorem Phased.no_fault (h : Phased p) (hp : p.phase ≠ .ended) : p.fault = none := by
  rcases h.fault with hf | ⟨hended, _⟩
  · exact hf
  · exact absurd hended hp

theorem Phased.busy_no_fault (h : Phased p) (busy : p.phase = .waiting) : p.fault = none :=
  h.no_fault (by simp [busy])

/-- A deadline is over only while the pool drains. -/
theorem Phased.draining_of_due (h : Phased p)
    (hd : p.graceDeadline.any (· ≤ p.clock) = true ∨ p.reapDeadline.any (· ≤ p.clock) = true) :
    p.draining = true := by
  refine h.pressing ?_
  rcases hd with hd | hd
  · exact Or.inl (by cases hg : p.graceDeadline <;> simp_all)
  · exact Or.inr (Or.inl (by cases hg : p.reapDeadline <;> simp_all))

theorem Phased.of_waiting (busy : p.phase = .waiting) (sound : p.fault = none)
    (drained : p.draining = true → p.ready = [] ∧ p.delayed = [] ∧ p.cancelled = true)
    (pressing : p.graceDeadline.isSome = true ∨ p.reapDeadline.isSome = true ∨ p.hardStopped = true →
      p.draining = true) : Phased p where
  fault := Or.inl sound
  drained := drained
  pressing := pressing
  forcing := by simp [busy]
  fresh := by simp [busy]
  ended := by simp [busy]

theorem Phased.take {r : SlotReport} {held : Bool} {job : Job} (h : Phased p) (busy : p.phase = .waiting)
    (ht : p.Taken r held job q) (o : AttemptOutcome) :
    Phased (q.recordOutcome o) ∧ (q.recordOutcome o).phase = .waiting ∧
      (q.recordOutcome o).draining = p.draining := by
  obtain ⟨_, _, _, _, _, _, _, he⟩ := ht.recordOutcome_eq o
  rw [he]
  exact ⟨of_waiting busy (h.busy_no_fault busy) h.drained h.pressing, busy, rfl⟩

theorem Phased.emit {r : Result} {reason : FinalizeReason} (h : Phased p) (busy : p.phase = .waiting) :
    Phased (p.emit r reason) :=
  of_waiting busy (h.busy_no_fault busy) h.drained h.pressing

theorem Phased.calledOff {js : List Job} {reason : String} (h : Phased p) (busy : p.phase = .waiting) :
    Phased (p.calledOff reason js) :=
  of_waiting busy (h.busy_no_fault busy) h.drained h.pressing

theorem Phased.postponed {j : Job} {delayMs : Nat} {classification : Classification} {e : AttemptError}
    (h : Phased p) (busy : p.phase = .waiting) (going : p.draining = false) :
    Phased (p.postponed j delayMs classification e) :=
  of_waiting busy (h.busy_no_fault busy) (fun hd => by simp [Pool.postponed, going] at hd) h.pressing

theorem Phased.promoted (h : Phased p) (busy : p.phase = .waiting) : Phased p.promoteDue := by
  refine of_waiting busy (h.busy_no_fault busy) (fun hd => ?_) h.pressing
  obtain ⟨hready, hdelayed, htold⟩ := h.drained hd
  simp [promoteDue, hready, hdelayed, htold]

/-- An act leaves the phase in keeping with the rest. -/
theorem Phased.act (h : Phased p) (hact : Act p q) : Phased q := by
  cases hact with
  | note => exact { h with }
  | begin fresh => exact of_waiting rfl (h.no_fault (by simp [fresh])) h.drained h.pressing
  | succeed busy taken =>
      obtain ⟨hq, hb, _⟩ := h.take busy taken _
      exact hq.emit hb
  | giveUp busy taken =>
      obtain ⟨hq, hb, _⟩ := h.take busy taken _
      exact hq.emit hb
  | postpone busy taken _ going =>
      obtain ⟨hq, hb, hd⟩ := h.take busy taken _
      exact hq.postponed hb (hd.trans going)
  | callOff _ busy taken =>
      obtain ⟨hq, hb, _⟩ := h.take busy taken _
      exact hq.calledOff hb
  | requeue busy taken _ going =>
      obtain ⟨hq, hb, hd⟩ : Phased _ ∧ _ ∧ _ := h.take busy taken .interrupted
      exact of_waiting hb (hq.busy_no_fault hb) (fun ht => Bool.noConfusion ((hd.trans going).symm.trans ht))
        hq.pressing
  | shrink _ busy => exact of_waiting busy (h.busy_no_fault busy) h.drained h.pressing
  | grow busy => exact of_waiting busy (h.busy_no_fault busy) h.drained h.pressing
  | breakDown busy =>
      exact { h with
        fault := Or.inr ⟨rfl, Or.inl rfl⟩
        forcing := fun hp => by cases hp
        fresh := fun hp => by cases hp
        ended := fun _ hf => by cases hf }
  | drain busy _ told =>
      exact of_waiting busy (h.busy_no_fault busy) (fun _ => ⟨rfl, rfl, told⟩) fun _ => rfl
  | force busy passed =>
      have hd := h.draining_of_due (Or.inl passed)
      exact { h with
        fault := Or.inl (h.busy_no_fault busy)
        pressing := fun _ => hd
        forcing := fun _ => hd
        fresh := fun hp => by cases hp
        ended := fun hp => by cases hp }
  | collapse message forcing =>
      exact { h with
        fault := Or.inr ⟨rfl, Or.inr ⟨h.forcing forcing, message, rfl⟩⟩
        forcing := fun hp => by cases hp
        fresh := fun hp => by cases hp
        ended := fun _ hf => by cases hf }
  | resume count forcing =>
      exact of_waiting rfl (h.no_fault (by simp [forcing])) h.drained fun _ => h.forcing forcing
  | reap busy passed =>
      exact of_waiting busy (h.busy_no_fault busy) h.drained fun _ => h.draining_of_due (Or.inr passed)
  | abandon busy passed =>
      exact of_waiting busy (h.busy_no_fault busy) h.drained fun _ => h.draining_of_due (Or.inr passed)
  | promote busy => exact h.promoted busy
  | launch busy going =>
      exact of_waiting busy (h.busy_no_fault busy) (fun hd => by simp [Pool.launched, going] at hd) h.pressing
  | publish busy => exact of_waiting busy (h.busy_no_fault busy) h.drained h.pressing
  | close busy finished =>
      exact { h with
        fault := Or.inl (h.busy_no_fault busy)
        forcing := fun hp => by cases hp
        fresh := fun hp => by cases hp
        ended := fun _ _ => ⟨finished, rfl⟩ }

theorem Phased.news (h : Phased p) (hnews : News p q) : Phased q := by
  cases hnews with
  | elapse => exact { h with }
  | cancel => exact { h with drained := fun hd => ⟨(h.drained hd).1, (h.drained hd).2.1, rfl⟩ }
  | pressure => exact { h with }
  | firstPressure => exact { h with }
  | closed => exact { h with }

end PageAudit.Pool
