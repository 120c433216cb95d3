import PageAudit.Proofs.Pool.Places

/-!
# Slots

Running jobs hold slots of their own, which are marked with them, and no other slot is marked. There are never
more of them than attempts are allowed, and the number allowed stays within its bounds.
-/

namespace PageAudit.Pool

/-- The slots are those of the running jobs, and there are no more of them than allowed. -/
structure Slotted (p : Pool) : Prop where
  length : p.slots.length = p.concurrency.policy.maxConcurrency
  distinct : (p.running.map (·.slotId)).Nodup
  marked : ∀ e ∈ p.running, p.slots[e.slotId]? = some (some e.job.id)
  taken : p.slots.countP Option.isSome = p.running.length
  occupied : p.occupied = p.running.length
  within : p.occupied ≤ p.allowed
  least : p.concurrency.policy.minConcurrency ≤ p.allowed
  most : p.allowed ≤ p.concurrency.policy.maxConcurrency

variable {jobs hand : List Job} {p q : Pool}

/-! ## Marking and freeing slots -/

theorem countP_set_none {slots : List (Option String)} {i : Nat} {id : String}
    (h : slots[i]? = some (some id)) :
    (slots.set i none).countP Option.isSome + 1 = slots.countP Option.isSome := by
  obtain ⟨hi, hget⟩ := List.getElem?_eq_some_iff.mp h
  have hpos : 0 < slots.countP Option.isSome :=
    List.countP_pos_iff.mpr ⟨slots[i], List.getElem_mem hi, by simp [hget]⟩
  rw [List.countP_set hi, hget]
  simp only [Option.isSome_some, Option.isSome_none, Bool.false_eq_true, ↓reduceIte]
  omega

theorem countP_set_some {slots : List (Option String)} {i : Nat} (id : String) (h : slots[i]? = some none) :
    (slots.set i (some id)).countP Option.isSome = slots.countP Option.isSome + 1 := by
  obtain ⟨hi, hget⟩ := List.getElem?_eq_some_iff.mp h
  rw [List.countP_set hi, hget]
  simp

/-- The slots after those of some attempts were freed. -/
def freed (slots : List (Option String)) (es : List RunningJob) : List (Option String) :=
  es.foldl (fun slots e => slots.set e.slotId none) slots

theorem freed_length (slots : List (Option String)) (es : List RunningJob) :
    (freed slots es).length = slots.length := by
  induction es generalizing slots with
  | nil => rfl
  | cons e es ih => exact (ih _).trans (List.length_set ..)

theorem freed_getElem? {es : List RunningJob} {i : Nat} (slots : List (Option String))
    (h : i ∉ es.map (·.slotId)) : (freed slots es)[i]? = slots[i]? := by
  induction es generalizing slots with
  | nil => rfl
  | cons e es ih =>
      simp only [List.map_cons, List.mem_cons, not_or] at h
      exact (ih _ h.2).trans (List.getElem?_set_ne (fun he => h.1 he.symm))

theorem countP_freed {es : List RunningJob} (slots : List (Option String)) (h : (es.map (·.slotId)).Nodup)
    (hm : ∀ e ∈ es, slots[e.slotId]? = some (some e.job.id)) :
    (freed slots es).countP Option.isSome + es.length = slots.countP Option.isSome := by
  induction es generalizing slots with
  | nil => rfl
  | cons e es ih =>
      obtain ⟨hnot, hrest⟩ := List.nodup_cons.mp h
      have hkeep : ∀ x ∈ es, (slots.set e.slotId none)[x.slotId]? = some (some x.job.id) := by
        intro x hx
        rw [List.getElem?_set_ne]
        · exact hm x (List.mem_cons_of_mem _ hx)
        · exact fun he => hnot (List.mem_map.mpr ⟨x, hx, he.symm⟩)
      have hfree := countP_set_none (hm e List.mem_cons_self)
      have hmore := ih (slots.set e.slotId none) hrest hkeep
      have hdef : freed slots (e :: es) = freed (slots.set e.slotId none) es := rfl
      rw [hdef, List.length_cons]
      omega

/-! ## Every act -/

theorem Slotted.take {r : SlotReport} {held : Bool} {job : Job} (h : Slotted p) (hp : Placed jobs [] p)
    (ht : p.Taken r held job q) : Slotted q := by
  cases ht with
  | running first mem place =>
      rename_i e rest
      have hlen := (perm_cons_filter_key hp.running_nodup mem).length_eq
      rw [List.length_cons, place] at hlen
      have hfree := countP_set_none (h.marked e mem)
      have hocc := h.occupied
      have hin := h.within
      have htaken := h.taken
      refine { h with length := ?_, distinct := ?_, marked := ?_, taken := ?_, occupied := ?_, within := ?_ }
      · exact (List.length_set ..).trans h.length
      · exact h.distinct.sublist (List.Sublist.map _ List.filter_sublist)
      · intro x hx
        obtain ⟨hx, hne⟩ := List.mem_filter.mp hx
        have hother : e.slotId ≠ x.slotId := by
          intro he
          have := List.inj_on_of_nodup_map h.distinct mem hx he
          subst this
          simp [place] at hne
        exact (List.getElem?_set_ne hother).trans (h.marked x hx)
      · simp only [withoutRunning]
        omega
      · simp only [withoutRunning]
        omega
      · simp only [withoutRunning, Pool.allowed] at hin ⊢
        omega
  | preempted => exact { h with }

theorem Slotted.recordOutcome (h : Slotted p) (o : AttemptOutcome) : Slotted (p.recordOutcome o) := by
  obtain ⟨window, he⟩ := p.recordOutcome_eq o
  rw [he]
  exact { h with }

theorem Slotted.launched {job : Job} {rest : List Job} {slotId : Nat} (h : Slotted p)
    (free : p.slots.findIdx? Option.isNone = some slotId) (room : p.occupied < p.allowed) :
    Slotted (p.launched job rest slotId) := by
  have hfree : p.slots[slotId]? = some none := by
    obtain ⟨hi, hnone, _⟩ := List.findIdx?_eq_some_iff_getElem.mp free
    rw [List.getElem?_eq_getElem hi]
    exact congrArg some (Option.isNone_iff_eq_none.mp hnone)
  have hi : slotId < p.slots.length := (List.getElem?_eq_some_iff.mp hfree).1
  have hother : ∀ e ∈ p.running, e.slotId ≠ slotId := by
    intro e he heq
    have := h.marked e he
    rw [heq, hfree] at this
    simp at this
  refine { h with
    length := ?_, distinct := ?_, marked := ?_, taken := ?_, occupied := ?_, within := room }
  · exact (List.length_set ..).trans h.length
  · simp only [Pool.launched, List.map_append, List.map_cons, List.map_nil]
    refine List.nodup_append.mpr ⟨h.distinct, by simp, ?_⟩
    intro a ha b hb hab
    obtain ⟨e, he, rfl⟩ := List.mem_map.mp ha
    rw [List.mem_singleton.mp hb] at hab
    exact hother e he hab
  · intro e he
    rcases List.mem_append.mp he with he | he
    · exact (List.getElem?_set_ne (hother e he).symm).trans (h.marked e he)
    · rw [List.mem_singleton.mp he]
      exact List.getElem?_set_self hi
  · have := countP_set_some job.id hfree
    simp only [Pool.launched, List.length_append, List.length_cons, List.length_nil, this, h.taken]
  · simp [Pool.launched, h.occupied]

theorem Slotted.shrunk {target : Nat} {reason : ShrinkReason} {roster : List Nat} (h : Slotted p)
    (least : p.concurrency.policy.minConcurrency ≤ target) (less : target < p.allowed) :
    Slotted (p.shrunk target reason roster) := by
  have hsub : ∀ e ∈ p.victims target, e ∈ p.running :=
    fun e he => List.mem_of_mem_drop (List.mem_reverse.mp he)
  have hdistinct : ((p.victims target).map (·.slotId)).Nodup := by
    rw [victims, List.map_reverse, List.nodup_reverse]
    exact h.distinct.sublist (List.Sublist.map _ (List.drop_sublist _ _))
  refine {
    length := ?_, distinct := ?_, marked := ?_, taken := ?_, occupied := ?_, within := ?_, least := least
    most := Nat.le_trans (Nat.le_of_lt less) h.most }
  · exact (freed_length _ _).trans h.length
  · exact h.distinct.sublist (List.Sublist.map _ (List.take_sublist _ _))
  · intro e he
    refine (freed_getElem? _ fun hv => ?_).trans (h.marked e (List.mem_of_mem_take he))
    have hsplit := h.distinct
    rw [← List.take_append_drop target p.running, List.map_append] at hsplit
    rw [victims, List.map_reverse, List.mem_reverse] at hv
    exact List.disjoint_of_nodup_append hsplit (List.mem_map_of_mem he) hv
  · have := countP_freed p.slots hdistinct fun e he => h.marked e (hsub e he)
    have hlen : (p.victims target).length = p.running.length - target := by simp [victims]
    have htake : (p.running.take target).length = min target p.running.length := List.length_take
    have := h.taken
    show (freed p.slots (p.victims target)).countP Option.isSome = (p.running.take target).length
    omega
  · simp only [Pool.shrunk, List.length_take, h.occupied]
    omega
  · exact Nat.min_le_right _ _

theorem Slotted.grown {target : Nat} (h : Slotted p)
    (sum : target = min (p.allowed + p.concurrency.policy.growStep) p.concurrency.policy.maxConcurrency) :
    Slotted (p.grown target) := by
  have hin := h.within
  have hleast := h.least
  have hmost := h.most
  refine { h with within := ?_, least := ?_, most := ?_ }
  · show p.occupied ≤ target
    omega
  · show p.concurrency.policy.minConcurrency ≤ target
    omega
  · show target ≤ p.concurrency.policy.maxConcurrency
    omega

theorem Slotted.abandoned (h : Slotted p) : Slotted p.abandoned :=
  { h with
    length := (List.length_map _).trans h.length
    distinct := List.nodup_nil
    marked := fun _ he => absurd he List.not_mem_nil
    taken := by
      show (p.slots.map fun _ => none).countP Option.isSome = 0
      simp [List.countP_eq_zero]
    occupied := rfl
    within := Nat.zero_le _ }

/-- An act leaves the slots to the running jobs. -/
theorem Slotted.act (h : Slotted p) (hp : Placed jobs [] p) (hact : Act p q) : Slotted q := by
  cases hact with
  | note => exact { h with }
  | begin => exact { h with }
  | succeed _ taken => exact { (h.take hp taken).recordOutcome _ with }
  | giveUp _ taken => exact { (h.take hp taken).recordOutcome _ with }
  | postpone _ taken => exact { (h.take hp taken).recordOutcome _ with }
  | callOff _ _ taken => exact { (h.take hp taken).recordOutcome _ with }
  | requeue _ taken => exact { h.take hp taken with }
  | shrink _ _ least less => exact h.shrunk least less
  | grow _ _ _ sum => exact h.grown sum
  | breakDown | collapse => exact { h with }
  | drain => exact { h with }
  | force => exact { h with }
  | resume => exact { h with }
  | reap => exact { h with }
  | abandon => exact h.abandoned
  | promote => exact { h with }
  | launch _ _ _ free room => exact h.launched free room
  | publish => exact { h with }
  | close => exact { h with }

/-- A slot is free as long as an attempt more is allowed. -/
theorem Slotted.exists_free (h : Slotted p) (room : p.occupied < p.allowed) :
    ∃ slotId, p.slots.findIdx? Option.isNone = some slotId := by
  cases hf : p.slots.findIdx? Option.isNone with
  | some slotId => exact ⟨slotId, rfl⟩
  | none =>
      have hall := List.findIdx?_eq_none_iff.mp hf
      have hcount : p.slots.countP Option.isSome = p.slots.length := by
        refine List.countP_eq_length.mpr fun x hx => ?_
        have := hall x hx
        cases x <;> simp_all
      have := h.taken
      have := h.occupied
      have := h.length
      have := h.most
      omega

end PageAudit.Pool
