import Mathlib.Algebra.BigOperators.Group.List.Basic
import Mathlib.Algebra.GroupWithZero.Nat
import PageAudit.Proofs.Pool.Attempts

/-!
# Weights

Jobs are weighed by where they stand, to account for work that moves with them from place to place. What an act
does to the whole weight follows from the jobs that it moves.
-/

namespace PageAudit

/-- What jobs weigh, by where they stand, and what an attempt weighs for having lost its slot. -/
structure Weights where
  waiting : Job → Nat
  running : Job → Nat
  preempted : Job → Nat
  ended : Result → Nat
  lost : Nat

namespace Pool

/-- What all jobs and lost slots weigh together. -/
def weight (w : Weights) (p : Pool) : Nat :=
  (p.ready.map w.waiting).sum + (p.delayed.map (w.waiting ·.job)).sum + (p.running.map (w.running ·.job)).sum +
    (p.preempted.map w.preempted).sum + (p.results.map (w.ended ·.2)).sum + w.lost * p.stopped.length

variable {jobs : List Job} {p q : Pool} (w : Weights)

theorem weight_recordOutcome (p : Pool) (o : AttemptOutcome) : (p.recordOutcome o).weight w = p.weight w := by
  obtain ⟨window, he⟩ := p.recordOutcome_eq o
  rw [he]
  rfl

theorem Placed.weight_take {r : SlotReport} {held : Bool} {job : Job} (h : Placed jobs [] p)
    (ht : p.Taken r held job q) :
    q.weight w + (if held then w.running job else w.preempted job) = p.weight w := by
  cases ht with
  | running first mem place =>
      have hsum := ((perm_cons_filter_key h.running_nodup mem).map (w.running ·.job)).sum_eq
      rw [place, List.map_cons, List.sum_cons] at hsum
      simp only [weight, withoutRunning, ↓reduceIte]
      omega
  | preempted first mem place =>
      have hsum := ((perm_cons_filter_key h.preempted_nodup mem).map w.preempted).sum_eq
      rw [place, List.map_cons, List.sum_cons] at hsum
      simp only [weight, withoutPreempted, Bool.false_eq_true, ↓reduceIte]
      omega

theorem weight_emit (p : Pool) (r : Result) (reason : FinalizeReason) :
    (p.emit r reason).weight w = p.weight w + w.ended r := by
  simp only [weight, emit, notify, List.map_append, List.map_cons, List.map_nil, List.sum_append, List.sum_cons,
    List.sum_nil]
  omega

theorem weight_calledOff (p : Pool) (reason : String) (js : List Job) :
    (p.calledOff reason js).weight w =
      p.weight w + (js.map fun j => w.ended (.cancelled (j.enter .cancelled) p.clock reason)).sum := by
  simp only [weight, calledOff, List.map_append, List.map_map, Function.comp_def, List.sum_append]
  omega

theorem weight_postponed (p : Pool) (j : Job) (delayMs : Nat) (classification : Classification) (e : AttemptError) :
    (p.postponed j delayMs classification e).weight w = p.weight w + w.waiting (j.enter .awaitingRetry) := by
  simp only [weight, postponed, List.map_append, List.map_cons, List.map_nil, List.sum_append, List.sum_cons,
    List.sum_nil]
  omega

theorem Placed.weight_requeued {j : Job} (h : Placed jobs [j] p) :
    { p with ready := insertByPlan j.yielded p.ready }.weight w = p.weight w + w.waiting j.yielded := by
  have hsum := ((insertByPlan_perm (j := j.yielded) h.hand_not_ready).map w.waiting).sum_eq
  rw [List.map_cons, List.sum_cons] at hsum
  simp only [weight]
  omega

theorem weight_launched {job : Job} {rest : List Job} (slotId : Nat) (first : p.ready = job :: rest) :
    (p.launched job rest slotId).weight w + w.waiting job = p.weight w + w.running (job.begun p.clock) := by
  simp only [weight, launched, first, List.map_append, List.map_cons, List.map_nil, List.sum_append, List.sum_cons,
    List.sum_nil]
  omega

theorem Placed.weight_promoted (h : Placed jobs [] p) : p.promoteDue.weight w = p.weight w := by
  have hready := ((insertAllByPlan_perm h.due_nodup).map w.waiting).sum_eq
  have hdelayed := (p.delayed_split.map (w.waiting ·.job)).sum_eq
  have hd : p.promoteDue.delayed = p.delayed.filter (p.clock < ·.due) := rfl
  have hrest : p.promoteDue.running = p.running ∧ p.promoteDue.preempted = p.preempted ∧
      p.promoteDue.results = p.results ∧ p.promoteDue.stopped = p.stopped := ⟨rfl, rfl, rfl, rfl⟩
  simp only [List.map_append, List.sum_append, List.map_map, Function.comp_def] at hready hdelayed
  simp only [weight, promoteDue_ready, hd, hrest]
  omega

theorem weight_shrunk (p : Pool) (target : Nat) (reason : ShrinkReason) (roster : List Nat) :
    (p.shrunk target reason roster).weight w + ((p.victims target).map (w.running ·.job)).sum =
      p.weight w + ((p.victims target).map (w.preempted ·.job)).sum + w.lost * (p.victims target).length := by
  have hsum := ((p.victims_perm target).map (w.running ·.job)).sum_eq
  simp only [List.map_append, List.sum_append] at hsum
  simp only [weight, shrunk, List.map_append, List.sum_append, List.map_map, Function.comp_def, List.length_append,
    List.length_map, Nat.mul_add]
  omega

theorem weight_drained (p : Pool) :
    p.drained.weight w + ((p.ready ++ p.delayed.map (·.job)).map w.waiting).sum = p.weight w +
      ((p.ready ++ p.delayed.map (·.job)).map fun j =>
        w.ended (.cancelled (j.enter .cancelled) p.clock "运行已取消")).sum := by
  have hsum := ((sortByPlan_perm (p.ready ++ p.delayed.map (·.job))).map fun j =>
    w.ended (.cancelled (j.enter .cancelled) p.clock "运行已取消")).sum_eq
  rw [drained, weight_calledOff, hsum]
  simp only [weight, List.map_append, List.sum_append, List.map_map, Function.comp_def, List.map_nil, List.sum_nil]
  omega

theorem weight_abandoned (p : Pool) :
    p.abandoned.weight w + ((p.running.map (w.running ·.job)).sum + (p.preempted.map w.preempted).sum) =
      p.weight w + ((p.running.map (·.job) ++ p.preempted).map fun j =>
        w.ended (.cancelled (j.enter .cancelled) p.clock "执行被强制中止")).sum := by
  have hsum := ((sortByPlan_perm (p.running.map (·.job) ++ p.preempted)).map fun j =>
    w.ended (.cancelled (j.enter .cancelled) p.clock "执行被强制中止")).sum_eq
  rw [abandoned, weight_calledOff, hsum]
  simp only [weight, List.map_append, List.sum_append, List.map_map, Function.comp_def, List.map_nil, List.sum_nil]
  omega

end Pool

/-! ## Fair weights -/

/-- A move lowers no job's weight, as long as no job goes beyond `limit` attempts. -/
structure Weights.Fair (w : Weights) (limit : Nat) : Prop where
  begins : ∀ j now, w.waiting j ≤ w.running (j.begun now)
  waits : ∀ j, w.running j ≤ w.waiting (j.enter .awaitingRetry) ∧
    w.preempted j ≤ w.waiting (j.enter .awaitingRetry)
  yields : ∀ j, w.preempted j ≤ w.waiting j.yielded
  loses : ∀ j, w.running j ≤ w.preempted j + w.lost
  ends : ∀ j r, r.attemptsUsed = j.attempt → j.attempt ≤ limit →
    w.running j ≤ w.ended r ∧ w.preempted j ≤ w.ended r
  drops : ∀ j r, r.attemptsUsed = j.attempt → j.attempt < limit → w.waiting j ≤ w.ended r

namespace Pool

variable {jobs : List Job} {p q : Pool} {w : Weights}

theorem sum_map_le {α : Type} {l : List α} {f g : α → Nat} (h : ∀ a ∈ l, f a ≤ g a) :
    (l.map f).sum ≤ (l.map g).sum := by
  induction l with
  | nil => exact Nat.le_refl _
  | cons a l ih =>
      have hhead := h a List.mem_cons_self
      have htail := ih fun b hb => h b (List.mem_cons_of_mem _ hb)
      simp only [List.map_cons, List.sum_cons]
      omega

theorem sum_map_add_const {α : Type} (l : List α) (f : α → Nat) (c : Nat) :
    (l.map fun a => f a + c).sum = (l.map f).sum + c * l.length := by
  induction l with
  | nil => rfl
  | cons a l ih =>
      simp only [List.map_cons, List.sum_cons, ih, List.length_cons, Nat.mul_add]
      omega

theorem Sound.weight_taken {r : SlotReport} {held : Bool} {job : Job} (h : Sound jobs p)
    (ht : p.Taken r held job q) (o : AttemptOutcome) {weight : Nat}
    (hrunning : w.running job ≤ weight) (hpreempted : w.preempted job ≤ weight) :
    p.weight w ≤ (q.recordOutcome o).weight w + weight := by
  have htake := h.placed.weight_take w ht
  rw [weight_recordOutcome]
  cases held with
  | true =>
      simp only [↓reduceIte] at htake
      omega
  | false =>
      simp only [Bool.false_eq_true, ↓reduceIte] at htake
      omega

theorem weight_le_drained (hw : w.Fair p.retry.maxAttempts) (h : Attempted p) :
    p.weight w ≤ p.drained.weight w := by
  have hsum := p.weight_drained w
  have hle : ((p.ready ++ p.delayed.map (·.job)).map w.waiting).sum ≤
      ((p.ready ++ p.delayed.map (·.job)).map fun j =>
        w.ended (.cancelled (j.enter .cancelled) p.clock "运行已取消")).sum := by
    refine sum_map_le fun j hj => hw.drops j _ rfl ?_
    rcases List.mem_append.mp hj with hj | hj
    · exact h.ready j hj
    · obtain ⟨d, hd, rfl⟩ := List.mem_map.mp hj
      exact h.delayed d hd
  omega

theorem weight_le_abandoned (hw : w.Fair p.retry.maxAttempts) (h : Attempted p) :
    p.weight w ≤ p.abandoned.weight w := by
  have hsum := p.weight_abandoned w
  have hrunning : (p.running.map (w.running ·.job)).sum ≤ (p.running.map fun e =>
      w.ended (.cancelled (e.job.enter .cancelled) p.clock "执行被强制中止")).sum :=
    sum_map_le fun e he => (hw.ends e.job _ rfl (h.running e he)).1
  have hpreempted : (p.preempted.map w.preempted).sum ≤ (p.preempted.map fun j =>
      w.ended (.cancelled (j.enter .cancelled) p.clock "执行被强制中止")).sum :=
    sum_map_le fun j hj => (hw.ends j _ rfl (h.preempted j hj)).2
  simp only [List.map_append, List.map_map, List.sum_append, Function.comp_def] at hsum
  omega

theorem weight_le_shrunk {limit : Nat} (hw : w.Fair limit) (target : Nat) (reason : ShrinkReason)
    (roster : List Nat) : p.weight w ≤ (p.shrunk target reason roster).weight w := by
  have hsum := p.weight_shrunk w target reason roster
  have hle : ((p.victims target).map (w.running ·.job)).sum ≤
      ((p.victims target).map fun e => w.preempted e.job + w.lost).sum :=
    sum_map_le fun e _ => hw.loses e.job
  rw [sum_map_add_const] at hle
  omega

theorem weight_le_emit {r : SlotReport} {held : Bool} {job : Job} {x : Result} {reason : FinalizeReason}
    (hw : w.Fair p.retry.maxAttempts) (hs : Sound jobs p) (h : Attempted p) (ht : p.Taken r held job q)
    (o : AttemptOutcome) (hx : x.attemptsUsed = job.attempt) :
    p.weight w ≤ ((q.recordOutcome o).emit x reason).weight w := by
  obtain ⟨hrunning, hpreempted⟩ := hw.ends job x hx (h.taken_le ht)
  rw [weight_emit]
  exact hs.weight_taken ht o hrunning hpreempted

theorem weight_le_calledOff {r : SlotReport} {held : Bool} {job : Job} {reason : String}
    (hw : w.Fair p.retry.maxAttempts) (hs : Sound jobs p) (h : Attempted p) (ht : p.Taken r held job q)
    (o : AttemptOutcome) : p.weight w ≤ ((q.recordOutcome o).calledOff reason [job]).weight w := by
  obtain ⟨hrunning, hpreempted⟩ := hw.ends job
    (.cancelled (job.enter .cancelled) (q.recordOutcome o).clock reason) rfl (h.taken_le ht)
  rw [weight_calledOff, List.map_singleton, List.sum_singleton]
  exact hs.weight_taken ht o hrunning hpreempted

theorem weight_le_requeued {r : SlotReport} {job : Job} {limit : Nat} (hw : w.Fair limit) (hs : Sound jobs p)
    (ht : p.Taken r false job q) : p.weight w ≤ { q with ready := insertByPlan job.yielded q.ready }.weight w := by
  have htake := hs.placed.weight_take w ht
  have hyields := hw.yields job
  simp only [Bool.false_eq_true, ↓reduceIte] at htake
  rw [(hs.placed.take ht).1.weight_requeued]
  omega

theorem weight_le_launched {job : Job} {rest : List Job} {limit : Nat} (hw : w.Fair limit) (slotId : Nat)
    (first : p.ready = job :: rest) : p.weight w ≤ (p.launched job rest slotId).weight w := by
  have hlaunch := weight_launched w slotId first
  have hbegins := hw.begins job p.clock
  omega

/-- No act lowers a fair weight. -/
theorem Act.weight_le (hact : Act p q) (hw : w.Fair p.retry.maxAttempts) (hs : Sound jobs p) (h : Attempted p) :
    p.weight w ≤ q.weight w := by
  cases hact with
  | succeed _ taken | giveUp _ taken => exact weight_le_emit hw hs h taken _ rfl
  | postpone _ taken =>
      rw [weight_postponed]
      exact hs.weight_taken taken _ (hw.waits _).1 (hw.waits _).2
  | callOff _ _ taken => exact weight_le_calledOff hw hs h taken _
  | requeue _ taken => exact weight_le_requeued hw hs taken
  | shrink => exact weight_le_shrunk hw ..
  | drain => exact weight_le_drained hw h
  | abandon => exact weight_le_abandoned hw h
  | promote => exact Nat.le_of_eq (hs.placed.weight_promoted w).symm
  | launch _ _ first => exact weight_le_launched hw _ first
  | _ => exact Nat.le_refl _

end Pool

end PageAudit
