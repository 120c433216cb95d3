import PageAudit.Proofs.Pool.Waiting

/-!
# Who is started

Before a pool waits it makes those jobs ready whose delay is over, and no others, and starts the first of the ready
jobs in plan order, each in a slot that was free. It leaves jobs ready only when as many attempts run as are allowed.
-/

namespace PageAudit

/-! ## Jobs whose delay is over -/

/-- Takes the entry at a position out of a list; the last entry takes its place. -/
def swapOut (ds : List DelayedJob) (i : Nat) : List DelayedJob :=
  match ds.getLast? with
  | none => []
  | some last => (ds.set i last).dropLast

theorem swapOut_length {ds : List DelayedJob} {i : Nat} (h : i < ds.length) :
    (swapOut ds i).length = ds.length - 1 := by
  have hne : ds ≠ [] := List.ne_nil_of_length_pos (Nat.zero_lt_of_lt h)
  simp [swapOut, List.getLast?_eq_some_getLast hne]

/-- Looks through delayed jobs from a position on. One that is due becomes ready, and the last one, which takes its
place, is looked at next. -/
def promoteFrom (now i : Nat) (ds : List DelayedJob) (ready : List Job) : List DelayedJob × List Job :=
  if h : i < ds.length then
    if ds[i].due ≤ now then promoteFrom now i (swapOut ds i) (insertByPlan ds[i].job ready)
    else promoteFrom now (i + 1) ds ready
  else (ds, ready)
termination_by ds.length - i
decreasing_by
  · rw [swapOut_length h]
    omega
  · omega

/-- What is taken out by swapping is the entry at the position, and nothing before it is moved. -/
theorem swapOut_append (as bs : List DelayedJob) (d : DelayedJob) :
    (as ++ d :: bs).Perm (d :: swapOut (as ++ d :: bs) as.length) ∧ as <+: swapOut (as ++ d :: bs) as.length := by
  rcases List.eq_nil_or_concat bs with rfl | ⟨bs, last, rfl⟩
  · have hout : swapOut (as ++ [d]) as.length = as := by simp [swapOut]
    rw [hout]
    exact ⟨List.perm_append_singleton d as, List.prefix_rfl⟩
  · have hsplit : as ++ d :: bs.concat last = as ++ d :: bs ++ [last] := by simp
    have hout : swapOut (as ++ d :: bs ++ [last]) as.length = as ++ last :: bs := by
      rw [swapOut, List.getLast?_concat]
      dsimp only
      rw [List.set_append_left _ _ (by simp), List.dropLast_concat, List.set_append_right _ _ (Nat.le_refl _)]
      simp
    rw [hsplit, hout, List.append_assoc, List.cons_append]
    refine ⟨List.perm_middle.trans (List.Perm.cons d ?_), List.prefix_append _ _⟩
    exact (List.perm_append_singleton last bs).append_left as

/-- The scan makes those jobs ready that are due, in some order, and leaves those that are not. -/
theorem exists_promoteFrom (now i : Nat) (ds : List DelayedJob) (ready : List Job)
    (hbefore : ∀ d ∈ ds.take i, now < d.due) : ∃ moved : List DelayedJob,
    (moved ++ (promoteFrom now i ds ready).1).Perm ds ∧
      (promoteFrom now i ds ready).2 = insertAllByPlan (moved.map (·.job)) ready ∧
      (∀ d ∈ moved, d.due ≤ now) ∧ ∀ d ∈ (promoteFrom now i ds ready).1, now < d.due := by
  fun_induction promoteFrom now i ds ready with
  | case1 i ds ready hlt hdue ih =>
      have hsplit : ds = ds.take i ++ ds[i] :: ds.drop (i + 1) := by simp
      have hout := swapOut_append (ds.take i) (ds.drop (i + 1)) ds[i]
      rw [← hsplit, List.length_take_of_le (Nat.le_of_lt hlt)] at hout
      obtain ⟨hperm, hkept⟩ := hout
      have hbefore' : ∀ d ∈ (swapOut ds i).take i, now < d.due := by
        have htake := List.prefix_iff_eq_take.mp hkept
        rw [List.length_take_of_le (Nat.le_of_lt hlt)] at htake
        rwa [← htake]
      obtain ⟨moved, hmoved, hready, hdues, hrest⟩ := ih hbefore'
      refine ⟨ds[i] :: moved, (hmoved.cons _).trans hperm.symm, hready, ?_, hrest⟩
      exact List.forall_mem_cons.mpr ⟨hdue, hdues⟩
  | case2 i ds ready hlt hlate ih =>
      refine ih fun d hd => ?_
      rw [List.take_add_one, List.getElem?_eq_getElem hlt] at hd
      rcases List.mem_append.mp hd with hd | hd
      · exact hbefore d hd
      · rw [List.mem_singleton.mp hd]
        exact Nat.not_le.mp hlate
  | case3 i ds ready hend =>
      refine ⟨[], List.Perm.refl _, rfl, fun d hd => absurd hd List.not_mem_nil, fun d hd => hbefore d ?_⟩
      rwa [List.take_of_length_le (Nat.not_lt.mp hend)]

theorem InPlanOrder.eq_of_perm {as bs : List Job} (ha : InPlanOrder as) (hb : InPlanOrder bs) (h : as.Perm bs) :
    as = bs :=
  h.eq_of_pairwise (fun _ _ _ _ hab hba => absurd hab (Nat.not_lt.mpr (Nat.le_of_lt hba))) ha hb

namespace Pool

variable {jobs hand : List Job} {p q s : Pool}

/-- In whatever order the scan comes upon the jobs, the same ones become ready, in the same order. -/
theorem Placed.promoteFrom_eq (h : Placed jobs hand p) :
    (promoteFrom p.clock 0 p.delayed p.ready).2 = p.promoteDue.ready ∧
      (promoteFrom p.clock 0 p.delayed p.ready).1.Perm p.promoteDue.delayed := by
  obtain ⟨moved, hperm, hready, hdue, hrest⟩ :=
    exists_promoteFrom p.clock 0 p.delayed p.ready (by simp)
  generalize promoteFrom p.clock 0 p.delayed p.ready = out at hperm hready hrest ⊢
  have hmoved : moved.Perm (p.delayed.filter (·.due ≤ p.clock)) := by
    have hfilter := hperm.filter (·.due ≤ p.clock)
    rwa [List.filter_append, List.filter_eq_self.mpr (by simpa using hdue),
      List.filter_eq_nil_iff.mpr (by simpa using hrest), List.append_nil] at hfilter
  have hstay : out.1.Perm (p.delayed.filter (p.clock < ·.due)) := by
    have hfilter := hperm.filter (p.clock < ·.due)
    rwa [List.filter_append, List.filter_eq_nil_iff.mpr (by simpa using hdue),
      List.filter_eq_self.mpr (by simpa using hrest), List.nil_append] at hfilter
  refine ⟨?_, hstay⟩
  have hjobs := (hmoved.map (·.job)).append_right p.ready
  have hnodup := (hjobs.map (·.planIndex)).nodup_iff.mpr h.due_nodup
  rw [hready, promoteDue_ready]
  refine InPlanOrder.eq_of_perm h.order.insertAll h.order.insertAll ?_
  exact ((insertAllByPlan_perm hnodup).trans hjobs).trans (insertAllByPlan_perm h.due_nodup).symm

/-! ## Starting attempts -/

/-- Ready jobs were started one after the other, each in the slot that is given with it. -/
structure Starts (p : Pool) (started : List (Job × Nat)) (q : Pool) : Prop where
  ready : p.ready = started.map (·.1) ++ q.ready
  distinct : (started.map (·.2)).Nodup
  free : ∀ x ∈ started, p.slots[x.2]? = some none
  marked : ∀ x ∈ started, q.slots[x.2]? = some (some x.1.id)
  others : ∀ i, i ∉ started.map (·.2) → q.slots[i]? = p.slots[i]?
  running : q.running.map (·.job) = p.running.map (·.job) ++ started.map fun x => x.1.begun p.clock
  contexts : q.started = p.started ++ started.map fun x => ⟨x.1.id, x.1.url, x.1.planIndex, x.1.attempt + 1, x.2⟩
  occupied : q.occupied = p.occupied + started.length
  allowed : q.allowed = p.allowed
  delayed : q.delayed = p.delayed

theorem Starts.nil (p : Pool) : Starts p [] p where
  ready := rfl
  distinct := List.nodup_nil
  free := fun _ hx => absurd hx List.not_mem_nil
  marked := fun _ hx => absurd hx List.not_mem_nil
  others := fun _ _ => rfl
  running := (List.append_nil _).symm
  contexts := (List.append_nil _).symm
  occupied := rfl
  allowed := rfl
  delayed := rfl

/-- The first of the ready jobs is started before the others. -/
theorem Starts.cons {job : Job} {rest : List Job} {slotId : Nat} {started : List (Job × Nat)}
    (first : p.ready = job :: rest) (free : p.slots[slotId]? = some none)
    (h : Starts (p.launched job rest slotId) started q) : Starts p ((job, slotId) :: started) q := by
  have hlt := (List.getElem?_eq_some_iff.mp free).1
  have hmark : (p.launched job rest slotId).slots[slotId]? = some (some job.id) := List.getElem?_set_self hlt
  have hnew : slotId ∉ started.map (·.2) := fun hmem => by
    obtain ⟨x, hx, hslot⟩ := List.mem_map.mp hmem
    have := (hslot ▸ h.free x hx).symm.trans hmark
    simp at this
  have hkeep : ∀ i, i ≠ slotId → (p.launched job rest slotId).slots[i]? = p.slots[i]? := fun i hi =>
    List.getElem?_set_ne (Ne.symm hi)
  refine {
    ready := first.trans (congrArg (job :: ·) h.ready)
    distinct := List.nodup_cons.mpr ⟨hnew, h.distinct⟩
    free := List.forall_mem_cons.mpr ⟨free, fun x hx => ?_⟩
    marked := List.forall_mem_cons.mpr ⟨(h.others slotId hnew).trans hmark, h.marked⟩
    others := fun i hi => ?_
    running := ?_, contexts := ?_, occupied := ?_, allowed := h.allowed, delayed := h.delayed }
  · rw [← hkeep x.2 fun he => hnew (he ▸ List.mem_map_of_mem hx)]
    exact h.free x hx
  · rw [List.map_cons, List.mem_cons, not_or] at hi
    exact (h.others i hi.2).trans (hkeep i hi.1)
  · rw [h.running]
    simp [Pool.launched]
  · rw [h.contexts]
    simp [Pool.launched]
  · rw [h.occupied, List.length_cons, show (p.launched job rest slotId).occupied = p.occupied + 1 from rfl]
    omega

theorem getElem?_of_findIdx? {slots : List (Option String)} {slotId : Nat}
    (h : slots.findIdx? Option.isNone = some slotId) : slots[slotId]? = some none := by
  obtain ⟨hi, hnone, _⟩ := List.findIdx?_eq_some_iff_getElem.mp h
  rw [List.getElem?_eq_getElem hi]
  exact congrArg some (Option.isNone_iff_eq_none.mp hnone)

theorem Sound.exists_starts {ready : List Job} (h : Sound jobs p) (busy : p.phase = .waiting)
    (going : p.draining = false) (hready : p.ready = ready) : ∃ started, Starts p started (Pool.dispatch ready p) := by
  induction ready generalizing p with
  | nil =>
      have hsame : Pool.dispatch [] p = p := by
        show { p with ready := [] } = p
        rw [← hready]
      exact ⟨[], hsame.symm ▸ .nil p⟩
  | cons job rest ih =>
      have hsame : { p with ready := job :: rest } = p := by rw [← hready]
      unfold Pool.dispatch
      cases hfree : p.slots.findIdx? Option.isNone with
      | none => exact ⟨[], hsame.symm ▸ .nil p⟩
      | some slotId =>
          dsimp only
          by_cases room : p.occupied < p.allowed
          · have hsound := h.act (.launch busy going hready hfree room)
            obtain ⟨started, hstarts⟩ := ih hsound busy going rfl
            rw [if_pos room, launch_eq (h.placed.ready job (hready ▸ List.mem_cons_self)) room, andThen,
              hsound.phased.busy_no_fault busy]
            exact ⟨_, hstarts.cons hready (getElem?_of_findIdx? hfree)⟩
          · rw [if_neg room]
            exact ⟨[], hsame.symm ▸ .nil p⟩

/-! ## Before the pool waits -/

/-- What a pool that does not drain does before it waits. -/
structure Refills (p q : Pool) : Prop where
  /-- Just the jobs whose delay is over become ready, whatever the order in which a scan comes upon them. -/
  due : p.promoteDue.ready.Perm ((p.delayed.filter (·.due ≤ p.clock)).map (·.job) ++ p.ready)
  late : q.delayed = p.delayed.filter (p.clock < ·.due)
  scanned : (promoteFrom p.clock 0 p.delayed p.ready).2 = p.promoteDue.ready ∧
    (promoteFrom p.clock 0 p.delayed p.ready).1.Perm q.delayed
  /-- Those of them are started that come first in the plan. -/
  started : ∃ started, Starts p.promoteDue started q ∧ ∀ x ∈ started, ∀ j ∈ q.ready, x.1.planIndex < j.planIndex
  full : q.ready = [] ∨ q.occupied = q.allowed

theorem Sound.refills (h : Sound jobs p) (busy : p.phase = .waiting) (going : p.draining = false) :
    Refills p (Pool.dispatch p.promoteDue.ready p.promoteDue) := by
  have hs := h.act (.promote busy)
  obtain ⟨started, hstarts⟩ := hs.exists_starts busy going rfl
  have hscan := h.placed.promoteFrom_eq
  have horder := hs.placed.order
  rw [hstarts.ready] at horder
  refine {
    due := p.promoteDue_ready ▸ insertAllByPlan_perm h.placed.due_nodup
    late := hstarts.delayed
    scanned := ⟨hscan.1, hstarts.delayed ▸ hscan.2⟩
    started := ⟨started, hstarts, fun x hx j hj => ?_⟩
    full := or_iff_not_imp_left.mpr (hs.dispatch_full busy going rfl) }
  exact (List.pairwise_append.mp horder).2.2 x.1 (List.mem_map_of_mem hx) j hj

theorem Refills.shown (h : Refills p q) : Refills p (if q.publish.isFinished then q.publish.close else q.publish) := by
  obtain ⟨started, hstarts, horder⟩ := h.started
  split
  · exact { h with started := ⟨started, { hstarts with }, horder⟩ }
  · exact { h with started := ⟨started, { hstarts with }, horder⟩ }

theorem Sound.prepare_refills (h : Sound jobs p) (busy : p.phase = .waiting) (going : p.draining = false)
    (untold : p.cancelled = false) : Refills p p.prepare := by
  have hs := h.act (.promote busy)
  have hgoing : p.promoteDue.draining = false := going
  obtain ⟨hacts, hphase⟩ := hs.dispatch busy going rfl
  unfold Pool.prepare
  rw [going, untold]
  simp only [Bool.and_false, Bool.false_eq_true, ↓reduceIte, andThen, h.phased.busy_no_fault busy, Option.isSome_none,
    hgoing, (hs.acts hacts).phased.busy_no_fault hphase]
  exact (h.refills busy going).shown

variable {policy : PoolPolicy} {retry : RetryPolicy} {gracePeriod clock : Nat} {draws : Nat → Nat → Nat}
  {pressure : MemoryPressure} {start : Pool}

/-- A pool that does not drain makes just those jobs ready whose delay is over, and starts the first of the ready jobs
in free slots until none is left or as many attempts run as are allowed. -/
theorem slots_refilled (hsubmit : submit? policy retry gracePeriod draws pressure clock jobs = some start)
    (hjobs : Submittable jobs) (hmoves : Moves start p) (busy : p.phase = .waiting) (going : p.draining = false) :
    Refills p (Pool.dispatch p.promoteDue.ready p.promoteDue) ∧ (p.cancelled = false → Refills p p.prepare) := by
  have h := (Sound.submit hsubmit hjobs).moves hmoves
  exact ⟨h.refills busy going, h.prepare_refills busy going⟩

/-- A pool that runs the two pages at once whatever happens. -/
def steadyPool : Pool where
  retry := {}
  gracePeriod := 0
  draws := fun _ _ => 0
  concurrency := ⟨{ maxConcurrency := 2, minConcurrency := 2 }, 2, .ofSize 10⟩
  clock := 0
  slots := [none, none]
  ready := twoPages
  pressure := {}
  report := { minObservedConcurrency := 2, maxObservedConcurrency := 2 }

theorem submit?_steadyPool : submit? { maxConcurrency := 2, minConcurrency := 2 } {} 0 (fun _ _ => 0) {} 0 twoPages =
    some steadyPool := rfl

/-- The first attempt ran out of resources, and time passed up to the instant given. -/
def repeatsUntil (now : Nat) : List PoolInput :=
  [.turn, .report 1 (.failed (.audit (.resourceExhausted ""))), .turn, .elapse now]

/-- When its delay is over, the job of the first attempt is started again, in the slot that is free. -/
theorem steadyPool_refilled :
    let p := steadyPool.after (repeatsUntil 1000)
    Moves steadyPool p ∧ p.phase = .waiting ∧ p.draining = false ∧ p.cancelled = false ∧
      p.delayed.map (·.due) = [1000] ∧ Refills p p.prepare ∧ p.prepare.running.map (·.slotId) = [1, 0] := by
  have hmoves := (Sound.submit submit?_steadyPool twoPages_submittable).after_moves (repeatsUntil 1000)
  have hrefilled := slots_refilled submit?_steadyPool twoPages_submittable hmoves rfl rfl
  exact ⟨hmoves, rfl, rfl, rfl, rfl, hrefilled.2 rfl, rfl⟩

end Pool

end PageAudit
