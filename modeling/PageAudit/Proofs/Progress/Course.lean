import PageAudit.Progress.Event

/-!
# The course of a job

The events of a job tell how far it has come: it is queued, its attempts begin and are repeated, and it ends once. An
attempt that was taken back begins again under the same number.
-/

namespace PageAudit

/-- The events of a job in a timed list of events. -/
def eventsOf (id : String) (events : List (Nat × ProgressEvent)) : List ProgressEvent :=
  (events.map (·.2)).filter fun e => e.jobId? == some id

/-- How far a job has come, as its events tell. -/
inductive JobCourse where
  | unknown
  /-- It waits for the attempt that comes after those it has used. -/
  | waiting (used : Nat)
  /-- The attempt after those it has used has begun; it may have been taken back since. -/
  | begun (used : Nat)
  | ended
  deriving DecidableEq, Repr

namespace JobCourse

/-- What an event makes of a course of at most `limit` attempts; none if it does not fit. -/
def next? (limit : Nat) : JobCourse → ProgressEvent → Option JobCourse
  | .unknown, .queued .. => some (.waiting 0)
  | .waiting used, .started _ attempt _ | .begun used, .started _ attempt _ =>
    if attempt = used + 1 ∧ attempt ≤ limit then some (.begun used) else none
  | .waiting used, .cancelled _ attempts => if attempts = used ∧ attempts ≤ limit then some .ended else none
  | .begun used, .retried _ attempt _ _ _ =>
    if attempt = used + 1 ∧ attempt < limit then some (.waiting attempt) else none
  | .begun used, .succeeded _ attempts _ => if attempts = used + 1 ∧ attempts ≤ limit then some .ended else none
  | .begun used, .failedPermanent _ attempts _ reason _ =>
    if attempts = used + 1 ∧ attempts ≤ limit ∧ (reason = .retriesExhausted → attempts = limit) then some .ended
    else none
  -- The number is the lower one if the attempt was taken back before the job was called off.
  | .begun used, .cancelled _ attempts =>
    if (attempts = used + 1 ∨ attempts = used) ∧ attempts ≤ limit then some .ended else none
  | _, _ => none

/-- What events make of a course, in order. -/
def after? (limit : Nat) (c : JobCourse) (events : List ProgressEvent) : Option JobCourse :=
  events.foldlM (next? limit) c

theorem after?_append (limit : Nat) (c : JobCourse) (before after : List ProgressEvent) :
    c.after? limit (before ++ after) = (c.after? limit before).bind fun d => d.after? limit after :=
  List.foldlM_append

end JobCourse

theorem eventsOf_append (id : String) (before after : List (Nat × ProgressEvent)) :
    eventsOf id (before ++ after) = eventsOf id before ++ eventsOf id after := by
  simp [eventsOf]

theorem eventsOf_eq_nil {id : String} {events : List (Nat × ProgressEvent)}
    (h : ∀ x ∈ events, x.2.jobId? ≠ some id) : eventsOf id events = [] := by
  refine List.filter_eq_nil_iff.mpr fun e he => ?_
  obtain ⟨x, hx, rfl⟩ := List.mem_map.mp he
  simpa using h x hx

theorem eventsOf_singleton {id : String} {e : ProgressEvent} (t : Nat) (h : e.jobId? = some id) :
    eventsOf id [(t, e)] = [e] := by
  simp [eventsOf, h]

/-- Among events for jobs of different identifiers, one for each, a job has just its own. -/
theorem eventsOf_map {α : Type} {key : α → String} {f : α → Nat × ProgressEvent} {l : List α} {a : α}
    (hf : ∀ b, (f b).2.jobId? = some (key b)) (hl : (l.map key).Nodup) (ha : a ∈ l) :
    eventsOf (key a) (l.map f) = [(f a).2] := by
  induction l with
  | nil => cases ha
  | cons b l ih =>
      obtain ⟨hb, hl⟩ := List.nodup_cons.mp hl
      rw [List.map_cons, ← List.singleton_append, eventsOf_append]
      rcases List.mem_cons.mp ha with rfl | ha
      · have hothers : eventsOf (key a) (l.map f) = [] := by
          refine eventsOf_eq_nil fun x hx => ?_
          obtain ⟨c, hc, rfl⟩ := List.mem_map.mp hx
          rw [hf]
          exact fun he => hb (Option.some.inj he ▸ List.mem_map_of_mem hc)
        rw [eventsOf_singleton _ (hf a), hothers]
        rfl
      · have hother : eventsOf (key a) [f b] = [] := by
          refine eventsOf_eq_nil fun x hx => ?_
          rw [List.mem_singleton.mp hx, hf]
          exact fun he => hb (Option.some.inj he ▸ List.mem_map_of_mem ha)
        rw [hother, ih hl ha]
        rfl

end PageAudit
