import PageAudit.Job.Result
import PageAudit.Progress.Event

/-!
# The order of one instant

Jobs that are called off together have no order among each other. They are listed by their id or by their
position in the plan.
-/

namespace PageAudit

/-- Puts an entry that was called off before neighbours of the same instant that come later. -/
def placeCalledOff {α : Type} (calledOff : α → Bool) (before : α → α → Bool) (t : Nat) (a : α) :
    List (Nat × α) → List (Nat × α)
  | (u, b) :: rest =>
    if u == t && calledOff b && before b a then (u, b) :: placeCalledOff calledOff before t a rest
    else (t, a) :: (u, b) :: rest
  | [] => [(t, a)]

/-- Events with neighbours that were called off at one instant by the id of the job. -/
def orderEvents : List (Nat × ProgressEvent) → List (Nat × ProgressEvent)
  | [] => []
  | (t, e) :: rest =>
    let calledOff (e : ProgressEvent) : Bool := e matches .cancelled ..
    let before (a b : ProgressEvent) : Bool := a.jobId?.getD "" < b.jobId?.getD ""
    if calledOff e then placeCalledOff calledOff before t e (orderEvents rest) else (t, e) :: orderEvents rest

/-- Results of every instant with those that were called off at the end, in plan order. -/
def orderResults (results : List (Nat × Result)) : List (Nat × Result) :=
  (results.map (·.1)).eraseDups.flatMap fun t =>
    let (off, kept) := (results.filter (·.1 == t)).partition fun (_, r) => r.state == .cancelled
    kept ++ off.mergeSort fun a b => a.2.planIndex ≤ b.2.planIndex

end PageAudit
