import PageAudit.Supervisor.Session

/-!
# A desk for browsers

Browsers are handed out under names and taken back by name, one request after the other. A lease is ended once;
the handle stays known and may be released again.
-/

namespace PageAudit

/-- A supervisor with the leases and the last handles that were handed out. -/
structure Desk where
  supervisor : Supervisor
  leases : List (String × BrowserHandle) := []
  handles : List (String × BrowserHandle) := []

/-- How a lease ends. -/
inductive LeaseEnd where
  /-- It is given back. -/
  | released
  /-- It is dropped, and given back in the background. -/
  | dropped
  /-- It is dropped where nothing can be waited for. -/
  | forfeited
  deriving DecidableEq, Repr

/-- A request at the desk. -/
inductive DeskRequest where
  | acquire (name jobId : String) (attempt : Nat) (patience : Option Nat)
  | acquireAll (jobIds : List String)
  | endLease (name : String) (how : LeaseEnd)
  | releaseHandle (name : String)
  | releaseAll
  | sweep
  deriving DecidableEq, Repr

/-- What a request comes to. -/
inductive DeskAnswer where
  | acquired (a : Acquired)
  | acquiredAll (as : List Acquired)
  | leaseEnded
  | noLease
  /-- Whether the handle was still registered. -/
  | handleReleased (registered : Bool)
  | noHandle
  | allReleased (count : Nat)
  | swept (r : SweepReport)
  /-- The launcher broke down in a kill. -/
  | broken (message : String)
  deriving DecidableEq, Repr

/-- The answer to a request that waits for kills. -/
def DeskAnswer.ofKills {α : Type} (answer : α → DeskAnswer) : Except String α → DeskAnswer
  | .ok value => answer value
  | .error message => .broken message

namespace Desk

/-- Ends a lease. -/
def endLease (d : Desk) (name : String) (how : LeaseEnd) : Desk × DeskAnswer :=
  match d.leases.lookup name with
  | none => (d, if how == .released then .noLease else .leaseEnded)
  | some h =>
    let (supervisor, answer) := match how with
      | .released =>
        let (s, registered) := d.supervisor.release h
        (s, DeskAnswer.ofKills (fun _ => .leaseEnded) registered)
      | .dropped => ((d.supervisor.release h).1, .leaseEnded)
      | .forfeited => (d.supervisor.forfeit h, .leaseEnded)
    ({ d with supervisor, leases := d.leases.filter (·.1 != name) }, answer)

/-- Hands a browser out. A lease of the same name is dropped. -/
def handOut (d : Desk) (name : String) : Acquired → Desk
  | .lease h =>
    let d := (d.endLease name .dropped).1
    { d with leases := (name, h) :: d.leases, handles := (name, h) :: d.handles.filter (·.1 != name) }
  | _ => d

/-- Answers a request. -/
def answer (d : Desk) : DeskRequest → Desk × DeskAnswer
  | .acquire name jobId attempt patience =>
    let (supervisor, a) := d.supervisor.acquire jobId attempt patience
    (handOut { d with supervisor } name a, .acquired a)
  | .acquireAll jobIds =>
    let (supervisor, as) := d.supervisor.acquireAll jobIds
    ((jobIds.zip as).foldl (fun d (jobId, a) => handOut d jobId a) { d with supervisor }, .acquiredAll as)
  | .endLease name how => d.endLease name how
  | .releaseHandle name =>
    match d.handles.lookup name with
    | none => (d, .noHandle)
    | some h =>
      let (supervisor, registered) := d.supervisor.release h
      ({ d with supervisor }, .ofKills .handleReleased registered)
  | .releaseAll =>
    let (supervisor, count) := d.supervisor.releaseAll
    ({ d with supervisor }, .ofKills .allReleased count)
  | .sweep =>
    let (supervisor, r) := d.supervisor.sweep
    ({ d with supervisor }, .ofKills .swept r)

end Desk

end PageAudit
