import PageAudit.Attempt.Engine
import PageAudit.Supervisor.Kills

/-!
# Where attempts work

Attempts share the supervisor and the engine. Browsers whose attempt broke down are given back in the
background.
-/

namespace PageAudit

/-- The surroundings of attempts. -/
structure Site where
  supervisor : Supervisor
  engine : Engine
  /-- How long an audit may take. -/
  timeLimit : Nat
  /-- The audits that the engine was asked for. -/
  calls : List AuditCall := []
  /-- The browsers that are given back in the background. -/
  background : List Release := []

namespace Site

/-- The present time. -/
def clock (s : Site) : Nat := s.supervisor.clock

/-- Lets time pass. -/
def elapse (s : Site) (now : Nat) : Site :=
  { s with supervisor := { s.supervisor with clock := now } }

/-- Asks the engine for an audit. -/
def beginAudit (s : Site) (url endpoint : String) : Site × Audit :=
  let audit := s.engine.audit url (s.calls.countP fun c => c.url == url)
  ({ s with calls := s.calls ++ [⟨s.clock, url, endpoint⟩] }, audit)

/-- Leaves a browser to be given back in the background. -/
def leave (s : Site) (h : BrowserHandle) : Site :=
  { s with background := s.background ++ [{ handle := h }] }

/-- Goes on with a browser that is given back in the background. -/
def pollBackground (s : Site) (n : Nat) : Site :=
  match s.background[n]? with
  | some r =>
    let (supervisor, r) := r.poll s.supervisor
    { s with supervisor, background := s.background.set n r }
  | none => s

end Site

end PageAudit
