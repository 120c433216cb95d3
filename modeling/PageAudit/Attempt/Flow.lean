import PageAudit.Attempt.Site
import PageAudit.Attempt.Url

/-!
# Attempts

An attempt checks the address, takes a browser, has the page audited within a time limit and gives the browser
back. It goes on in polls: a poll does all that can be done at the present time. A stop ends an attempt
wherever it stands, except while it gives its browser back; a cancelled run only breaks off an audit, and only
if the engine allows it. A stop is looked at before the result of the same poll.
-/

namespace PageAudit

/-- An attempt of a job in a slot. Attempts are numbered from 1. -/
structure AttemptContext where
  jobId : String
  url : String
  planIndex : Nat
  attempt : Nat
  slotId : Nat
  deriving DecidableEq, Repr

/-- The mark at the front of an attempt's log lines. -/
def AttemptContext.text (c : AttemptContext) : String :=
  s!"[任务 {c.jobId} 第{c.attempt}次 槽位#{c.slotId}]"

/-- What an attempt came to. -/
inductive AttemptOutcome where
  | completed (metrics : Metrics)
  | failed (e : AttemptError)
  /-- It was stopped before its end. -/
  | interrupted

/-- How far an attempt has come. -/
inductive AttemptPhase where
  | fresh
  /-- A browser is being started. -/
  | launching (due : Nat) (ending : LaunchEnding)
  /-- The page is being audited. -/
  | auditing (handle : BrowserHandle) (due deadline : Nat) (ending : AuditEnding)
  /-- The browser is being given back. -/
  | releasing (outcome : AttemptOutcome) (release : Release)
  | ended (outcome : AttemptOutcome)
  /-- The launcher or the engine broke down. -/
  | broken (message : String)
  /-- The attempt was abandoned. -/
  | dropped

/-- What an attempt is told from outside. -/
structure AttemptSignals where
  /-- The attempt has to end. -/
  stop : Bool := false
  /-- The run was cancelled. -/
  cancelled : Bool := false
  deriving DecidableEq, Repr

/-- An attempt. -/
structure Attempt where
  context : AttemptContext
  phase : AttemptPhase := .fresh

namespace Attempt

/-- The attempt goes no further. -/
def isDone (a : Attempt) : Bool :=
  match a.phase with
  | .ended _ | .broken _ | .dropped => true
  | _ => false

/-- When the attempt has to be polled again. -/
def due? (a : Attempt) : Option Nat :=
  match a.phase with
  | .launching due _ => some due
  | .auditing _ due deadline _ => some (min due deadline)
  | .releasing _ release => release.due?
  | _ => none

/-- The phase of an attempt that gives its browser back. -/
def releasePhase (outcome : AttemptOutcome) (r : Release) : AttemptPhase :=
  if r.isDone then
    match r.broken? with
    | none => .ended outcome
    | some message => .broken message
  else .releasing outcome r

/-- Goes on giving the browser back. -/
def release (a : Attempt) (s : Site) (outcome : AttemptOutcome) (r : Release) : Site × Attempt :=
  let (supervisor, r) := r.poll s.supervisor
  ({ s with supervisor }, { a with phase := releasePhase outcome r })

/-- Starts to give the browser back. -/
def giveBack (a : Attempt) (s : Site) (h : BrowserHandle) (outcome : AttemptOutcome) : Site × Attempt :=
  a.release s outcome { handle := h }

/-- An audit is broken off. -/
def breaksOff (s : Site) (signals : AttemptSignals) : Bool :=
  signals.stop || (signals.cancelled && s.engine.supportsEarlyTermination)

/-- Looks at an audit that goes on. An audit that ends exactly at the time limit counts. -/
def audit (a : Attempt) (s : Site) (signals : AttemptSignals) (h : BrowserHandle) (due deadline : Nat)
    (ending : AuditEnding) : Site × Attempt :=
  if breaksOff s signals then a.giveBack s h .interrupted
  else if due ≤ s.clock then
    match ending with
    | .scored metrics => a.giveBack s h (.completed metrics)
    | .failed .interrupted => a.giveBack s h .interrupted
    | .failed e => a.giveBack s h (.failed (.audit e))
    | .broken message => (s.leave h, { a with phase := .broken message })
  else if deadline ≤ s.clock then a.giveBack s h (.failed (.audit (.timeout s.timeLimit)))
  else (s, { a with phase := .auditing h due deadline ending })

/-- Has the page audited with a browser. -/
def beginAudit (a : Attempt) (s : Site) (signals : AttemptSignals) (h : BrowserHandle) : Site × Attempt :=
  if breaksOff s signals then a.giveBack s h .interrupted
  else
    let (s, audit) := s.beginAudit a.context.url h.endpoint
    a.audit s signals h (s.clock + audit.delay) (s.clock + s.timeLimit) audit.ending

/-- Looks at a start that goes on. -/
def launch (a : Attempt) (s : Site) (signals : AttemptSignals) (due : Nat) (ending : LaunchEnding) :
    Site × Attempt :=
  let without := { s with supervisor := s.supervisor.cancelLaunch a.context.jobId }
  if signals.stop then (without, { a with phase := .ended .interrupted })
  else if s.clock < due then (s, { a with phase := .launching due ending })
  else
    match ending with
    | .ready =>
      let (supervisor, h) := s.supervisor.endLaunch a.context.jobId a.context.attempt
      a.beginAudit { s with supervisor } signals h
    | .failed e => (without, { a with phase := .ended (.failed (.launch e)) })
    | .broken message => (without, { a with phase := .broken message })

/-- Checks the address and asks for a browser. -/
def begin (a : Attempt) (s : Site) (signals : AttemptSignals) : Site × Attempt :=
  match validateUrl a.context.url with
  | .error e => (s, { a with phase := .ended (.failed (.audit e)) })
  | .ok () =>
    if signals.stop then (s, { a with phase := .ended .interrupted })
    else
      match s.supervisor.beginLaunch a.context.jobId with
      | .error e => (s, { a with phase := .ended (.failed (.launch e)) })
      | .ok (supervisor, launch) =>
        a.launch { s with supervisor } signals (s.clock + launch.delay) launch.ending

/-- Does all that can be done at the present time. -/
def poll (a : Attempt) (s : Site) (signals : AttemptSignals) : Site × Attempt :=
  match a.phase with
  | .fresh => a.begin s signals
  | .launching due ending => a.launch s signals due ending
  | .auditing h due deadline ending => a.audit s signals h due deadline ending
  | .releasing outcome r => a.release s outcome r
  | .ended _ | .broken _ | .dropped => (s, a)

/-- Abandons an attempt. A start is given up, and a browser in use is left to be given back in the background;
a kill that goes on is left to itself. -/
def drop (a : Attempt) (s : Site) : Site × Attempt :=
  let s := match a.phase with
    | .launching .. => { s with supervisor := s.supervisor.cancelLaunch a.context.jobId }
    | .auditing h .. => s.leave h
    | _ => s
  (s, if a.isDone then a else { a with phase := .dropped })

/-- What is reported of an attempt that has ended. A breakdown counts as a failure of the engine. -/
def outcome? (a : Attempt) : Option AttemptOutcome :=
  match a.phase with
  | .ended outcome => some outcome
  | .broken _ => some (.failed (.audit (.engine "执行过程中发生 panic")))
  | _ => none

end Attempt

end PageAudit
