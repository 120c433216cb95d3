import PageAudit.Proofs.Attempt.Holdings
import PageAudit.Proofs.Attempt.Interruptions
import PageAudit.Proofs.Supervisor.Balance

/-!
# What an attempt comes to

An attempt comes to its outcome in one of its polls. The polls up to that one tell what the outcome is: whether the
attempt was told to stop while it waited, what the request for a browser came to, and whether the engine answered within
the time limit. Giving the browser back changes nothing about it.
-/

namespace PageAudit

/-- What an attempt comes to when its audit ends so. -/
def AuditEnding.outcome? : AuditEnding → Option AttemptOutcome
  | .scored metrics => some (.completed metrics)
  | .failed .interrupted => some .interrupted
  | .failed e => some (.failed (.audit e))
  | .broken _ => none

theorem AuditEnding.outcome?_eq_interrupted {e : AuditEnding} :
    e.outcome? = some .interrupted ↔ e = .failed .interrupted := by
  cases e with
  | failed cause => cases cause <;> simp [outcome?]
  | _ => simp [outcome?]

/-- The attempt waits for its browser or for its audit. -/
def Attempt.isWaiting (a : Attempt) : Bool :=
  match a.phase with
  | .fresh | .launching .. | .auditing .. => true
  | _ => false

/-- A poll of an attempt. -/
structure AttemptPoll where
  site : Site
  attempt : Attempt
  signals : AttemptSignals

namespace AttemptPoll

/-- The site and the attempt after the poll. -/
def after (p : AttemptPoll) : Site × Attempt :=
  p.attempt.poll p.site p.signals

/-- What a start has come to by now. -/
def arrival? (c : AttemptContext) (s : Supervisor) (due : Nat) (ending : LaunchEnding) :
    Option (Except LaunchError BrowserHandle) :=
  if s.clock < due then none
  else
    match ending with
    | .ready => some (.ok (s.endLaunch c.jobId c.attempt).2)
    | .failed e => some (.error e)
    | .broken _ => none

/-- What the request for a browser comes to in the poll. It is given up when the attempt is told to stop. -/
def acquired? (p : AttemptPoll) : Option (Except LaunchError BrowserHandle) :=
  if p.signals.stop then none
  else
    match p.attempt.phase with
    | .fresh =>
      match validateUrl p.attempt.context.url with
      | .error _ => none
      | .ok () =>
        match p.site.supervisor.beginLaunch p.attempt.context.jobId with
        | .error e => some (.error e)
        | .ok (s, launch) => arrival? p.attempt.context s (p.site.clock + launch.delay) launch.ending
    | .launching due ending => arrival? p.attempt.context p.site.supervisor due ending
    | _ => none

/-- In the poll the attempt has a browser and waits for its audit. -/
def isAuditing (p : AttemptPoll) : Bool :=
  match p.acquired? with
  | some (.ok _) => true
  | _ => p.attempt.browser?.isSome

/-- In the poll the attempt is told to stop while it waits. -/
def isStopped (p : AttemptPoll) : Bool :=
  p.attempt.isWaiting && p.signals.stop

/-- In the poll the run is cancelled and the audit can be broken off. -/
def isCalledOff (p : AttemptPoll) : Bool :=
  p.isAuditing && p.signals.cancelled && p.site.engine.supportsEarlyTermination

/-- The engine is not asked for anything in the poll. -/
def IsSilent (p : AttemptPoll) : Prop :=
  p.after.1.calls = p.site.calls

/-- No kill is asked for in the poll. -/
def IsHarmless (p : AttemptPoll) : Prop :=
  p.after.1.supervisor.killCalls = p.site.supervisor.killCalls

/-- In the poll the engine is asked for an audit with a browser. -/
structure Asks (p : AttemptPoll) (h : BrowserHandle) (audit : Audit) : Prop where
  calls : p.after.1.calls = p.site.calls ++ [⟨p.site.clock, p.attempt.context.url, h.endpoint⟩]
  audit : audit = p.site.engine.audit p.attempt.context.url (p.site.asked p.attempt.context.url)

end AttemptPoll

namespace Attempt

/-- The engine was asked for an audit in one of the polls, and it had answered when the attempt looked. -/
def Answered (polls : List AttemptPoll) (audit : Audit) : Prop :=
  ∃ q ∈ polls, (∃ h, q.Asks h audit) ∧ ∃ p ∈ polls, p.isAuditing = true ∧ q.site.clock + audit.delay ≤ p.site.clock

/-- What an attempt came to, explained by its polls. -/
structure Explained (c : AttemptContext) (limit : Nat) (polls : List AttemptPoll) (outcome : AttemptOutcome) : Prop where
  /-- The address was rejected. -/
  rejected : ∀ e, validateUrl c.url = .error e → outcome = .failed (.audit e) ∧ ∀ p ∈ polls, p.IsSilent
  /-- The request for a browser failed. -/
  refused : ∀ p ∈ polls, ∀ e, p.acquired? = some (.error e) →
    outcome = .failed (.launch e) ∧ ∀ q ∈ polls, q.IsSilent
  /-- Without a browser there is nothing to be ended. -/
  harmless : (∀ p ∈ polls, ∀ h, p.acquired? ≠ some (.ok h)) → ∀ p ∈ polls, p.IsHarmless
  interrupted : validateUrl c.url = .ok () → (outcome = .interrupted ↔
    (∃ p ∈ polls, p.isStopped = true) ∨ (∃ p ∈ polls, p.isCalledOff = true) ∨
      ∃ audit, Answered polls audit ∧ audit.ending = .failed .interrupted)
  /-- With a browser the engine was asked at once. Its answer counts if it came within the limit; one that came later
  counts only if the attempt did not look before. -/
  audited : ∀ p ∈ polls, ∀ h, p.acquired? = some (.ok h) → outcome ≠ .interrupted → ∃ audit, p.Asks h audit ∧
    (audit.delay ≤ limit → audit.ending.outcome? = some outcome) ∧
    (limit < audit.delay → outcome = .failed (.audit (.timeout limit)) ∨
      Answered polls audit ∧ audit.ending.outcome? = some outcome)

end Attempt

/-! ## Single polls -/

namespace Attempt

open Supervisor

variable {a : Attempt} {s : Site} {signals : AttemptSignals}

/-! ### The start of a browser -/

theorem launch_stopped {due : Nat} {ending : LaunchEnding} (hstop : signals.stop = true) :
    a.launch s signals due ending =
      ({ s with supervisor := s.supervisor.cancelLaunch a.context.jobId }, { a with phase := .ended .interrupted }) :=
  if_pos hstop

theorem launch_early {due : Nat} {ending : LaunchEnding} (hstop : signals.stop = false) (hdue : s.clock < due) :
    a.launch s signals due ending = (s, { a with phase := .launching due ending }) := by
  simp [launch, hstop, hdue]

theorem launch_ready {due : Nat} (hstop : signals.stop = false) (hdue : ¬ s.clock < due) :
    a.launch s signals due .ready =
      a.beginAudit { s with supervisor := (s.supervisor.endLaunch a.context.jobId a.context.attempt).1 } signals
        (s.supervisor.endLaunch a.context.jobId a.context.attempt).2 := by
  simp [launch, hstop, hdue]

theorem launch_failed {due : Nat} {e : LaunchError} (hstop : signals.stop = false) (hdue : ¬ s.clock < due) :
    a.launch s signals due (.failed e) =
      ({ s with supervisor := s.supervisor.cancelLaunch a.context.jobId },
        { a with phase := .ended (.failed (.launch e)) }) := by
  simp [launch, hstop, hdue]

theorem launch_broken {due : Nat} {message : String} (hstop : signals.stop = false) (hdue : ¬ s.clock < due) :
    a.launch s signals due (.broken message) =
      ({ s with supervisor := s.supervisor.cancelLaunch a.context.jobId }, { a with phase := .broken message }) := by
  simp [launch, hstop, hdue]

/-! ### The audit -/

/-- An audit that goes on or comes to its end changes nothing about the engine, and no browser comes in. -/
theorem audit_site (a : Attempt) (s : Site) (signals : AttemptSignals) (h : BrowserHandle) (due deadline : Nat)
    (ending : AuditEnding) : ∃ supervisor background,
      (a.audit s signals h due deadline ending).1 = { s with supervisor, background } ∧
        Recedes s.supervisor supervisor := by
  have hgivesBack : ∀ outcome, ∃ supervisor background,
      (a.giveBack s h outcome).1 = { s with supervisor, background } ∧ Recedes s.supervisor supervisor := fun outcome =>
    ⟨(a.giveBack s h outcome).1.supervisor, s.background, rfl, a.recedes_release s outcome { handle := h }⟩
  unfold audit
  split
  · exact hgivesBack _
  · split
    · cases ending with
      | scored => exact hgivesBack _
      | failed e => cases e <;> exact hgivesBack _
      | broken => exact ⟨s.supervisor, _, rfl, .refl _⟩
    · split
      · exact hgivesBack _
      · exact ⟨s.supervisor, s.background, rfl, .refl _⟩

theorem recedes_beginAudit (a : Attempt) (s : Site) (signals : AttemptSignals) (h : BrowserHandle) :
    Recedes s.supervisor (a.beginAudit s signals h).1.supervisor := by
  unfold beginAudit
  split
  · exact recedes_release ..
  · obtain ⟨_, _, hsite, hrecedes⟩ := a.audit_site (s.beginAudit a.context.url h.endpoint).1 signals h _ _ _
    dsimp only
    rw [hsite]
    exact hrecedes

end Attempt

namespace AttemptPoll

open Attempt

variable {p q : AttemptPoll} {s : Site} {due : Nat} {ending : LaunchEnding} {h : BrowserHandle} {audit : Audit}

/-- In the poll the attempt looks at the start of its browser. -/
structure Looks (p : AttemptPoll) (s : Site) (due : Nat) (ending : LaunchEnding) : Prop where
  after : p.after = p.attempt.launch s p.signals due ending
  acquired : p.signals.stop = false → p.acquired? = arrival? p.attempt.context s.supervisor due ending
  site : ∃ registry launchCalls, s = { p.site with supervisor := { p.site.supervisor with registry, launchCalls } } ∧
    registry.handles = p.site.supervisor.registry.handles

/-- In the poll the attempt gets no browser, and the engine is not asked. -/
structure Idles (p : AttemptPoll) : Prop where
  acquired : ∀ g, p.acquired? ≠ some (.ok g)
  silent : p.IsSilent
  enrols : Supervisor.Enrols p.site.supervisor p.after.1.supervisor []

/-- In the poll the attempt gets a browser, and it goes on at once. -/
structure Gets (p : AttemptPoll) (supervisor : Supervisor) (h : BrowserHandle) : Prop where
  acquired : p.acquired? = some (.ok h)
  clock : supervisor.clock = p.site.clock
  after : p.after = p.attempt.beginAudit { p.site with supervisor } p.signals h
  enrols : Supervisor.Enrols p.site.supervisor supervisor [h]
  pid : h.pid = p.site.supervisor.launcher.pid p.site.supervisor.launched

theorem after_fresh (hphase : p.attempt.phase = .fresh) : p.after = p.attempt.begin p.site p.signals := by
  simp [after, Attempt.poll, hphase]

theorem after_auditing {deadline : Nat} {ending : AuditEnding}
    (hphase : p.attempt.phase = .auditing h due deadline ending) :
    p.after = p.attempt.audit p.site p.signals h due deadline ending := by
  simp [after, Attempt.poll, hphase]

theorem after_releasing {outcome : AttemptOutcome} {r : Release} (hphase : p.attempt.phase = .releasing outcome r) :
    p.after = p.attempt.release p.site outcome r := by
  simp [after, Attempt.poll, hphase]

theorem acquired?_of_stop (hstop : p.signals.stop = true) : p.acquired? = none :=
  if_pos hstop

theorem isAuditing_eq_false (hnone : ∀ g, p.acquired? ≠ some (.ok g)) (hbrowser : p.attempt.browser? = none) :
    p.isAuditing = false := by
  unfold isAuditing
  split
  · exact absurd ‹_› (hnone _)
  · simp [hbrowser]

/-- The first poll of an attempt with a good address that was not told to stop. -/
theorem looks_of_fresh (hphase : p.attempt.phase = .fresh) (hurl : validateUrl p.attempt.context.url = .ok ())
    (hstop : p.signals.stop = false) :
    (∃ e, p.acquired? = some (.error e) ∧
      p.after = (p.site, { p.attempt with phase := .ended (.failed (.launch e)) })) ∨
      ∃ s due ending, p.Looks s due ending := by
  have hafter := after_fresh hphase
  cases hbegun : p.site.supervisor.beginLaunch p.attempt.context.jobId with
  | error e =>
      refine Or.inl ⟨e, by simp [acquired?, hstop, hphase, hurl, hbegun], ?_⟩
      rw [hafter]
      simp [begin, hurl, hstop, hbegun]
  | ok begun =>
      obtain ⟨supervisor, launch⟩ := begun
      obtain ⟨registry, hr, hsupervisor, -⟩ := Supervisor.beginLaunch_eq hbegun
      have hhandles : registry.handles = p.site.supervisor.registry.handles := by rw [(Registry.reserve_eq hr).2]
      refine Or.inr ⟨{ p.site with supervisor }, p.site.clock + launch.delay, launch.ending, ?_, fun _ => ?_,
        registry, _, by rw [hsupervisor], hhandles⟩
      · rw [hafter]
        simp [begin, hurl, hstop, hbegun]
      · simp [acquired?, hstop, hphase, hurl, hbegun]

theorem looks_of_launching (hphase : p.attempt.phase = .launching due ending) : p.Looks p.site due ending where
  after := by simp [after, Attempt.poll, hphase]
  acquired hstop := by simp [acquired?, hstop, hphase]
  site := ⟨p.site.supervisor.registry, p.site.supervisor.launchCalls, rfl, rfl⟩

/-- How an attempt goes on that looks at the start of its browser. -/
theorem Looks.cases (hp : p.Looks s due ending) :
    (p.Idles ∧ p.IsHarmless ∧
      (p.signals.stop = true ∧ p.after.2 = { p.attempt with phase := .ended .interrupted } ∨
        p.signals.stop = false ∧ p.acquired? = none ∧ p.after.2 = { p.attempt with phase := .launching due ending } ∨
        (∃ e, p.acquired? = some (.error e) ∧
          p.after.2 = { p.attempt with phase := .ended (.failed (.launch e)) }) ∨
        ∃ message, p.after.2 = { p.attempt with phase := .broken message })) ∨
      ∃ supervisor g, p.Gets supervisor g := by
  obtain ⟨registry, launchCalls, hs, hhandles⟩ := hp.site
  have hafter := hp.after
  -- Whatever the attempt does without a browser, it asks neither the engine nor the launcher for anything.
  have hidles : ∀ {b : Attempt} {v : Supervisor}, p.after = ({ s with supervisor := v }, b) →
      v.registry.handles = s.supervisor.registry.handles → v.launched = s.supervisor.launched →
      v.killCalls = s.supervisor.killCalls → (∀ g, p.acquired? ≠ some (.ok g)) → p.Idles ∧ p.IsHarmless := by
    intro b v hb hheld hlaunched hkills hnone
    subst hs
    refine ⟨⟨hnone, by simp [IsSilent, hb], ?_⟩, by simpa [IsHarmless, hb] using hkills⟩
    rw [hb]
    exact ⟨hlaunched, fun g hg => Or.inl (hhandles ▸ hheld ▸ hg)⟩
  cases hstop : p.signals.stop with
  | true =>
      rw [launch_stopped hstop] at hafter
      obtain ⟨hidle, hharmless⟩ := hidles hafter rfl rfl rfl fun g => by simp [acquired?_of_stop hstop]
      exact Or.inl ⟨hidle, hharmless, Or.inl ⟨rfl, by rw [hafter]⟩⟩
  | false =>
      have hacquired := hp.acquired hstop
      by_cases hdue : s.clock < due
      · rw [launch_early hstop hdue] at hafter
        have hnone : p.acquired? = none := hacquired.trans (if_pos hdue)
        obtain ⟨hidle, hharmless⟩ := hidles hafter rfl rfl rfl fun g => by simp [hnone]
        exact Or.inl ⟨hidle, hharmless, Or.inr (Or.inl ⟨rfl, hnone, by rw [hafter]⟩)⟩
      · have hdone := hacquired.trans (if_neg hdue)
        cases ending with
        | ready =>
            rw [launch_ready hstop hdue] at hafter
            have henrols := s.supervisor.enrols_endLaunch p.attempt.context.jobId p.attempt.context.attempt
            have hgets : p.Gets (s.supervisor.endLaunch p.attempt.context.jobId p.attempt.context.attempt).1
                (s.supervisor.endLaunch p.attempt.context.jobId p.attempt.context.attempt).2 := by
              subst hs
              exact ⟨hdone, rfl, hafter, ⟨henrols.launched, hhandles ▸ henrols.handles⟩, rfl⟩
            exact Or.inr ⟨_, _, hgets⟩
        | failed e =>
            rw [launch_failed hstop hdue] at hafter
            obtain ⟨hidle, hharmless⟩ := hidles hafter rfl rfl rfl fun g => by simp [hdone]
            exact Or.inl ⟨hidle, hharmless, Or.inr (Or.inr (Or.inl ⟨e, hdone, by rw [hafter]⟩))⟩
        | broken message =>
            rw [launch_broken hstop hdue] at hafter
            obtain ⟨hidle, hharmless⟩ := hidles hafter rfl rfl rfl fun g => by simp [hdone]
            exact Or.inl ⟨hidle, hharmless, Or.inr (Or.inr (Or.inr ⟨message, by rw [hafter]⟩))⟩

theorem idle_or_gets (p : AttemptPoll) : p.Idles ∨ ∃ supervisor g, p.Gets supervisor g := by
  have hlooks : ∀ {s due ending}, p.Looks s due ending → p.Idles ∨ ∃ supervisor g, p.Gets supervisor g := fun hp =>
    hp.cases.imp_left And.left
  have hstays : (∀ g, p.acquired? ≠ some (.ok g)) → p.after.1 = p.site → p.Idles := fun hnone hsame =>
    ⟨hnone, congrArg Site.calls hsame, hsame ▸ (Supervisor.Recedes.refl _).enrols⟩
  cases hphase : p.attempt.phase with
  | fresh =>
      have hafter := after_fresh hphase
      cases hurl : validateUrl p.attempt.context.url with
      | error e => exact Or.inl (hstays (by simp [acquired?, hphase, hurl]) (by simp [hafter, begin, hurl]))
      | ok =>
          cases hstop : p.signals.stop with
          | true => exact Or.inl (hstays (by simp [acquired?_of_stop hstop]) (by simp [hafter, begin, hurl, hstop]))
          | false =>
              rcases looks_of_fresh hphase hurl hstop with ⟨e, hacquired, hended⟩ | ⟨_, _, _, hp⟩
              · exact Or.inl (hstays (by simp [hacquired]) (by rw [hended]))
              · exact hlooks hp
  | launching due ending => exact hlooks (looks_of_launching hphase)
  | auditing g due deadline ending =>
      have hafter := after_auditing hphase
      obtain ⟨_, _, hsite, hrecedes⟩ := p.attempt.audit_site p.site p.signals g due deadline ending
      refine Or.inl ⟨by simp [acquired?, hphase], by simp [IsSilent, hafter, hsite], ?_⟩
      rw [hafter, hsite]
      exact hrecedes.enrols
  | releasing outcome r =>
      have hafter := after_releasing hphase
      refine Or.inl ⟨by simp [acquired?, hphase], by simp [IsSilent, hafter, release], ?_⟩
      rw [hafter]
      exact (p.attempt.recedes_release ..).enrols
  | ended | broken | dropped =>
      exact Or.inl (hstays (by simp [acquired?, hphase]) (by simp [after, Attempt.poll, hphase]))

/-- The engine is asked only for attempts that have just got a browser. -/
theorem isSilent_of_not_acquired (hnone : ∀ g, p.acquired? ≠ some (.ok g)) : p.IsSilent := by
  rcases p.idle_or_gets with hidle | ⟨_, g, hgets⟩
  · exact hidle.silent
  · exact absurd hgets.acquired (hnone g)

theorem Asks.acquired (hq : q.Asks h audit) : ∃ g, q.acquired? = some (.ok g) := by
  by_contra hnone
  have hsilent : q.IsSilent := isSilent_of_not_acquired fun g hg => hnone ⟨g, hg⟩
  have hcalls := hq.calls
  rw [hsilent] at hcalls
  simp at hcalls

/-- What breaks an audit off is that the attempt is told to stop or that the audit is called off. -/
theorem breaksOff_iff (hwaiting : p.attempt.isWaiting = true) (hauditing : p.isAuditing = true) :
    breaksOff p.site p.signals = true ↔ p.isStopped = true ∨ p.isCalledOff = true := by
  simp [breaksOff, isStopped, isCalledOff, hwaiting, hauditing]

theorem forall_append {P : AttemptPoll → Prop} {polls : List AttemptPoll} (hbefore : ∀ q ∈ polls, P q)
    (hlast : P p) : ∀ q ∈ polls ++ [p], P q :=
  List.forall_mem_append.mpr ⟨hbefore, List.forall_mem_singleton.mpr hlast⟩

/-- So far the attempt waits for a browser. -/
structure Waits (p : AttemptPoll) : Prop where
  acquired : p.acquired? = none
  stopped : p.isStopped = false
  auditing : p.isAuditing = false
  harmless : p.IsHarmless

/-- In the poll nothing happened by which the attempt comes to its outcome. -/
structure Undecided (due : Nat) (p : AttemptPoll) : Prop where
  stopped : p.isStopped = false
  calledOff : p.isCalledOff = false
  early : p.isAuditing = true → p.site.clock < due

theorem Waits.undecided (hp : p.Waits) (due : Nat) : Undecided due p :=
  ⟨hp.stopped, by simp [isCalledOff, hp.auditing], fun hauditing => by simp [hp.auditing] at hauditing⟩

end AttemptPoll

/-! ## Attempts with a browser -/

namespace Attempt

variable {c : AttemptContext} {limit due deadline : Nat} {polls : List AttemptPoll} {p q : AttemptPoll}
  {h : BrowserHandle} {ending : AuditEnding} {outcome : AttemptOutcome} {a : Attempt} {s : Site}

open AttemptPoll

/-- In one of its polls the attempt got a browser. -/
structure Acquired (c : AttemptContext) (polls : List AttemptPoll) (h : BrowserHandle) : Prop where
  accepted : validateUrl c.url = .ok ()
  acquired : ∃ q ∈ polls, q.acquired? = some (.ok h)
  only : ∀ q ∈ polls, ∀ r, q.acquired? = some r → r = .ok h

/-- The engine was asked as soon as the attempt had its browser. -/
structure Audits (c : AttemptContext) (limit : Nat) (polls : List AttemptPoll) (h : BrowserHandle) (due deadline : Nat)
    (ending : AuditEnding) : Prop extends Acquired c polls h where
  asked : ∀ q ∈ polls, q.acquired? = some (.ok h) → ∃ audit, q.Asks h audit ∧
    due = q.site.clock + audit.delay ∧ deadline = q.site.clock + limit ∧ ending = audit.ending

/-- Of an attempt with a browser, only an interruption and the answer of the engine have to be explained. -/
theorem Acquired.explained (hp : Acquired c polls h)
    (hinterrupted : outcome = .interrupted ↔
      (∃ p ∈ polls, p.isStopped = true) ∨ (∃ p ∈ polls, p.isCalledOff = true) ∨
        ∃ audit, Answered polls audit ∧ audit.ending = .failed .interrupted)
    (haudited : ∀ p ∈ polls, p.acquired? = some (.ok h) → outcome ≠ .interrupted → ∃ audit, p.Asks h audit ∧
      (audit.delay ≤ limit → audit.ending.outcome? = some outcome) ∧
      (limit < audit.delay → outcome = .failed (.audit (.timeout limit)) ∨
        Answered polls audit ∧ audit.ending.outcome? = some outcome)) :
    Explained c limit polls outcome where
  rejected e he := by simp [hp.accepted] at he
  refused q hq e he := by simpa using hp.only q hq _ he
  harmless hnone := by
    obtain ⟨q, hq, hacquired⟩ := hp.acquired
    exact absurd hacquired (hnone q hq h)
  interrupted _ := hinterrupted
  audited q hq g hg := by
    obtain rfl : g = h := by simpa using hp.only q hq _ hg
    exact haudited q hq hg

/-- The engine was asked for one audit. -/
theorem Audits.eq_of_asks (hp : Audits c limit polls h due deadline ending) {g : BrowserHandle} {audit : Audit}
    (hq : q ∈ polls) (hasks : q.Asks g audit) : due = q.site.clock + audit.delay ∧ audit.ending = ending := by
  obtain ⟨f, hf⟩ := hasks.acquired
  obtain rfl : f = h := by simpa using hp.only q hq _ hf
  obtain ⟨other, hother, hdue, -, hending⟩ := hp.asked q hq hf
  obtain rfl : audit = other := hasks.audit.trans hother.audit.symm
  exact ⟨hdue, hending.symm⟩

theorem Acquired.explained_interrupted (hp : Acquired c polls h)
    (hbroken : ∃ p ∈ polls, p.isStopped = true ∨ p.isCalledOff = true) : Explained c limit polls .interrupted := by
  obtain ⟨p, hpolled, hstopped | hcalledOff⟩ := hbroken
  · exact hp.explained (by simpa using Or.inl ⟨p, hpolled, hstopped⟩) fun _ _ _ hne => absurd rfl hne
  · exact hp.explained (by simpa using Or.inr (Or.inl ⟨p, hpolled, hcalledOff⟩)) fun _ _ _ hne => absurd rfl hne

theorem Audits.explained_answer (hp : Audits c limit polls h due deadline ending)
    (hquiet : ∀ q ∈ polls, q.isStopped = false ∧ q.isCalledOff = false) (hpolled : p ∈ polls)
    (hauditing : p.isAuditing = true) (hdue : due ≤ p.site.clock) (hending : ending.outcome? = some outcome) :
    Explained c limit polls outcome := by
  have hanswered : ∀ q ∈ polls, ∀ audit, q.Asks h audit → Answered polls audit ∧ audit.ending = ending := by
    intro q hq audit hasks
    obtain ⟨hstart, he⟩ := hp.eq_of_asks hq hasks
    exact ⟨⟨q, hq, ⟨h, hasks⟩, p, hpolled, hauditing, hstart ▸ hdue⟩, he⟩
  refine hp.explained ⟨?_, ?_⟩ fun q hq hacquired _ => ?_
  · rintro rfl
    obtain ⟨q, hq, hacquired⟩ := hp.acquired
    obtain ⟨audit, hasks, -⟩ := hp.asked q hq hacquired
    obtain ⟨hanswer, he⟩ := hanswered q hq audit hasks
    exact Or.inr (Or.inr ⟨audit, hanswer, he.trans (AuditEnding.outcome?_eq_interrupted.mp hending)⟩)
  · rintro (⟨q, hq, hstopped⟩ | ⟨q, hq, hcalledOff⟩ | ⟨audit, ⟨q, hq, ⟨g, hasks⟩, -⟩, hinterrupted⟩)
    · simp [(hquiet q hq).1] at hstopped
    · simp [(hquiet q hq).2] at hcalledOff
    · have he := (hp.eq_of_asks hq hasks).2
      exact Option.some.inj (hending.symm.trans (AuditEnding.outcome?_eq_interrupted.mpr (he.symm.trans hinterrupted)))
  · obtain ⟨audit, hasks, -⟩ := hp.asked q hq hacquired
    obtain ⟨hanswer, he⟩ := hanswered q hq audit hasks
    exact ⟨audit, hasks, fun _ => he ▸ hending, fun _ => Or.inr ⟨hanswer, he ▸ hending⟩⟩

theorem Audits.explained_timeout (hp : Audits c limit polls h due deadline ending)
    (hundecided : ∀ q ∈ polls, Undecided due q) (hlimit : deadline < due) :
    Explained c limit polls (.failed (.audit (.timeout limit))) := by
  refine hp.explained ⟨fun he => (by cases he), ?_⟩ fun q hq hacquired _ => ?_
  · rintro (⟨q, hq, hstopped⟩ | ⟨q, hq, hcalledOff⟩ | ⟨audit, ⟨q, hq, ⟨g, hasks⟩, p, hpolled, hauditing, hdue⟩, -⟩)
    · simp [(hundecided q hq).stopped] at hstopped
    · simp [(hundecided q hq).calledOff] at hcalledOff
    · have hstart := (hp.eq_of_asks hq hasks).1
      have hearly := (hundecided p hpolled).early hauditing
      omega
  · obtain ⟨audit, hasks, hdue, hdeadline, -⟩ := hp.asked q hq hacquired
    exact ⟨audit, hasks, fun hwithin => by omega, fun _ => Or.inl rfl⟩

/-! ## From poll to poll -/

/-- What the polls so far say about an attempt. -/
def Told (limit : Nat) (polls : List AttemptPoll) (a : Attempt) : Prop :=
  match a.phase with
  | .fresh => polls = []
  | .launching .. => validateUrl a.context.url = .ok () ∧ ∀ p ∈ polls, Waits p
  | .auditing h due deadline ending =>
    Audits a.context limit polls h due deadline ending ∧ ∀ p ∈ polls, Undecided due p
  | .releasing outcome _ =>
    Explained a.context limit polls outcome ∧ ∃ p ∈ polls, ∃ h, p.acquired? = some (.ok h)
  | .ended outcome => Explained a.context limit polls outcome
  | .broken _ | .dropped => True

theorem told_release (a : Attempt) (s : Site) (r : Release) (hexplained : Explained a.context limit polls outcome)
    (hbrowser : ∃ p ∈ polls, ∃ h, p.acquired? = some (.ok h)) :
    Told limit polls (a.release s outcome r).2 := by
  unfold release releasePhase
  dsimp only
  split
  · split
    · exact hexplained
    · trivial
  · exact ⟨hexplained, hbrowser⟩

theorem told_giveBack (hp : Acquired a.context polls h) (hexplained : Explained a.context limit polls outcome) :
    Told limit polls (a.giveBack s h outcome).2 := by
  obtain ⟨q, hq, hacquired⟩ := hp.acquired
  exact told_release a s _ hexplained ⟨q, hq, h, hacquired⟩

/-- The attempt looks at its audit; `p` is the present poll. -/
theorem told_audit (hp : Audits p.attempt.context limit (polls ++ [p]) h due deadline ending)
    (hbefore : ∀ q ∈ polls, Undecided due q) (hwaiting : p.attempt.isWaiting = true) (hauditing : p.isAuditing = true)
    (hengine : s.engine = p.site.engine) (hclock : s.clock = p.site.clock) (hlimit : s.timeLimit = limit) :
    Told limit (polls ++ [p]) (p.attempt.audit s p.signals h due deadline ending).2 := by
  have hlast : p ∈ polls ++ [p] := List.mem_append_right _ (List.mem_singleton_self p)
  have hbreaks : breaksOff s p.signals = breaksOff p.site p.signals := by simp [breaksOff, hengine]
  unfold audit
  by_cases hbroken : breaksOff s p.signals = true
  · rw [if_pos hbroken]
    have hcause := (breaksOff_iff hwaiting hauditing).mp (hbreaks ▸ hbroken)
    exact told_giveBack hp.toAcquired (hp.explained_interrupted ⟨p, hlast, hcause⟩)
  · rw [if_neg hbroken]
    have hquiet : p.isStopped = false ∧ p.isCalledOff = false := by
      have hnot : ¬ (p.isStopped = true ∨ p.isCalledOff = true) := fun he =>
        hbroken (hbreaks ▸ (breaksOff_iff hwaiting hauditing).mpr he)
      simpa [not_or] using hnot
    have hall : ∀ q ∈ polls ++ [p], q.isStopped = false ∧ q.isCalledOff = false :=
      forall_append (fun q hq => ⟨(hbefore q hq).stopped, (hbefore q hq).calledOff⟩) hquiet
    by_cases hdue : due ≤ s.clock
    · rw [if_pos hdue]
      have hanswer : ∀ {outcome}, ending.outcome? = some outcome →
          Told limit (polls ++ [p]) (p.attempt.giveBack s h outcome).2 := fun he =>
        told_giveBack hp.toAcquired (hp.explained_answer hall hlast hauditing (hclock ▸ hdue) he)
      cases ending with
      | scored => exact hanswer rfl
      | failed e => cases e <;> exact hanswer rfl
      | broken => trivial
    · rw [if_neg hdue]
      have hundecided : ∀ q ∈ polls ++ [p], Undecided due q :=
        forall_append hbefore ⟨hquiet.1, hquiet.2, fun _ => hclock ▸ Nat.not_le.mp hdue⟩
      by_cases hdeadline : deadline ≤ s.clock
      · rw [if_pos hdeadline, hlimit]
        exact told_giveBack hp.toAcquired (hp.explained_timeout hundecided (by omega))
      · rw [if_neg hdeadline]
        exact ⟨hp, hundecided⟩

/-- The attempt has just got a browser; `p` is the present poll. -/
theorem told_gets {supervisor : Supervisor} (hp : p.Gets supervisor h)
    (hurl : validateUrl p.attempt.context.url = .ok ()) (hwaits : ∀ q ∈ polls, Waits q)
    (hwaiting : p.attempt.isWaiting = true) (hlimit : p.site.timeLimit = limit) :
    Told limit (polls ++ [p]) p.after.2 := by
  obtain ⟨hacquired, hclock, hafter, -, -⟩ := hp
  have hlast : p ∈ polls ++ [p] := List.mem_append_right _ (List.mem_singleton_self p)
  have hauditing : p.isAuditing = true := by simp [isAuditing, hacquired]
  have hbrowser : Acquired p.attempt.context (polls ++ [p]) h := by
    refine ⟨hurl, ⟨p, hlast, hacquired⟩, forall_append (fun q hq r hr => ?_) fun r hr => ?_⟩
    · simp [(hwaits q hq).acquired] at hr
    · exact (Option.some.inj (hacquired.symm.trans hr)).symm
  have hstep := hafter
  unfold beginAudit at hstep
  by_cases hbroken : breaksOff { p.site with supervisor } p.signals = true
  · rw [if_pos hbroken] at hstep
    rw [hstep]
    exact told_giveBack hbrowser
      (hbrowser.explained_interrupted ⟨p, hlast, (breaksOff_iff hwaiting hauditing).mp hbroken⟩)
  · rw [if_neg hbroken] at hstep
    dsimp only at hstep
    obtain ⟨_, _, hsite, -⟩ := p.attempt.audit_site _ p.signals h _ _ _
    have hasks : p.Asks h (p.site.engine.audit p.attempt.context.url (p.site.asked p.attempt.context.url)) := by
      refine ⟨?_, rfl⟩
      rw [hstep, hsite, ← hclock]
      rfl
    rw [hstep]
    refine told_audit ⟨hbrowser, forall_append (fun q hq hq' => ?_) fun _ => ?_⟩
      (fun q hq => (hwaits q hq).undecided _) hwaiting hauditing rfl hclock hlimit
    · simp [(hwaits q hq).acquired] at hq'
    · exact ⟨_, hasks, congrArg (· + _) hclock, by rw [← hlimit]; exact congrArg (· + _) hclock, rfl⟩

/-- An attempt ends without a browser; `p` is the present poll. -/
theorem explained_of_waits (hurl : validateUrl c.url = .ok ()) (hwaits : ∀ q ∈ polls, Waits q)
    (hnone : ∀ g, p.acquired? ≠ some (.ok g)) (hauditing : p.isAuditing = false) (hharmless : p.IsHarmless)
    (hrefused : ∀ e, p.acquired? = some (.error e) → outcome = .failed (.launch e))
    (hinterrupted : outcome = .interrupted ↔ p.isStopped = true) : Explained c limit (polls ++ [p]) outcome := by
  have hall : ∀ {P : AttemptPoll → Prop}, (∀ q, Waits q → P q) → P p → ∀ q ∈ polls ++ [p], P q :=
    fun hothers => forall_append fun q hq => hothers q (hwaits q hq)
  have hnobrowser : ∀ q ∈ polls ++ [p], ∀ g, q.acquired? ≠ some (.ok g) :=
    hall (fun q hq g => by simp [hq.acquired]) hnone
  have hidle : ∀ q ∈ polls ++ [p], q.isAuditing = false := hall (fun _ hq => hq.auditing) hauditing
  refine ⟨fun e he => by simp [hurl] at he, ?_, fun _ => hall (fun _ hq => hq.harmless) hharmless, fun _ => ?_,
    fun q hq g hg => absurd hg (hnobrowser q hq g)⟩
  · refine hall (fun q hq e he => by simp [hq.acquired] at he) fun e he => ⟨hrefused e he, fun q hq => ?_⟩
    exact isSilent_of_not_acquired (hnobrowser q hq)
  · rw [hinterrupted]
    refine ⟨fun hstopped => Or.inl ⟨p, List.mem_append_right _ (List.mem_singleton_self p), hstopped⟩, ?_⟩
    rintro (⟨q, hq, hstopped⟩ | ⟨q, hq, hcalledOff⟩ | ⟨audit, ⟨q, hq, -, r, hr, hauditing, -⟩, -⟩)
    · rcases List.mem_append.mp hq with hq | hq
      · simp [(hwaits q hq).stopped] at hstopped
      · exact List.mem_singleton.mp hq ▸ hstopped
    · simp [isCalledOff, hidle q hq] at hcalledOff
    · simp [hidle r hr] at hauditing

/-- The attempt looks at the start of its browser; `p` is the present poll. -/
theorem told_looks {start : Nat} {arrival : LaunchEnding} (hp : p.Looks s start arrival)
    (hurl : validateUrl p.attempt.context.url = .ok ()) (hwaits : ∀ q ∈ polls, Waits q)
    (hwaiting : p.attempt.isWaiting = true) (hbrowser : p.attempt.browser? = none) (hlimit : p.site.timeLimit = limit) :
    Told limit (polls ++ [p]) p.after.2 := by
  rcases hp.cases with ⟨⟨hnone, -, -⟩, hharmless, hcases⟩ | ⟨supervisor, g, hgets⟩
  · have hauditing : p.isAuditing = false := isAuditing_eq_false hnone hbrowser
    have hends : ∀ {outcome}, (∀ e, p.acquired? = some (.error e) → outcome = .failed (.launch e)) →
        (outcome = .interrupted ↔ p.isStopped = true) →
        Told limit (polls ++ [p]) { p.attempt with phase := .ended outcome } :=
      explained_of_waits hurl hwaits hnone hauditing hharmless
    rcases hcases with ⟨hstop, hafter⟩ | ⟨hstop, hacquired, hafter⟩ | ⟨e, hacquired, hafter⟩ | ⟨message, hafter⟩
    all_goals rw [hafter]
    · exact hends (fun e he => by simp [acquired?_of_stop hstop] at he) (by simp [isStopped, hwaiting, hstop])
    · exact ⟨hurl, forall_append hwaits ⟨hacquired, by simp [isStopped, hstop], hauditing, hharmless⟩⟩
    · have hstop : p.signals.stop = false := by
        by_contra hne
        simp [acquired?_of_stop (by simpa using hne)] at hacquired
      exact hends (fun e' he => by simp_all) (by simp [isStopped, hstop])
    · trivial
  · exact told_gets hgets hurl hwaits hwaiting hlimit

/-- While the browser is given back, nothing is added to the explanation. -/
theorem Explained.append (hp : Explained c limit polls outcome) (hbrowser : ∃ q ∈ polls, ∃ h, q.acquired? = some (.ok h))
    (hnone : p.acquired? = none) (hwaiting : p.attempt.isWaiting = false) (hauditing : p.isAuditing = false) :
    Explained c limit (polls ++ [p]) outcome := by
  have hsilent : p.IsSilent := isSilent_of_not_acquired fun g => by simp [hnone]
  have hsplit : ∀ {P : AttemptPoll → Prop}, ¬ P p → ((∃ q ∈ polls ++ [p], P q) ↔ ∃ q ∈ polls, P q) := by
    intro P hlast
    simp [or_and_right, exists_or, hlast]
  have hlooked : ∀ due, (∃ q ∈ polls ++ [p], q.isAuditing = true ∧ due ≤ q.site.clock) ↔
      ∃ q ∈ polls, q.isAuditing = true ∧ due ≤ q.site.clock := fun due => hsplit (by simp [hauditing])
  have hanswered : ∀ audit, Answered (polls ++ [p]) audit ↔ Answered polls audit := by
    intro audit
    simp only [Answered, hlooked]
    refine hsplit fun ⟨⟨g, hasks⟩, _⟩ => ?_
    obtain ⟨g, hg⟩ := hasks.acquired
    simp [hnone] at hg
  refine ⟨fun e he => (hp.rejected e he).imp_right fun h => forall_append h hsilent, ?_, fun hno => ?_,
    fun hurl => ?_, ?_⟩
  · refine forall_append (fun q hq e he => (hp.refused q hq e he).imp_right fun h => forall_append h hsilent)
      fun e he => ?_
    simp [hnone] at he
  · obtain ⟨q, hq, g, hg⟩ := hbrowser
    exact absurd hg (hno q (List.mem_append_left _ hq) g)
  · rw [hp.interrupted hurl, hsplit fun he => by simp [isStopped, hwaiting] at he,
      hsplit fun he => by simp [isCalledOff, hauditing] at he]
    simp only [hanswered]
  · refine forall_append (fun q hq g hg hne => ?_) fun g hg => by simp [hnone] at hg
    obtain ⟨audit, hasks, hwithin, hlate⟩ := hp.audited q hq g hg hne
    exact ⟨audit, hasks, hwithin, fun hlimit => (hlate hlimit).imp_right (And.imp_left (hanswered audit).mpr)⟩

/-- An attempt with a bad address ends in its first poll. -/
theorem explained_of_rejected {e : AuditError} (hurl : validateUrl c.url = .error e) (hnone : p.acquired? = none)
    (hsilent : p.IsSilent) (hharmless : p.IsHarmless) : Explained c limit [p] (.failed (.audit e)) where
  rejected e' he := by
    obtain rfl : e = e' := by simpa [hurl] using he
    exact ⟨rfl, List.forall_mem_singleton.mpr hsilent⟩
  refused := List.forall_mem_singleton.mpr fun e' he => by simp [hnone] at he
  harmless _ := List.forall_mem_singleton.mpr hharmless
  interrupted he := by simp [hurl] at he
  audited := List.forall_mem_singleton.mpr fun g hg => by simp [hnone] at hg

theorem told_fresh (hphase : p.attempt.phase = .fresh) (hlimit : p.site.timeLimit = limit) :
    Told limit [p] p.after.2 := by
  have hafter := after_fresh hphase
  have hbrowser : p.attempt.browser? = none := by simp [browser?, hphase]
  have hwaiting : p.attempt.isWaiting = true := by simp [isWaiting, hphase]
  cases hurl : validateUrl p.attempt.context.url with
  | error e =>
      have hended : p.after = (p.site, { p.attempt with phase := .ended (.failed (.audit e)) }) := by
        simp [hafter, begin, hurl]
      rw [hended]
      exact explained_of_rejected hurl (by simp [acquired?, hphase, hurl]) (by simp [IsSilent, hended])
        (by simp [IsHarmless, hended])
  | ok =>
      have hnobody : ∀ q ∈ ([] : List AttemptPoll), q.Waits := fun _ hq => by cases hq
      have hends : ∀ outcome, p.after = (p.site, { p.attempt with phase := .ended outcome }) →
          (∀ g, p.acquired? ≠ some (.ok g)) → (∀ e, p.acquired? = some (.error e) → outcome = .failed (.launch e)) →
          (outcome = .interrupted ↔ p.isStopped = true) → Told limit [p] p.after.2 := by
        intro outcome hended hnone hrefused hinterrupted
        rw [hended]
        exact explained_of_waits hurl hnobody hnone (isAuditing_eq_false hnone hbrowser)
          (by simp [IsHarmless, hended]) hrefused hinterrupted
      cases hstop : p.signals.stop with
      | true =>
          refine hends .interrupted (by simp [hafter, begin, hurl, hstop]) ?_ ?_
            (by simp [isStopped, hwaiting, hstop])
          · simp [acquired?_of_stop hstop]
          · simp [acquired?_of_stop hstop]
      | false =>
          rcases looks_of_fresh hphase hurl hstop with ⟨e, hacquired, hended⟩ | ⟨s, due, ending, hlooks⟩
          · exact hends _ hended (by simp [hacquired]) (by simp [hacquired]) (by simp [isStopped, hstop])
          · exact told_looks hlooks hurl hnobody hwaiting hbrowser hlimit

/-- The polls up to the present one say what an attempt that goes on comes to. -/
theorem Told.poll (hp : Told limit polls p.attempt) (hgoing : p.attempt.isDone = false)
    (hlimit : p.site.timeLimit = limit) : Told limit (polls ++ [p]) p.after.2 := by
  unfold Told at hp
  cases hphase : p.attempt.phase with
  | fresh =>
      rw [hphase] at hp
      subst hp
      exact told_fresh hphase hlimit
  | launching due ending =>
      rw [hphase] at hp
      exact told_looks (looks_of_launching hphase) hp.1 hp.2 (by simp [isWaiting, hphase]) (by simp [browser?, hphase])
        hlimit
  | auditing g due deadline ending =>
      rw [hphase] at hp
      obtain ⟨haudits, hundecided⟩ := hp
      have hnone : p.acquired? = none := by simp [acquired?, hphase]
      have hstill : Audits p.attempt.context limit (polls ++ [p]) g due deadline ending := by
        refine ⟨⟨haudits.accepted, ?_, forall_append haudits.only fun r hr => by simp [hnone] at hr⟩,
          forall_append haudits.asked fun hacquired => by simp [hnone] at hacquired⟩
        exact haudits.acquired.imp fun _ hq => hq.imp_left (List.mem_append_left _)
      have hafter := after_auditing hphase
      rw [hafter]
      exact told_audit hstill hundecided (by simp [isWaiting, hphase])
        (by simp [isAuditing, hnone, browser?, hphase]) rfl rfl hlimit
  | releasing outcome r =>
      rw [hphase] at hp
      obtain ⟨hexplained, hbrowser⟩ := hp
      have hnone : p.acquired? = none := by simp [acquired?, hphase]
      have hmore := hexplained.append (p := p) hbrowser hnone (by simp [isWaiting, hphase])
        (by simp [isAuditing, hnone, browser?, hphase])
      have hafter := after_releasing hphase
      rw [hafter]
      exact told_release p.attempt p.site r hmore (hbrowser.imp fun _ hq => hq.imp_left (List.mem_append_left _))
  | ended | broken | dropped => simp [isDone, hphase] at hgoing

end Attempt

end PageAudit
