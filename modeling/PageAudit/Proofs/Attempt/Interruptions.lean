import PageAudit.Attempt.Flow

/-!
# Interrupted attempts

An attempt ends as interrupted when it was told to stop, when a cancelled run breaks off its audit, or when the engine
itself says that the audit was interrupted.
-/

namespace PageAudit

namespace Site

/-- How many audits of a page the engine was asked for. -/
def asked (s : Site) (url : String) : Nat :=
  s.calls.countP fun c => c.url == url

/-- Between two states of a site the engine was asked for an audit of a page that it ends as interrupted. -/
def BrokeOff (s t : Site) (url : String) : Prop :=
  ∃ n, s.asked url ≤ n ∧ n < t.asked url ∧ (s.engine.audit url n).ending = .failed .interrupted

/-- The engine is the same one and has been asked for more audits at most. -/
structure Continues (s t : Site) : Prop where
  engine : t.engine = s.engine
  calls : s.calls <+: t.calls

variable {s t u : Site} {url : String}

theorem Continues.refl (s : Site) : Continues s s := ⟨rfl, List.prefix_rfl⟩

theorem Continues.trans (h : Continues s t) (h' : Continues t u) : Continues s u :=
  ⟨h'.engine.trans h.engine, h.calls.trans h'.calls⟩

theorem Continues.asked_le (h : Continues s t) (url : String) : s.asked url ≤ t.asked url :=
  h.calls.sublist.countP_le

theorem BrokeOff.mono (h : s.BrokeOff t url) (ht : Continues t u) : s.BrokeOff u url := by
  obtain ⟨n, hle, hlt, hending⟩ := h
  exact ⟨n, hle, Nat.lt_of_lt_of_le hlt (ht.asked_le url), hending⟩

theorem continues_beginAudit (s : Site) (url endpoint : String) : Continues s (s.beginAudit url endpoint).1 :=
  ⟨rfl, List.prefix_append _ _⟩

/-- An audit that is asked for and ends as interrupted is broken off by the engine. -/
theorem Continues.brokeOff_beginAudit (h : Continues s t) {endpoint : String}
    (hending : (t.beginAudit url endpoint).2.ending = .failed .interrupted) :
    s.BrokeOff (t.beginAudit url endpoint).1 url := by
  refine ⟨t.asked url, h.asked_le url, ?_, ?_⟩
  · simp [beginAudit, asked, List.countP_append]
  · rw [← h.engine]
    exact hending

end Site

namespace Attempt

open Site

/-- If the attempt ends as interrupted, then it was told to stop or the engine broke its audit off. -/
def Excused (a : Attempt) (told broke : Prop) : Prop :=
  match a.phase with
  | .auditing _ _ _ ending => ending = .failed .interrupted → broke
  | .releasing outcome _ | .ended outcome => outcome = .interrupted → told ∨ broke
  | _ => True

theorem Excused.mono {a : Attempt} {told broke told' broke' : Prop} (h : a.Excused told broke) (ht : told → told')
    (hb : broke → broke') : a.Excused told' broke' := by
  unfold Excused at h ⊢
  cases hphase : a.phase with
  | auditing _ _ _ ending =>
      rw [hphase] at h
      exact fun hending => hb (h hending)
  | releasing outcome | ended outcome =>
      rw [hphase] at h
      exact fun ho => (h ho).imp ht hb
  | _ => trivial

/-- Of an attempt that reports an interruption, the excuse is known. -/
theorem Excused.of_outcome {a : Attempt} {told broke : Prop} (h : a.Excused told broke)
    (ho : a.outcome? = some .interrupted) : told ∨ broke := by
  unfold outcome? at ho
  unfold Excused at h
  split at ho
  · rename_i hphase
    rw [hphase] at h
    exact h (Option.some.inj ho)
  · cases ho
  · cases ho

/-- An attempt has gone on from a site with an excuse for an interruption; `start` is the site at the beginning. -/
structure Heeds (start : Site) (told : Prop) (a : Attempt) (s : Site) (x : Site × Attempt) : Prop where
  context : x.2.context = a.context
  continues : Continues s x.1
  excused : x.2.Excused told (start.BrokeOff x.1 a.context.url)

variable {start s t : Site} {told : Prop} {a : Attempt} {signals : AttemptSignals} {x : Site × Attempt}

theorem Heeds.after (h : a.Heeds start told t x) (ht : Continues s t) : a.Heeds start told s x :=
  { h with continues := ht.trans h.continues }

theorem heeds_release (outcome : AttemptOutcome) (r : Release)
    (ho : outcome = .interrupted → told ∨ start.BrokeOff s a.context.url) :
    a.Heeds start told s (a.release s outcome r) := by
  have hexcuse : ∀ {supervisor : Supervisor}, outcome = .interrupted →
      told ∨ start.BrokeOff { s with supervisor } a.context.url := fun hi =>
    (ho hi).imp_right fun hb => hb.mono ⟨rfl, List.prefix_rfl⟩
  refine ⟨rfl, ⟨rfl, List.prefix_rfl⟩, ?_⟩
  unfold release releasePhase
  dsimp only
  split
  · split
    · exact hexcuse
    · trivial
  · exact hexcuse

theorem heeds_giveBack (h : BrowserHandle) (outcome : AttemptOutcome)
    (ho : outcome = .interrupted → told ∨ start.BrokeOff s a.context.url) :
    a.Heeds start told s (a.giveBack s h outcome) :=
  heeds_release outcome { handle := h } ho

/-- A run that is not cancelled breaks an audit off only if the attempt was told to stop. -/
theorem heeds_audit (hrun : signals.cancelled = false) (hstop : signals.stop = true → told) (h : BrowserHandle)
    (due deadline : Nat) {ending : AuditEnding}
    (hending : ending = .failed .interrupted → start.BrokeOff s a.context.url) :
    a.Heeds start told s (a.audit s signals h due deadline ending) := by
  have hother : ∀ outcome : AttemptOutcome, outcome ≠ .interrupted →
      a.Heeds start told s (a.giveBack s h outcome) := fun outcome hne =>
    heeds_giveBack h outcome fun ho => absurd ho hne
  unfold audit
  split
  · rename_i hbreaks
    refine heeds_giveBack h _ fun _ => Or.inl (hstop ?_)
    simpa [breaksOff, hrun] using hbreaks
  · split
    · cases ending with
      | scored => exact hother _ (by simp)
      | failed e =>
          cases e with
          | interrupted => exact heeds_giveBack h _ fun _ => Or.inr (hending rfl)
          | _ => exact hother _ (by simp)
      | broken => exact ⟨rfl, ⟨rfl, List.prefix_rfl⟩, trivial⟩
    · split
      · exact hother _ (by simp)
      · exact ⟨rfl, .refl s, hending⟩

theorem heeds_beginAudit (hs : Continues start s) (hrun : signals.cancelled = false)
    (hstop : signals.stop = true → told) (h : BrowserHandle) :
    a.Heeds start told s (a.beginAudit s signals h) := by
  unfold beginAudit
  split
  · rename_i hbreaks
    refine heeds_giveBack h _ fun _ => Or.inl (hstop ?_)
    simpa [breaksOff, hrun] using hbreaks
  · exact (heeds_audit hrun hstop h _ _ hs.brokeOff_beginAudit).after (s.continues_beginAudit _ _)

theorem heeds_launch (hs : Continues start s) (hrun : signals.cancelled = false)
    (hstop : signals.stop = true → told) (due : Nat) (ending : LaunchEnding) :
    a.Heeds start told s (a.launch s signals due ending) := by
  unfold launch
  dsimp only
  split
  · rename_i hstopped
    exact ⟨rfl, ⟨rfl, List.prefix_rfl⟩, fun _ => Or.inl (hstop hstopped)⟩
  · split
    · exact ⟨rfl, .refl s, trivial⟩
    · cases ending with
      | ready =>
          have hready : Continues s { s with supervisor :=
              (s.supervisor.endLaunch a.context.jobId a.context.attempt).1 } := ⟨rfl, List.prefix_rfl⟩
          exact (heeds_beginAudit (hs.trans hready) hrun hstop _).after hready
      | failed => exact ⟨rfl, ⟨rfl, List.prefix_rfl⟩, fun ho => by cases ho⟩
      | broken => exact ⟨rfl, ⟨rfl, List.prefix_rfl⟩, trivial⟩

theorem heeds_begin (hs : Continues start s) (hrun : signals.cancelled = false)
    (hstop : signals.stop = true → told) : a.Heeds start told s (a.begin s signals) := by
  unfold begin
  split
  · exact ⟨rfl, .refl s, fun ho => by cases ho⟩
  · split
    · rename_i hstopped
      exact ⟨rfl, .refl s, fun _ => Or.inl (hstop hstopped)⟩
    · split
      · exact ⟨rfl, .refl s, fun ho => by cases ho⟩
      · rename_i supervisor _ _
        have hbegun : Continues s { s with supervisor } := ⟨rfl, List.prefix_rfl⟩
        exact (heeds_launch (hs.trans hbegun) hrun hstop _ _).after hbegun

/-- In a run that is not cancelled, an attempt goes on with an excuse for an interruption. -/
theorem Excused.poll (h : a.Excused told (start.BrokeOff s a.context.url)) (hs : Continues start s)
    (hrun : signals.cancelled = false) (hstop : signals.stop = true → told) :
    a.Heeds start told s (a.poll s signals) := by
  have hsame : a.Heeds start told s (s, a) := ⟨rfl, .refl s, h⟩
  unfold Excused at h
  unfold Attempt.poll
  cases hphase : a.phase with
  | fresh => exact heeds_begin hs hrun hstop
  | launching due ending => exact heeds_launch hs hrun hstop due ending
  | auditing handle due deadline ending =>
      rw [hphase] at h
      exact heeds_audit hrun hstop handle due deadline h
  | releasing outcome r =>
      rw [hphase] at h
      exact heeds_release outcome r h
  | ended | broken | dropped => exact hsame

theorem Excused.drop (h : a.Excused told (start.BrokeOff s a.context.url)) :
    a.Heeds start told s (a.drop s) := by
  have hdone : ∀ t : Site, Continues s t → a.Heeds start told s (t, if a.isDone then a else { a with phase := .dropped }) := by
    intro t ht
    split
    · exact ⟨rfl, ht, h.mono id fun hb => hb.mono ht⟩
    · exact ⟨rfl, ht, trivial⟩
  unfold Attempt.drop
  dsimp only
  cases a.phase with
  | launching | auditing => exact hdone _ ⟨rfl, List.prefix_rfl⟩
  | _ => exact hdone _ (.refl s)

end Attempt

end PageAudit
