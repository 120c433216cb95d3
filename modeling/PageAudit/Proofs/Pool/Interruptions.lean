import PageAudit.Proofs.Attempt.Interruptions
import PageAudit.Proofs.Pool.Parts

/-!
# Interruptions without a cancellation

In a pool that is not cancelled an attempt is told to end only when it loses its slot, and then its job queues again. So
a job is called off there only if the engine broke its audit off while the attempt held its slot.
-/

namespace PageAudit

namespace Pool

/-- The pool was not cancelled, every interruption that was reported has its excuse, and a job was called off only if
`broke` holds of its page. -/
structure Uncalled (broke : String → Prop) (p : Pool) : Prop where
  untold : p.cancelled = false
  reports : ∀ r ∈ p.reports, r.outcome = .interrupted →
    r.flight.seq ∈ p.stopped ∨ ∃ c, p.started[r.flight.seq - 1]? = some c ∧ broke c.url
  results : ∀ x ∈ p.results,
    x.2.state = .succeeded ∨ x.2.state = .failedPermanent ∨ x.2.state = .cancelled ∧ broke x.2.url

variable {jobs : List Job} {p q : Pool} {broke : String → Prop}

theorem Uncalled.mono {broke' : String → Prop} (h : Uncalled broke p) (hmore : ∀ url, broke url → broke' url) :
    Uncalled broke' p where
  untold := h.untold
  reports r hr ho := (h.reports r hr ho).imp_right fun ⟨c, hc, hb⟩ => ⟨c, hc, hmore _ hb⟩
  results x hx := (h.results x hx).imp_right (Or.imp_right (And.imp_right (hmore _)))

theorem Uncalled.going (h : Uncalled broke p) (hs : Sound jobs p) : p.draining = false := by
  cases hd : p.draining with
  | false => rfl
  | true => exact Bool.noConfusion (h.untold.symm.trans (hs.phased.drained hd).2.2)

/-- Only an attempt that lost its slot is told to stop, and no attempt hears of a cancellation. -/
theorem Uncalled.signals (h : Uncalled broke p) (hs : Sound jobs p) (seq : Nat) :
    (p.signals seq).cancelled = false ∧ ((p.signals seq).stop = true → seq ∈ p.stopped) := by
  refine ⟨h.untold, fun hstop => ?_⟩
  simp only [Pool.signals, Bool.or_eq_true] at hstop
  rcases hstop with hstop | hstop
  · exact Bool.noConfusion ((h.going hs).symm.trans (hs.phased.pressing (Or.inr (Or.inr hstop))))
  · simpa using hstop

theorem Uncalled.of_prolongs (h : Uncalled broke p) (hp : Prolongs p q) (huntold : q.cancelled = false)
    (hreports : q.reports ⊆ p.reports) (hresults : q.results = p.results) : Uncalled broke q where
  untold := huntold
  reports r hr ho := (h.reports r (hreports hr) ho).imp (fun hs => hp.stopped hs) fun ⟨c, hc, hb⟩ =>
    ⟨c, hp.started_eq hc, hb⟩
  results := hresults ▸ h.results

theorem Uncalled.taken {r : SlotReport} {held : Bool} {job : Job} (h : Uncalled broke p) (ht : p.Taken r held job q)
    (o : AttemptOutcome) : Uncalled broke (q.recordOutcome o) := by
  obtain ⟨window, he⟩ := q.recordOutcome_eq o
  rw [he]
  cases ht with
  | running first | preempted first =>
      exact h.of_prolongs (.of_eq rfl rfl id) h.untold (fun x hx => first ▸ List.mem_cons_of_mem _ hx) rfl

/-- An attempt that held its slot was broken off by the engine if it reports an interruption. -/
theorem Uncalled.taken_broke {r : SlotReport} {job : Job} (h : Uncalled broke p) (hs : Sound jobs p)
    (ht : p.Taken r true job q) (ho : r.outcome = .interrupted) : broke job.url := by
  have hflown := hs.flown
  have hreport := h.reports r ht.mem ho
  have hflight := hflown.reports r ht.mem
  cases ht with
  | @running e _ first mem place =>
      obtain ⟨hfly, hheld, hcontext⟩ := hflown.running e mem
      have hseq : r.flight.seq = e.seq := by rw [hflown.eq_of_planIndex hs.placed hflight hfly place.symm]
      rw [hseq] at hreport
      rcases hreport with hstopped | ⟨c, hc, hb⟩
      · exact absurd hstopped hheld
      · obtain rfl := Option.some.inj (hcontext.symm.trans hc)
        exact hb

theorem Uncalled.emit {r : Result} {reason : FinalizeReason} (h : Uncalled broke p)
    (hr : r.state = .succeeded ∨ r.state = .failedPermanent) : Uncalled broke (p.emit r reason) := by
  refine { h with results := fun x hx => ?_ }
  rcases List.mem_append.mp hx with hx | hx
  · exact h.results x hx
  · rw [List.mem_singleton.mp hx]
    exact hr.imp_right Or.inl

theorem Uncalled.calledOff {job : Job} {reason : String} (h : Uncalled broke p) (hb : broke job.url) :
    Uncalled broke (p.calledOff reason [job]) := by
  refine { h with results := fun x hx => ?_ }
  rcases List.mem_append.mp hx with hx | hx
  · exact h.results x hx
  · rw [List.mem_singleton.mp hx]
    exact Or.inr (Or.inr ⟨rfl, hb⟩)

/-- An act of a pool that is not cancelled calls no job off unless the engine broke its audit off. -/
theorem Uncalled.act (h : Uncalled broke p) (hs : Sound jobs p) (hact : Act p q) : Uncalled broke q := by
  have going := h.going hs
  have hprolongs := hact.prolongs
  cases hact with
  | succeed _ taken => exact (h.taken taken _).emit (Or.inl rfl)
  | giveUp _ taken => exact (h.taken taken _).emit (Or.inr rfl)
  | postpone _ taken => exact { h.taken taken _ with }
  | @callOff _ r held _ _ _ taken why =>
      rcases why with ⟨ho, rfl | hd⟩ | ⟨hd, _⟩
      · exact (h.taken taken _).calledOff (h.taken_broke hs taken ho)
      · exact Bool.noConfusion (going.symm.trans hd)
      · exact Bool.noConfusion (going.symm.trans hd)
  | requeue _ taken => exact { h.taken taken .interrupted with }
  | shrink | launch => exact h.of_prolongs hprolongs h.untold (List.Subset.refl _) rfl
  | drain _ _ told => exact Bool.noConfusion (h.untold.symm.trans told)
  | abandon _ passed => exact Bool.noConfusion (going.symm.trans (hs.phased.draining_of_due (Or.inr passed)))
  | _ => exact { h with }

theorem Uncalled.acts (h : Uncalled broke p) (hs : Sound jobs p) (hacts : Acts p q) : Uncalled broke q := by
  induction hacts with
  | refl => exact h
  | tail hfirst hact ih => exact ih.act (hs.acts hfirst) hact

theorem Uncalled.news (h : Uncalled broke p) (hnews : News p q) (huntold : q.cancelled = false) :
    Uncalled broke q := by
  cases hnews <;> exact h.of_prolongs (.of_eq rfl rfl id) huntold (List.Subset.refl _) rfl

end Pool

namespace PoolSession

open Pool Site

/-- A pool at work that is not cancelled: its attempts are those that were started, and every interruption has its
excuse. `start` is the site at the beginning. -/
structure Undisturbed (start : Site) (x : PoolSession) : Prop where
  site : Continues start x.site
  pool : Uncalled (start.BrokeOff x.site) x.pool
  contexts : ∀ (i : Nat) (a : Attempt), x.attempts[i]? = some a → x.pool.started[i]? = some a.context
  excused : ∀ (i : Nat) (a : Attempt), x.attempts[i]? = some a →
    a.Excused (i + 1 ∈ x.pool.stopped) (start.BrokeOff x.site a.context.url)

variable {jobs : List Job} {start : Site} {x y : PoolSession} {i : Nat} {a : Attempt}

theorem Undisturbed.advance (h : Undisturbed start x) (hs : Sound jobs x.pool) (ha : Advances x y)
    (huntold : y.pool.cancelled = false) : Undisturbed start y := by
  have hprolongs := ha.prolongs
  obtain ⟨supervisor, hsite, _⟩ := ha.site
  have hcontinues : Continues x.site y.site := by
    rw [hsite]
    exact ⟨rfl, List.prefix_rfl⟩
  have hpool : Uncalled (start.BrokeOff x.site) y.pool :=
    ha.pool.elim (h.pool.acts hs) fun hnews => h.pool.news hnews huntold
  refine {
    site := h.site.trans hcontinues
    pool := hpool.mono fun _ hb => hb.mono hcontinues
    contexts := fun i a hi => ?_
    excused := fun i a hi => ?_ }
  · rcases ha.cases hi with hold | ⟨_, hstarted⟩
    · exact hprolongs.started_eq (h.contexts i a hold)
    · exact hstarted
  · rcases ha.cases hi with hold | ⟨hfresh, _⟩
    · exact (h.excused i a hold).mono (fun hstopped => hprolongs.stopped hstopped) fun hb => hb.mono hcontinues
    · simp [Attempt.Excused, hfresh]

/-- What a poll of an attempt needs to leave behind. -/
theorem Undisturbed.put (h : Undisturbed start x) (hi : x.attempts[i]? = some a) {z : Site × Attempt}
    (hz : a.Heeds start (i + 1 ∈ x.pool.stopped) x.site z) {listeners : List PoolTask} {roster : List Nat}
    {reports : List SlotReport}
    (hreports : ∀ r ∈ reports, r ∈ x.pool.reports ∨ r.flight.seq = i + 1 ∧ z.2.outcome? = some r.outcome) :
    Undisturbed start { x with
      site := z.1, attempts := x.attempts.set i z.2, listeners, pool := { x.pool with roster, reports } } := by
  refine {
    site := h.site.trans hz.continues
    pool := {
      untold := h.pool.untold
      reports := fun r hr ho => ?_
      results := (h.pool.mono fun _ hb => hb.mono hz.continues).results }
    contexts := fun j c hj => ?_
    excused := fun j c hj => ?_ }
  · rcases hreports r hr with hold | ⟨hseq, hout⟩
    · exact (h.pool.mono fun _ hb => hb.mono hz.continues).reports r hold ho
    · rw [ho] at hout
      rw [hseq]
      exact (hz.excused.of_outcome hout).imp_right fun hb => ⟨_, h.contexts i a hi, hb⟩
  · rcases getElem?_set_cases hj with ⟨rfl, rfl⟩ | ⟨_, hold⟩
    · rw [hz.context]
      exact h.contexts j a hi
    · exact h.contexts j c hold
  · rcases getElem?_set_cases hj with ⟨rfl, rfl⟩ | ⟨_, hold⟩
    · rw [hz.context]
      exact hz.excused
    · exact (h.excused j c hold).mono id fun hb => hb.mono hz.continues

theorem Undisturbed.tried (h : Undisturbed start x) (hs : Sound jobs x.pool) (hi : x.attempts[i]? = some a)
    (ht : x.Tried i a y) : Undisturbed start y := by
  have hexcused := h.excused i a hi
  cases ht with
  | polled _ reported =>
      obtain ⟨hrun, hstop⟩ := h.pool.signals hs (i + 1)
      exact h.put hi (hexcused.poll h.site hrun hstop) reported
  | dropped => exact h.put hi hexcused.drop fun r hr => Or.inl hr

theorem Undisturbed.pollAttempt (h : Undisturbed start x) (hs : Sound jobs x.pool) {seq : Nat} (hseq : 0 < seq) :
    Undisturbed start (x.pollAttempt seq) := by
  rcases x.pollAttempt_cases hseq with he | ⟨a, ha, _, ht⟩
  · rw [he]
    exact h
  · exact h.tried hs ha ht

theorem Undisturbed.pollBackground (h : Undisturbed start x) (n : Nat) :
    Undisturbed start (x.poll (.background n)) := by
  have hcontinues : Continues x.site (x.site.pollBackground n) := by
    unfold Site.pollBackground
    split <;> exact ⟨rfl, List.prefix_rfl⟩
  exact {
    site := h.site.trans hcontinues
    pool := h.pool.mono fun _ hb => hb.mono hcontinues
    contexts := h.contexts
    excused := fun i a hi => (h.excused i a hi).mono id fun hb => hb.mono hcontinues }

end PoolSession

end PageAudit
