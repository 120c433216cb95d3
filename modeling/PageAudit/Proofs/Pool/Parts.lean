import PageAudit.Proofs.Pool.Browsers
import PageAudit.Proofs.Pool.Tracking
import PageAudit.Proofs.Supervisor.Minding

/-!
# The parts of a pool at work

The pool goes on by itself: it starts attempts, which come into being, and gives browsers up, but it leaves the site and
the attempts that there are alone. An attempt changes itself and the site, and it reports at most.
-/

namespace PageAudit

theorem getElem?_set_cases {α : Type} {l : List α} {i j : Nat} {b c : α} (h : (l.set i b)[j]? = some c) :
    j = i ∧ c = b ∨ j ≠ i ∧ l[j]? = some c := by
  by_cases hji : j = i
  · subst hji
    obtain ⟨hlt, hat⟩ := List.getElem?_eq_some_iff.mp h
    rw [List.getElem_set_self] at hat
    exact Or.inl ⟨rfl, hat.symm⟩
  · rw [List.getElem?_set_ne (Ne.symm hji)] at h
    exact Or.inr ⟨hji, h⟩

/-! ## What is kept of attempts -/

namespace Pool

variable {p q : Pool}

/-- Every attempt that was started stays in the row, those that were told to end stay so, and a pool that is halted
stays halted. -/
structure Prolongs (p q : Pool) : Prop where
  started : p.started <+: q.started
  stopped : p.stopped ⊆ q.stopped
  halted : p.Halted → q.Halted

theorem Prolongs.of_eq (hstarted : q.started = p.started) (hstopped : q.stopped = p.stopped)
    (halted : p.Halted → q.Halted) : Prolongs p q :=
  ⟨hstarted ▸ List.prefix_rfl, hstopped ▸ List.Subset.refl _, halted⟩

theorem Prolongs.trans {s : Pool} (h : Prolongs p q) (h' : Prolongs q s) : Prolongs p s :=
  ⟨h.started.trans h'.started, List.Subset.trans h.stopped h'.stopped, fun hp => h'.halted (h.halted hp)⟩

theorem Prolongs.started_eq (h : Prolongs p q) {i : Nat} {c : AttemptContext} (hc : p.started[i]? = some c) :
    q.started[i]? = some c := by
  obtain ⟨more, hmore⟩ := h.started
  rw [← hmore, List.getElem?_append_left (List.getElem?_eq_some_iff.mp hc).1]
  exact hc

theorem Act.prolongs (hact : Act p q) : Prolongs p q := by
  cases hact with
  | succeed _ taken | giveUp _ taken | postpone _ taken | callOff _ _ taken =>
      obtain ⟨_, _, _, _, _, _, _, he⟩ := taken.recordOutcome_eq _
      rw [he]
      exact .of_eq rfl rfl id
  | requeue _ taken =>
      cases taken with
      | preempted => exact .of_eq rfl rfl id
  | shrink => exact ⟨List.prefix_rfl, List.subset_append_left _ _, id⟩
  | launch => exact ⟨List.prefix_append _ _, List.Subset.refl _, id⟩
  | breakDown | collapse => exact .of_eq rfl rfl fun _ => Or.inr rfl
  | force => exact .of_eq rfl rfl fun _ => Or.inl rfl
  | _ => exact .of_eq rfl rfl id

theorem Acts.prolongs (hacts : Acts p q) : Prolongs p q := by
  induction hacts with
  | refl => exact .of_eq rfl rfl id
  | tail _ hact ih => exact ih.trans hact.prolongs

theorem News.prolongs (hnews : News p q) : Prolongs p q := by
  cases hnews <;> exact .of_eq rfl rfl id

end Pool

/-! ## What is kept of the browsers -/

namespace Supervisor

variable {s t u : Supervisor}

/-- Browsers are given up at most, and the starts that go on are left alone. -/
structure Spares (s t : Supervisor) : Prop extends Recedes s t where
  launching : t.registry.launching = s.registry.launching

theorem Spares.refl (s : Supervisor) : Spares s s :=
  ⟨.refl s, rfl⟩

theorem Spares.trans (h : Spares s t) (h' : Spares t u) : Spares s u :=
  ⟨h.toRecedes.trans h'.toRecedes, h'.launching.trans h.launching⟩

theorem Spares.of_clears {rows rows' : Nat → Prop} (hr : Recedes s t) (hc : Clears s t rows rows') : Spares s t :=
  ⟨hr, hc.launching⟩

end Supervisor

namespace PoolSession

open Pool Supervisor

/-- The pool has gone on, without any of its attempts. -/
structure Advances (x y : PoolSession) : Prop where
  pool : Acts x.pool y.pool ∨ News x.pool y.pool
  site : ∃ supervisor, y.site = { x.site with supervisor } ∧ Spares x.site.supervisor supervisor
  attempts : x.attempts <+: y.attempts
  /-- New attempts are those that the pool has started. -/
  hired : ∀ (i : Nat) (a : Attempt), x.attempts.length ≤ i → y.attempts[i]? = some a →
    a.phase = .fresh ∧ y.pool.started[i]? = some a.context

/-- What a poll of an attempt that is not done does to a pool at work. -/
inductive Tried (x : PoolSession) (i : Nat) (a : Attempt) : PoolSession → Prop where
  | polled {listeners : List PoolTask} {roster : List Nat} {reports : List SlotReport}
      (flying : x.pool.isInFlight (i + 1) = true)
      (reported : ∀ r ∈ reports, r ∈ x.pool.reports ∨ r.flight.seq = i + 1 ∧
        (a.poll x.site (x.pool.signals (i + 1))).2.outcome? = some r.outcome) :
      Tried x i a { x with
        site := (a.poll x.site (x.pool.signals (i + 1))).1
        attempts := x.attempts.set i (a.poll x.site (x.pool.signals (i + 1))).2
        listeners
        pool := { x.pool with roster, reports } }
  | dropped {listeners : List PoolTask} (out : x.pool.isInFlight (i + 1) = false) :
      Tried x i a { x with
        site := (a.drop x.site).1
        attempts := x.attempts.set i (a.drop x.site).2
        listeners }

variable {jobs : List Job} {x y : PoolSession}

/-! ## The pool -/

theorem Advances.of_pool {p : Pool} (hp : Acts x.pool p ∨ News x.pool p) (hsite : y.site = x.site)
    (hattempts : y.attempts = x.attempts) (hpool : y.pool = p) : Advances x y where
  pool := hpool ▸ hp
  site := ⟨x.site.supervisor, hsite, .refl _⟩
  attempts := hattempts ▸ List.prefix_rfl
  hired i a hi ha := by
    rw [hattempts, List.getElem?_eq_none hi] at ha
    cases ha

theorem Advances.prolongs (h : Advances x y) : Prolongs x.pool y.pool :=
  h.pool.elim Acts.prolongs News.prolongs

theorem Advances.cases (h : Advances x y) {i : Nat} {a : Attempt} (ha : y.attempts[i]? = some a) :
    x.attempts[i]? = some a ∨ a.phase = .fresh ∧ y.pool.started[i]? = some a.context := by
  rcases Nat.lt_or_ge i x.attempts.length with hi | hi
  · obtain ⟨hired, hmore⟩ := h.attempts
    rw [← hmore, List.getElem?_append_left hi] at ha
    exact Or.inl ha
  · exact Or.inr (h.hired i a hi ha)

theorem forceOn_site (x : PoolSession) (k : Kills) :
    (x.forceOn k).site = { x.site with supervisor := (k.poll x.site.supervisor).1 } := by
  unfold forceOn
  dsimp only
  split <;> rfl

theorem turnOn_site (x : PoolSession) : x.turnOn.site = x.site ∨
    ∃ k : Kills, x.turnOn.site = { x.site with supervisor := (k.poll (Kills.ofAll x.site.supervisor).1).1 } := by
  unfold turnOn
  dsimp only
  split
  · exact Or.inr ⟨_, forceOn_site _ _⟩
  · exact Or.inl rfl

theorem spares_poll (k : Kills) (s : Supervisor) : Spares s (k.poll s).1 :=
  .of_clears (k.recedes_poll s) (k.clears_poll s)

theorem pollPool_site (x : PoolSession) :
    ∃ supervisor, x.pollPool.site = { x.site with supervisor } ∧ Spares x.site.supervisor supervisor := by
  have hforced : ∀ k : Kills, ∃ supervisor, (x.forceOn k).site = { x.site with supervisor } ∧
      Spares x.site.supervisor supervisor := fun k => ⟨_, x.forceOn_site k, spares_poll k _⟩
  have hturned : ∃ supervisor, x.turnOn.site = { x.site with supervisor } ∧
      Spares x.site.supervisor supervisor := by
    rcases x.turnOn_site with he | ⟨k, he⟩
    · exact ⟨_, he, .refl _⟩
    · have hdrained : Spares x.site.supervisor (Kills.ofAll x.site.supervisor).1 :=
        .of_clears (recedes_drain _) (clears_drain _)
      exact ⟨_, he, hdrained.trans (spares_poll k _)⟩
  unfold pollPool
  dsimp only
  rw [noteEnd_site]
  cases x.forced with
  | some k =>
      dsimp only
      split <;> exact hforced k
  | none =>
      dsimp only
      split <;> exact hturned

theorem advances_pollPool (h : Sound jobs x.pool) : Advances x x.pollPool where
  pool := Or.inl (acts_pollPool h)
  site := x.pollPool_site
  attempts := ⟨_, x.pollPool_attempts.symm⟩
  hired i a hi ha := by
    rw [pollPool_attempts, List.getElem?_append_right hi, List.getElem?_map, List.getElem?_drop,
      Nat.add_sub_cancel' hi] at ha
    obtain ⟨c, hc, rfl⟩ := Option.map_eq_some_iff.mp ha
    exact ⟨rfl, hc⟩

/-! ## Attempts -/

theorem Tried.getElem?_ne {i j : Nat} {a : Attempt} (h : x.Tried j a y) (hij : i ≠ j) :
    y.attempts[i]? = x.attempts[i]? := by
  cases h <;> exact List.getElem?_set_ne (Ne.symm hij)

theorem pollAttempt_cases (x : PoolSession) {seq : Nat} (hseq : 0 < seq) : x.pollAttempt seq = x ∨
    ∃ a, x.attempts[seq - 1]? = some a ∧ a.isDone = false ∧ x.Tried (seq - 1) a (x.pollAttempt seq) := by
  have hnumber : seq - 1 + 1 = seq := Nat.sub_add_cancel hseq
  unfold pollAttempt
  cases ha : x.attempts[seq - 1]? with
  | none => exact Or.inl rfl
  | some a =>
      dsimp only
      split
      · exact Or.inl rfl
      · rename_i hgoing
        refine Or.inr ⟨a, rfl, by simpa using hgoing, ?_⟩
        obtain ⟨listeners, hput⟩ := x.putAttempt_eq seq (a.poll x.site (x.pool.signals seq)).1
          (a.poll x.site (x.pool.signals seq)).2
        obtain ⟨listeners', hput'⟩ := x.putAttempt_eq seq (a.drop x.site).1 (a.drop x.site).2
        split
        · rename_i hflying
          have htried : ∀ {roster : List Nat} {reports : List SlotReport},
              (∀ r ∈ reports, r ∈ x.pool.reports ∨ r.flight.seq = seq ∧
                (a.poll x.site (x.pool.signals seq)).2.outcome? = some r.outcome) →
              x.Tried (seq - 1) a { x with
                site := (a.poll x.site (x.pool.signals seq)).1
                attempts := x.attempts.set (seq - 1) (a.poll x.site (x.pool.signals seq)).2
                listeners
                pool := { x.pool with roster, reports } } := by
            intro roster reports hreported
            have hpolled := @Tried.polled x (seq - 1) a listeners roster reports
            rw [hnumber] at hpolled
            exact hpolled hflying hreported
          rw [hput]
          split
          · rename_i outcome hout
            obtain ⟨roster, reports, he, hnew⟩ := x.pool.receive_eq seq outcome
            dsimp only
            rw [he]
            exact htried fun r hr => (hnew r hr).imp_right fun ⟨hs, ho⟩ => ⟨hs, ho ▸ hout⟩
          · exact htried fun r hr => Or.inl hr
        · rename_i hout
          rw [hput']
          exact .dropped (by rw [hnumber]; simpa using hout)

end PoolSession

end PageAudit
