import PageAudit.Proofs.Attempt.Balance

/-!
# Attempts from end to end

Attempts share a site with one another, with browsers that are given back in the background, with releases of all
browsers and with sweeps. All of them go on in any order and at any times. An attempt that has come to its end has its
outcome for the reasons that its polls give, and the browser that it had is not registered any more: one kill of the
process was asked for. The exception is a browser that was released with all others: the attempt has nothing left to do,
and the release may still have other browsers before it.
-/

namespace PageAudit

open Supervisor

/-- An attempt with the polls that it has had. -/
structure CrewMember where
  attempt : Attempt
  polls : List AttemptPoll := []

/-- Attempts at one site. -/
structure Crew where
  site : Site
  members : List CrewMember := []
  /-- The releases of all browsers and the sweeps. -/
  rows : List Kills := []
  /-- The processes that sweeps have collected. -/
  swept : List Nat := []

/-- What can happen at a site. -/
inductive CrewAct where
  | elapse (now : Nat)
  /-- A new attempt comes in. -/
  | join (context : AttemptContext)
  | poll (n : Nat) (signals : AttemptSignals)
  /-- An attempt is abandoned. -/
  | drop (n : Nat)
  /-- A browser that is given back in the background goes on. -/
  | background (n : Nat)
  /-- All browsers are taken out of the registry. -/
  | releaseAll
  | sweep
  /-- A release of all browsers or a sweep goes on. -/
  | goOn (n : Nat)

/-- No browser was asked for yet. -/
structure Site.Unused (s : Site) : Prop where
  handles : s.supervisor.registry.handles = []
  launching : s.supervisor.registry.launching = []
  launched : s.supervisor.launched = 0
  killCalls : s.supervisor.killCalls = []
  background : s.background = []

namespace Crew

/-- The kills that are still to be asked for. -/
def owed (x : Crew) : List Nat :=
  x.rows.flatMap fun k => k.waiting

/-- What follows an act. Time does not go back. -/
def step (x : Crew) : CrewAct → Crew
  | .elapse now => { x with site := x.site.elapse (max x.site.clock now) }
  | .join context => { x with members := x.members ++ [{ attempt := { context } }] }
  | .poll n signals =>
    match x.members[n]? with
    | some m =>
      if m.attempt.isDone then x
      else
        let p : AttemptPoll := { site := x.site, attempt := m.attempt, signals }
        { x with site := p.after.1, members := x.members.set n { attempt := p.after.2, polls := m.polls ++ [p] } }
    | none => x
  | .drop n =>
    match x.members[n]? with
    | some m =>
      if m.attempt.isDone then x
      else
        let (site, attempt) := m.attempt.drop x.site
        { x with site, members := x.members.set n { m with attempt } }
    | none => x
  | .background n => { x with site := x.site.pollBackground n }
  | .releaseAll =>
    let (supervisor, k) := Kills.ofAll x.site.supervisor
    { x with site := { x.site with supervisor }, rows := x.rows ++ [k] }
  | .sweep =>
    let (supervisor, k) := Kills.ofSweep x.site.supervisor
    { x with site := { x.site with supervisor }, rows := x.rows ++ [k], swept := x.swept ++ k.waiting }
  | .goOn n =>
    match x.rows[n]? with
    | some k =>
      let (supervisor, k) := k.poll x.site.supervisor
      { x with site := { x.site with supervisor }, rows := x.rows.set n k }
    | none => x

/-- What follows acts in order. -/
def after (x : Crew) (acts : List CrewAct) : Crew :=
  acts.foldl step x

/-! ## What holds at all times -/

variable {x y : Crew} {limit n : Nat} {m : CrewMember}

/-- Every job has one place in the registry at most, and a start that goes on has its place. -/
structure Placed (x : Crew) : Prop where
  exclusive : x.site.supervisor.registry.Exclusive
  reserved : ∀ (i : Nat) (m : CrewMember), x.members[i]? = some m → m.attempt.isLaunching = true →
    m.attempt.context.jobId ∈ x.site.supervisor.registry.launching
  alone : ∀ (i j : Nat) (m m' : CrewMember), x.members[i]? = some m → x.members[j]? = some m' →
    m.attempt.isLaunching = true → m'.attempt.isLaunching = true → m.attempt.context.jobId = m'.attempt.context.jobId → i = j
  own : ∀ m ∈ x.members, ∀ h, m.attempt.browser? = some h → h.jobId = m.attempt.context.jobId

/-- Apart from sweeps, every process has as many kills, asked for or owed, as it has starts, less the browsers that are
held, as long as no kill breaks down. -/
structure Balanced (x : Crew) : Prop where
  owed : ∀ m ∈ x.members, m.attempt.owed = []
  background : ∀ r ∈ x.site.background, r.owed = []
  balance : x.site.supervisor.launcher.Steady → ∀ pid, x.site.supervisor.balance x.owed pid = x.swept.count pid

/-- The browser of an attempt is registered only while its page is audited, unless the attempt is lost. -/
structure Listed (x : Crew) : Prop where
  started : ∀ g ∈ x.site.supervisor.registry.handles, g.pid ∈ x.site.supervisor.starts
  acquired : ∀ m ∈ x.members, ∀ p ∈ m.polls, ∀ h, p.acquired? = some (.ok h) → h.pid ∈ x.site.supervisor.starts
  held : ∀ m ∈ x.members, ∀ p ∈ m.polls, ∀ h, p.acquired? = some (.ok h) →
    x.site.supervisor.starts.count h.pid = 1 → ∀ g ∈ x.site.supervisor.registry.handles, g.pid = h.pid →
      m.attempt.browser? = some g ∨ m.attempt.isLost = true

/-- What holds at all times. -/
structure Sound (limit : Nat) (x : Crew) : Prop extends Placed x, Balanced x, Listed x where
  timeLimit : x.site.timeLimit = limit
  told : ∀ m ∈ x.members, Attempt.Told limit m.polls m.attempt

/-! ## Acts of the site -/

/-- No attempt goes on, and no browser comes in. -/
structure Rests (x y : Crew) : Prop where
  members : y.members = x.members
  clears : ∃ rows rows', Clears x.site.supervisor y.site.supervisor rows rows'
  recedes : Recedes x.site.supervisor y.site.supervisor
  timeLimit : y.site.timeLimit = x.site.timeLimit
  background : ∀ r ∈ y.site.background, r.owed = []
  balance : x.site.supervisor.launcher.Steady → ∀ pid, y.site.supervisor.balance y.owed pid - y.swept.count pid =
    x.site.supervisor.balance x.owed pid - x.swept.count pid

theorem Rests.starts (h : Rests x y) : y.site.supervisor.starts = x.site.supervisor.starts := by
  obtain ⟨_, _, hclears⟩ := h.clears
  rw [Supervisor.starts, Supervisor.starts, hclears.launcher, h.recedes.launched]

theorem Sound.rests (hx : x.Sound limit) (h : Rests x y) : y.Sound limit := by
  obtain ⟨_, _, hclears⟩ := h.clears
  have hstarts := h.starts
  have hhandles := h.recedes.handles.subset
  exact {
    exclusive := hclears.exclusive hx.exclusive
    reserved i m hm hl := hclears.launching ▸ hx.reserved i m (h.members ▸ hm) hl
    alone i j m m' hm hm' := hx.alone i j m m' (h.members ▸ hm) (h.members ▸ hm')
    own m hm := hx.own m (h.members ▸ hm)
    owed m hm := hx.owed m (h.members ▸ hm)
    background := h.background
    balance hsteady pid := by
      have hsteady : x.site.supervisor.launcher.Steady := hclears.launcher ▸ hsteady
      have hold := hx.balance hsteady pid
      have hnew := h.balance hsteady pid
      omega
    started g hg := hstarts ▸ hx.started g (hhandles hg)
    acquired m hm p hp g hg := hstarts ▸ hx.acquired m (h.members ▸ hm) p hp g hg
    held m hm p hp g hg hcount f hf := hx.held m (h.members ▸ hm) p hp g hg (hstarts ▸ hcount) f (hhandles hf)
    timeLimit := h.timeLimit.trans hx.timeLimit
    told m hm := hx.told m (h.members ▸ hm) }

theorem rests_elapse (hx : x.Sound limit) (now : Nat) : Rests x (x.step (.elapse now)) where
  members := rfl
  clears := ⟨fun _ => False, fun _ => False, .of_minds rfl rfl id fun _ h => h, rfl⟩
  recedes := ⟨rfl, rfl, rfl, List.Sublist.refl _⟩
  timeLimit := rfl
  background := hx.background
  balance _ _ := rfl

theorem rests_background (hx : x.Sound limit) (n : Nat) : Rests x { x with site := x.site.pollBackground n } where
  members := rfl
  clears := ⟨_, _, x.site.clears_pollBackground n hx.exclusive⟩
  recedes := x.site.recedes_pollBackground n
  timeLimit := by
    dsimp only
    unfold Site.pollBackground
    split <;> rfl
  background := (Site.balance_pollBackground hx.exclusive hx.background n 0).2
  balance _ pid := by
    have hpolled := (Site.balance_pollBackground hx.exclusive hx.background n pid).1
    rw [balance_nil _ x.owed, balance_nil _ x.owed] at hpolled
    show (x.site.pollBackground n).supervisor.balance x.owed pid - (x.swept.count pid : Int) = _
    omega

theorem owed_concat (rows : List Kills) (k : Kills) :
    (rows ++ [k]).flatMap (fun k => k.waiting) = rows.flatMap (fun k => k.waiting) ++ k.waiting := by
  simp

theorem rests_releaseAll (hx : x.Sound limit) : Rests x { x with
    site := { x.site with supervisor := (Kills.ofAll x.site.supervisor).1 }
    rows := x.rows ++ [(Kills.ofAll x.site.supervisor).2] } where
  members := rfl
  clears := ⟨_, _, Kills.clears_ofAll x.site.supervisor⟩
  recedes := x.site.supervisor.recedes_drain
  timeLimit := rfl
  background := hx.background
  balance _ pid := by
    have hdrained := x.site.supervisor.balance_drain x.owed pid
    rw [owed, owed_concat]
    exact congrArg (· - (x.swept.count pid : Int)) hdrained

/-- The kills of a sweep come on top of those that are owed for starts. -/
theorem rests_sweep (hx : x.Sound limit) : Rests x { x with
    site := { x.site with supervisor := (Kills.ofSweep x.site.supervisor).1 }
    rows := x.rows ++ [(Kills.ofSweep x.site.supervisor).2]
    swept := x.swept ++ (Kills.ofSweep x.site.supervisor).2.waiting } where
  members := rfl
  clears := ⟨_, _, Kills.clears_ofSweep x.site.supervisor⟩
  recedes := x.site.supervisor.recedes_beginSweep
  timeLimit := rfl
  background := hx.background
  balance _ pid := by
    have hmore := x.site.supervisor.balance_append x.owed (Kills.ofSweep x.site.supervisor).2.waiting pid
    have hsame : (Kills.ofSweep x.site.supervisor).1.balance = x.site.supervisor.balance := rfl
    rw [owed, owed_concat, List.count_append, hsame]
    rw [owed] at hmore ⊢
    omega

theorem count_owed_set {rows : List Kills} {n : Nat} {k : Kills} (hk : rows[n]? = some k) (k' : Kills) (pid : Nat) :
    ((rows.set n k').flatMap fun k => k.waiting).count pid + k.waiting.count pid =
      (rows.flatMap fun k => k.waiting).count pid + k'.waiting.count pid := by
  induction rows generalizing n with
  | nil => simp at hk
  | cons first rows ih =>
      cases n with
      | zero =>
          obtain rfl : first = k := by simpa using hk
          simp only [List.set_cons_zero, List.flatMap_cons, List.count_append]
          omega
      | succ n =>
          have hrest := ih (n := n) (by simpa using hk)
          simp only [List.set_cons_succ, List.flatMap_cons, List.count_append]
          omega

theorem rests_goOn (hx : x.Sound limit) {k : Kills} (hk : x.rows[n]? = some k) : Rests x { x with
    site := { x.site with supervisor := (k.poll x.site.supervisor).1 }
    rows := x.rows.set n (k.poll x.site.supervisor).2 } where
  members := rfl
  clears := ⟨_, _, k.clears_poll x.site.supervisor⟩
  recedes := k.recedes_poll x.site.supervisor
  timeLimit := rfl
  background := hx.background
  balance hsteady pid := by
    have hrow := k.balance_poll hsteady pid
    have hset := count_owed_set hk (k.poll x.site.supervisor).2 pid
    simp only [balance, owed] at hrow ⊢
    omega

/-! ## Acts of attempts -/

/-- A member goes on, with the polls and the starts that come from it. -/
structure Moves (x : Crew) (m : CrewMember) (z : Site × Attempt) (more : List AttemptPoll) (started : List Nat) :
    Prop where
  proceeds : ∃ rows, m.attempt.Proceeds x.site rows z
  leaves : m.attempt.Leaves x.site z
  pays : Attempt.Pays x.site z
  starts : z.1.supervisor.starts = x.site.supervisor.starts ++ started
  newcomers : ∀ g ∈ z.1.supervisor.registry.handles, g ∈ x.site.supervisor.registry.handles ∨ g.pid ∈ started
  acquired : ∀ p ∈ more, ∀ h, p.acquired? = some (.ok h) → h.pid ∈ started
  told : Attempt.Told x.site.timeLimit (m.polls ++ more) z.2

theorem moves_poll (hx : x.Sound limit) (hm : x.members[n]? = some m) (hgoing : m.attempt.isDone = false)
    (signals : AttemptSignals) :
    let p : AttemptPoll := { site := x.site, attempt := m.attempt, signals }
    Moves x m p.after [p] p.started := by
  intro p
  have hmem := List.mem_of_getElem? hm
  have hproceeds := m.attempt.proceeds_poll signals hx.exclusive fun hl => hx.reserved n m hm hl
  obtain ⟨hstarts, hnewcomers⟩ := p.starts_poll hproceeds.tends.launcher
  refine ⟨⟨_, hproceeds⟩, m.attempt.leaves_poll signals hx.exclusive hgoing (hx.own m hmem),
    m.attempt.pays_poll signals hx.exclusive (fun hl => hx.reserved n m hm hl) (hx.owed m hmem), hstarts, hnewcomers,
    fun q hq h hacquired => ?_, Attempt.Told.poll (p := p) (hx.timeLimit ▸ hx.told m hmem) hgoing rfl⟩
  obtain rfl := List.mem_singleton.mp hq
  simp [AttemptPoll.started, hacquired]

theorem moves_drop (hx : x.Sound limit) (hm : x.members[n]? = some m) (hgoing : m.attempt.isDone = false) :
    Moves x m (m.attempt.drop x.site) [] [] := by
  have hmem := List.mem_of_getElem? hm
  have hproceeds := m.attempt.proceeds_drop x.site
  have hrecedes := m.attempt.recedes_drop x.site
  refine ⟨⟨_, hproceeds⟩, m.attempt.leaves_drop x.site hgoing (hx.own m hmem),
    m.attempt.pays_drop x.site (hx.owed m hmem), ?_, fun g hg => Or.inl (hrecedes.handles.subset hg),
    fun _ hp => (by cases hp), ?_⟩
  · rw [Supervisor.starts, Supervisor.starts, hproceeds.tends.launcher, hrecedes.launched, List.append_nil]
  · have hdropped : (m.attempt.drop x.site).2 = { m.attempt with phase := .dropped } := by simp [Attempt.drop, hgoing]
    rw [hdropped]
    trivial

variable {z : Site × Attempt} {more : List AttemptPoll} {started : List Nat}

/-- The crew after a member has gone on. -/
def put (x : Crew) (n : Nat) (z : Site × Attempt) (polls : List AttemptPoll) : Crew :=
  { x with site := z.1, members := x.members.set n { attempt := z.2, polls } }

theorem getElem?_put {polls : List AttemptPoll} {i : Nat} {m' : CrewMember}
    (h : (x.put n z polls).members[i]? = some m') :
    i = n ∧ m' = { attempt := z.2, polls } ∨ i ≠ n ∧ x.members[i]? = some m' := by
  by_cases hin : n = i
  · subst hin
    have hlt := (List.getElem?_eq_some_iff.mp h).1
    rw [put, List.length_set] at hlt
    rw [put, List.getElem?_set_self hlt] at h
    exact Or.inl ⟨rfl, (Option.some.inj h).symm⟩
  · rw [put, List.getElem?_set_ne hin] at h
    exact Or.inr ⟨Ne.symm hin, h⟩

theorem mem_put {polls : List AttemptPoll} {m' : CrewMember} (h : m' ∈ (x.put n z polls).members) :
    m' ∈ x.members ∨ m' = { attempt := z.2, polls } :=
  List.mem_or_eq_of_mem_set h

/-- A member takes no place from others, and has its own while its browser is started. -/
theorem Placed.moves (hx : x.Placed) (hm : x.members[n]? = some m) (h : Moves x m z more started) :
    Placed (x.put n z (m.polls ++ more)) := by
  obtain ⟨_, hproceeds⟩ := h.proceeds
  have hjob : z.2.context.jobId = m.attempt.context.jobId := congrArg _ hproceeds.context
  -- The start of another member goes on, since it is for another job.
  have hothers : ∀ j m', x.members[j]? = some m' → j ≠ n → m'.attempt.isLaunching = true →
      m'.attempt.context.jobId ∈ z.1.supervisor.registry.launching := by
    intro j m' hm' hne hl'
    have hplace := hx.reserved j m' hm' hl'
    cases hl : m.attempt.isLaunching with
    | true => exact hproceeds.others _ hplace fun he => hne (hx.alone j n m' m hm' hm hl' hl he)
    | false => exact hproceeds.kept hl _ hplace
  -- Nobody else has a browser started for the job of this member.
  have hsingle : ∀ j m', x.members[j]? = some m' → j ≠ n → z.2.isLaunching = true → m'.attempt.isLaunching = true →
      z.2.context.jobId ≠ m'.attempt.context.jobId := by
    intro j m' hm' hne hl hl' he
    rw [hjob] at he
    rcases hproceeds.alone hl with hbefore | hfree
    · exact hne (hx.alone n j m m' hm hm' hbefore hl' he).symm
    · exact hfree (he ▸ hx.reserved j m' hm' hl')
  refine ⟨hproceeds.tends.exclusive hx.exclusive, fun i mi hi hl => ?_, fun i j mi mj hi hj hli hlj he => ?_,
    fun mi hi g hg => ?_⟩
  · rcases getElem?_put hi with ⟨rfl, rfl⟩ | ⟨hne, hold⟩
    · exact hjob ▸ hproceeds.reserved hl
    · exact hothers i mi hold hne hl
  · rcases getElem?_put hi with ⟨rfl, rfl⟩ | ⟨hni, hi'⟩ <;> rcases getElem?_put hj with ⟨rfl, rfl⟩ | ⟨hnj, hj'⟩
    · rfl
    · exact absurd he (hsingle j mj hj' hnj hli hlj)
    · exact absurd he.symm (hsingle i mi hi' hni hlj hli)
    · exact hx.alone i j mi mj hi' hj' hli hlj he
  · rcases mem_put hi with hold | rfl
    · exact hx.own mi hold g hg
    · exact (h.leaves.browser g hg).trans hjob.symm

theorem Balanced.moves (hx : x.Balanced) (h : Moves x m z more started) :
    Balanced (x.put n z (m.polls ++ more)) where
  owed m' hm' := by
    rcases mem_put hm' with hold | rfl
    · exact hx.owed m' hold
    · exact h.pays.owed
  background r hr := (h.pays.background r hr).elim (hx.background r) id
  balance hsteady pid := by
    have hkept := h.pays.balance pid
    rw [balance_nil _ x.owed, balance_nil _ x.owed] at hkept
    obtain ⟨_, hproceeds⟩ := h.proceeds
    have hold := hx.balance (hproceeds.tends.launcher ▸ hsteady) pid
    show z.1.supervisor.balance x.owed pid = (x.swept.count pid : Int)
    omega

theorem Listed.moves (hx : x.Listed) (hm : m ∈ x.members) (hgoing : m.attempt.isDone = false)
    (h : Moves x m z more started) : Listed (x.put n z (m.polls ++ more)) := by
  have hcount : ∀ pid, z.1.supervisor.starts.count pid = x.site.supervisor.starts.count pid + started.count pid :=
    fun pid => by rw [h.starts, List.count_append]
  refine ⟨fun g hg => ?_, fun m' hm' p hp f hf => ?_, fun m' hm' p hp f hf hone g hg hpid => ?_⟩
  · show g.pid ∈ z.1.supervisor.starts
    rw [h.starts]
    exact List.mem_append.mpr ((h.newcomers g hg).imp_left (hx.started g))
  · show f.pid ∈ z.1.supervisor.starts
    rw [h.starts]
    refine List.mem_append.mpr ?_
    rcases mem_put hm' with hold | rfl
    · exact Or.inl (hx.acquired m' hold p hp f hf)
    · exact (List.mem_append.mp hp).imp (fun hp => hx.acquired m hm p hp f hf) fun hp => h.acquired p hp f hf
  · have hone : x.site.supervisor.starts.count f.pid + started.count f.pid = 1 := hcount f.pid ▸ hone
    rcases mem_put hm' with hold | rfl
    · -- Another member's process is not started again, so no newcomer has it.
      have hstart := List.count_pos_iff.mpr (hx.acquired m' hold p hp f hf)
      have hnew : f.pid ∉ started := fun hmem => by
        have hpos := List.count_pos_iff.mpr hmem
        omega
      exact hx.held m' hold p hp f hf (by omega) g ((h.newcomers g hg).resolve_right (hpid ▸ hnew)) hpid
    · rcases h.leaves.handles g hg with ⟨hheld, hother⟩ | ⟨-, hown⟩
      · -- What was registered before is not the browser of this member.
        rcases List.mem_append.mp hp with hp | hp
        · have hstart := List.count_pos_iff.mpr (hx.acquired m hm p hp f hf)
          rcases hx.held m hm p hp f hf (by omega) g hheld hpid with hbrowser | hlost
          · exact absurd hbrowser hother
          · exact absurd (Attempt.isDone_of_isLost hlost) (by simp [hgoing])
        · have hstart := List.count_pos_iff.mpr (h.acquired p hp f hf)
          have hbefore := List.count_pos_iff.mpr (hx.started g hheld)
          rw [hpid] at hbefore
          omega
      · exact hown.imp_right And.left

theorem Sound.moves (hx : x.Sound limit) (hm : x.members[n]? = some m) (hgoing : m.attempt.isDone = false)
    (h : Moves x m z more started) : (x.put n z (m.polls ++ more)).Sound limit where
  toPlaced := hx.toPlaced.moves hm h
  toBalanced := hx.toBalanced.moves h
  toListed := hx.toListed.moves (List.mem_of_getElem? hm) hgoing h
  timeLimit := h.pays.timeLimit.trans hx.timeLimit
  told m' hm' := by
    rcases mem_put hm' with hold | rfl
    · exact hx.told m' hold
    · exact hx.timeLimit ▸ h.told

/-! ## Runs -/

/-- A new member has no browser and none is started for it. -/
theorem Sound.join (hx : x.Sound limit) (context : AttemptContext) :
    Sound limit { x with members := x.members ++ [{ attempt := { context } }] } := by
  have hmem : ∀ m ∈ x.members ++ [({ attempt := { context } } : CrewMember)],
      m ∈ x.members ∨ m = { attempt := { context } } := fun m hm =>
    (List.mem_append.mp hm).imp_right List.mem_singleton.mp
  have hlaunching : ∀ (i : Nat) (m : CrewMember),
      (x.members ++ [({ attempt := { context } } : CrewMember)])[i]? = some m → m.attempt.isLaunching = true →
      x.members[i]? = some m := by
    intro i m hm hl
    by_cases hi : i < x.members.length
    · rwa [List.getElem?_append_left hi] at hm
    · rw [List.getElem?_append_right (Nat.not_lt.mp hi)] at hm
      obtain rfl := List.mem_singleton.mp (List.mem_of_getElem? hm)
      cases hl
  have hnew : ∀ {P : CrewMember → Prop}, (∀ m ∈ x.members, P m) → P { attempt := { context } } →
      ∀ m ∈ x.members ++ [({ attempt := { context } } : CrewMember)], P m := by
    intro P hold hlast m hm
    rcases hmem m hm with hm | rfl
    · exact hold m hm
    · exact hlast
  exact {
    exclusive := hx.exclusive
    reserved i m hm hl := hx.reserved i m (hlaunching i m hm hl) hl
    alone i j m m' hm hm' hl hl' := hx.alone i j m m' (hlaunching i m hm hl) (hlaunching j m' hm' hl') hl hl'
    own := hnew hx.own fun _ h => by cases h
    owed := hnew hx.owed rfl
    background := hx.background
    balance := hx.balance
    started := hx.started
    acquired := hnew hx.acquired fun _ hp => by cases hp
    held := hnew hx.held fun _ hp => by cases hp
    timeLimit := hx.timeLimit
    told := hnew hx.told rfl }

theorem Sound.step (hx : x.Sound limit) (a : CrewAct) : (x.step a).Sound limit := by
  cases a with
  | elapse now => exact hx.rests (rests_elapse hx now)
  | join context => exact hx.join context
  | poll n signals =>
      unfold Crew.step
      dsimp only
      cases hm : x.members[n]? with
      | none => exact hx
      | some m =>
          dsimp only
          split
          · exact hx
          · rename_i hgoing
            have hgoing : m.attempt.isDone = false := by simpa using hgoing
            exact hx.moves hm hgoing (moves_poll hx hm hgoing signals)
  | drop n =>
      unfold Crew.step
      dsimp only
      cases hm : x.members[n]? with
      | none => exact hx
      | some m =>
          dsimp only
          split
          · exact hx
          · rename_i hgoing
            have hgoing : m.attempt.isDone = false := by simpa using hgoing
            have hdropped := hx.moves hm hgoing (moves_drop hx hm hgoing)
            rwa [List.append_nil] at hdropped
  | background n => exact hx.rests (rests_background hx n)
  | releaseAll => exact hx.rests (rests_releaseAll hx)
  | sweep => exact hx.rests (rests_sweep hx)
  | goOn n =>
      unfold Crew.step
      dsimp only
      cases hk : x.rows[n]? with
      | none => exact hx
      | some k => exact hx.rests (rests_goOn hx hk)

theorem Sound.opened {site : Site} (hsite : site.Unused) : Sound site.timeLimit { site } where
  exclusive := by simp [Registry.Exclusive, hsite.handles, hsite.launching]
  reserved i m hm := by simp at hm
  alone i j m m' hm := by simp at hm
  own m hm := by cases hm
  owed m hm := by cases hm
  background r hr := by simp [hsite.background] at hr
  balance _ pid := by
    simp [balance, Supervisor.starts, owed, Registry.pids, hsite.handles, hsite.launched, hsite.killCalls]
  started g hg := by simp [hsite.handles] at hg
  acquired m hm := by cases hm
  held m hm := by cases hm
  timeLimit := rfl
  told m hm := by cases hm

theorem Sound.after (hx : x.Sound limit) (acts : List CrewAct) : (x.after acts).Sound limit := by
  induction acts generalizing x with
  | nil => exact hx
  | cons a acts ih => exact ih (hx.step a)

/-- What an attempt has come to, and what has become of its browser. -/
structure Settled (x : Crew) (m : CrewMember) (outcome : AttemptOutcome) : Prop extends
    Attempt.Explained m.attempt.context x.site.timeLimit m.polls outcome where
  /-- For every start of a process its browser is still held or one kill was asked for, unless a release of all browsers
  still owes it. The kills of sweeps come on top. No kill may break down. -/
  balanced : x.site.supervisor.launcher.Steady → ∀ pid,
    x.site.supervisor.killCalls.count pid + x.owed.count pid + x.site.supervisor.registry.pids.count pid =
      x.site.supervisor.starts.count pid + x.swept.count pid
  /-- The browser of the attempt is not held any more. Its process is told from others by its number, so no other start
  may have got the same one. -/
  released : ∀ p ∈ m.polls, ∀ h, p.acquired? = some (.ok h) → x.site.supervisor.starts.count h.pid = 1 →
    h.pid ∉ x.site.supervisor.registry.pids ∧ (x.site.supervisor.launcher.Steady →
      x.site.supervisor.killCalls.count h.pid + x.owed.count h.pid = x.swept.count h.pid + 1)

theorem Sound.settled {outcome : AttemptOutcome} (hx : x.Sound limit) (hm : m ∈ x.members)
    (hended : m.attempt.phase = .ended outcome) : x.Settled m outcome := by
  have htold := hx.told m hm
  unfold Attempt.Told at htold
  rw [hended, ← hx.timeLimit] at htold
  have hbalanced : x.site.supervisor.launcher.Steady → ∀ pid, x.site.supervisor.killCalls.count pid +
      x.owed.count pid + x.site.supervisor.registry.pids.count pid =
      x.site.supervisor.starts.count pid + x.swept.count pid := by
    intro hsteady pid
    have hbalance := hx.balance hsteady pid
    rw [balance] at hbalance
    omega
  refine ⟨htold, hbalanced, fun p hp h hacquired hone => ?_⟩
  have hgone : h.pid ∉ x.site.supervisor.registry.pids := by
    intro hmem
    obtain ⟨g, hg, hpid⟩ := List.mem_map.mp hmem
    rcases hx.held m hm p hp h hacquired hone g hg hpid with hbrowser | hlost
    · simp [Attempt.browser?, hended] at hbrowser
    · simp [Attempt.isLost, hended] at hlost
  refine ⟨hgone, fun hsteady => ?_⟩
  have hkills := hbalanced hsteady h.pid
  rw [hone, List.count_eq_zero.mpr hgone] at hkills
  omega

/-- Whatever happens at a site, an attempt that has come to its end has settled everything. -/
theorem attempt_settles {site : Site} (hsite : site.Unused) (acts : List CrewAct) {m : CrewMember}
    {outcome : AttemptOutcome} (hm : m ∈ (({ site } : Crew).after acts).members)
    (hended : m.attempt.phase = .ended outcome) : (({ site } : Crew).after acts).Settled m outcome :=
  ((Sound.opened hsite).after acts).settled hm hended

/-- A place where an audit and a kill take their time. -/
def slackSite : Site where
  supervisor :=
    { launcher :=
        { launch := fun _ _ => {}, kill := fun _ _ => { delay := 100 }, pid := fun n => 10000 + n,
          endpoint := fun _ => "ws" }
      runId := "run"
      registry := .ofCapacity 2 }
  engine := { audit := fun _ _ => { delay := 1000, ending := .scored [] } }
  timeLimit := 60000

theorem unused_slackSite : slackSite.Unused :=
  ⟨rfl, rfl, rfl, rfl, rfl⟩

/-- A page is audited, and its browser is given back. -/
def auditedActs : List CrewAct :=
  [.join ⟨"a", "https://a.example", 0, 1, 0⟩, .poll 0 {}, .elapse 1000, .poll 0 {}, .elapse 1100, .poll 0 {}]

theorem audited_attempt_settles :
    let x := ({ site := slackSite } : Crew).after auditedActs
    slackSite.Unused ∧ slackSite.supervisor.launcher.Steady ∧
      ∃ m ∈ x.members, m.attempt.phase = .ended (.completed []) ∧ x.Settled m (.completed []) ∧
      ∃ p ∈ m.polls, ∃ h, p.acquired? = some (.ok h) ∧ x.site.supervisor.starts.count h.pid = 1 ∧
        x.site.supervisor.killCalls.count h.pid = 1 := by
  have hm : _ ∈ (({ site := slackSite } : Crew).after auditedActs).members := List.mem_of_getElem? (i := 0) rfl
  exact ⟨unused_slackSite, fun _ _ => rfl, _, hm, rfl, attempt_settles unused_slackSite auditedActs hm rfl, _,
    List.mem_of_getElem? (i := 0) rfl, _, rfl, by decide +kernel, by decide +kernel⟩

/-- Two pages are audited when all browsers are released and both attempts are told to stop. -/
def stoppedActs : List CrewAct :=
  [.join ⟨"a", "https://a.example", 0, 1, 0⟩, .join ⟨"b", "https://b.example", 1, 1, 1⟩, .poll 0 {}, .poll 1 {},
    .elapse 50, .releaseAll, .goOn 0, .poll 0 { stop := true }, .poll 1 { stop := true }]

/-- The second attempt ends while the kill of the first browser goes on: the kill of its own was not asked for yet. -/
theorem stopped_attempt_leaves_process :
    let x := ({ site := slackSite } : Crew).after stoppedActs
    slackSite.Unused ∧ slackSite.supervisor.launcher.Steady ∧ x.swept = [] ∧
      ∃ m ∈ x.members, ∃ p ∈ m.polls, ∃ h, p.acquired? = some (.ok h) ∧ m.attempt.phase = .ended .interrupted ∧ x.site.supervisor.starts.count h.pid = 1 ∧
        x.site.supervisor.killCalls.count h.pid = 0 :=
  ⟨unused_slackSite, fun _ _ => rfl, rfl, _, List.mem_of_getElem? (i := 1) rfl, _, List.mem_of_getElem? (i := 0) rfl, _,
    rfl, rfl, by decide +kernel, by decide +kernel⟩

end Crew

end PageAudit
