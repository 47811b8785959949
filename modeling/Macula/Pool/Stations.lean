import Macula.Discovery
import Macula.Pool.GivenUp

/-!
# The rows that a station answers

`step` leaves it to a choice what `add_discovered_links` finds in the rows of a response.
Here the rows are read: a `Roster` is a pool with what the function compares, which are the
seeds of the links and the nodes at their far ends.  The count of the slots, the look at each
link's node and the push of a link are three accesses, and everything else that happens in
the pool may happen between them.

`roster_refines` says that a step of a roster is a step of its pool, or leaves the pool
alone.  The count is old when the link is pushed; the step of the pool asks for a free slot
at the push, and has it since nobody but the discovery loop takes one.

`found` is a record for the statements: the node of the row that a link was added for.
-/

namespace Macula.Pool

open Macula.Cbor (Value)
open Macula.Connection (Trust)
open Macula.Discovery (Seed dialTargetFromStationRow linkTrust)

/-! ## Rosters -/

/-- What a pool is connected with, besides its seeds. -/
structure Setup where
  options : Options
  trust : Trust
  /-- Whether a host parses as an `IpAddr`. -/
  isIpAddr : String → Bool
  pinned : options.pinned = true ↔ ∃ pubkey, trust = .pinned pubkey

/-- What a row asks to be dialed. -/
structure Target where
  seed : Seed
  trust : Trust
  nodeId : Option NodeId

/-- Where `add_discovered_links` is; `rest` are the rows behind the one at hand. -/
inductive RowPc where
  | head (rows : List Value)
  /-- `has_link_for_node_id` is next. -/
  | asking (target : Target) (rest : List Value)
  /-- In its loop, `todo` are the links still to be looked at. -/
  | scanning (target : Target) (todo : List LinkId) (rest : List Value)
  /-- Waits for the `state` of a connected link. -/
  | looking (target : Target) (l : LinkId) (todo : List LinkId) (rest : List Value)
  /-- Holds it; `known` is its `peer_node_id`. -/
  | looked (target : Target) (known : Option NodeId) (todo : List LinkId) (rest : List Value)
  /-- `spawn_seed_link_if_absent` is next. -/
  | adding (target : Target) (rest : List Value)

structure Roster where
  pool : State
  /-- `link.seed` -/
  seed : LinkId → Seed
  /-- `link.trust` -/
  trust : LinkId → Trust
  /-- `state.peer_node_id` of a link. -/
  peer : LinkId → Option NodeId
  /-- `node_id` of a lifecycle task, from its handshake on. -/
  node : TaskId → NodeId
  rows : RowPc
  found : LinkId → Option NodeId

inductive RosterEvent where
  /-- An event of the pool that is none of the others. -/
  | pool (e : Event)
  /-- `connection::connect` completes with a station. -/
  | dialed (t : TaskId) (nodeId : NodeId)
  /-- `list_stations` answers with these rows. -/
  | answered (t : TaskId) (stations : List Value)
  /-- The next step of `add_discovered_links`. -/
  | rows (t : TaskId)

variable (c : Setup)

/-- The row's link, under its own trust; `none` where the row is skipped. -/
def Setup.target (row : Value) : Option Target := do
  let (host, port, nodeId) ← dialTargetFromStationRow row
  let trust ← linkTrust ⟨c.trust, c.options.maxLinks, c.isIpAddr⟩ host nodeId
  return { seed := ⟨host, port⟩, trust, nodeId }

namespace Roster

/-- `Pool::connect` -/
def connect (seeds : List Seed) : Roster where
  pool := Pool.connect c.options seeds.length
  seed l := (seeds[l]?).getD ⟨"", 0⟩
  trust _ := c.trust
  peer _ := none
  node _ := .fill 0
  rows := .head []
  found _ := none

/-- The event is no step of `add_discovered_links`, and what it brings is not to be known. -/
def ordinary (r : Roster) : Event → Bool
  | .run t choice =>
    match r.pool.proc t, choice with
    | .life _ .dialing, .go | .disc (.calling .done), .go => false
    | .disc .rows, _ | .disc (.peeking _), _ | .disc (.peeked _), _ => false
    | _, _ => true
  | _ => true

/-- The nodes of the links after an event of the pool that can happen: a lifecycle task that
gets the lock installs its session with the node of its station. -/
def peerAfter (r : Roster) : Event → LinkId → Option NodeId
  | .run t .go =>
    match r.pool.proc t with
    | .life l (.locking _) => Function.update r.peer l (some (r.node t))
    | _ => r.peer
  | _ => r.peer

theorem peerAfter_cases (r : Roster) (e : Event) :
    r.peerAfter e = r.peer ∨ ∃ t l g, e = .run t .go ∧ r.pool.proc t = .life l (.locking g) ∧
      r.peerAfter e = Function.update r.peer l (some (r.node t)) := by
  unfold peerAfter
  split
  next t =>
    split
    next l g hp => exact .inr ⟨t, l, g, rfl, hp, rfl⟩
    next => exact .inl rfl
  next => exact .inl rfl

/-- `links.push(PooledLink::new(..))`, which `try_claim_redial` follows. -/
def push (r : Roster) (t : TaskId) (target : Target) (rest : List Value) : Roster where
  pool := r.pool.pushLink.setProc t (.disc (.claiming r.pool.numLinks))
  seed := Function.update r.seed r.pool.numLinks target.seed
  trust := Function.update r.trust r.pool.numLinks target.trust
  peer := Function.update r.peer r.pool.numLinks none
  node := r.node
  rows := .head rest
  found := Function.update r.found r.pool.numLinks target.nodeId

/-- `add_discovered_links`, with `has_link_for_node_id` and `spawn_seed_link_if_absent`. -/
def stepRows (r : Roster) (t : TaskId) : DiscPc → RowPc → Option Roster
  | .rows, .head [] => some { r with pool := r.pool.setProc t (.disc .idle) }
  | .rows, .head (row :: rest) =>
    if r.pool.occupiedDiscoverySlots ≥ c.options.maxLinks then
      some { r with pool := r.pool.setProc t (.disc .idle) }
    else
      match c.target row with
      | none => some { r with rows := .head rest }
      | some target =>
        some { r with
          rows := if target.nodeId.isSome then .asking target rest else .adding target rest }
  | .rows, .asking target rest => some { r with rows := .scanning target r.pool.links rest }
  | .rows, .scanning target (l :: todo) rest =>
    if (r.pool.link l).connected then
      some { r with
        pool := (r.pool.enqueue l (.task t)).setProc t (.disc (.peeking l))
        rows := .looking target l todo rest }
    else some { r with rows := .scanning target todo rest }
  | .rows, .scanning target [] rest => some { r with rows := .adding target rest }
  | .peeking l, .looking target _ todo rest =>
    if r.pool.Granted l (.task t) then
      some { r with
        pool := r.pool.setProc t (.disc (.peeked l))
        rows := .looked target (r.peer l) todo rest }
    else none
  | .peeked l, .looked target known todo rest =>
    some { r with
      pool := (r.pool.leave l (.task t)).setProc t (.disc .rows)
      rows :=
        if known.isSome ∧ known = target.nodeId then .head rest
        else .scanning target todo rest }
  | .rows, .adding target rest =>
    if r.pool.links.any (fun l => r.seed l = target.seed) then some { r with rows := .head rest }
    else some (r.push t target rest)
  | _, _ => none

end Roster

/-- One event in a roster. -/
def rosterStep (r : Roster) : RosterEvent → Option Roster
  | .pool e =>
    if r.ordinary e then
      (step c.options r.pool e).map fun s => { r with pool := s, peer := r.peerAfter e }
    else none
  | .dialed t nodeId =>
    match r.pool.proc t with
    | .life _ .dialing =>
      (step c.options r.pool (.run t .go)).map fun s =>
        { r with pool := s, node := Function.update r.node t nodeId }
    | _ => none
  | .answered t stations =>
    match r.pool.proc t with
    | .disc (.calling .done) =>
      (step c.options r.pool (.run t .go)).map fun s =>
        { r with pool := s, rows := .head stations }
    | _ => none
  | .rows t =>
    match r.pool.proc t with
    | .disc pc => r.stepRows c t pc r.rows
    | _ => none

/-! ## What a step for the rows can do -/

/-- One step of `add_discovered_links`. -/
inductive RowStep (r : Roster) (t : TaskId) : Roster → Prop where
  | returns (rows : List Value) : r.pool.proc t = .disc .rows → r.rows = .head rows →
      RowStep r t { r with pool := r.pool.setProc t (.disc .idle) }
  | skip (row : Value) (rest : List Value) : r.pool.proc t = .disc .rows →
      r.rows = .head (row :: rest) → c.target row = none →
      RowStep r t { r with rows := .head rest }
  | fits (row : Value) (rest : List Value) (target : Target) : r.pool.proc t = .disc .rows →
      r.rows = .head (row :: rest) → r.pool.occupiedDiscoverySlots < c.options.maxLinks →
      c.target row = some target →
      RowStep r t { r with
        rows := if target.nodeId.isSome then .asking target rest else .adding target rest }
  | ask (target : Target) (rest : List Value) : r.pool.proc t = .disc .rows →
      r.rows = .asking target rest →
      RowStep r t { r with rows := .scanning target r.pool.links rest }
  | look (target : Target) (l : LinkId) (todo : List LinkId) (rest : List Value) :
      r.pool.proc t = .disc .rows → r.rows = .scanning target (l :: todo) rest →
      (r.pool.link l).connected = true →
      RowStep r t { r with
        pool := (r.pool.enqueue l (.task t)).setProc t (.disc (.peeking l))
        rows := .looking target l todo rest }
  | pass (target : Target) (l : LinkId) (todo : List LinkId) (rest : List Value) :
      r.pool.proc t = .disc .rows → r.rows = .scanning target (l :: todo) rest →
      (r.pool.link l).connected = false →
      RowStep r t { r with rows := .scanning target todo rest }
  | miss (target : Target) (rest : List Value) : r.pool.proc t = .disc .rows →
      r.rows = .scanning target [] rest → RowStep r t { r with rows := .adding target rest }
  | learn (target : Target) (l l' : LinkId) (todo : List LinkId) (rest : List Value) :
      r.pool.proc t = .disc (.peeking l) → r.rows = .looking target l' todo rest →
      r.pool.Granted l (.task t) →
      RowStep r t { r with
        pool := r.pool.setProc t (.disc (.peeked l))
        rows := .looked target (r.peer l) todo rest }
  | known (target : Target) (l : LinkId) (known : Option NodeId) (todo : List LinkId)
      (rest : List Value) : r.pool.proc t = .disc (.peeked l) →
      r.rows = .looked target known todo rest → known.isSome → known = target.nodeId →
      RowStep r t { r with
        pool := (r.pool.leave l (.task t)).setProc t (.disc .rows), rows := .head rest }
  | other (target : Target) (l : LinkId) (known : Option NodeId) (todo : List LinkId)
      (rest : List Value) : r.pool.proc t = .disc (.peeked l) →
      r.rows = .looked target known todo rest → ¬ (known.isSome ∧ known = target.nodeId) →
      RowStep r t { r with
        pool := (r.pool.leave l (.task t)).setProc t (.disc .rows)
        rows := .scanning target todo rest }
  | present (target : Target) (rest : List Value) : r.pool.proc t = .disc .rows →
      r.rows = .adding target rest → (∃ l ∈ r.pool.links, r.seed l = target.seed) →
      RowStep r t { r with rows := .head rest }
  | push (target : Target) (rest : List Value) : r.pool.proc t = .disc .rows →
      r.rows = .adding target rest → (∀ l ∈ r.pool.links, r.seed l ≠ target.seed) →
      RowStep r t (r.push t target rest)

variable {c : Setup} {r r' : Roster} {t : TaskId}

theorem rowStep_of_stepRows {pc : DiscPc} (hp : r.pool.proc t = .disc pc)
    (h : r.stepRows c t pc r.rows = some r') : RowStep c r t r' := by
  generalize hrows : r.rows = rows at h
  revert h
  fun_cases Roster.stepRows c r t pc rows
  all_goals intro h
  all_goals first | (obtain rfl := Option.some.inj h) | cases h
  case case1 => exact .returns [] hp hrows
  case case2 row rest hfull => exact .returns (row :: rest) hp hrows
  case case3 row rest hfree hnone => exact .skip row rest hp hrows hnone
  case case4 row rest hfree target htarget =>
    exact .fits row rest target hp hrows (Nat.lt_of_not_le hfree) htarget
  case case5 target rest => exact .ask target rest hp hrows
  case case6 target l todo rest hconnected => exact .look target l todo rest hp hrows hconnected
  case case7 target l todo rest hconnected =>
    exact .pass target l todo rest hp hrows (Bool.eq_false_iff.mpr hconnected)
  case case8 target rest => exact .miss target rest hp hrows
  case case9 l target l' todo rest hgranted => exact .learn target l l' todo rest hp hrows hgranted
  case case11 l target known todo rest =>
    split
    next hknown => exact .known target l known todo rest hp hrows hknown.1 hknown.2
    next hother => exact .other target l known todo rest hp hrows hother
  case case12 target rest hany =>
    refine .present target rest hp hrows ?_
    simpa using hany
  case case13 target rest hany =>
    refine .push target rest hp hrows ?_
    simpa using hany

/-! ## The pool of a roster -/

/-- The links that are still to be looked at. -/
def RowPc.links : RowPc → List LinkId
  | .scanning _ todo _ | .looked _ _ todo _ => todo
  | .looking _ l todo _ => l :: todo
  | .head _ | .asking .. | .adding .. => []

/-- A slot was free for the row at hand. -/
def RowPc.pending : RowPc → Bool
  | .head _ => false
  | _ => true

/-- The link that is being looked at is the one whose lock the loop waits for. -/
def Roster.LooksAt (r : Roster) : Prop :=
  ∀ t l target l' todo rest, r.pool.proc t = .disc (.peeking l) →
    r.rows = .looking target l' todo rest → l = l'

/-- What every reachable roster satisfies: there is one discovery loop, it looks at links of
the pool and at one at a time, and the slot it has counted on stays free. -/
structure Roster.Ok (c : Setup) (r : Roster) : Prop where
  wellFormed : WellFormed r.pool
  listed : Listed r.pool
  single : ∀ t t' pc pc', r.pool.proc t = .disc pc → r.pool.proc t' = .disc pc' → t = t'
  links : ∀ l ∈ r.rows.links, l < r.pool.numLinks
  looksAt : r.LooksAt
  free : r.rows.pending = true → r.pool.occupiedDiscoverySlots < c.options.maxLinks

/-- Until the loop has ended every link is in the pool. -/
theorem Listed.links_of_disc {s : State} {pc : DiscPc} (hl : Listed s) (hp : s.proc t = .disc pc)
    (hpc : pc ≠ .done) : s.close.drained = false ∧ s.links = List.range s.numLinks := by
  have hdrained : s.close.drained = false := by
    by_contra hd
    rw [Bool.not_eq_false] at hd
    exact hpc (hl.ended (ClosePc.shutDown_of_drained hd) t pc hp)
  exact ⟨hdrained, hl.links hdrained⟩

/-- A step of a roster for its rows leaves the pool alone, or is a step of the pool. -/
theorem RowStep.refines (hok : r.Ok c) (h : RowStep c r t r') :
    r'.pool = r.pool ∨ ∃ choice, step c.options r.pool (.run t choice) = some r'.pool := by
  cases h with
  | returns rows hp hrows => exact .inr ⟨.go, by simp [step, stepTask, hp, stepDisc]⟩
  | look target l todo rest hp hrows hconnected =>
      have hl : l ∈ r.pool.links := by
        rw [(hok.listed.links_of_disc hp (by simp)).2, List.mem_range]
        exact hok.links l (by rw [hrows]; exact List.mem_cons_self)
      exact .inr ⟨.peek l, by simp [step, stepTask, hp, stepDisc, hl, hconnected]⟩
  | learn target l l' todo rest hp hrows hgranted =>
      exact .inr ⟨.go, by simp [step, stepTask, hp, stepDisc, hgranted]⟩
  | known target l known todo rest hp hrows hsome hknown =>
      exact .inr ⟨.go, by simp [step, stepTask, hp, stepDisc]⟩
  | other target l known todo rest hp hrows hother =>
      exact .inr ⟨.go, by simp [step, stepTask, hp, stepDisc]⟩
  | push target rest hp hrows habsent =>
      have hfree := hok.free (by rw [hrows]; rfl)
      exact .inr ⟨.row, by simp [step, stepTask, hp, stepDisc, hfree, Roster.push]⟩
  | _ => exact .inl rfl

/-- A step of a roster is a step of its pool, or leaves the pool alone. -/
theorem roster_refines {e : RosterEvent} (hok : r.Ok c) (h : rosterStep c r e = some r') :
    r'.pool = r.pool ∨ ∃ e', step c.options r.pool e' = some r'.pool := by
  cases e with
  | pool e =>
      simp only [rosterStep] at h
      split at h
      next =>
        obtain ⟨s, hs, rfl⟩ := Option.map_eq_some_iff.mp h
        exact .inr ⟨e, hs⟩
      next => cases h
  | dialed t nodeId =>
      simp only [rosterStep] at h
      split at h
      next =>
        obtain ⟨s, hs, rfl⟩ := Option.map_eq_some_iff.mp h
        exact .inr ⟨.run t .go, hs⟩
      next => cases h
  | answered t stations =>
      simp only [rosterStep] at h
      split at h
      next =>
        obtain ⟨s, hs, rfl⟩ := Option.map_eq_some_iff.mp h
        exact .inr ⟨.run t .go, hs⟩
      next => cases h
  | rows t =>
      simp only [rosterStep] at h
      split at h
      next pc hp =>
        rcases (rowStep_of_stepRows hp h).refines hok with hsame | ⟨choice, hstep⟩
        · exact .inl hsame
        · exact .inr ⟨.run t choice, hstep⟩
      next => cases h

/-- Links that only give up leave no slot taken that was free. -/
theorem occupied_le_of_step {s s' : State} {o : Options} {e : Event} (hwf : WellFormed s)
    (h : step o s e = some s') (hlinks : s'.links = s.links ∨ s'.links = []) :
    s'.occupiedDiscoverySlots ≤ s.occupiedDiscoverySlots := by
  simp only [State.occupiedDiscoverySlots]
  rcases hlinks with hlinks | hlinks
  · rw [hlinks, ← List.countP_eq_length_filter, ← List.countP_eq_length_filter]
    apply List.countP_mono_left
    intro l hl htaken
    obtain ⟨horigin, hkept⟩ := kept_of_step h (hwf.links l hl)
    rw [Bool.and_eq_true, decide_eq_true_eq, Bool.not_eq_true'] at htaken ⊢
    refine ⟨horigin ▸ htaken.1, ?_⟩
    rw [Bool.eq_false_iff]
    intro hg
    exact Bool.false_ne_true (htaken.2.symm.trans (hkept hg))
  · simp [hlinks]

/-! ## Every reachable roster -/

/-- An event of the pool that is left to it adds no link. -/
theorem links_of_ordinary {e : Event} {s : State} (hordinary : r.ordinary e = true)
    (h : step c.options r.pool e = some s) :
    s.numLinks = r.pool.numLinks ∧ (s.links = r.pool.links ∨ s.links = []) := by
  rcases step_grows h with ⟨hnum, hlinks⟩ | ⟨-, -, ⟨t, rfl, hp⟩, -⟩
  · exact ⟨hnum, hlinks.imp_right And.left⟩
  · simp [Roster.ordinary, hp] at hordinary

/-- Neither does a step of a lifecycle task, or one that does not push. -/
theorem links_of_go {t : TaskId} {s : State} (h : step c.options r.pool (.run t .go) = some s) :
    s.numLinks = r.pool.numLinks ∧ (s.links = r.pool.links ∨ s.links = []) := by
  rcases step_grows h with ⟨hnum, hlinks⟩ | ⟨-, -, ⟨t', heq, -⟩, -⟩
  · exact ⟨hnum, hlinks.imp_right And.left⟩
  · cases heq

theorem stepDisc_peeking {o : Options} {s s' : State} {w : Who} {pc : DiscPc} {choice : Choice}
    {l : LinkId} (h : stepDisc o s w pc choice = some (s', .peeking l)) :
    pc = .rows ∧ choice = .peek l := by
  revert h
  fun_cases stepDisc o s w pc choice
  all_goals intro h
  case case20 =>
    obtain ⟨⟨s₁, pc₁⟩, -, heq⟩ := Option.map_eq_some_iff.mp h
    cases heq
  case case22 =>
    cases h
    exact ⟨rfl, rfl⟩
  all_goals simp only [Option.some.injEq, Prod.mk.injEq, reduceCtorEq, and_false] at h
  all_goals
    obtain ⟨-, heq⟩ := h
    split at heq <;> cases heq

/-- What only the push of a link changes. -/
structure Roster.SameLinks (r r' : Roster) : Prop where
  seed : r'.seed = r.seed := by rfl
  found : r'.found = r.found := by rfl
  numLinks : r'.pool.numLinks = r.pool.numLinks := by rfl
  links : r'.pool.links = r.pool.links ∨ r'.pool.links = [] := by exact .inl rfl

theorem rosterStep_cases {e : RosterEvent} (h : rosterStep c r e = some r') :
    r.SameLinks r' ∨ ∃ t target rest, e = .rows t ∧ r.pool.proc t = .disc .rows ∧
      r.rows = .adding target rest ∧ (∀ l ∈ r.pool.links, r.seed l ≠ target.seed) ∧
      r' = r.push t target rest := by
  cases e with
  | pool e =>
      simp only [rosterStep] at h
      split at h
      next hordinary =>
        obtain ⟨s, hs, rfl⟩ := Option.map_eq_some_iff.mp h
        obtain ⟨hnum, hlinks⟩ := links_of_ordinary hordinary hs
        exact .inl { numLinks := hnum, links := hlinks }
      next => cases h
  | dialed t nodeId =>
      simp only [rosterStep] at h
      split at h
      next =>
        obtain ⟨s, hs, rfl⟩ := Option.map_eq_some_iff.mp h
        obtain ⟨hnum, hlinks⟩ := links_of_go hs
        exact .inl { numLinks := hnum, links := hlinks }
      next => cases h
  | answered t stations =>
      simp only [rosterStep] at h
      split at h
      next =>
        obtain ⟨s, hs, rfl⟩ := Option.map_eq_some_iff.mp h
        obtain ⟨hnum, hlinks⟩ := links_of_go hs
        exact .inl { numLinks := hnum, links := hlinks }
      next => cases h
  | rows t =>
      simp only [rosterStep] at h
      split at h
      next pc hp =>
        cases rowStep_of_stepRows hp h with
        | push target rest hp hrows habsent =>
            exact .inr ⟨t, target, rest, rfl, hp, hrows, habsent, rfl⟩
        | _ => exact .inl {}
      next => cases h

theorem Roster.LooksAt.of_rows (h : ∀ target l todo rest, r.rows ≠ .looking target l todo rest) :
    r.LooksAt :=
  fun _ _ target l' todo rest _ hrows => absurd hrows (h target l' todo rest)

/-- An event that does not step for the rows does not begin to look at a link. -/
theorem Roster.LooksAt.of_step {e : Event} (hlooks : r.LooksAt)
    (h : step c.options r.pool e = some r'.pool) (hrows : r'.rows = r.rows)
    (hpeek : ∀ t l, e = .run t (.peek l) → r.pool.proc t ≠ .disc .rows) : r'.LooksAt := by
  intro t l target l' todo rest hp hat
  obtain ⟨pc₀, hp₀, rfl | ⟨choice, s₁, rfl, h₁⟩⟩ := disc_of_step h hp
  · exact hlooks t l target l' todo rest hp₀ (hrows ▸ hat)
  · obtain ⟨rfl, rfl⟩ := stepDisc_peeking h₁
    exact absurd hp₀ (hpeek t l rfl)

namespace Roster.Ok

theorem connect (seeds : List Seed) : (Roster.connect c seeds).Ok c where
  wellFormed := .connect seeds.length
  listed := .connect seeds.length
  single t t' pc pc' hp hp' := by
    have honly : ∀ t pc, (Pool.connect c.options seeds.length).proc t = .disc pc →
        t = seeds.length := by
      intro t pc hp
      simp only [Pool.connect] at hp
      split at hp
      next => cases hp
      next =>
        split at hp
        next hcond => exact hcond.1
        next => cases hp
    exact (honly t pc hp).trans (honly t' pc' hp').symm
  links _ hl := absurd hl List.not_mem_nil
  looksAt := .of_rows nofun
  free := nofun

/-- What is left to show of a step: its rows. -/
theorem next (hok : r.Ok c) (hpool : r'.pool = r.pool ∨
      ∃ e, Macula.Pool.step c.options r.pool e = some r'.pool)
    (hlinks : ∀ l ∈ r'.rows.links, l < r'.pool.numLinks) (hlooks : r'.LooksAt)
    (hfree : r'.rows.pending = true → r'.pool.occupiedDiscoverySlots < c.options.maxLinks) :
    r'.Ok c := by
  rcases hpool with hsame | ⟨e, hstep⟩
  · refine ⟨?_, ?_, ?_, hlinks, hlooks, hfree⟩
    · rw [hsame]
      exact hok.wellFormed
    · rw [hsame]
      exact hok.listed
    · rw [hsame]
      exact hok.single
  · refine ⟨hok.wellFormed.step hstep, hok.listed.step hok.wellFormed hstep, ?_, hlinks, hlooks,
      hfree⟩
    intro t t' pc pc' hp hp'
    obtain ⟨pc₀, hp₀, -⟩ := disc_of_step hstep hp
    obtain ⟨pc₁, hp₁, -⟩ := disc_of_step hstep hp'
    exact hok.single t t' pc₀ pc₁ hp₀ hp₁

/-- A step that adds no link and stays in its row. -/
theorem quiet (hok : r.Ok c) (hpool : r'.pool = r.pool ∨
      ∃ e, Macula.Pool.step c.options r.pool e = some r'.pool)
    (hsame : r.SameLinks r') (hlooks : r'.LooksAt)
    (hlinks : ∀ l ∈ r'.rows.links, l ∈ r.rows.links ∨ l < r.pool.numLinks)
    (hpending : r'.rows.pending = true → r.rows.pending = true ∨
      r.pool.occupiedDiscoverySlots < c.options.maxLinks) : r'.Ok c := by
  refine hok.next hpool (fun l hl => ?_) hlooks (fun hp => ?_)
  · rw [hsame.numLinks]
    exact (hlinks l hl).elim (hok.links l) id
  · have hle : r'.pool.occupiedDiscoverySlots ≤ r.pool.occupiedDiscoverySlots := by
      rcases hpool with heq | ⟨e, hstep⟩
      · rw [heq]
      · exact occupied_le_of_step hok.wellFormed hstep hsame.links
    exact Nat.lt_of_le_of_lt hle ((hpending hp).elim hok.free id)

theorem rowStep (hok : r.Ok c) (h : RowStep c r t r') : r'.Ok c := by
  have hpool : r'.pool = r.pool ∨
      ∃ e, Macula.Pool.step c.options r.pool e = some r'.pool := by
    rcases h.refines hok with hsame | ⟨choice, hstep⟩
    · exact .inl hsame
    · exact .inr ⟨.run t choice, hstep⟩
  cases h with
  | returns rows hp hrows =>
      exact hok.quiet hpool {} (.of_rows (by simp [hrows])) (fun l hl => .inl hl) .inl
  | skip row rest hp hrows hnone =>
      exact hok.quiet hpool {} (.of_rows (by simp)) (by simp [RowPc.links])
        (by simp [RowPc.pending])
  | fits row rest target hp hrows hfree htarget =>
      refine hok.quiet hpool {} (.of_rows ?_) (fun l hl => ?_) (fun _ => .inr hfree)
      · intro target' l todo rest'
        change (if target.nodeId.isSome then _ else _ : RowPc) ≠ _
        split
        next => simp
        next => simp
      · change l ∈ (if target.nodeId.isSome then _ else _ : RowPc).links at hl
        split at hl
        next => cases hl
        next => cases hl
  | ask target rest hp hrows =>
      refine hok.quiet hpool {} (.of_rows (by simp)) (fun l hl => .inr ?_)
        (fun _ => .inl (by rw [hrows]; rfl))
      exact hok.wellFormed.links l hl
  | look target l todo rest hp hrows hconnected =>
      refine hok.quiet hpool {} ?_ (fun l' hl => .inl (by rw [hrows]; exact hl))
        (fun _ => .inl (by rw [hrows]; rfl))
      intro t' l₁ target' l' todo' rest' hp' hat
      cases hat
      by_cases heq : t' = t
      · subst heq
        simp [State.setProc] at hp'
        exact hp'.symm
      · have hold : r.pool.proc t' = .disc (.peeking l₁) := by
          simpa [State.setProc, State.enqueue, State.modify, heq] using hp'
        exact absurd (hok.single t' t _ _ hold hp) heq
  | pass target l todo rest hp hrows hconnected =>
      exact hok.quiet hpool {} (.of_rows (by simp))
        (fun l' hl => .inl (by rw [hrows]; exact List.mem_cons_of_mem l hl))
        (fun _ => .inl (by rw [hrows]; rfl))
  | miss target rest hp hrows =>
      exact hok.quiet hpool {} (.of_rows (by simp)) (by simp [RowPc.links])
        (fun _ => .inl (by rw [hrows]; rfl))
  | learn target l l' todo rest hp hrows hgranted =>
      exact hok.quiet hpool {} (.of_rows (by simp))
        (fun l₁ hl => .inl (by rw [hrows]; exact List.mem_cons_of_mem l' hl))
        (fun _ => .inl (by rw [hrows]; rfl))
  | known target l known todo rest hp hrows hsome hknown =>
      exact hok.quiet hpool {} (.of_rows (by simp)) (by simp [RowPc.links])
        (by simp [RowPc.pending])
  | other target l known todo rest hp hrows hother =>
      exact hok.quiet hpool {} (.of_rows (by simp)) (fun l' hl => .inl (by rw [hrows]; exact hl))
        (fun _ => .inl (by rw [hrows]; rfl))
  | present target rest hp hrows hany =>
      exact hok.quiet hpool {} (.of_rows (by simp)) (by simp [RowPc.links])
        (by simp [RowPc.pending])
  | push target rest hp hrows habsent =>
      have hhead : (r.push t target rest).rows = .head rest := rfl
      exact hok.next hpool (by simp [hhead, RowPc.links]) (.of_rows (by simp [hhead]))
        (by simp [hhead, RowPc.pending])

theorem step {e : RosterEvent} (hok : r.Ok c) (h : rosterStep c r e = some r') : r'.Ok c := by
  have hpool := roster_refines hok h
  have hsame : r.SameLinks r' ∨ ∃ t, e = .rows t := by
    rcases rosterStep_cases h with hsame | ⟨t, target, rest, rfl, -⟩
    · exact .inl hsame
    · exact .inr ⟨t, rfl⟩
  cases e with
  | pool e =>
      obtain hsame := hsame.resolve_right nofun
      simp only [rosterStep] at h
      split at h
      next hordinary =>
        obtain ⟨s, hs, rfl⟩ := Option.map_eq_some_iff.mp h
        refine hok.quiet hpool hsame (hok.looksAt.of_step hs rfl ?_) (fun l hl => .inl hl) .inl
        rintro t l rfl hp
        simp [Roster.ordinary, hp] at hordinary
      next => cases h
  | dialed t nodeId =>
      obtain hsame := hsame.resolve_right nofun
      simp only [rosterStep] at h
      split at h
      next =>
        obtain ⟨s, hs, rfl⟩ := Option.map_eq_some_iff.mp h
        exact hok.quiet hpool hsame (hok.looksAt.of_step hs rfl nofun) (fun l hl => .inl hl) .inl
      next => cases h
  | answered t stations =>
      obtain hsame := hsame.resolve_right nofun
      simp only [rosterStep] at h
      split at h
      next =>
        obtain ⟨s, hs, rfl⟩ := Option.map_eq_some_iff.mp h
        exact hok.quiet hpool hsame (.of_rows nofun) nofun nofun
      next => cases h
  | rows t =>
      simp only [rosterStep] at h
      split at h
      next pc hp => exact hok.rowStep (rowStep_of_stepRows hp h)
      next => cases h

end Roster.Ok

theorem ok_of_run {seeds : List Seed} {events : List RosterEvent}
    (h : run (rosterStep c) (.connect c seeds) events = some r) : r.Ok c :=
  run_invariant_of_step (Roster.Ok c) (fun _ _ _ hok he => hok.step he) (.connect seeds) h

end Macula.Pool
