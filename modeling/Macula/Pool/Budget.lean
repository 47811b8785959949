import Macula.Pool.Stations

/-!
# The budget of discovery

Discovery adds links up to `max_links`, and counts only its own that have not given up.  The
count and the push are apart, and in between a link may give up, which frees a slot, but
nobody takes one.  The push itself looks for the seed among all links, under the lock it
pushes with.
-/

namespace Macula.Pool

open Macula.Discovery (Seed)

variable {c : Setup} {r r' : Roster}

/-- The first `n` links are the bootstrap links, and a link that discovery has added has its
seed for itself. -/
structure Roster.Apart (n : Nat) (r : Roster) : Prop where
  born : n ≤ r.pool.numLinks
  bootstrap : ∀ l < r.pool.numLinks, (r.pool.link l).origin = .bootstrap ↔ l < n
  seeds : ∀ l < r.pool.numLinks, ∀ l' < r.pool.numLinks, l ≠ l' →
    (r.pool.link l).origin = .discovered → r.seed l ≠ r.seed l'

/-- The links keep their origins. -/
theorem origin_of_roster {e : RosterEvent} {l : LinkId} (hok : r.Ok c)
    (h : rosterStep c r e = some r') (hl : l < r.pool.numLinks) :
    (r'.pool.link l).origin = (r.pool.link l).origin := by
  rcases roster_refines hok h with hsame | ⟨e', hstep⟩
  · rw [hsame]
  · exact (kept_of_step hstep hl).1

namespace Roster.Apart

theorem connect (seeds : List Seed) : (Roster.connect c seeds).Apart seeds.length where
  born := Nat.le_refl _
  bootstrap l hl := by
    have horigin : ((Roster.connect c seeds).pool.link l).origin = .bootstrap := rfl
    simp only [horigin, true_iff]
    exact hl
  seeds := by
    intro l hl l' hl' hne horigin
    cases horigin

theorem step {n : Nat} {e : RosterEvent} (ha : r.Apart n) (hok : r.Ok c)
    (h : rosterStep c r e = some r') : r'.Apart n := by
  have horigin := fun l (hl : l < r.pool.numLinks) => origin_of_roster hok h hl
  rcases rosterStep_cases h with hsame | ⟨t, target, rest, rfl, hp, hrows, habsent, rfl⟩
  · constructor
    · rw [hsame.numLinks]
      exact ha.born
    · intro l hl
      rw [hsame.numLinks] at hl
      rw [horigin l hl]
      exact ha.bootstrap l hl
    · intro l hl l' hl' hne hdiscovered
      rw [hsame.numLinks] at hl hl'
      rw [horigin l hl] at hdiscovered
      rw [hsame.seed]
      exact ha.seeds l hl l' hl' hne hdiscovered
  · -- the pushed link has the seed that no other link has
    have hlinks := (hok.listed.links_of_disc hp nofun).2
    have hnew : ∀ l < r.pool.numLinks, r.seed l ≠ target.seed := by
      intro l hl
      exact habsent l (by rw [hlinks]; exact List.mem_range.mpr hl)
    have hseed : ∀ l < r.pool.numLinks, (r.push t target rest).seed l = r.seed l := by
      intro l hl
      exact Function.update_of_ne (Nat.ne_of_lt hl) ..
    have hseed' : (r.push t target rest).seed r.pool.numLinks = target.seed :=
      Function.update_self ..
    have hcases : ∀ l < r.pool.numLinks + 1, l < r.pool.numLinks ∨ l = r.pool.numLinks :=
      fun l hl => Nat.lt_or_eq_of_le (Nat.le_of_lt_succ hl)
    constructor
    · exact Nat.le_succ_of_le ha.born
    · intro l hl
      rcases hcases l hl with hl | rfl
      · rw [horigin l hl]
        exact ha.bootstrap l hl
      · have hdiscovered :
            ((r.push t target rest).pool.link r.pool.numLinks).origin = .discovered := by
          simp [Roster.push, State.setProc, State.pushLink, Link.new]
        rw [hdiscovered]
        constructor
        · intro h
          cases h
        · intro h
          exact absurd h (Nat.not_lt.mpr ha.born)
    · intro l hl l' hl' hne hdiscovered
      rcases hcases l hl with hl | rfl
      · rw [horigin l hl] at hdiscovered
        rw [hseed l hl]
        rcases hcases l' hl' with hl' | rfl
        · rw [hseed l' hl']
          exact ha.seeds l hl l' hl' hne hdiscovered
        · rw [hseed']
          exact hnew l hl
      · rw [hseed']
        rcases hcases l' hl' with hl' | rfl
        · rw [hseed l' hl']
          exact (hnew l' hl').symm
        · exact absurd rfl hne

end Roster.Apart

/-- The slots stay within the budget. -/
theorem slots_of_roster {e : RosterEvent} (hok : r.Ok c)
    (hslots : r.pool.slots ≤ c.options.maxLinks) (h : rosterStep c r e = some r') :
    r'.pool.slots ≤ c.options.maxLinks := by
  rcases roster_refines hok h with hsame | ⟨e', hstep⟩
  · rw [hsame]
    exact hslots
  · exact slots_of_step hok.listed hslots hstep

/-- The pool only grows, and once it is drained it stays so. -/
theorem grows_of_roster {e : RosterEvent} (hok : r.Ok c) (h : rosterStep c r e = some r') :
    r.pool.numLinks ≤ r'.pool.numLinks ∧
      (r.pool.close.drained = true → r'.pool.close.drained = true) := by
  constructor
  · rcases rosterStep_cases h with hsame | ⟨t, target, rest, rfl, hp, hrows, habsent, rfl⟩
    · exact Nat.le_of_eq hsame.numLinks.symm
    · exact Nat.le_succ _
  · rcases roster_refines hok h with hsame | ⟨e', hstep⟩
    · rw [hsame]
      exact id
    · exact (close_of_step hstep).2

/-- What is known of a run from its seeds. -/
structure Roster.Budgeted (c : Setup) (n : Nat) (r : Roster) : Prop where
  ok : r.Ok c
  apart : r.Apart n
  slots : r.pool.slots ≤ c.options.maxLinks

namespace Roster.Budgeted

theorem connect (seeds : List Seed) : (Roster.connect c seeds).Budgeted c seeds.length where
  ok := .connect seeds
  apart := .connect seeds
  slots := by
    have hnone : (Roster.connect c seeds).pool.slots = 0 := by
      simp [State.slots, Roster.connect, Pool.connect, Link.new]
    rw [hnone]
    exact Nat.zero_le _

theorem step {n : Nat} {e : RosterEvent} (hb : r.Budgeted c n) (h : rosterStep c r e = some r') :
    r'.Budgeted c n where
  ok := hb.ok.step h
  apart := hb.apart.step hb.ok h
  slots := slots_of_roster hb.ok hb.slots h

end Roster.Budgeted

theorem budgeted_of_run {seeds : List Seed} {events : List RosterEvent}
    (h : run (rosterStep c) (.connect c seeds) events = some r) :
    r.Budgeted c seeds.length :=
  run_invariant_of_step (Roster.Budgeted c seeds.length) (fun _ _ _ hb he => hb.step he)
    (.connect seeds) h

theorem grows_of_run {later : List RosterEvent} (hok : r.Ok c)
    (h : run (rosterStep c) r later = some r') :
    r.pool.numLinks ≤ r'.pool.numLinks ∧
      (r.pool.close.drained = true → r'.pool.close.drained = true) := by
  induction later generalizing r with
  | nil =>
      cases h
      exact ⟨Nat.le_refl _, id⟩
  | cons e later ih =>
      obtain ⟨r₁, he, hrest⟩ := run_cons.mp h
      obtain ⟨hnum, hdrained⟩ := grows_of_roster hok he
      obtain ⟨hnum', hdrained'⟩ := ih (hok.step he) hrest
      exact ⟨Nat.le_trans hnum hnum', fun hd => hdrained' (hdrained hd)⟩

/-- The links of a pool that is open: the bootstrap links and behind them the others. -/
theorem Roster.Budgeted.links {n : Nat} (hb : r.Budgeted c n)
    (hopen : r.pool.close.drained = false) :
    ∃ found, r.pool.links = List.range n ++ found ∧
      (∀ l ∈ List.range n, (r.pool.link l).origin = .bootstrap) ∧
      ∀ l ∈ found, (r.pool.link l).origin = .discovered := by
  obtain ⟨k, hk⟩ := Nat.exists_eq_add_of_le hb.apart.born
  refine ⟨(List.range k).map (n + ·), ?_, ?_, ?_⟩
  · rw [hb.ok.listed.links hopen, hk, List.range_add]
  · intro l hl
    have hlt : l < n := List.mem_range.mp hl
    exact (hb.apart.bootstrap l (Nat.lt_of_lt_of_le hlt hb.apart.born)).mpr hlt
  · intro l hl
    obtain ⟨i, hi, rfl⟩ := List.mem_map.mp hl
    have hlt : n + i < r.pool.numLinks := by
      rw [hk]
      exact Nat.add_lt_add_left (List.mem_range.mp hi) n
    cases horigin : (r.pool.link (n + i)).origin with
    | bootstrap =>
        have hlow := (hb.apart.bootstrap (n + i) hlt).mp horigin
        exact absurd hlow (Nat.not_lt.mpr (Nat.le_add_right n i))
    | discovered => rfl

section

variable {n : Nat} (hb : r.Budgeted c n) (hopen : r.pool.close.drained = false)

include hb hopen

theorem Roster.Budgeted.bootstrap_links :
    r.pool.links.filter (fun l => (r.pool.link l).origin = .bootstrap) = List.range n := by
  obtain ⟨found, hsplit, hseeds, hfound⟩ := hb.links hopen
  have hall : (List.range n).filter (fun l => (r.pool.link l).origin = .bootstrap) =
      List.range n := by
    rw [List.filter_eq_self]
    intro l hl
    simp [hseeds l hl]
  have hnone : found.filter (fun l => (r.pool.link l).origin = .bootstrap) = [] := by
    rw [List.filter_eq_nil_iff]
    intro l hl
    simp [hfound l hl]
  rw [hsplit, List.filter_append, hall, hnone, List.append_nil]

/-- The slots that are taken are those of the links behind the bootstrap links. -/
theorem Roster.Budgeted.occupied : r.pool.occupiedDiscoverySlots =
    ((r.pool.links.drop n).filter fun l => !(r.pool.link l).gaveUp).length := by
  obtain ⟨found, hsplit, hseeds, hfound⟩ := hb.links hopen
  have hdrop : r.pool.links.drop n = found := by
    rw [hsplit, List.drop_left' List.length_range]
  have hnone : (List.range n).filter
      (fun l => (r.pool.link l).origin = .discovered && !(r.pool.link l).gaveUp) = [] := by
    rw [List.filter_eq_nil_iff]
    intro l hl
    simp [hseeds l hl]
  have hsame : found.filter
      (fun l => (r.pool.link l).origin = .discovered && !(r.pool.link l).gaveUp) =
        found.filter fun l => !(r.pool.link l).gaveUp := by
    apply List.filter_congr
    intro l hl
    simp [hfound l hl]
  rw [hdrop, State.occupiedDiscoverySlots, hsplit, List.filter_append, List.length_append, hnone,
    hsame, List.length_nil, Nat.zero_add]

end

/-- *The budget.*  Until `Pool::close` drains the pool, the discovered links that have not
given up are at most `max_links`; a discovered link has a seed of its own; the bootstrap links
are the first ones, are all there and are not counted; and what was in the pool before is a
prefix of what is. -/
theorem discovery_budget {seeds : List Seed} {events later : List RosterEvent}
    (h : run (rosterStep c) (.connect c seeds) events = some r)
    (hlater : run (rosterStep c) r later = some r') (hopen : r'.pool.close.drained = false) :
    r'.pool.occupiedDiscoverySlots ≤ c.options.maxLinks ∧
      (∀ l ∈ r'.pool.links, ∀ l' ∈ r'.pool.links, l ≠ l' →
        (r'.pool.link l).origin = .discovered → r'.seed l ≠ r'.seed l') ∧
      r'.pool.links.filter (fun l => (r'.pool.link l).origin = .bootstrap) =
        List.range seeds.length ∧
      r'.pool.occupiedDiscoverySlots =
        ((r'.pool.links.drop seeds.length).filter fun l => !(r'.pool.link l).gaveUp).length ∧
      r.pool.links <+: r'.pool.links := by
  have hb := budgeted_of_run h
  have hb' := budgeted_of_run (run_append h hlater)
  obtain ⟨hnum, hdrained⟩ := grows_of_run hb.ok hlater
  have hopen₀ : r.pool.close.drained = false := by
    rw [Bool.eq_false_iff] at hopen ⊢
    exact fun hd => hopen (hdrained hd)
  have hlinks := hb'.ok.listed.links hopen
  refine ⟨?_, ?_, hb'.bootstrap_links hopen, hb'.occupied hopen, ?_⟩
  · rw [State.occupiedDiscoverySlots, hlinks]
    exact hb'.slots
  · intro l hl l' hl' hne hdiscovered
    rw [hlinks, List.mem_range] at hl hl'
    exact hb'.apart.seeds l hl l' hl' hne hdiscovered
  · rw [hlinks, hb.ok.listed.links hopen₀]
    obtain ⟨k, hk⟩ := Nat.exists_eq_add_of_le hnum
    rw [hk, List.range_add]
    exact List.prefix_append ..

/-- One target for a publish, the links shuffled, and room for two discovered links. -/
def twoSlots : Setup where
  options := { Options.discovering with maxLinks := 2 }
  trust := .webPki
  isIpAddr _ := false
  pinned := by simp [Options.discovering]

/-- A row with a hostname and a node. -/
def stationRow (hostname : String) (nodeId : NodeId) : Cbor.Value :=
  .map [(.text "quic_port", .int 4433), (.text "hostname", .text hostname),
    (.text "node_id", .bytes nodeId.1)]

def oneSeed : List Seed := [⟨"boot", 4433⟩]

def bootNode : NodeId := .fill 1

def foundNode : NodeId := .fill 2

/-- `n` steps of `t` that leave no choice, or succeed. -/
def poolSteps (t : TaskId) (n : Nat) : List RosterEvent := (steps t n).map .pool

/-- The seed connects, and `list_stations` answers with the rows. -/
def answers (stations : List Cbor.Value) : List RosterEvent :=
  poolSteps 0 2 ++ .dialed 0 bootNode :: poolSteps 0 6 ++ poolSteps 1 12 ++
    .pool (.run 1 (.order [0])) :: poolSteps 1 4 ++ [.answered 1 stations]

/-- The row at hand is no link's yet, and is added. -/
def addsFirst : List RosterEvent := List.replicate 7 (.rows 1) ++ poolSteps 1 4

def rosterAfter (events : List RosterEvent) : Roster :=
  runFrom (rosterStep twoSlots) (.connect twoSlots oneSeed) events

/-- The next row is added behind two links, the first of them connected, and the loop goes on to
the row after it. -/
def addsSecond : List RosterEvent := List.replicate 8 (.rows 1) ++ poolSteps 1 4 ++ [.rows 1]

/-- Three stations are in the rows, and the first is a link. -/
def oneFound : Roster :=
  rosterAfter (answers [stationRow "a" foundNode, stationRow "b" foundNode,
    stationRow "c" foundNode] ++ addsFirst)

/-- The second is a link too, and there is no room for the third. -/
def bothFound : Roster := runFrom (rosterStep twoSlots) oneFound addsSecond

theorem budget_of_two_stations :
    oneFound.pool.links = [0, 1] ∧ bothFound.pool.links = [0, 1, 2] ∧
      bothFound.pool.occupiedDiscoverySlots ≤ 2 ∧
      bothFound.seed 1 ≠ bothFound.seed 2 ∧
      bothFound.pool.links.filter (fun l => (bothFound.pool.link l).origin = .bootstrap) = [0] ∧
      oneFound.pool.links <+: bothFound.pool.links := by
  have hrun : run (rosterStep twoSlots) (.connect twoSlots oneSeed) (answers [stationRow "a"
      foundNode, stationRow "b" foundNode, stationRow "c" foundNode] ++ addsFirst) =
        some oneFound :=
    run_eq_runFrom (by decide +kernel)
  have hlater : run (rosterStep twoSlots) oneFound addsSecond = some bothFound :=
    run_eq_runFrom (by decide +kernel)
  have hlinks : bothFound.pool.links = [0, 1, 2] := by decide +kernel
  obtain ⟨hslots, hseeds, hboot, -, hprefix⟩ :=
    discovery_budget hrun hlater (by decide +kernel)
  have hapart := hseeds 1 (by simp [hlinks]) 2 (by simp [hlinks]) (by decide) (by decide +kernel)
  exact ⟨by decide +kernel, hlinks, hslots, hapart, hboot, hprefix⟩

end Macula.Pool
