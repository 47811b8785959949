import Macula.Pool.Budget

/-!
# One link for a station

A station drops the older connection when an identity dials it twice, so discovery leaves out
a row whose node the pool has a link for.  `has_link_for_node_id` looks at the links that are
flagged as connected, and at the nodes that their handshakes named.  A link that was added for a
node and is still being dialed is passed over: two rows with one node and two hostnames make two
links (`two_links_for_one_node`).  So is a link whose handshake with the node is over, but whose
flag is not stored yet.

`heedful` is what it takes: no link that was added for the node of a row, or is connected to it,
is passed over, and none completes a handshake with it once it has been looked at.
-/

namespace Macula.Pool

open Macula.Discovery (Seed)

/-- The handshake of the task is over, and was with the node; the link is not flagged yet. -/
def Roster.arrived (r : Roster) (l : LinkId) (nodeId : NodeId) (t : TaskId) : Bool :=
  match (r.pool.proc t).role l with
  | .dialed _ | .locking _ => r.node t = nodeId
  | .installed | .released => r.peer l = some nodeId
  | _ => false

/-- The link was added for the node, or is connected to it: by a handshake that its lifecycle
task has just completed, by the session in its slot, or by its flag. -/
def Roster.StandsFor (r : Roster) (l : LinkId) (nodeId : NodeId) : Prop :=
  r.found l = some nodeId ∨
    (∃ t ∈ List.range r.pool.numTasks, r.arrived l nodeId t = true) ∨
    r.peer l = some nodeId ∧
      ((r.pool.link l).session.isSome = true ∨ (r.pool.link l).connected = true)

/-- The row's host and port have a link already. -/
def Roster.HasSeed (r : Roster) (target : Target) : Prop :=
  ∃ l ∈ r.pool.links, r.seed l = target.seed

instance (r : Roster) (target : Target) : Decidable (r.HasSeed target) :=
  inferInstanceAs (Decidable (∃ l ∈ r.pool.links, _))

instance (r : Roster) (l : LinkId) (nodeId : NodeId) : Decidable (r.StandsFor l nodeId) :=
  inferInstanceAs (Decidable (_ ∨ _))

/-- The row at hand. -/
def RowPc.target : RowPc → Option Target
  | .head _ => none
  | .asking target _ | .scanning target _ _ | .looking target _ _ _ | .looked target _ _ _
  | .adding target _ => some target

/-- The link is still to be looked at. -/
def RowPc.awaits : RowPc → LinkId → Bool
  | .head _, _ | .asking .., _ => true
  | .scanning _ todo _, l | .looked _ _ todo _, l => todo.contains l
  | .looking _ l' todo _, l => (l' :: todo).contains l
  | .adding .., _ => false

/-- The loop goes past the link. -/
def Roster.passesOver (r : Roster) (nodeId : NodeId) (e : RosterEvent) (l : LinkId) : Bool :=
  match e, r.rows with
  | .rows _, .scanning _ (l' :: _) _ => l' = l && !(r.pool.link l).connected
  | .rows _, .looking _ l' _ _ => l' = l && r.peer l ≠ some nodeId
  | _, _ => false

/-- A lifecycle task completes a handshake of the link with the node. -/
def Roster.connects (r : Roster) (nodeId : NodeId) (e : RosterEvent) (l : LinkId) : Bool :=
  match e with
  | .dialed t nodeId' => nodeId' = nodeId && r.pool.proc t = .life l .dialing
  | _ => false

/-- While a row with a node and a seed of its own is at hand, no link that stands for the node
is passed over, and none that has been looked at is connected to it. -/
def heedful (r : Roster) (e : RosterEvent) : Bool :=
  match r.rows.target with
  | some ⟨seed, _, some nodeId⟩ =>
    r.pool.links.any (fun l => r.seed l = seed) ||
      r.pool.links.all fun l =>
        (!r.passesOver nodeId e l || !decide (r.StandsFor l nodeId)) &&
          (r.rows.awaits l || !r.connects nodeId e l)
  | _ => true

theorem heedful_row {r : Roster} {e : RosterEvent} {target : Target} {nodeId : NodeId}
    (hheed : heedful r e = true) (htarget : r.rows.target = some target)
    (hnode : target.nodeId = some nodeId) (habsent : ¬ r.HasSeed target) {l : LinkId}
    (hl : l ∈ r.pool.links) :
    (r.passesOver nodeId e l = true → ¬ r.StandsFor l nodeId) ∧
      (r.rows.awaits l = false → r.connects nodeId e l = false) := by
  obtain ⟨seed, trust, node⟩ := target
  obtain rfl : node = some nodeId := hnode
  simp only [heedful, htarget, Bool.or_eq_true] at hheed
  rcases hheed with hany | hall
  · rw [List.any_eq_true] at hany
    obtain ⟨l', hl', hseed⟩ := hany
    exact absurd ⟨l', hl', of_decide_eq_true hseed⟩ habsent
  · rw [List.all_eq_true] at hall
    have hkept := hall l hl
    simp only [Bool.and_eq_true, Bool.or_eq_true, Bool.not_eq_true',
      decide_eq_false_iff_not] at hkept
    constructor
    · intro hpasses
      rw [hpasses] at hkept
      exact hkept.1.resolve_left nofun
    · intro hawaits
      rw [hawaits] at hkept
      exact hkept.2.resolve_left nofun

/-! ## One step -/

/-- What is after a handshake was so before, or has just taken its next step on that way. -/
theorem Move.handshaken {α γ : Type*} [DecidableEq α] {a : Act α} {v v' : View α γ} {w : α}
    (m : Move a v v') (h : (v'.role w).handshaken = true) :
    v'.role w = v.role w ∨ a = .run w ∧ (v.role w = .dialing ∧ (∃ g, v'.role w = .dialed g) ∨
      (∃ g, v.role w = .dialed g ∧ v'.role w = .locking g) ∨
      (∃ g, v.role w = .locking g ∧ v'.role w = .installed) ∨
      v.role w = .installed ∧ v'.role w = .released) := by
  cases m with
  | dial w₀ g hw =>
      by_cases heq : w = w₀
      · subst heq
        exact .inr ⟨rfl, .inl ⟨hw, g, View.become_role_self ..⟩⟩
      · exact .inl (View.become_role_of_ne _ _ heq)
  | enter w₀ g hw =>
      by_cases heq : w = w₀
      · subst heq
        exact .inr ⟨rfl, .inr (.inl ⟨g, hw, View.become_role_self ..⟩)⟩
      · exact .inl (View.become_role_of_ne _ _ heq)
  | install w₀ g hw _ =>
      by_cases heq : w = w₀
      · subst heq
        exact .inr ⟨rfl, .inr (.inr (.inl ⟨g, hw, View.become_role_self ..⟩))⟩
      · exact .inl (View.become_role_of_ne _ _ heq)
  | release w₀ hw =>
      by_cases heq : w = w₀
      · subst heq
        exact .inr ⟨rfl, .inr (.inr (.inr ⟨hw, View.become_role_self ..⟩))⟩
      · exact .inl (View.become_role_of_ne _ _ heq)
  | stay | close => exact .inl rfl
  | spawn w₁ w₂ _ _ =>
      left
      simp only [View.become_role] at h ⊢
      split at h
      next => cases h
      next hne =>
        rw [if_neg hne]
        split at h
        next => cases h
        next hne' => rw [if_neg hne']
  | _ =>
      left
      simp only [View.become_role] at h ⊢
      split at h
      next => cases h
      next hne => rw [if_neg hne]

section

variable {α γ : Type*} [DecidableEq α] {a : Act α} {v v' : View α γ} {w : α} {g : γ}

theorem Move.dialed (m : Move a v v') (h : v'.role w = .dialed g) :
    v.role w = .dialed g ∨ a = .run w ∧ v.role w = .dialing := by
  rcases m.handshaken (w := w) (by rw [h]; rfl) with hsame | ⟨ha, hstep⟩
  · exact .inl (hsame.symm.trans h)
  · rw [h] at hstep
    simp only [reduceCtorEq, and_false, exists_false, or_false] at hstep
    exact .inr ⟨ha, hstep.1⟩

theorem Move.locking (m : Move a v v') (h : v'.role w = .locking g) :
    v.role w = .locking g ∨ v.role w = .dialed g := by
  rcases m.handshaken (w := w) (by rw [h]; rfl) with hsame | ⟨-, hstep⟩
  · exact .inl (hsame.symm.trans h)
  · rw [h] at hstep
    simp only [reduceCtorEq, and_false, exists_false, or_false, false_or] at hstep
    obtain ⟨g', hdialed, hg⟩ := hstep
    exact .inr (Role.locking.inj hg ▸ hdialed)

theorem Move.installed (m : Move a v v') (h : v'.role w = .installed) :
    v.role w = .installed ∨ a = .run w ∧ ∃ g, v.role w = .locking g := by
  rcases m.handshaken (w := w) (by rw [h]; rfl) with hsame | ⟨ha, hstep⟩
  · exact .inl (hsame.symm.trans h)
  · rw [h] at hstep
    simp only [reduceCtorEq, and_false, exists_false, or_false, false_or, and_true] at hstep
    exact .inr ⟨ha, hstep⟩

theorem Move.released (m : Move a v v') (h : v'.role w = .released) :
    v.role w = .released ∨ v.role w = .installed := by
  rcases m.handshaken (w := w) (by rw [h]; rfl) with hsame | ⟨-, hstep⟩
  · exact .inl (hsame.symm.trans h)
  · rw [h] at hstep
    simp only [reduceCtorEq, and_false, exists_false, false_or, and_true] at hstep
    exact .inr hstep

end

/-- A link comes to be connected by a lifecycle task that has installed its session. -/
theorem Move.connected {α γ : Type*} [DecidableEq α] {a : Act α} {v v' : View α γ}
    (m : Move a v v') (hafter : v'.connected = true) :
    v.connected = true ∨ ∃ w, v.role w = .released := by
  cases m with
  | announce w hw => exact .inr ⟨w, hw⟩
  | flag | birth | disconnect => cases hafter
  | _ => exact .inl hafter

/-- Only tasks shake hands. -/
theorem task_of_handshaken {s : State} {l : LinkId} {w : Who} {role : Role SessionId}
    (h : (s.view l).role w = role) (hrole : role.handshaken = true) : ∃ t, w = .task t := by
  cases w with
  | task t => exact ⟨t, rfl⟩
  | closer =>
      have hcloser : s.close.role l = role := h
      subst hcloser
      rcases s.close.role_cases l with heq | heq
      · rw [heq] at hrole
        cases hrole
      · rw [heq] at hrole
        cases hrole

theorem stepLife_dialed {s s' : State} {w : Who} {l : LinkId} {pc : LifePc} {choice : Choice}
    {g : SessionId} (h : stepLife s w l pc choice = some (s', .dialed g)) :
    pc = .dialing ∧ choice = .go := by
  revert h
  fun_cases stepLife s w l pc choice
  case case3 =>
    intro _
    exact ⟨rfl, rfl⟩
  all_goals grind

/-- Only one step of a task ends its dialing with a session. -/
theorem dialing_of_step {o : Options} {s s' : State} {e : Event} {t : TaskId} {l : LinkId}
    {g : SessionId} (h : step o s e = some s') (hact : e.act = .run (.task t))
    (hafter : (s'.proc t).role l = .dialed g) (hbefore : (s.proc t).role l = .dialing) :
    e = .run t .go ∧ s.proc t = .life l .dialing := by
  obtain ⟨pc', hp', hpc'⟩ := Proc.life_of_handshaken hafter rfl
  cases e with
  | run t' choice =>
      obtain rfl : t' = t := Who.task.inj (Act.run.inj hact)
      obtain ⟨s₁, p, rfl, hturn⟩ := turn_of_stepTask h
      have hself : (s₁.setProc t' p).proc t' = p := Function.update_self ..
      obtain rfl := hself.symm.trans hp'
      cases hturn with
      | @life _ pc _ _ hp h₁ =>
          cases pc' with
          | dialed g' =>
              obtain ⟨rfl, rfl⟩ := stepLife_dialed h₁
              exact ⟨rfl, hp⟩
          | _ => cases hpc'
  | _ => cases hact

theorem locking_of_step {o : Options} {s s' : State} {e : Event} {t : TaskId} {l : LinkId}
    {g : SessionId} (h : step o s e = some s') (hact : e.act = .run (.task t))
    (hp : s.proc t = .life l (.locking g)) : e = .run t .go := by
  cases e with
  | run t' choice =>
      obtain rfl : t' = t := Who.task.inj (Act.run.inj hact)
      change stepTask o s t' choice = some s' at h
      rw [stepTask, hp] at h
      obtain ⟨r₁, h₁, -⟩ := Option.map_eq_some_iff.mp h
      cases choice with
      | go => rfl
      | _ => cases h₁
  | _ => cases hact

variable {c : Setup} {r r' : Roster}

namespace Roster

theorem arrived_iff {l : LinkId} {nodeId : NodeId} {t : TaskId} : r.arrived l nodeId t = true ↔
    (∃ g, (r.pool.proc t).role l = .dialed g ∨ (r.pool.proc t).role l = .locking g) ∧
        r.node t = nodeId ∨
      ((r.pool.proc t).role l = .installed ∨ (r.pool.proc t).role l = .released) ∧
        r.peer l = some nodeId := by
  cases hrole : (r.pool.proc t).role l <;> simp [Roster.arrived, hrole]

theorem standsFor_of_arrived {l : LinkId} {nodeId : NodeId} {t : TaskId}
    (hwf : WellFormed r.pool) (h : r.arrived l nodeId t = true) : r.StandsFor l nodeId := by
  refine .inr (.inl ⟨t, List.mem_range.mpr ?_, h⟩)
  by_contra hge
  rw [Roster.arrived, hwf.fresh t (Nat.le_of_not_lt hge)] at h
  cases h

/-- A node that is new in the slot is the one of the session that is installed. -/
theorem standsFor_of_peerAfter {e : Event} {l : LinkId} {nodeId : NodeId}
    (hwf : WellFormed r.pool) (h : r.peerAfter e l = some nodeId) :
    r.peer l = some nodeId ∨ r.StandsFor l nodeId := by
  rcases r.peerAfter_cases e with heq | ⟨t, l', g, rfl, hp, heq⟩
  · exact .inl (heq ▸ h)
  · rw [heq, Function.update_apply] at h
    split at h
    next hl =>
      subst hl
      have hrole : (r.pool.proc t).role l = .locking g := by
        rw [hp]
        exact onLink_self l _
      exact .inr (standsFor_of_arrived hwf
        (arrived_iff.mpr (.inl ⟨⟨g, .inr hrole⟩, Option.some.inj h⟩)))
    next => exact .inl h

/-- A task arrives at a node by its handshake, and its link stands for the node from then on. -/
theorem standsFor_of_arrives {e : Event} {l : LinkId} {nodeId : NodeId} {t : TaskId}
    (hwf : WellFormed r.pool) (h : step c.options r.pool e = some r'.pool)
    (hpeer : r'.peer = r.peerAfter e)
    (hnode : ∀ t, (∀ l, r.pool.proc t ≠ .life l .dialing) → r'.node t = r.node t)
    (harrived : r'.arrived l nodeId t = true) : r.StandsFor l nodeId ∨
      e = .run t .go ∧ r.pool.proc t = .life l .dialing ∧ r'.node t = nodeId := by
  have hkept : ∀ {role : Role SessionId}, (r.pool.proc t).role l = role →
      role.handshaken = true → r'.node t = r.node t := by
    intro role hrole hhand
    refine hnode t fun l' hp => ?_
    obtain ⟨pc, hp', hpc⟩ := Proc.life_of_handshaken hrole hhand
    cases hp.symm.trans hp'
    subst hpc
    cases hhand
  have hslot : r'.peer l = some nodeId → ((r.pool.proc t).role l = .installed ∨
      (r.pool.proc t).role l = .released) → r.StandsFor l nodeId := by
    intro hafter hrole
    rw [hpeer] at hafter
    rcases standsFor_of_peerAfter hwf hafter with hold | hstands
    · exact standsFor_of_arrived hwf (arrived_iff.mpr (.inr ⟨hrole, hold⟩))
    · exact hstands
  have hmove := step_moves hwf h l
  have hview : (r'.pool.view l).role (.task t) = (r'.pool.proc t).role l := rfl
  rcases arrived_iff.mp harrived with ⟨⟨g, hdialed | hlocking⟩, hnode'⟩ |
    ⟨hinstalled | hreleased, hpeer'⟩
  · rcases hmove.dialed (hview.trans hdialed) with hbefore | ⟨hact, hbefore⟩
    · rw [hkept hbefore rfl] at hnode'
      exact .inl (standsFor_of_arrived hwf (arrived_iff.mpr (.inl ⟨⟨g, .inl hbefore⟩, hnode'⟩)))
    · obtain ⟨he, hp⟩ := dialing_of_step h hact hdialed hbefore
      exact .inr ⟨he, hp, hnode'⟩
  · have hbefore : (r.pool.proc t).role l = .dialed g ∨ (r.pool.proc t).role l = .locking g :=
      (hmove.locking (hview.trans hlocking)).symm
    have hsame : r'.node t = r.node t := hbefore.elim (hkept · rfl) (hkept · rfl)
    rw [hsame] at hnode'
    exact .inl (standsFor_of_arrived hwf (arrived_iff.mpr (.inl ⟨⟨g, hbefore⟩, hnode'⟩)))
  · rcases hmove.installed (hview.trans hinstalled) with hbefore | ⟨hact, g, hbefore⟩
    · exact .inl (hslot hpeer' (.inl hbefore))
    · -- the slot takes the node of the session
      have hp := Proc.life_of_locking hbefore
      obtain rfl := locking_of_step h hact hp
      rw [hpeer, Roster.peerAfter, hp] at hpeer'
      have hnode' : r.node t = nodeId := by simpa using hpeer'
      exact .inl (standsFor_of_arrived hwf (arrived_iff.mpr (.inl ⟨⟨g, .inr hbefore⟩, hnode'⟩)))
  · exact .inl (hslot hpeer' (hmove.released (hview.trans hreleased)).symm)

/-- A link comes to stand for a node, if it is not added for it, as its handshake with the node
is over. -/
theorem standsFor_of_step {e : Event} {l : LinkId} {nodeId : NodeId} (hwf : WellFormed r.pool)
    (h : step c.options r.pool e = some r'.pool) (hfound : r'.found = r.found)
    (hpeer : r'.peer = r.peerAfter e)
    (hnode : ∀ t, (∀ l, r.pool.proc t ≠ .life l .dialing) → r'.node t = r.node t)
    (hstands : r'.StandsFor l nodeId) : r.StandsFor l nodeId ∨
      ∃ t, e = .run t .go ∧ r.pool.proc t = .life l .dialing ∧ r'.node t = nodeId := by
  rcases hstands with hadded | ⟨t, -, harrived⟩ | ⟨hnode', hup⟩
  · exact .inl (.inl (hfound ▸ hadded))
  · exact (standsFor_of_arrives hwf h hpeer hnode harrived).imp_right fun hdials => ⟨t, hdials⟩
  · left
    rw [hpeer] at hnode'
    rcases standsFor_of_peerAfter hwf hnode' with hslot | hstands
    · have hmove := step_moves hwf h l
      rcases hup with hsession | hconnected
      · rcases hmove.session (Option.isSome_iff_ne_none.mp hsession) with hold | ⟨w, g, hact, hw⟩
        · exact .inr (.inr ⟨hslot, .inl (Option.isSome_iff_ne_none.mpr hold)⟩)
        · obtain ⟨t, rfl⟩ := task_of_handshaken hw rfl
          have hp := Proc.life_of_locking hw
          obtain rfl := locking_of_step h hact hp
          rw [Roster.peerAfter, hp] at hnode'
          exact standsFor_of_arrived hwf
            (arrived_iff.mpr (.inl ⟨⟨g, .inr hw⟩, by simpa using hnode'⟩))
      · rcases hmove.connected hconnected with hold | ⟨w, hw⟩
        · exact .inr (.inr ⟨hslot, .inr hold⟩)
        · obtain ⟨t, rfl⟩ := task_of_handshaken hw rfl
          exact standsFor_of_arrived hwf (arrived_iff.mpr (.inr ⟨.inr hw, hslot⟩))
    · exact hstands

end Roster

/-- Every link that has been looked at does not stand for the node of the row, unless the row
is left out. -/
def Roster.Seen (r : Roster) : Prop :=
  ∀ target nodeId, r.rows.target = some target → target.nodeId = some nodeId →
    r.HasSeed target ∨ (∃ todo rest, r.rows = .looked target (some nodeId) todo rest) ∨
      ∀ l ∈ r.pool.links, r.rows.awaits l = true ∨ ¬ r.StandsFor l nodeId

namespace Roster.Seen

theorem of_head {rows : List Cbor.Value} (h : r.rows = .head rows) : r.Seen := by
  intro target nodeId htarget
  rw [h] at htarget
  cases htarget

/-- An event that steps for no row. -/
theorem event {e : RosterEvent} (hs : r.Seen) (hheed : heedful r e = true) (hsame : r.SameLinks r')
    (hrows : r'.rows = r.rows)
    (hstands : ∀ l nodeId, r'.StandsFor l nodeId → r.StandsFor l nodeId ∨
      r.connects nodeId e l = true) : r'.Seen := by
  intro target nodeId htarget hnode
  rw [hrows] at htarget ⊢
  rcases hsame.links with hlinks | hlinks
  · have hseed : r'.HasSeed target ↔ r.HasSeed target := by
      simp [Roster.HasSeed, hlinks, hsame.seed]
    rw [hseed, hlinks]
    by_cases hhas : r.HasSeed target
    · exact .inl hhas
    · rcases hs target nodeId htarget hnode with hhas' | hhit | hseen
      · exact absurd hhas' hhas
      · exact .inr (.inl hhit)
      · refine .inr (.inr ?_)
        intro l hl
        rcases hseen l hl with hawaits | hnot
        · exact .inl hawaits
        · cases hawaits : r.rows.awaits l with
          | true => exact .inl rfl
          | false =>
              refine .inr (fun hst => ?_)
              rcases hstands l nodeId hst with hold | hconnects
              · exact hnot hold
              · have hfree := (heedful_row hheed htarget hnode hhas hl).2 hawaits
                exact Bool.false_ne_true (hfree.symm.trans hconnects)
  · refine .inr (.inr ?_)
    intro l hl
    rw [hlinks] at hl
    cases hl

/-- A step for the rows, within a row. -/
theorem row {e : RosterEvent} {target : Target} (hs : r.Seen) (hheed : heedful r e = true)
    (htarget : r.rows.target = some target) (htarget' : r'.rows.target = some target)
    (hlinks : r'.pool.links = r.pool.links) (hseed : r'.seed = r.seed)
    (hhit : ∀ nodeId todo rest, r.rows = .looked target (some nodeId) todo rest →
      target.nodeId ≠ some nodeId)
    (hstands : ∀ l nodeId, r'.StandsFor l nodeId → r.StandsFor l nodeId)
    (hnext : ∀ l ∈ r.pool.links, ∀ nodeId, r.rows.awaits l = true →
      r'.rows.awaits l = true ∨
      (∃ todo rest, r'.rows = .looked target (some nodeId) todo rest) ∨
      r.passesOver nodeId e l = true) :
    r'.Seen := by
  intro target' nodeId htarget₁ hnode
  obtain rfl : target = target' := Option.some.inj (htarget'.symm.trans htarget₁)
  have hsame : r'.HasSeed target ↔ r.HasSeed target := by
    simp [Roster.HasSeed, hlinks, hseed]
  rw [hsame, hlinks]
  by_cases hhas : r.HasSeed target
  · exact .inl hhas
  by_cases hit : ∃ todo rest, r'.rows = .looked target (some nodeId) todo rest
  · exact .inr (.inl hit)
  refine .inr (.inr ?_)
  intro l hl
  have hseen : r.rows.awaits l = true ∨ ¬ r.StandsFor l nodeId := by
    rcases hs target nodeId htarget hnode with hhas' | ⟨todo, rest, hat⟩ | hseen
    · exact absurd hhas' hhas
    · exact absurd hnode (hhit nodeId todo rest hat)
    · exact hseen l hl
  rcases hseen with hawaits | hnot
  · rcases hnext l hl nodeId hawaits with hawaits' | hit' | hpasses
    · exact .inl hawaits'
    · exact absurd hit' hit
    · have hnot := (heedful_row hheed htarget hnode hhas hl).1 hpasses
      exact .inr (fun hst => hnot (hstands l nodeId hst))
  · exact .inr (fun hst => hnot (hstands l nodeId hst))

end Roster.Seen

theorem RowStep.disc {t : TaskId} (h : RowStep c r t r') : ∃ pc, r.pool.proc t = .disc pc := by
  cases h with
  | learn _ _ _ _ _ hp | known _ _ _ _ _ hp | other _ _ _ _ _ hp => exact ⟨_, hp⟩
  | returns _ hp | skip _ _ hp | fits _ _ _ hp | ask _ _ hp | look _ _ _ _ hp
  | pass _ _ _ _ hp | miss _ _ hp | present _ _ hp | push _ _ hp => exact ⟨_, hp⟩

/-- The discovery loop connects nothing. -/
theorem RowStep.standsFor {t : TaskId} {l : LinkId} {nodeId : NodeId} (hok : r.Ok c)
    (h : RowStep c r t r') (hfound : r'.found = r.found) (hpeer : r'.peer = r.peer)
    (hnode : r'.node = r.node) (hstands : r'.StandsFor l nodeId) : r.StandsFor l nodeId := by
  obtain ⟨pc, hp⟩ := h.disc
  rcases h.refines hok with hpool | ⟨choice, hstep⟩
  · simpa [Roster.StandsFor, Roster.arrived, hfound, hpeer, hnode, hpool] using hstands
  · have hafter : r'.peer = r.peerAfter (.run t choice) := by
      rcases r.peerAfter_cases (.run t choice) with heq | ⟨t', l', g, heq, hlife, -⟩
      · rw [hpeer, heq]
      · cases heq
        rw [hp] at hlife
        cases hlife
    rcases Roster.standsFor_of_step hok.wellFormed hstep hfound hafter
      (fun t _ => congrFun hnode t) hstands with hold | ⟨t', heq, hlife, -⟩
    · exact hold
    · cases heq
      rw [hp] at hlife
      cases hlife

theorem Roster.Seen.rowStep {t : TaskId} (hok : r.Ok c) (hs : r.Seen)
    (hheed : heedful r (.rows t) = true) (h : RowStep c r t r') : r'.Seen := by
  have hstands : r'.found = r.found → r'.peer = r.peer → r'.node = r.node →
      ∀ l nodeId, r'.StandsFor l nodeId → r.StandsFor l nodeId :=
    fun hfound hpeer hnode l nodeId => h.standsFor hok hfound hpeer hnode
  cases h with
  | returns rows hp hrows => exact .of_head hrows
  | skip row rest hp hrows hnone => exact .of_head rfl
  | fits row rest target hp hrows hfree htarget =>
      intro target' nodeId htarget' hnode
      change (if target.nodeId.isSome then _ else _ : RowPc).target = _ at htarget'
      refine .inr (.inr (fun l _ => .inl ?_))
      change RowPc.awaits (if target.nodeId.isSome then _ else _) l = true
      split
      next => rfl
      next hnone =>
        rw [if_neg hnone] at htarget'
        cases htarget'
        rw [hnode] at hnone
        exact absurd rfl hnone
  | ask target rest hp hrows =>
      refine hs.row hheed (by rw [hrows]; rfl) rfl rfl rfl (by rw [hrows]; nofun)
        (hstands rfl rfl rfl) ?_
      intro l hl nodeId _
      exact .inl (List.elem_eq_true_of_mem hl)
  | look target l todo rest hp hrows hconnected =>
      refine hs.row hheed (by rw [hrows]; rfl) rfl rfl rfl (by rw [hrows]; nofun)
        (hstands rfl rfl rfl) ?_
      intro l' _ nodeId hawaits
      rw [hrows] at hawaits
      exact .inl hawaits
  | pass target l todo rest hp hrows hconnected =>
      refine hs.row hheed (by rw [hrows]; rfl) rfl rfl rfl (by rw [hrows]; nofun)
        (hstands rfl rfl rfl) ?_
      intro l' _ nodeId hawaits
      rw [hrows] at hawaits
      rcases List.mem_cons.mp (List.contains_iff_mem.mp hawaits) with rfl | htodo
      · exact .inr (.inr (by simp [Roster.passesOver, hrows, hconnected]))
      · exact .inl (List.contains_iff_mem.mpr htodo)
  | miss target rest hp hrows =>
      refine hs.row hheed (by rw [hrows]; rfl) rfl rfl rfl (by rw [hrows]; nofun)
        (hstands rfl rfl rfl) ?_
      intro l' _ nodeId hawaits
      rw [hrows] at hawaits
      cases hawaits
  | learn target l l' todo rest hp hrows hgranted =>
      obtain rfl : l = l' := hok.looksAt t l target l' todo rest hp hrows
      refine hs.row hheed (by rw [hrows]; rfl) rfl rfl rfl (by rw [hrows]; nofun)
        (hstands rfl rfl rfl) ?_
      intro l₁ _ nodeId hawaits
      rw [hrows] at hawaits
      rcases List.mem_cons.mp (List.contains_iff_mem.mp hawaits) with rfl | htodo
      · by_cases hpeer : r.peer l₁ = some nodeId
        · exact .inr (.inl ⟨todo, rest, by rw [hpeer]⟩)
        · exact .inr (.inr (by simp [Roster.passesOver, hrows, hpeer]))
      · exact .inl (List.contains_iff_mem.mpr htodo)
  | known target l known todo rest hp hrows hsome hknown => exact .of_head rfl
  | other target l known todo rest hp hrows hother =>
      refine hs.row hheed (by rw [hrows]; rfl) rfl rfl rfl ?_ (hstands rfl rfl rfl) ?_
      · intro nodeId todo' rest' hat hnode
        rw [hrows] at hat
        cases hat
        exact hother ⟨rfl, hnode.symm⟩
      · intro l' _ nodeId hawaits
        rw [hrows] at hawaits
        exact .inl hawaits
  | present target rest hp hrows hany => exact .of_head rfl
  | push target rest hp hrows habsent => exact .of_head rfl

theorem Roster.Seen.step {e : RosterEvent} (hok : r.Ok c) (hs : r.Seen) (hheed : heedful r e = true)
    (h : rosterStep c r e = some r') : r'.Seen := by
  have hsame : r.SameLinks r' ∨ ∃ t, e = .rows t := by
    rcases rosterStep_cases h with hsame | ⟨t, target, rest, rfl, -⟩
    · exact .inl hsame
    · exact .inr ⟨t, rfl⟩
  cases e with
  | pool e =>
      obtain hsame := hsame.resolve_right (by simp)
      simp only [rosterStep] at h
      split at h
      next hordinary =>
        obtain ⟨s, hstep, rfl⟩ := Option.map_eq_some_iff.mp h
        refine hs.event hheed hsame rfl ?_
        intro l nodeId hstands
        have hcases := @Roster.standsFor_of_step c r { r with pool := s, peer := r.peerAfter e } e
          l nodeId hok.wellFormed hstep rfl rfl (fun _ _ => rfl) hstands
        rcases hcases with hold | ⟨t, rfl, hp, -⟩
        · exact .inl hold
        · simp [Roster.ordinary, hp] at hordinary
      next => cases h
  | dialed t nodeId =>
      obtain hsame := hsame.resolve_right (by simp)
      simp only [rosterStep] at h
      split at h
      next l₀ hp =>
        obtain ⟨s, hstep, rfl⟩ := Option.map_eq_some_iff.mp h
        refine hs.event hheed hsame rfl ?_
        intro l nodeId' hstands
        have hpeer : r.peer = r.peerAfter (.run t .go) := by
          simp [Roster.peerAfter, hp]
        have hother : ∀ t', (∀ l, r.pool.proc t' ≠ .life l .dialing) →
            Function.update r.node t nodeId t' = r.node t' := by
          intro t' hnot
          exact Function.update_of_ne (by rintro rfl; exact hnot l₀ hp) ..
        have hcases := @Roster.standsFor_of_step c r
          { r with pool := s, node := Function.update r.node t nodeId } (.run t .go) l nodeId'
          hok.wellFormed hstep rfl hpeer hother hstands
        rcases hcases with hold | ⟨t', heq, hdials, hnode⟩
        · exact .inl hold
        · cases heq
          have hnode : nodeId = nodeId' := by simpa using hnode
          exact .inr (by simp [Roster.connects, hdials, hnode])
      next => cases h
  | answered t stations =>
      simp only [rosterStep] at h
      split at h
      next =>
        obtain ⟨s, hstep, rfl⟩ := Option.map_eq_some_iff.mp h
        exact .of_head rfl
      next => cases h
  | rows t =>
      simp only [rosterStep] at h
      split at h
      next pc hp => exact hs.rowStep hok hheed (rowStep_of_stepRows hp h)
      next => cases h

end Macula.Pool
