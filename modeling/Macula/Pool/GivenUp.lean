import Macula.Pool.Dialers
import Macula.Pool.Respawn

/-!
# Whether giving up is final

A link that has given up frees its slot, so that discovery can look for another station.  It
stays in the pool, and whether it stays down is left to its claim: nothing else keeps a task
from dialing it.  The claim does not look at `gave_up`.  A caller that saw the last session
fail and comes late to `mark_disconnected` wins the claim of a link that gave up in the
meantime, and the link is dialed and connected beside the one that took its slot
(`given_up_link_connected`).  A caller that comes late to the claim alone wins it beside a
live session, and the task it spawns can then give up a link that is up.

Apart from these two steps giving up is final, and the slots are kept
(`given_up_is_final_iff`).
-/

namespace Macula.Pool

/-! ## In the protocol of a link -/

section Protocol

variable {α γ : Type*}

/-- The link is down, and whoever has its claim is giving it back. -/
structure Retired (v : View α γ) : Prop where
  session : v.session = none
  connected : v.connected = false
  role : ∀ w, (v.role w).responsible = true → v.role w = .returning

namespace Retired

variable {v v' : View α γ} {w : α} {r : Role γ}

theorem not_bringing (h : Retired v) (w : α) : (v.role w).bringing = false := by
  by_contra hw
  rw [Bool.not_eq_false] at hw
  rw [h.role w (Role.responsible_of_bringing hw)] at hw
  cases hw

/-- Nobody is at work on a retired link. -/
theorem absurd_role (h : Retired v) {P : Prop} (hw : v.role w = r)
    (hr : r.responsible = true := by rfl) (hne : r ≠ .returning := by nofun) : P :=
  absurd (hw.symm.trans (h.role w (by rw [hw]; exact hr))) hne

variable [DecidableEq α]

/-- A step that brings neither a session nor anybody at work. -/
theorem same (h : Retired v) (hrole : v'.role = Function.update v.role w r)
    (hr : r.responsible = true → r = .returning)
    (hsession : v'.session = v.session ∨ v'.session = none)
    (hconnected : v'.connected = v.connected ∨ v'.connected = false) : Retired v' where
  session := hsession.elim (fun heq => heq.trans h.session) id
  connected := hconnected.elim (fun heq => heq.trans h.connected) id
  role w' hw' := by
    rw [hrole, Function.update_apply] at hw' ⊢
    split at hw'
    · next heq =>
        rw [if_pos heq]
        exact hr hw'
    · next hne =>
        rw [if_neg hne]
        exact h.role w' hw'

/-- A link stays retired unless its claim is won. -/
theorem move {a : Act α} (h : Retired v) (m : Move a v v')
    (hclaim : ∀ w, a = .run w → v.role w = .claiming → v.redialing = true)
    (hborn : v'.gaveUp = true) : Retired v' := by
  cases m with
  | stay => exact h
  | close => exact ⟨h.session, h.connected, h.role⟩
  | claim w hw hfree => exact absurd ((hclaim w rfl hw).symm.trans hfree) nofun
  | spawn w w' hw hw' => exact h.absurd_role hw
  | birth w hw => cases hborn
  | install w g hw _ | dial w g hw | enter w g hw => exact h.absurd_role hw
  | release w hw | announce w hw | giveUp w hw | halt w hw _ => exact h.absurd_role hw
  | abandon w hw | abort w hw _ | abortLocking w g hw _ => exact h.absurd_role hw
  | unclaim w hw => exact h.same rfl nofun (.inl rfl) (.inl rfl)
  | clear w g hw _ => exact h.same rfl nofun (.inr rfl) (.inl rfl)
  | take w hw _ _ => exact h.same rfl nofun (.inr rfl) (.inl rfl)
  | flag w hw | disconnect w hw _ => exact h.same rfl nofun (.inl rfl) (.inr rfl)
  | _ => exact h.same rfl nofun (.inl rfl) (.inl rfl)

/-- A link that gives up while it is down retires. -/
theorem of_giveUp {a : Act α} (hx : Exclusive v) (m : Move a v v') (hbefore : v.gaveUp = false)
    (hafter : v'.gaveUp = true) (hdown : v.session = none ∧ v.connected = false) :
    Retired v' := by
  cases m with
  | giveUp w hw =>
      refine ⟨hdown.1, hdown.2, fun w' hw' => ?_⟩
      by_cases heq : w' = w
      · subst heq
        exact View.become_role_self _ _ _
      · rw [View.become_role_of_ne _ _ heq] at hw'
        rw [hx.not_responsible_of_ne (by rw [hw]; rfl) heq] at hw'
        cases hw'
  | birth w hw => cases hafter
  | _ => exact absurd (hbefore.symm.trans hafter) nofun

end Retired

end Protocol

/-! ## In the pool -/

/-- The task has won the claim of `l` to dial it, or is dialing it. -/
def Proc.dials (l : LinkId) (p : Proc) : Bool := (p.role l).bringing

/-- The link is connected, or being dialed. -/
def State.inUse (s : State) (l : LinkId) : Bool :=
  (s.link l).session.isSome || (s.link l).connected ||
    (List.range s.numTasks).any (fun t => (s.proc t).dials l)

/-- The number of discovered links that are connected or being dialed. -/
def State.discoveredInUse (s : State) : Nat :=
  ((List.range s.numLinks).filter
    (fun l => (s.link l).origin = .discovered && s.inUse l)).length

/-- The number of discovered links that have not given up. -/
def State.slots (s : State) : Nat :=
  ((List.range s.numLinks).filter
    (fun l => (s.link l).origin = .discovered && !(s.link l).gaveUp)).length

/-- Nobody wins the claim of a link that has given up, and no task gives up a link that is
up. -/
def conclusive (s : State) : Event → Bool
  | .run t .go =>
    match s.proc t with
    | .life l .givingUp => (s.link l).session = none && !(s.link l).connected
    | p =>
      match p.claims with
      | some l => (s.link l).redialing || !(s.link l).gaveUp
      | none => true
  | _ => true

/-- A link that has given up is not in use, and the slots are kept. -/
def Final (o : Options) (s : State) : Prop :=
  (∀ l, (s.link l).gaveUp = true → s.inUse l = false) ∧ s.discoveredInUse ≤ o.maxLinks

variable {o : Options} {s s' : State} {l : LinkId}

/-- Only a caller about to try for the claim can win it. -/
theorem Proc.go_of_claims {t : TaskId} {c : Choice} (hclaims : (s.proc t).claims = some l)
    (h : stepTask o s t c = some s') : c = .go := by
  cases hp : s.proc t with
  | caller op pc =>
      rw [hp] at hclaims
      rw [stepTask, hp] at h
      obtain ⟨r, h₁, -⟩ := Option.map_eq_some_iff.mp h
      cases pc with
      | claiming => cases c <;> first | rfl | cases h₁
      | _ => cases hclaims
  | disc pc =>
      rw [hp] at hclaims
      rw [stepTask, hp] at h
      obtain ⟨r, h₁, -⟩ := Option.map_eq_some_iff.mp h
      cases pc with
      | claiming => cases c <;> first | rfl | cases h₁
      | calling pc =>
          cases pc with
          | claiming => cases c <;> first | rfl | cases h₁
          | _ => cases hclaims
      | _ => cases hclaims
  | _ =>
      rw [hp] at hclaims
      cases hclaims

theorem claims_conclusive {t : TaskId} {c : Choice} (h : stepTask o s t c = some s')
    (hguard : conclusive s (.run t c) = true) (hclaims : (s.proc t).claims = some l) :
    (s.link l).redialing = true ∨ (s.link l).gaveUp = false := by
  obtain rfl := Proc.go_of_claims hclaims h
  rw [conclusive] at hguard
  split at hguard
  · next hp =>
      rw [hp] at hclaims
      cases hclaims
  · rw [hclaims] at hguard
    simpa only [Bool.or_eq_true, Bool.not_eq_true'] using hguard

/-- Whoever sets the flag of `l` is a lifecycle task that gives up. -/
theorem gaveUp_cases {e : Event} (h : step o s e = some s') (hbefore : (s.link l).gaveUp = false)
    (hafter : (s'.link l).gaveUp = true) : ∃ t, e = .run t .go ∧ s.proc t = .life l .givingUp := by
  rcases step_dialer_or_aside h l with ⟨t, c, pc, s₁, pc', rfl, hp, h₁, rfl⟩ | haside
  · rcases (stepLife_gaveUp h₁).2 with hsame | ⟨rfl, -⟩
    · exact absurd ((hsame.trans hbefore).symm.trans hafter) Bool.false_ne_true
    · obtain rfl : c = .go := by
        cases c <;> first | rfl | cases h₁
      exact ⟨t, rfl, hp⟩
  · rcases haside.link with hlink | hnew
    · have hsame : (s'.link l).gaveUp = (s.link l).gaveUp :=
        congrArg (fun account => account.2.2) hlink.account
      exact absurd ((hsame.trans hbefore).symm.trans hafter) Bool.false_ne_true
    · rw [hnew.link] at hafter
      cases hafter

/-- A link that exists keeps its origin and its flag. -/
theorem kept_of_step {e : Event} (h : step o s e = some s') (hborn : l < s.numLinks) :
    (s'.link l).origin = (s.link l).origin ∧
      ((s.link l).gaveUp = true → (s'.link l).gaveUp = true) := by
  rcases step_dialer_or_aside h l with ⟨t, c, pc, s₁, pc', rfl, hp, h₁, rfl⟩ | haside
  · obtain ⟨horigin, hgaveUp⟩ := stepLife_gaveUp h₁
    exact ⟨horigin, fun hg => hgaveUp.elim (fun hsame => hsame.trans hg) And.right⟩
  · rcases haside.link with hlink | hnew
    · exact ⟨congrArg Prod.fst hlink.account,
        (congrArg (fun account => account.2.2) hlink.account).trans⟩
    · exact absurd hnew.eq (Nat.ne_of_lt hborn)

/-! ## The slots -/

/-- Until the drain `Pool::links` has every link there is, and after the shutdown discovery
has ended. -/
structure Listed (s : State) : Prop where
  links : s.close.drained = false → s.links = List.range s.numLinks
  ended : s.close.shutDown = true → ∀ t pc, s.proc t = .disc pc → pc = .done

theorem stepDisc_grows {w : Who} {pc pc' : DiscPc} {c : Choice}
    (h : stepDisc o s w pc c = some (s', pc')) :
    s'.links = s.links ∧ s'.numLinks = s.numLinks ∨
      s' = s.pushLink ∧ pc = .rows ∧ c = .row ∧ s.occupiedDiscoverySlots < o.maxLinks := by
  revert h
  fun_cases stepDisc o s w pc c
  all_goals intro h
  case case20 =>
    obtain ⟨⟨s₁, pc₁⟩, h₁, h₂⟩ := Option.map_eq_some_iff.mp h
    cases h₂
    rcases stepCaller_outline h₁ with ho | ⟨l, -, -, hsp⟩
    · exact .inl ⟨ho.links, ho.numLinks⟩
    · rw [hsp.eq]
      exact .inl ⟨rfl, rfl⟩
  all_goals cases h
  case case27 hfree => exact .inr ⟨rfl, rfl, rfl, hfree⟩
  all_goals exact .inl ⟨rfl, rfl⟩

theorem stepClose_links {pc pc' : ClosePc} (h : stepClose s pc = some (s', pc')) :
    s'.links = s.links ∨ s'.links = [] ∧ pc'.drained = true := by
  revert h
  fun_cases stepClose s pc
  all_goals
    intro h
    cases h
  case case8 => exact .inr ⟨rfl, rfl⟩
  all_goals exact .inl rfl

/-- A step adds a link only as discovery does, while a slot is free. -/
theorem step_grows {e : Event} (h : step o s e = some s') :
    (s'.numLinks = s.numLinks ∧
        (s'.links = s.links ∨ s'.links = [] ∧ s'.close.drained = true)) ∨
      (s'.numLinks = s.numLinks + 1 ∧ s'.links = s.links ++ [s.numLinks] ∧
        (∃ t, e = .run t .row ∧ s.proc t = .disc .rows) ∧
        s.occupiedDiscoverySlots < o.maxLinks) := by
  cases happens_of_step h with
  | begin op => exact .inl ⟨rfl, .inl rfl⟩
  | @run t c _ h₁ =>
      obtain ⟨s₁, p, rfl, hturn⟩ := turn_of_stepTask h₁
      cases hturn with
      | caller hp h₂ =>
          rcases stepCaller_outline h₂ with ho | ⟨l, -, -, hsp⟩
          · exact .inl ⟨ho.numLinks, .inl ho.links⟩
          · rw [hsp.eq]
            exact .inl ⟨rfl, .inl rfl⟩
      | life hp h₂ =>
          exact .inl ⟨(stepLife_outline h₂).numLinks, .inl (stepLife_outline h₂).links⟩
      | disc hp h₂ =>
          rcases stepDisc_grows h₂ with ⟨hlinks, hnum⟩ | ⟨rfl, rfl, rfl, hfree⟩
          · exact .inl ⟨hnum, .inl hlinks⟩
          · exact .inr ⟨rfl, rfl, ⟨t, rfl, hp⟩, hfree⟩
  | drop h₁ => exact .inl ⟨(dropProc_outline h₁).numLinks, .inl (dropProc_outline h₁).links⟩
  | close hidle => exact .inl ⟨rfl, .inl rfl⟩
  | runClose h₁ =>
      have hlinks := stepClose_links h₁
      exact .inl ⟨(stepClose_outline h₁).1, hlinks⟩

theorem disc_setProc {s₁ : State} {t t' : TaskId} {p : Proc} {pc : DiscPc}
    (h : (s₁.setProc t p).proc t' = .disc pc) (hp : ∀ pc, p ≠ .disc pc) :
    s₁.proc t' = .disc pc := by
  change Function.update s₁.proc t p t' = _ at h
  rw [Function.update_apply] at h
  split at h
  · exact absurd h (hp pc)
  · exact h

/-- Only a discovery loop goes on as one, and by its own steps. -/
theorem disc_of_step {e : Event} (h : step o s e = some s') {t : TaskId} {pc : DiscPc}
    (hpc : s'.proc t = .disc pc) : ∃ pc₀, s.proc t = .disc pc₀ ∧
      (pc₀ = pc ∨ ∃ c s₁, e = .run t c ∧ stepDisc o s (.task t) pc₀ c = some (s₁, pc)) := by
  cases happens_of_step h with
  | begin op => exact ⟨pc, disc_setProc hpc nofun, .inl rfl⟩
  | @run t₁ c _ h₁ =>
      obtain ⟨s₁, p, rfl, hturn⟩ := turn_of_stepTask h₁
      cases hturn with
      | caller hp h₂ =>
          have hold := disc_setProc hpc nofun
          rcases stepCaller_outline h₂ with ho | ⟨l, -, -, hsp⟩
          · exact ⟨pc, ho.proc ▸ hold, .inl rfl⟩
          · rw [hsp.eq] at hold
            exact ⟨pc, disc_setProc hold nofun, .inl rfl⟩
      | life hp h₂ =>
          exact ⟨pc, (stepLife_outline h₂).proc ▸ disc_setProc hpc nofun, .inl rfl⟩
      | @disc pc₁ pc' _ hp h₂ =>
          by_cases heq : t = t₁
          · subst heq
            obtain rfl : pc' = pc := by
              simpa [State.setProc] using hpc
            exact ⟨pc₁, hp, .inr ⟨c, s₁, rfl, h₂⟩⟩
          · have hold : s₁.proc t = .disc pc := by
              simpa [State.setProc, heq] using hpc
            rcases stepDisc_outline h₂ with ho | ⟨l, -, -, hsp⟩ | rfl
            · exact ⟨pc, ho.proc ▸ hold, .inl rfl⟩
            · rw [hsp.eq] at hold
              exact ⟨pc, disc_setProc hold nofun, .inl rfl⟩
            · exact ⟨pc, hold, .inl rfl⟩
  | drop h₁ => exact ⟨pc, (dropProc_outline h₁).proc ▸ disc_setProc hpc nofun, .inl rfl⟩
  | close hidle => exact ⟨pc, hpc, .inl rfl⟩
  | runClose h₁ =>
      obtain ⟨-, -, hproc, -⟩ := stepClose_outline h₁
      exact ⟨pc, congrFun hproc t ▸ hpc, .inl rfl⟩

/-- Once discovery has ended it does not come back. -/
theorem ended_of_step {e : Event} (h : step o s e = some s')
    (hended : ∀ t pc, s.proc t = .disc pc → pc = .done) {t : TaskId} {pc : DiscPc}
    (hpc : s'.proc t = .disc pc) : pc = .done := by
  obtain ⟨pc₀, hp, hsame | ⟨c, s₁, rfl, h₁⟩⟩ := disc_of_step h hpc
  · exact hsame ▸ hended t pc₀ hp
  · obtain rfl := hended t pc₀ hp
    cases c <;> cases h₁

theorem stepClose_progress {pc pc' : ClosePc} (h : stepClose s pc = some (s', pc')) :
    (pc'.shutDown = true → pc.shutDown = true ∨ s.anyLive = false) ∧
      (pc.drained = true → pc'.drained = true) := by
  revert h
  fun_cases stepClose s pc
  all_goals
    intro h
    cases h
  case case6 hlive =>
    exact ⟨fun _ => .inr (Bool.eq_false_iff.mpr hlive), by simp [ClosePc.drained]⟩
  case case11 =>
    refine ⟨fun _ => .inl rfl, fun _ => ?_⟩
    split
    · rfl
    · rfl
  case case1 | case2 | case3 => exact ⟨by simp [ClosePc.shutDown], by simp [ClosePc.drained]⟩
  case case7 => exact ⟨fun _ => .inl rfl, by simp [ClosePc.drained]⟩
  all_goals exact ⟨fun _ => .inl rfl, fun _ => rfl⟩

/-- `Pool::close` shuts down when no task of the `JoinSet` is left, and does not go back. -/
theorem close_of_step {e : Event} (h : step o s e = some s') :
    (s'.close.shutDown = true → s.close.shutDown = true ∨ s.anyLive = false) ∧
      (s.close.drained = true → s'.close.drained = true) := by
  have hsame : ∀ {q : ClosePc}, q = s.close →
      (q.shutDown = true → s.close.shutDown = true ∨ s.anyLive = false) ∧
        (s.close.drained = true → q.drained = true) :=
    fun hq => hq ▸ ⟨.inl, id⟩
  cases happens_of_step h with
  | begin op => exact hsame rfl
  | run h₁ => exact hsame (stepTask_close h₁).1
  | drop h₁ => exact hsame (dropProc_outline h₁).close
  | close hidle =>
      refine ⟨nofun, fun hd => ?_⟩
      rw [hidle] at hd
      cases hd
  | runClose h₁ => exact stepClose_progress h₁

namespace Listed

theorem connect (n : Nat) : Listed (connect o n) where
  links _ := rfl
  ended := nofun

theorem step {e : Event} (hl : Listed s) (hwf : WellFormed s)
    (h : Macula.Pool.step o s e = some s') : Listed s' := by
  obtain ⟨hshut, hdrained⟩ := close_of_step h
  refine ⟨fun hd => ?_, fun hs t pc hpc => ?_⟩
  · have hd₀ : s.close.drained = false := by
      rw [Bool.eq_false_iff] at hd ⊢
      exact fun hd₀ => hd (hdrained hd₀)
    rcases step_grows h with ⟨hnum, hlinks | ⟨-, hdraining⟩⟩ | ⟨hnum, hlinks, -, -⟩
    · rw [hlinks, hnum, hl.links hd₀]
    · exact absurd (hd.symm.trans hdraining) Bool.false_ne_true
    · rw [hlinks, hnum, hl.links hd₀, List.range_succ]
  · refine ended_of_step h (fun t₁ pc₁ hp₁ => ?_) hpc
    rcases hshut hs with hs | hlive
    · exact hl.ended hs t₁ pc₁ hp₁
    · have hend := Closing.ending_of_not_anyLive hwf (by rw [hlive]; nofun) t₁
      rw [hp₁] at hend
      exact of_decide_eq_true hend

end Listed

/-- The slots that the next step leaves are among those that are taken. -/
theorem slots_le {e : Event} (h : step o s e = some s') :
    ((List.range s.numLinks).filter
      (fun l => (s'.link l).origin = .discovered && !(s'.link l).gaveUp)).length ≤ s.slots := by
  rw [State.slots, ← List.countP_eq_length_filter, ← List.countP_eq_length_filter]
  refine List.countP_mono_left fun l hl htaken => ?_
  obtain ⟨horigin, hkept⟩ := kept_of_step h (List.mem_range.mp hl)
  rw [Bool.and_eq_true, decide_eq_true_eq, Bool.not_eq_true'] at htaken ⊢
  refine ⟨horigin ▸ htaken.1, Bool.eq_false_iff.mpr fun hg => ?_⟩
  exact Bool.false_ne_true (htaken.2.symm.trans (hkept hg))

theorem slots_of_step {e : Event} (hl : Listed s) (hslots : s.slots ≤ o.maxLinks)
    (h : step o s e = some s') : s'.slots ≤ o.maxLinks := by
  rcases step_grows h with ⟨hnum, -⟩ | ⟨hnum, -, ⟨t, -, ht⟩, hfree⟩
  · rw [State.slots, hnum]
    exact Nat.le_trans (slots_le h) hslots
  · have hshut : s.close.shutDown = false := by
      by_contra hs
      rw [Bool.not_eq_false] at hs
      cases hl.ended hs t _ ht
    have hdrained : s.close.drained = false := by
      by_contra hd
      rw [Bool.not_eq_false] at hd
      exact Bool.false_ne_true (hshut.symm.trans (ClosePc.shutDown_of_drained hd))
    have htaken : s.slots < o.maxLinks := by
      rwa [State.occupiedDiscoverySlots, hl.links hdrained] at hfree
    rw [State.slots, hnum, List.range_succ, List.filter_append, List.length_append]
    have hone : ∀ p : LinkId → Bool, ([s.numLinks].filter p).length ≤ 1 :=
      fun p => List.length_filter_le p [s.numLinks]
    exact Nat.le_trans (Nat.add_le_add (slots_le h) (hone _)) htaken

/-! ## Runs -/

/-- What is known while giving up is final. -/
structure Concluded (o : Options) (s : State) : Prop where
  wellFormed : WellFormed s
  exclusive : ∀ l, Exclusive (s.view l)
  retired : ∀ l, (s.link l).gaveUp = true → Retired (s.view l)
  listed : Listed s
  slots : s.slots ≤ o.maxLinks

namespace Concluded

theorem connect (n : Nat) : Concluded o (connect o n) where
  wellFormed := .connect n
  exclusive := exclusive_connect n
  retired _ h := nomatch h
  listed := .connect n
  slots := by
    have hnone : (Macula.Pool.connect o n).slots = 0 :=
      List.length_eq_zero_iff.mpr (List.filter_eq_nil_iff.mpr fun _ _ h => nomatch h)
    rw [hnone]
    exact Nat.zero_le _

theorem retired_step {e : Event} (hc : Concluded o s) (hguard : conclusive s e = true)
    (h : step o s e = some s') (hgaveUp : (s'.link l).gaveUp = true) : Retired (s'.view l) := by
  have hmove := step_moves hc.wellFormed h l
  cases hbefore : (s.link l).gaveUp with
  | true =>
      refine (hc.retired l hbefore).move hmove (fun w hw hclaiming => ?_) hgaveUp
      cases e with
      | run t c =>
          cases hw
          have hclaims := Proc.claims_of_role hclaiming
          exact (claims_conclusive h hguard hclaims).resolve_right
            fun hfalse => Bool.false_ne_true (hfalse.symm.trans hbefore)
      | runClose =>
          cases hw
          rcases s.close.role_cases l with hrole | hrole
          · exact absurd (hclaiming.symm.trans hrole) nofun
          · exact absurd (hclaiming.symm.trans hrole) nofun
      | _ => cases hw
  | false =>
      obtain ⟨t, rfl, hp⟩ := gaveUp_cases h hbefore hgaveUp
      have hdown : (s.link l).session = none ∧ (s.link l).connected = false := by
        simpa only [conclusive, hp, Bool.and_eq_true, decide_eq_true_eq, Bool.not_eq_true']
          using hguard
      exact .of_giveUp (hc.exclusive l) hmove hbefore hgaveUp hdown

theorem step {e : Event} (hc : Concluded o s) (hguard : conclusive s e = true)
    (h : Macula.Pool.step o s e = some s') : Concluded o s' where
  wellFormed := hc.wellFormed.step h
  exclusive l := (hc.exclusive l).move (step_moves hc.wellFormed h l)
  retired _ := hc.retired_step hguard h
  listed := hc.listed.step hc.wellFormed h
  slots := slots_of_step hc.listed hc.slots h

theorem final (hc : Concluded o s) : Final o s := by
  have hidle : ∀ l, (s.link l).gaveUp = true → s.inUse l = false := by
    intro l hgaveUp
    have hretired := hc.retired l hgaveUp
    have hsession : (s.link l).session = none := hretired.session
    have hconnected : (s.link l).connected = false := hretired.connected
    rw [State.inUse, hsession, hconnected]
    refine List.any_eq_false.mpr fun t _ => ?_
    rw [Bool.not_eq_true]
    exact hretired.not_bringing (.task t)
  refine ⟨hidle, Nat.le_trans ?_ hc.slots⟩
  rw [State.slots, State.discoveredInUse, ← List.countP_eq_length_filter,
    ← List.countP_eq_length_filter]
  refine List.countP_mono_left fun l _ hused => ?_
  rw [Bool.and_eq_true] at hused ⊢
  refine ⟨hused.1, ?_⟩
  rw [Bool.not_eq_true', Bool.eq_false_iff]
  exact fun hgaveUp => Bool.false_ne_true ((hidle l hgaveUp).symm.trans hused.2)

end Concluded

/-- A task that tries for a free claim wins it. -/
theorem wins_claim {t : TaskId} (hclaims : (s.proc t).claims = some l)
    (hfree : (s.link l).redialing = false) :
    ∃ p, stepTask o s t .go = some ((s.setRedialing l true).setProc t p) ∧
      p.dials l = true := by
  have hcaller : ∀ op rest, stepCaller o s (.task t) op (.claiming l rest) .go =
      some (s.setRedialing l true, .claimed l rest) := by
    intro op rest
    rw [stepCaller, if_neg (by rw [hfree]; nofun)]
  have hdials : ∀ rest, (CallerPc.role l (.claimed l rest)).bringing = true := by
    intro rest
    rw [CallerPc.role, onLink_self]
    rfl
  cases hp : s.proc t with
  | caller op pc =>
      rw [hp] at hclaims
      cases pc with
      | claiming l₀ rest =>
          cases hclaims
          refine ⟨.caller op (.claimed l rest), ?_, hdials rest⟩
          rw [stepTask, hp]
          exact congrArg (Option.map _) (hcaller op rest)
      | _ => cases hclaims
  | disc pc =>
      rw [hp] at hclaims
      cases pc with
      | claiming l₀ =>
          cases hclaims
          refine ⟨.disc (.claimed l), ?_, hdials []⟩
          rw [stepTask, hp]
          have hstep : stepDisc o s (.task t) (.claiming l) .go =
              some (s.setRedialing l true, .claimed l) := by
            rw [stepDisc, if_neg (by rw [hfree]; nofun)]
          exact congrArg (Option.map _) hstep
      | calling pc =>
          cases pc with
          | claiming l₀ rest =>
              cases hclaims
              refine ⟨.disc (.calling (.claimed l rest)), ?_, hdials rest⟩
              rw [stepTask, hp]
              have hstep : stepDisc o s (.task t) (.calling (.claiming l rest)) .go =
                  some (s.setRedialing l true, .calling (.claimed l rest)) :=
                congrArg (Option.map _) (hcaller .call rest)
              exact congrArg (Option.map _) hstep
          | _ => cases hclaims
      | _ => cases hclaims
  | _ =>
      rw [hp] at hclaims
      cases hclaims

/-- A step that is not conclusive can happen, and leaves a link in use that has given up. -/
theorem not_final_of_step {e : Event} (hwf : WellFormed s) (hguard : ¬ conclusive s e = true) :
    ∃ s', step o s e = some s' ∧ ¬ Final o s' := by
  cases e with
  | run t c =>
      cases c with
      | go =>
          rw [conclusive] at hguard
          split at hguard
          · next l hp =>
              refine ⟨(s.setGaveUp l).setProc t (.life l .returning), ?_, fun hfinal => ?_⟩
              · change stepTask o s t .go = _
                rw [stepTask, hp]
                rfl
              · have hlink : (s.setGaveUp l).link l = { s.link l with gaveUp := true } :=
                  link_modify ..
                have hidle := Bool.or_eq_false_iff.mp (hfinal.1 l (congrArg Link.gaveUp hlink))
                obtain ⟨hsession, hconnected⟩ := Bool.or_eq_false_iff.mp hidle.1
                refine hguard ?_
                rw [Bool.and_eq_true, Bool.not_eq_true', decide_eq_true_eq]
                refine ⟨?_, (congrArg Link.connected hlink).symm.trans hconnected⟩
                have hnone : (s.link l).session.isSome = false :=
                  (congrArg (fun link => link.session.isSome) hlink).symm.trans hsession
                exact Option.isNone_iff_eq_none.mp (Option.isSome_eq_false_iff.mp hnone)
          · split at hguard
            · next l hclaims =>
                rw [Bool.or_eq_true, Bool.not_eq_true', not_or, Bool.not_eq_true,
                  Bool.not_eq_false] at hguard
                obtain ⟨p, hstep, hdials⟩ := wins_claim (o := o) hclaims hguard.1
                have ht : t < s.numTasks := by
                  refine hwf.lt_numTasks fun hp => ?_
                  rw [hp] at hclaims
                  cases hclaims
                refine ⟨_, hstep, fun hfinal => ?_⟩
                have hgaveUp : ((s.setRedialing l true).link l).gaveUp = true :=
                  (of_link_modify Link.gaveUp rfl).trans hguard.2
                have hidle := Bool.or_eq_false_iff.mp (hfinal.1 l hgaveUp)
                have hproc : ((s.setRedialing l true).setProc t p).proc t = p :=
                  Function.update_self ..
                refine List.any_eq_false.mp hidle.2 t (List.mem_range.mpr ht) ?_
                rw [hproc]
                exact hdials
            · exact absurd rfl hguard
      | _ => exact absurd rfl hguard
  | _ => exact absurd rfl hguard

/-- Only a link that exists gives up, and it keeps its flag. -/
theorem gaveUp_of_step {e : Event} (hwf : WellFormed s) (h : step o s e = some s')
    (hborn : (s.link l).gaveUp = true → l < s.numLinks) :
    ((s.link l).gaveUp = true → (s'.link l).gaveUp = true) ∧
      ((s'.link l).gaveUp = true → l < s'.numLinks) := by
  refine ⟨fun hgaveUp => (kept_of_step h (hborn hgaveUp)).2 hgaveUp, fun hgaveUp => ?_⟩
  have hold : l < s.numLinks := by
    cases hbefore : (s.link l).gaveUp with
    | true => exact hborn hbefore
    | false =>
        obtain ⟨t, -, hp⟩ := gaveUp_cases h hbefore hgaveUp
        exact hwf.proc t l (by rw [hp]; exact List.mem_singleton_self l)
  exact of_decide_eq_true ((step_moves hwf h l).born (decide_eq_true hold))

theorem gaveUp_of_run {n : Nat} {pre post : List Event}
    (hpre : run (step o) (connect o n) pre = some s) (hpost : run (step o) s post = some s')
    (hgaveUp : (s.link l).gaveUp = true) : (s'.link l).gaveUp = true := by
  have hborn := run_invariant_of_step
    (fun s => WellFormed s ∧ ((s.link l).gaveUp = true → l < s.numLinks))
    (fun _ _ _ hi he => ⟨hi.1.step he, (gaveUp_of_step hi.1 he hi.2).2⟩)
    ⟨.connect n, fun h => nomatch h⟩ hpre
  refine (run_invariant_of_step
    (fun s => WellFormed s ∧ ((s.link l).gaveUp = true → l < s.numLinks) ∧
      (s.link l).gaveUp = true)
    (fun _ _ _ hi he => ?_) ⟨hborn.1, hborn.2, hgaveUp⟩ hpost).2.2
  have hstep := gaveUp_of_step hi.1 he hi.2.1
  exact ⟨hi.1.step he, hstep.2, hstep.1 hi.2.2⟩

/-- The steps of a run that are conclusive are exactly what makes giving up final: once a
link has given up it is neither dialed nor connected, and discovery keeps to its slots. -/
theorem given_up_is_final_iff {n : Nat} {es : List Event} :
    (∀ pre post s s', pre ++ post <+: es → run (step o) (connect o n) pre = some s →
      run (step o) s post = some s' →
        (∀ l, (s.link l).gaveUp = true → s'.inUse l = false) ∧
          s'.discoveredInUse ≤ o.maxLinks) ↔
      Guarded (step o) (fun s e => conclusive s e = true) (connect o n) es := by
  rw [← good_iff_guarded (Concluded o) (Final o) (fun _ _ _ hc hg he => hc.step hg he)
    (fun _ hc => hc.final) (fun _ _ hc hg => not_final_of_step hc.wellFormed hg)
    (Concluded.connect n)]
  constructor
  · intro h pre s hpre hrun
    exact h pre [] s s (by rwa [List.append_nil]) hrun rfl
  · intro h pre post s s' hext hpre hpost
    have hfinal := h (pre ++ post) s' hext (run_append hpre hpost)
    exact ⟨fun l hgaveUp => hfinal.1 l (gaveUp_of_run hpre hpost hgaveUp), hfinal.2⟩

/-- What has become of a pool with one seed and discovery. -/
def afterDiscovery (es : List Event) : State :=
  runFrom (step .discovering) (connect .discovering 1) es

/-- A call begins as task `t` and arrives at the lock of link 1, which the shuffle puts
first. -/
def callArrivesAtFound (t : TaskId) : List Event :=
  .begin .call :: steps t 3 ++ .run t (.order [1, 0]) :: steps t 1

/-- Two calls fail on the link that discovery found.  The first has it dialed again, in
vain, and the link gives up. -/
def givesUpBetween : List Event :=
  discovers ++ linkUp 2 ++ callArrivesAtFound 3 ++ callArrivesAtFound 4 ++
    callFails 3 ++ callFails 4 ++ steps 3 8 ++ givesUp 5

/-- The slot goes to another station.  Then the second call marks the link disconnected, and
has it dialed and connected. -/
def lateMark : List Event := .run 1 .row :: steps 1 4 ++ linkUp 6 ++ steps 4 8 ++ linkUp 7

theorem given_up_link_connected :
    (¬ ∀ (o : Options) (n : Nat) (pre post : List Event) (s s' : State),
      run (step o) (connect o n) pre = some s → run (step o) s post = some s' →
        ∀ l, (s.link l).gaveUp = true → s'.inUse l = false) ∧
    ¬ ∀ (o : Options) (n : Nat) (es : List Event) (s : State),
      run (step o) (connect o n) es = some s → s.discoveredInUse ≤ o.maxLinks := by
  refine ⟨fun h => ?_, fun h => ?_⟩
  · have hidle := h .discovering 1 givesUpBetween lateMark (afterDiscovery givesUpBetween)
      (runFrom (step .discovering) (afterDiscovery givesUpBetween) lateMark)
      (run_eq_runFrom (by decide +kernel)) (run_eq_runFrom (by decide +kernel)) 1
      (by decide +kernel)
    exact absurd hidle (by decide +kernel)
  · have hslots := h .discovering 1 (givesUpBetween ++ lateMark)
      (afterDiscovery (givesUpBetween ++ lateMark)) (run_eq_runFrom (by decide +kernel))
    exact absurd hslots (by decide +kernel)

end Macula.Pool
