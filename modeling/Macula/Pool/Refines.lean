import Macula.Pool.Outline
import Macula.Pool.Protocol

/-!
# Every step of a pool is a move on each of its links

`State.view` reads the link protocol off a state of the pool: the link with its number, and
what each task is doing to it, given by the program point the task is at.  Whatever the
pool does, the view of *every* link makes a move (`step_moves`).  A property that the moves
of one link preserve is therefore one of all runs of the pool, for all its links.
-/

namespace Macula.Pool

/-! ## What a program point means to a link -/

/-- The role `r` towards `l₀`, none towards any other link. -/
def onLink (l₀ l : LinkId) (r : Role SessionId) : Role SessionId := if l₀ = l then r else .away

@[simp] theorem onLink_self (l : LinkId) (r : Role SessionId) : onLink l l r = r := if_pos rfl

theorem onLink_of_ne {l₀ l : LinkId} (r : Role SessionId) (h : l ≠ l₀) :
    onLink l₀ l r = .away := if_neg (Ne.symm h)

@[simp] theorem onLink_away (l₀ l : LinkId) : onLink l₀ l .away = .away := ite_self _

theorem onLink_cases (l₀ l : LinkId) (r : Role SessionId) :
    onLink l₀ l r = r ∨ onLink l₀ l r = .away := ite_eq_or_eq _ _ _

theorem onLink_eq {l l₀ : LinkId} {r r' : Role SessionId} (h : onLink l₀ l r = r')
    (hr : r' ≠ .away) : l₀ = l ∧ r = r' := by
  unfold onLink at h
  split at h
  · next heq => exact ⟨heq, h⟩
  · exact absurd h.symm hr

def CallerPc.role (l : LinkId) : CallerPc → Role SessionId
  | .start | .selecting _ _ | .next _ | .spawned _ | .done => .away
  | .locking l₀ _ | .absent l₀ _ | .calling l₀ _ _ | .answered l₀ _ | .failed l₀ _ _ =>
    onLink l₀ l .user
  | .marking l₀ g _ => onLink l₀ l (.marking g)
  | .markLocking l₀ g _ => onLink l₀ l (.markLocking g)
  | .cleared l₀ _ => onLink l₀ l .cleared
  | .flagged l₀ _ => onLink l₀ l .flagged
  | .claiming l₀ _ => onLink l₀ l .claiming
  | .claimed l₀ _ | .spawning l₀ _ => onLink l₀ l .claimed

def LifePc.role : LifePc → Role SessionId
  | .start | .check | .dialing | .failedDial | .givingUp | .sleeping | .woken => .dialing
  | .dialed g => .dialed g
  | .locking g => .locking g
  | .installed => .installed
  | .released => .released
  | .connectedStored | .returning => .returning
  | .done => .away

def DiscPc.role (l : LinkId) : DiscPc → Role SessionId
  | .askLocking l₀ | .scanning l₀ | .askRelease l₀ _ | .peeking l₀ | .peeked l₀ =>
    onLink l₀ l .user
  | .calling pc => pc.role l
  | .claiming l₀ => onLink l₀ l .claiming
  | .claimed l₀ | .spawning l₀ => onLink l₀ l .claimed
  | _ => .away

def ClosePc.role (l : LinkId) : ClosePc → Role SessionId
  | .locking l₀ _ | .closing l₀ _ | .storing l₀ _ | .releasing l₀ _ => onLink l₀ l .user
  | _ => .away

theorem ClosePc.role_cases (l : LinkId) (pc : ClosePc) :
    pc.role l = .user ∨ pc.role l = .away := by
  cases pc with
  | locking | closing | storing | releasing => exact onLink_cases _ l .user
  | _ => exact .inr rfl

def Proc.role (l : LinkId) : Proc → Role SessionId
  | .caller _ pc => pc.role l
  | .life l₀ pc => onLink l₀ l pc.role
  | .disc pc => pc.role l
  | .ended => .away

/-- The link, with what the parties are doing to it. -/
def Link.view (link : Link) (role : Who → Role SessionId) (born closed : Bool) :
    View Who SessionId where
  session := link.session
  lock := link.lock
  connected := link.connected
  gaveUp := link.gaveUp
  redialing := link.redialing
  role := role
  born := born
  closed := closed

/-- The call or publish a task is in, which is also how the discovery loop calls. -/
def Proc.callerPc : Proc → Option CallerPc
  | .caller _ pc | .disc (.calling pc) => some pc
  | _ => none

/-- The task is inside `mark_disconnected` on `l`. -/
def CallerPc.inMarkDisconnected (l : LinkId) : CallerPc → Bool
  | .marking l₀ _ _ | .markLocking l₀ _ _ | .cleared l₀ _ | .flagged l₀ _ | .claiming l₀ _
  | .claimed l₀ _ | .spawning l₀ _ => l₀ = l
  | _ => false

variable {l : LinkId}

theorem Proc.role_of_callerPc {p : Proc} {pc : CallerPc} (h : p.callerPc = some pc) :
    p.role l = pc.role l := by
  cases p with
  | caller op pc₀ => exact congrArg (CallerPc.role l) (Option.some.inj h)
  | disc dpc =>
      cases dpc with
      | calling pc₀ => exact congrArg (CallerPc.role l) (Option.some.inj h)
      | _ => cases h
  | _ => cases h

/-- Only a call waits to clear a slot. -/
theorem Proc.callerPc_of_role {p : Proc} {r : Role SessionId} (h : p.role l = r)
    (hr : r.aboutToClear = true) : ∃ pc, p.callerPc = some pc ∧ pc.role l = r := by
  have hne : r ≠ .away := by
    intro heq
    rw [heq] at hr
    cases hr
  have hno : ∀ {l₀ r'}, onLink l₀ l r' = r → r'.aboutToClear = false → False := by
    intro l₀ r' heq hr'
    rw [(onLink_eq heq hne).2, hr] at hr'
    cases hr'
  cases p with
  | caller op pc => exact ⟨pc, rfl, h⟩
  | life l₀ pc => cases pc <;> exact (hno h rfl).elim
  | disc pc =>
      cases pc with
      | calling pc => exact ⟨pc, rfl, h⟩
      | askLocking | scanning | askRelease | peeking | peeked | claiming | claimed | spawning =>
          exact (hno h rfl).elim
      | _ => exact absurd h.symm hne
  | ended => exact absurd h.symm hne

namespace State

/-- What `w` is doing to `l`. -/
def role (s : State) (l : LinkId) : Who → Role SessionId
  | .task t => (s.proc t).role l
  | .closer => s.close.role l

def view (s : State) (l : LinkId) : View Who SessionId :=
  (s.link l).view (s.role l) (decide (l < s.numLinks)) (decide (s.close ≠ .idle))

/-! ## How the accesses change the views -/

variable (s : State) {l l₀ : LinkId}

theorem view_modify_of_ne (f : Link → Link) (h : l ≠ l₀) : (s.modify l₀ f).view l = s.view l := by
  show (Function.update s.link l₀ _ l).view _ _ _ = _
  rw [Function.update_of_ne h]
  rfl

theorem view_modify (f : Link → Link) :
    (s.modify l f).view l =
      (f (s.link l)).view (s.role l) (decide (l < s.numLinks)) (decide (s.close ≠ .idle)) := by
  show (Function.update s.link l _ l).view _ _ _ = _
  rw [Function.update_self]
  rfl

theorem view_setFailures (n : Nat) : (s.setFailures l₀ n).view l = s.view l := by
  by_cases h : l = l₀
  · subst h
    exact s.view_modify _
  · exact s.view_modify_of_ne _ h

theorem role_setProc (t : TaskId) (p : Proc) :
    (s.setProc t p).role l = Function.update (s.role l) (.task t) (p.role l) := by
  funext w
  cases w with
  | task t' =>
      show (Function.update s.proc t p t').role l = _
      by_cases h : t' = t
      · subst h
        simp
      · rw [Function.update_of_ne h, Function.update_of_ne (by simp [h])]
        rfl
  | closer => rw [Function.update_of_ne (by simp)]; rfl

theorem view_setProc (t : TaskId) (p : Proc) :
    (s.setProc t p).view l = (s.view l).become (.task t) (p.role l) := by
  show ({ s.view l with role := (s.setProc t p).role l } : View Who SessionId) = _
  rw [role_setProc]
  rfl

theorem view_spawn (p : Proc) :
    (s.spawn p).view l = (s.view l).become (.task s.numTasks) (p.role l) :=
  s.view_setProc s.numTasks p

end State

/-! ## The steps of the tasks -/

section Moves

open State

variable {o : Options} {s s' : State} {w : Who} {l l₀ : LinkId} {r r' : Role SessionId}
  {a : Act Who}

/-- The task goes on to a program point with the same meaning for `l`. -/
theorem move_silent (hview : s'.view l = s.view l) (hrole : (s.view l).role w = r) :
    Move a (s.view l) ((s'.view l).become w r) := by
  rw [hview, View.become_self _ hrole]
  exact .stay

/-- A step that only concerns `l₀` is a move if it is one on `l₀`. -/
theorem move_onLink (hother : ∀ l ≠ l₀, s'.view l = s.view l)
    (hrole : (s.view l).role w = onLink l₀ l r)
    (hmove : (s.view l₀).role w = r → Move a (s.view l₀) ((s'.view l₀).become w r')) :
    Move a (s.view l) ((s'.view l).become w (onLink l₀ l r')) := by
  by_cases hl : l = l₀
  · subst hl
    rw [onLink_self] at hrole ⊢
    exact hmove hrole
  · rw [onLink_of_ne _ hl] at hrole ⊢
    exact move_silent (hother l hl) hrole

/-- A step that changes nothing about `l₀` but what `w` is doing to it. -/
theorem move_become (hrole : (s.view l).role w = onLink l₀ l r)
    (hmove : (s.view l₀).role w = r → Move a (s.view l₀) ((s.view l₀).become w r')) :
    Move a (s.view l) ((s.view l).become w (onLink l₀ l r')) :=
  move_onLink (fun _ _ => rfl) hrole hmove

theorem move_become_away (hrole : (s.view l).role w = onLink l₀ l r)
    (hmove : (s.view l₀).role w = r → Move a (s.view l₀) ((s.view l₀).become w .away)) :
    Move a (s.view l) ((s.view l).become w .away) := by
  have h := move_become hrole hmove
  rwa [onLink_away] at h

/-- An access to `l₀`. -/
theorem move_modify (f : Link → Link) (hrole : (s.view l).role w = onLink l₀ l r)
    (hmove : (s.view l₀).role w = r →
      Move a (s.view l₀) (((f (s.link l₀)).view (s.role l₀) (decide (l₀ < s.numLinks))
        (decide (s.close ≠ .idle))).become w r')) :
    Move a (s.view l) (((s.modify l₀ f).view l).become w (onLink l₀ l r')) := by
  refine move_onLink (fun l hl => s.view_modify_of_ne f hl) hrole (fun hr => ?_)
  rw [view_modify]
  exact hmove hr

/-- An access to `l₀` after which the task has no more business with it. -/
theorem move_modify_away (f : Link → Link) (hrole : (s.view l).role w = onLink l₀ l r)
    (hmove : (s.view l₀).role w = r →
      Move a (s.view l₀) (((f (s.link l₀)).view (s.role l₀) (decide (l₀ < s.numLinks))
        (decide (s.close ≠ .idle))).become w .away)) :
    Move a (s.view l) (((s.modify l₀ f).view l).become w .away) := by
  have h := move_modify f hrole hmove
  rwa [onLink_away] at h

/-- `w` arrives at the lock of `l₀`. -/
theorem move_arrive (hrole : (s.view l).role w = .away) :
    Move (.run w) (s.view l) (((s.enqueue l₀ w).view l).become w (onLink l₀ l .user)) :=
  move_modify _ (hrole.trans (onLink_away l₀ l).symm) (.arrive w)

/-- `w` leaves the lock of `l₀`. -/
theorem move_leave (hrole : (s.view l).role w = onLink l₀ l .user) :
    Move a (s.view l) (((s.leave l₀ w).view l).become w .away) :=
  move_modify_away _ hrole (.leave w)

/-- `w` loses the claim of `l₀`. -/
theorem move_lose (hrole : (s.view l).role w = onLink l₀ l .claiming)
    (hlost : (s.link l₀).redialing = true) :
    Move (.run w) (s.view l) ((s.view l).become w .away) :=
  move_become_away hrole (fun hr => .lose w hr hlost)

/-- `w` wins the claim of `l₀`. -/
theorem move_claim (hrole : (s.view l).role w = onLink l₀ l .claiming)
    (hwon : ¬ (s.link l₀).redialing = true) :
    Move (.run w) (s.view l)
      (((s.setRedialing l₀ true).view l).become w (onLink l₀ l .claimed)) :=
  move_modify _ hrole (fun hr => .claim w hr (Bool.eq_false_iff.mpr hwon))

/-- `w` spawns the lifecycle task of `l₀`. -/
theorem move_spawn (hrole : (s.view l).role w = onLink l₀ l .claimed)
    (hfresh : s.proc s.numTasks = .ended) :
    Move (.run w) (s.view l) (((s.spawn (.life l₀ .start)).view l).become w .away) := by
  have hnew : ∀ l, (s.view l).role (.task s.numTasks) = .away := by
    intro l
    show (s.proc s.numTasks).role l = .away
    rw [hfresh]
    rfl
  rw [← onLink_away l₀ l]
  refine move_onLink (fun l hl => ?_) hrole (fun hr => ?_)
  · rw [view_spawn]
    exact View.become_self _ ((hnew l).trans (onLink_of_ne _ hl).symm)
  · rw [view_spawn]
    show Move _ _ ((View.become _ _ (onLink l₀ l₀ .dialing)).become w .away)
    rw [onLink_self]
    exact .spawn w (.task s.numTasks) hr (hnew l₀)

/-- The lifecycle task `w` of `l₀` sees the stop signal. -/
theorem move_halt (hrole : (s.view l).role w = onLink l₀ l .dialing) (hclosed : s.close ≠ .idle) :
    Move (.run w) (s.view l) ((s.view l).become w (onLink l₀ l .returning)) :=
  move_become hrole (fun hr => .halt w hr (decide_eq_true hclosed))

theorem stepCaller_moves {op : Op} {pc pc' : CallerPc} {c : Choice}
    (h : stepCaller o s w op pc c = some (s', pc')) (hw : (s.view l).role w = pc.role l)
    (hfresh : s.proc s.numTasks = .ended) :
    Move (.run w) (s.view l) ((s'.view l).become w (pc'.role l)) := by
  revert h
  fun_cases stepCaller o s w op pc c
  all_goals
    intro h
    cases h
  case case6 => exact move_arrive hw
  case case10 => exact move_leave hw
  case case13 =>
    cases op with
    | call => exact move_leave hw
    | publish => exact move_leave hw
  case case14 g _ => exact move_modify _ hw (.fail w g)
  case case15 g _ => exact move_modify _ hw (.mark w g)
  case case16 g _ hl => exact move_modify _ hw (fun hr => .clear w g hr hl)
  case case18 => exact move_modify _ hw (.flag w)
  case case19 => exact move_modify _ hw (.unlock w)
  case case20 hlost => exact move_lose hw hlost
  case case21 hwon => exact move_claim hw hwon
  case case23 => exact move_spawn hw hfresh
  -- the other steps look at the link or have to do with no link
  all_goals exact move_silent rfl hw

theorem stepLife_moves {pc pc' : LifePc} {c : Choice}
    (h : stepLife s w l₀ pc c = some (s', pc')) (hw : (s.view l).role w = onLink l₀ l pc.role)
    (hstop : s.stop = true → s.close ≠ .idle) :
    Move (.run w) (s.view l) ((s'.view l).become w (onLink l₀ l pc'.role)) := by
  revert h
  fun_cases stepLife s w l₀ pc c
  all_goals
    intro h
    cases h
  case case2 =>
    split
    · next h => exact move_halt hw (hstop h)
    · exact move_silent rfl hw
  case case3 => exact move_onLink (fun _ _ => rfl) hw (.dial w s.nextSession)
  case case5 g => exact move_modify _ hw (.enter w g)
  case case6 g hl => exact move_modify _ hw (fun hr => .install w g hr hl)
  case case8 => exact move_modify _ hw (.release w)
  case case9 => exact move_modify _ hw (.announce w)
  case case10 => exact move_silent (s.view_setFailures 0) hw
  case case11 failures =>
    split
    · exact move_silent (s.view_setFailures failures) hw
    · exact move_silent (s.view_setFailures failures) hw
  case case12 => exact move_modify _ hw (.giveUp w)
  case case16 =>
    split
    · next h => exact move_halt hw (hstop h)
    · exact move_silent rfl hw
  case case17 => exact move_modify _ hw (.unclaim w)
  all_goals exact move_silent rfl hw

/-- `w` finds a new link. -/
theorem move_pushLink (hrole : (s.view l).role w = .away)
    (hunborn : ∀ w', s.role s.numLinks w' = .away) :
    Move (.run w) (s.view l) ((s.pushLink.view l).become w (onLink s.numLinks l .claiming)) := by
  refine move_onLink (fun l hl => ?_) (hrole.trans (onLink_away _ l).symm) (fun _ => ?_)
  · show (Function.update s.link s.numLinks _ l).view (s.role l) (decide (l < s.numLinks + 1)) _ = _
    have hborn : l < s.numLinks + 1 ↔ l < s.numLinks := by
      constructor
      · intro h
        exact Nat.lt_of_le_of_ne (Nat.le_of_lt_succ h) hl
      · exact Nat.lt_succ_of_lt
    rw [Function.update_of_ne hl, decide_eq_decide.mpr hborn]
    rfl
  · show Move _ _ (((Function.update s.link s.numLinks _ s.numLinks).view (s.role s.numLinks)
      (decide (s.numLinks < s.numLinks + 1)) _).become w .claiming)
    rw [Function.update_self, decide_eq_true (Nat.lt_succ_self _)]
    exact .birth w hunborn

theorem stepDisc_moves {pc pc' : DiscPc} {c : Choice}
    (h : stepDisc o s w pc c = some (s', pc')) (hw : (s.view l).role w = pc.role l)
    (hfresh : s.proc s.numTasks = .ended) (hunborn : ∀ w', s.role s.numLinks w' = .away) :
    Move (.run w) (s.view l) ((s'.view l).become w (pc'.role l)) := by
  revert h
  fun_cases stepDisc o s w pc c
  all_goals intro h
  case case20 pc =>
    obtain ⟨⟨s₁, pc₁⟩, h₁, h₂⟩ := Option.map_eq_some_iff.mp h
    cases h₂
    exact stepCaller_moves h₁ hw hfresh
  all_goals cases h
  case case12 => exact move_arrive hw
  case case17 found =>
    cases found with
    | true => exact move_leave hw
    | false => exact move_leave hw
  case case22 => exact move_arrive hw
  case case26 => exact move_leave hw
  case case27 => exact move_pushLink hw hunborn
  case case29 hlost => exact move_lose hw hlost
  case case30 hwon => exact move_claim hw hwon
  case case32 => exact move_spawn hw hfresh
  all_goals
    try split
  all_goals exact move_silent rfl hw

theorem stepClose_moves {pc pc' : ClosePc} (h : stepClose s pc = some (s', pc'))
    (hpc : s.close = pc) :
    Move (.run .closer) (s.view l) ((s'.view l).become .closer (pc'.role l)) := by
  have hw : (s.view l).role .closer = pc.role l := congrArg (ClosePc.role l) hpc
  have hclosed : pc ≠ .idle → decide (s.close ≠ .idle) = true := fun h => by
    rw [hpc]
    exact decide_eq_true h
  revert h
  fun_cases stepClose s pc
  all_goals
    intro h
    cases h
  case case10 => exact move_arrive hw
  case case11 l₀ _ hl =>
    have htake : Move (.run .closer) (s.view l)
        (((s.setSession l₀ none).view l).become .closer (onLink l₀ l .user)) := by
      refine move_modify _ hw (fun hr => ?_)
      exact Move.take Who.closer hr hl (hclosed (by simp))
    split
    · exact htake
    · exact htake
  case case14 =>
    refine move_modify _ hw (fun hr => ?_)
    exact Move.disconnect Who.closer hr (hclosed (by simp))
  case case15 => exact move_leave hw
  all_goals exact move_silent rfl hw

/-! ## Dropped futures -/

theorem dropCaller_moves {pc : CallerPc} (h : dropCaller s w pc = some s')
    (hw : (s.view l).role w = pc.role l) :
    Move (.drop w) (s.view l) ((s'.view l).become w .away) := by
  revert h
  fun_cases dropCaller s w pc
  all_goals
    intro h
    cases h
  case case1 => exact move_silent rfl hw
  case case2 => exact move_leave hw
  case case3 => exact move_leave hw
  case case4 g _ => exact move_modify_away _ hw (.withdraw w g)
  case case5 => exact move_become_away hw (.abandon w)

theorem dropLife_moves {pc : LifePc} (h : dropLife s w l₀ pc = some s')
    (hw : (s.view l).role w = onLink l₀ l pc.role) (hclosed : s.close ≠ .idle) :
    Move (.drop w) (s.view l) ((s'.view l).become w .away) := by
  have habort : ∀ hr : (s.view l).role w = onLink l₀ l .dialing,
      Move (.drop w) (s.view l) ((s.view l).become w .away) := fun hr =>
    move_become_away hr (fun hr => .abort w hr (decide_eq_true hclosed))
  revert h
  fun_cases dropLife s w l₀ pc
  all_goals
    intro h
    cases h
  case case4 g =>
    exact move_modify_away _ hw (fun hr => .abortLocking w g hr (decide_eq_true hclosed))
  all_goals exact habort hw

theorem dropDisc_moves {pc : DiscPc} (h : dropDisc s w pc = some s')
    (hw : (s.view l).role w = pc.role l) :
    Move (.drop w) (s.view l) ((s'.view l).become w .away) := by
  revert h
  fun_cases dropDisc s w pc
  all_goals intro h
  case case10 => exact dropCaller_moves h hw
  all_goals cases h
  case case7 => exact move_leave hw
  case case8 => exact move_leave hw
  case case9 => exact move_leave hw
  case case11 => exact move_become_away hw (.abandon w)
  all_goals exact move_silent rfl hw

/-! ## The steps of the pool -/

/-- A task that does not know the link has nothing to do with it. -/
theorem CallerPc.role_eq_away {pc : CallerPc} (h : l ∉ pc.links) : pc.role l = .away := by
  have hne : ∀ {l₀ rest}, l ∉ l₀ :: rest → ∀ r, onLink l₀ l r = .away := fun h r =>
    onLink_of_ne r (List.ne_of_not_mem_cons h)
  cases pc <;> first | rfl | exact hne h _

theorem Proc.role_eq_away {p : Proc} (h : l ∉ p.links) : p.role l = .away := by
  have hne : ∀ {l₀ rest}, l ∉ l₀ :: rest → ∀ r, onLink l₀ l r = .away := fun h r =>
    onLink_of_ne r (List.ne_of_not_mem_cons h)
  cases p with
  | caller op pc => exact pc.role_eq_away h
  | life l₀ pc => exact hne h _
  | disc pc => cases pc <;> first | rfl | exact hne h _ | exact CallerPc.role_eq_away h
  | ended => rfl

theorem ClosePc.role_eq_away {pc : ClosePc} (h : l ∉ pc.links) : pc.role l = .away := by
  have hne : ∀ {l₀ rest}, l ∉ l₀ :: rest → ∀ r, onLink l₀ l r = .away := fun h r =>
    onLink_of_ne r (List.ne_of_not_mem_cons h)
  cases pc <;> first | rfl | exact hne h _

/-- Nobody has to do with a link that does not exist yet. -/
theorem WellFormed.role_unborn (h : WellFormed s) (w : Who) : s.role s.numLinks w = .away := by
  cases w with
  | task t => exact Proc.role_eq_away (fun hl => Nat.lt_irrefl _ (h.proc t _ hl))
  | closer => exact ClosePc.role_eq_away (fun hl => Nat.lt_irrefl _ (h.close _ hl))

/-- Who acts in an event. -/
def Event.act : Event → Act Who
  | .run t _ => .run (.task t)
  | .drop t => .drop (.task t)
  | .runClose => .run .closer
  | .begin _ | .close => .env

theorem stepTask_moves {t : TaskId} {c : Choice} (hwf : WellFormed s)
    (h : stepTask o s t c = some s') : Move (.run (.task t)) (s.view l) (s'.view l) := by
  have hfresh := hwf.fresh s.numTasks (Nat.le_refl _)
  obtain ⟨s₁, p, rfl, hturn⟩ := turn_of_stepTask h
  rw [view_setProc]
  cases hturn with
  | caller hp h₁ => exact stepCaller_moves h₁ (congrArg (Proc.role l) hp) hfresh
  | life hp h₁ => exact stepLife_moves h₁ (congrArg (Proc.role l) hp) hwf.stop
  | disc hp h₁ => exact stepDisc_moves h₁ (congrArg (Proc.role l) hp) hfresh hwf.role_unborn

theorem dropProc_moves {t : TaskId} (h : dropProc s t = some s') :
    Move (.drop (.task t)) (s.view l) ((s'.setProc t .ended).view l) := by
  rw [view_setProc]
  unfold dropProc at h
  split at h
  · next hp => exact dropCaller_moves h (congrArg (Proc.role l) hp)
  · next hp =>
      split at h
      · next hc =>
          exact dropLife_moves h (congrArg (Proc.role l) hp) (fun hidle => by simp [hc] at hidle)
      · cases h
  · next hp =>
      split at h
      · exact dropDisc_moves h (congrArg (Proc.role l) hp)
      · cases h
  · cases h

theorem view_setClose {pc : ClosePc} (hpc : pc ≠ .idle) (hs : s.close ≠ .idle) :
    (s.setClose pc).view l = (s.view l).become .closer (pc.role l) := by
  show (s.link l).view ((s.setClose pc).role l) _ (decide (pc ≠ .idle)) =
    (s.link l).view (Function.update (s.role l) .closer (pc.role l)) _ (decide (s.close ≠ .idle))
  have hrole : (s.setClose pc).role l = Function.update (s.role l) .closer (pc.role l) := by
    funext w
    cases w with
    | task t => rw [Function.update_of_ne (by simp)]; rfl
    | closer => rw [Function.update_self]; rfl
  rw [hrole, decide_eq_true hpc, decide_eq_true hs]
  rfl

/-- *Refinement.*  Whatever the pool does is a move on each of its links. -/
theorem step_moves {e : Event} (hwf : WellFormed s) (h : step o s e = some s') (l : LinkId) :
    Move e.act (s.view l) (s'.view l) := by
  cases happens_of_step h with
  | begin op =>
      rw [view_spawn, View.become_self]
      · exact .stay
      · show (s.proc s.numTasks).role l = _
        rw [hwf.fresh _ (Nat.le_refl _)]
        rfl
  | run h₁ => exact stepTask_moves hwf h₁
  | drop h₁ => exact dropProc_moves h₁
  | close hidle =>
      have hrole : (s.setClose .start).role l = s.role l := by
        funext w
        cases w with
        | task t => rfl
        | closer =>
            show ClosePc.role l .start = s.close.role l
            rw [hidle]
            rfl
      show Move _ _ ((s.link l).view ((s.setClose .start).role l) _ true)
      rw [hrole]
      exact .close
  | runClose h₁ =>
      have hidle : s.close ≠ .idle := by
        intro hidle
        rw [hidle] at h₁
        cases h₁
      obtain ⟨-, -, -, -, -, hne, hclose⟩ := stepClose_outline h₁
      rw [view_setClose hne (hclose ▸ hidle)]
      exact stepClose_moves h₁ rfl

end Moves

/-! ## Runs -/

section Runs

variable {o : Options} {s s' : State}

theorem connect_role (o : Options) (n : Nat) (l : LinkId) (w : Who) :
    (connect o n).role l w = .away ∨ w = .task l ∧ l < n ∧ (connect o n).role l w = .dialing := by
  cases w with
  | closer => exact .inl rfl
  | task t =>
      show (Proc.role l (if t < n then _ else if _ then _ else _)) = _ ∨ _ ∧ _ ∧
        (Proc.role l (if t < n then _ else if _ then _ else _)) = _
      split
      · next ht =>
          by_cases hl : l = t
          · subst hl
            exact .inr ⟨rfl, ht, onLink_self _ _⟩
          · exact .inl (onLink_of_ne _ hl)
      · split
        · exact .inl rfl
        · exact .inl rfl

theorem locked_connect (n : Nat) (l : LinkId) : Locked ((connect o n).view l) where
  nodup := List.nodup_nil
  mem w := by
    show w ∈ [] ↔ ((connect o n).role l w).queued = true
    rcases connect_role o n l w with h | ⟨-, -, h⟩
    · simp [h, Role.queued]
    · simp [h, Role.queued]
  granted w hw := by
    change ((connect o n).role l w).holding = true at hw
    rcases connect_role o n l w with h | ⟨-, -, h⟩
    · rw [h] at hw
      cases hw
    · rw [h] at hw
      cases hw

/-- What is known of a state of the pool in every run. -/
structure Sound (s : State) : Prop where
  wellFormed : WellFormed s
  locked : ∀ l, Locked (s.view l)

theorem Sound.connect (n : Nat) : Sound (connect o n) := ⟨.connect n, locked_connect n⟩

theorem Sound.step {e : Event} (h : Sound s) (he : step o s e = some s') : Sound s' :=
  ⟨h.wellFormed.step he, fun l => (h.locked l).move (step_moves h.wellFormed he l)⟩

theorem sound_of_run {n : Nat} {es : List Event}
    (h : run (step o) (connect o n) es = some s) : Sound s :=
  run_invariant_of_step Sound (fun _ _ _ hi he => hi.step he) (.connect n) h

end Runs

end Macula.Pool
