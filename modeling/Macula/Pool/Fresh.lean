import Macula.Pool.Refines

/-!
# Stale callers and fresh sessions

A caller whose operation failed releases the lock and queues again, in `mark_disconnected`,
to clear the slot.  What it clears is whatever the slot then holds.  The field comment of
`PooledLink::state` argues that this is the session that failed, since the lock is fair and
a new session comes from a dial that takes longer than the queueing.

Fairness gives exactly one half of this: a caller that *is in the queue* is granted the lock
before every task that arrives later (`Fresh`).  Nothing makes it arrive in time.  Between
the release and the arrival another caller can clear the slot and a whole respawn can
happen, and the caller then clears the new session (`stale_caller_clears_fresh_session`).
If no caller arrives late, no fresh session is lost (`cleared_only_if_failed`).
-/

namespace Macula.Pool

section Protocol

variable {α γ : Type*}

/-- `w` may be ahead of `w'`: it is not one about to install with the other about to clear. -/
def View.MayPrecede (v : View α γ) (w w' : α) : Prop :=
  (v.role w).isLocking = false ∨ (v.role w').isMarkLocking = false

/-- The callers in the queue have seen what the slot holds fail, and none of them is behind
a task that is about to install something else. -/
structure Fresh (v : View α γ) : Prop where
  order : v.lock.Pairwise v.MayPrecede
  session : ∀ w g, v.role w = .markLocking g → v.session = none ∨ v.session = some g

/-- When a caller arrives to clear the slot, nobody has installed, or is in the queue to
install, another session than the one it saw fail. -/
def View.Timely (v : View α γ) : Act α → Prop
  | .run w => ∀ g, v.role w = .marking g →
      (v.session = none ∨ v.session = some g) ∧ ∀ w', (v.role w').isLocking = false
  | _ => True

theorem Fresh.arrive {v : View α γ} (h : Fresh v) {w : α}
    (hw : (v.role w).isMarkLocking = false) : (Fifo.enqueue v.lock w).Pairwise v.MayPrecede :=
  Fifo.pairwise_enqueue h.order (fun _ _ => .inr hw)

namespace Fresh

variable [DecidableEq α] {v v' : View α γ} {w : α} {r : Role γ}

/-- A step that makes nobody queue to clear the slot or to install. -/
theorem quiet (h : Fresh v) (hlock : v'.lock.Pairwise v.MayPrecede)
    (hrole : v'.role = Function.update v.role w r) (hl : r.isLocking = false)
    (hm : r.isMarkLocking = false) (hsession : v'.session = v.session ∨ v'.session = none) :
    Fresh v' where
  order := by
    refine hlock.imp (fun {a b} hab => ?_)
    rw [View.MayPrecede, hrole, Function.update_apply, Function.update_apply]
    rcases hab with ha | hb
    · left
      split
      · exact hl
      · exact ha
    · right
      split
      · exact hm
      · exact hb
  session w' g hw' := by
    rw [hrole, Function.update_apply] at hw'
    split at hw'
    · rw [hw'] at hm
      exact absurd hm nofun
    · rcases hsession with heq | heq
      · exact heq ▸ h.session w' g hw'
      · exact .inl heq

/-- Among those already in the queue, the newcomer changes nothing. -/
theorem among (h : Fresh v) (hw : w ∉ v.lock) (hrole : v'.role = Function.update v.role w r) :
    v.lock.Pairwise v'.MayPrecede := by
  have hne : ∀ {a}, a ∈ v.lock → v'.role a = v.role a := fun ha => by
    rw [hrole, Function.update_of_ne (ne_of_mem_of_not_mem ha hw)]
  refine h.order.imp_of_mem (fun {a b} ha hb hab => ?_)
  rwa [View.MayPrecede, hne ha, hne hb]

/-- A caller arrives to clear the slot. -/
theorem mark (h : Fresh v) (hlocked : Locked v) {g : γ} (hw : v.role w = .marking g)
    (ht : v.Timely (.run w)) :
    Fresh ({ v with lock := Fifo.enqueue v.lock w }.become w (.markLocking g)) where
  order := by
    have hnot : w ∉ v.lock := by
      rw [hlocked.mem, hw]
      exact Bool.false_ne_true
    refine Fifo.pairwise_enqueue (h.among hnot rfl) (fun a ha => .inl ?_)
    rw [View.become_role_of_ne _ _ (ne_of_mem_of_not_mem ha hnot)]
    exact (ht g hw).2 a
  session w' g' hw' := by
    rw [View.become_role] at hw'
    split at hw'
    · cases hw'
      exact (ht g hw).1
    · exact h.session w' g' hw'

/-- A lifecycle task arrives to install its session. -/
theorem enter (h : Fresh v) (hlocked : Locked v) {g : γ} (hw : v.role w = .dialed g) :
    Fresh ({ v with lock := Fifo.enqueue v.lock w }.become w (.locking g)) where
  order := by
    have hnot : w ∉ v.lock := by
      rw [hlocked.mem, hw]
      exact Bool.false_ne_true
    refine Fifo.pairwise_enqueue (h.among hnot rfl) (fun a _ => .inr ?_)
    rw [View.become_role_self]
    rfl
  session w' g' hw' := by
    rw [View.become_role] at hw'
    split at hw'
    · cases hw'
    · exact h.session w' g' hw'

/-- When a session is installed, nobody is in the queue to clear it. -/
theorem install (h : Fresh v) (hlocked : Locked v) {g : γ} (hw : v.role w = .locking g)
    (hl : Fifo.Granted v.lock w) :
    Fresh ({ v with session := some g }.become w .installed) where
  order := by
    have h' : Fresh ({ v with session := none }.become w .installed) :=
      h.quiet h.order rfl rfl rfl (.inr rfl)
    exact h'.order
  session w' g' hw' := by
    rw [View.become_role] at hw'
    split at hw'
    · cases hw'
    · next hne =>
        replace hw' : v.role w' = .markLocking g' := hw'
        have hmem : w' ∈ v.lock := by
          rw [hlocked.mem, hw']
          rfl
        rcases hl.pairwise h.order hmem hne with hlock | hmark
        · rw [hw] at hlock
          cases hlock
        · rw [hw'] at hmark
          cases hmark

theorem move {a : Act α} (h : Fresh v) (hlocked : Locked v) (ht : v.Timely a)
    (m : Move a v v') : Fresh v' := by
  cases m with
  | stay => exact h
  | arrive w hw => exact h.quiet (h.arrive (by rw [hw]; rfl)) rfl rfl rfl (.inl rfl)
  | leave w hw => exact h.quiet (Fifo.pairwise_leave w h.order) rfl rfl rfl (.inl rfl)
  | fail w g hw => exact h.quiet (Fifo.pairwise_leave w h.order) rfl rfl rfl (.inl rfl)
  | mark w g hw => exact h.mark hlocked hw ht
  | clear w g hw hl => exact h.quiet h.order rfl rfl rfl (.inr rfl)
  | flag w hw => exact h.quiet h.order rfl rfl rfl (.inl rfl)
  | unlock w hw => exact h.quiet (Fifo.pairwise_leave w h.order) rfl rfl rfl (.inl rfl)
  | claim w hw _ => exact h.quiet h.order rfl rfl rfl (.inl rfl)
  | lose w hw _ => exact h.quiet h.order rfl rfl rfl (.inl rfl)
  | spawn w w' hw hw' =>
      have h₁ : Fresh (v.become w' .dialing) := h.quiet h.order rfl rfl rfl (.inl rfl)
      exact h₁.quiet h₁.order rfl rfl rfl (.inl rfl)
  | dial w g hw => exact h.quiet h.order rfl rfl rfl (.inl rfl)
  | enter w g hw => exact h.enter hlocked hw
  | install w g hw hl => exact h.install hlocked hw hl
  | release w hw => exact h.quiet (Fifo.pairwise_leave w h.order) rfl rfl rfl (.inl rfl)
  | announce w hw => exact h.quiet h.order rfl rfl rfl (.inl rfl)
  | giveUp w hw => exact h.quiet h.order rfl rfl rfl (.inl rfl)
  | halt w hw _ => exact h.quiet h.order rfl rfl rfl (.inl rfl)
  | unclaim w hw => exact h.quiet h.order rfl rfl rfl (.inl rfl)
  | birth w hw => exact h.quiet List.Pairwise.nil rfl rfl rfl (.inr rfl)
  | withdraw w g hw => exact h.quiet (Fifo.pairwise_leave w h.order) rfl rfl rfl (.inl rfl)
  | abandon w hw => exact h.quiet h.order rfl rfl rfl (.inl rfl)
  | abort w hw _ => exact h.quiet h.order rfl rfl rfl (.inl rfl)
  | abortLocking w g hw _ => exact h.quiet (Fifo.pairwise_leave w h.order) rfl rfl rfl (.inl rfl)
  | close => exact ⟨h.order, h.session⟩
  | take w hw _ _ => exact h.quiet h.order rfl rfl rfl (.inr rfl)
  | disconnect w hw _ => exact h.quiet h.order rfl rfl rfl (.inl rfl)

end Fresh

end Protocol

/-! ## In the pool -/

/-- The task is in the queue to install a session in `l`. -/
def Proc.installing (l : LinkId) : Proc → Bool
  | .life l₀ (.locking _) => l₀ = l
  | _ => false

/-- When a caller that saw session `g` of `l` fail arrives in the queue of `l.state`, the
slot holds `g` or nothing, and no lifecycle task is in the queue to fill it. -/
def timely (s : State) : Event → Bool
  | .run t _ =>
    match (s.proc t).callerPc with
    | some (.marking l g _) =>
      ((s.link l).session = none || (s.link l).session = some g) &&
        (List.range s.numTasks).all (fun t' => !(s.proc t').installing l)
    | _ => true
  | _ => true

variable {s s' : State} {l : LinkId} {g : SessionId} {o : Options}

theorem Proc.eq_marking {p : Proc} (h : p.role l = .marking g) :
    ∃ rest, p.callerPc = some (.marking l g rest) := by
  obtain ⟨pc, hpc, hr⟩ := Proc.callerPc_of_role h rfl
  cases pc with
  | marking l₀ g₀ rest =>
      obtain ⟨rfl, hg⟩ := onLink_eq hr nofun
      cases hg
      exact ⟨rest, hpc⟩
  | start | selecting | next | spawned | done => cases hr
  | _ => exact absurd (onLink_eq hr nofun).2 nofun

theorem Proc.installing_of_role {p : Proc} (h : (p.role l).isLocking = true) :
    p.installing l = true := by
  have hne : ∀ {l₀ r}, r.isLocking = false → (onLink l₀ l r).isLocking = false := by
    intro l₀ r hr
    rcases onLink_cases l₀ l r with heq | heq
    · rw [heq, hr]
    · rw [heq]
      rfl
  have hcaller : ∀ pc : CallerPc, (pc.role l).isLocking = false := by
    intro pc
    cases pc <;> first | rfl | exact hne rfl
  cases p with
  | caller op pc => exact absurd ((hcaller pc).symm.trans h) nofun
  | life l₀ pc =>
      cases pc with
      | locking g =>
          refine decide_eq_true ?_
          by_contra hl
          rw [Proc.role, onLink_of_ne _ (Ne.symm hl)] at h
          cases h
      | _ => exact absurd ((hne rfl).symm.trans h) nofun
  | disc pc =>
      cases pc with
      | calling pc => exact absurd ((hcaller pc).symm.trans h) nofun
      | askLocking | scanning | askRelease | peeking | peeked | claiming | claimed | spawning =>
          exact absurd ((hne rfl).symm.trans h) nofun
      | _ => cases h
  | ended => cases h

theorem timely_view {e : Event} (hwf : WellFormed s) (h : timely s e) (l : LinkId) :
    (s.view l).Timely e.act := by
  cases e with
  | run t c =>
      intro g hr
      obtain ⟨rest, hpc⟩ := Proc.eq_marking hr
      rw [timely, hpc] at h
      obtain ⟨hsession, hinst⟩ := Bool.and_eq_true_iff.mp h
      refine ⟨(Bool.or_eq_true_iff.mp hsession).imp of_decide_eq_true of_decide_eq_true,
        fun w' => ?_⟩
      cases w' with
      | task t' =>
          rw [Bool.eq_false_iff]
          intro hlock
          have hlock : (s.proc t').installing l = true := Proc.installing_of_role hlock
          have ht' : t' < s.numTasks := hwf.lt_numTasks (fun hend => by
            rw [hend] at hlock
            cases hlock)
          have := List.all_eq_true.mp hinst t' (List.mem_range.mpr ht')
          rw [hlock] at this
          cases this
      | closer =>
          show (s.close.role l).isLocking = false
          rcases s.close.role_cases l with h | h
          · rw [h]
            rfl
          · rw [h]
            rfl
  | runClose =>
      intro g hr
      rcases s.close.role_cases l with h | h
      · exact absurd (h.symm.trans hr) nofun
      · exact absurd (h.symm.trans hr) nofun
  | begin | drop | close => trivial

/-! ## Runs -/

theorem fresh_connect (n : Nat) (l : LinkId) : Fresh ((connect o n).view l) where
  order := List.Pairwise.nil
  session _ _ _ := .inl rfl

/-- In a run in which no caller arrives late, the slot of every link is fresh. -/
theorem fresh_of_run {n : Nat} {es : List Event} (h : run (step o) (connect o n) es = some s)
    (hg : Guarded (step o) (fun s e => timely s e) (connect o n) es) :
    Sound s ∧ ∀ l, Fresh (s.view l) := by
  refine run_invariant (fun s => Sound s ∧ ∀ l, Fresh (s.view l)) ?_
    ⟨.connect n, fresh_connect n⟩ hg h
  intro s e s' hi he hs
  refine ⟨hi.1.step hs, fun l => ?_⟩
  exact (hi.2 l).move (hi.1.locked l) (timely_view hi.1.wellFormed he l)
    (step_moves hi.1.wellFormed hs l)

/-- The only access of a call to the session of a link is the one of `mark_disconnected`. -/
theorem stepCaller_session (l : LinkId) {w : Who} {op : Op} {pc pc' : CallerPc} {c : Choice}
    (h : stepCaller o s w op pc c = some (s', pc')) :
    (∃ g rest, pc = .markLocking l g rest) ∨ (s'.link l).session = (s.link l).session := by
  have hmodify : ∀ (l₀ : LinkId) (f : Link → Link), (∀ link, (f link).session = link.session) →
      ((s.modify l₀ f).link l).session = (s.link l).session := by
    intro l₀ f hf
    show (Function.update s.link l₀ (f (s.link l₀)) l).session = _
    rw [Function.update_apply]
    split
    · next heq => rw [hf, heq]
    · rfl
  revert h
  fun_cases stepCaller o s w op pc c
  all_goals
    intro h
    cases h
  case case16 l₀ g rest _ =>
    by_cases hl : l = l₀
    · exact .inl ⟨g, rest, by rw [hl]⟩
    · right
      show (Function.update s.link l₀ _ l).session = _
      rw [Function.update_of_ne hl]
  all_goals first | exact .inr rfl | exact .inr (hmodify _ _ (fun _ => rfl))

theorem stepDisc_calling {w : Who} {pc : CallerPc} {c : Choice} (hdone : pc ≠ .done) :
    stepDisc o s w (.calling pc) c =
      (stepCaller o s w .call pc c).map (fun r => (r.1, .calling r.2)) := by
  cases pc with
  | done => exact absurd rfl hdone
  | _ => cases c <;> rfl

/-- What a task steps through while it is in a call. -/
theorem stepTask_of_callerPc {t : TaskId} {pc : CallerPc} {c : Choice}
    (hpc : (s.proc t).callerPc = some pc) (hdone : pc ≠ .done)
    (h : stepTask o s t c = some s') :
    ∃ op s₁ pc' p, stepCaller o s (.task t) op pc c = some (s₁, pc') ∧ s' = s₁.setProc t p := by
  obtain ⟨s₁, p, rfl, hturn⟩ := turn_of_stepTask h
  cases hturn with
  | @caller op pc₀ pc' _ hp h₁ =>
      rw [hp] at hpc
      cases hpc
      exact ⟨op, s₁, pc', _, h₁, rfl⟩
  | life hp h₁ =>
      rw [hp] at hpc
      cases hpc
  | @disc dpc dpc' _ hp h₁ =>
      rw [hp] at hpc
      obtain rfl : dpc = .calling pc := by
        cases dpc with
        | calling pc₀ => exact congrArg DiscPc.calling (Option.some.inj hpc)
        | _ => cases hpc
      rw [stepDisc_calling hdone] at h₁
      obtain ⟨⟨s₂, pc'⟩, h₂, h₃⟩ := Option.map_eq_some_iff.mp h₁
      cases h₃
      exact ⟨.call, s₂, pc', _, h₂, rfl⟩

/-- *No fresh session is torn down.*  In every run in which no caller arrives late, a session
that `mark_disconnected` removes from a link is the one whose failure its caller saw. -/
theorem cleared_only_if_failed {n : Nat} {es : List Event} {t : TaskId} {c : Choice}
    {pc : CallerPc} (h : run (step o) (connect o n) es = some s)
    (hg : Guarded (step o) (fun s e => timely s e) (connect o n) es)
    (hpc : (s.proc t).callerPc = some pc) (hin : pc.inMarkDisconnected l = true)
    (hs : step o s (.run t c) = some s') (hbefore : (s.link l).session = some g)
    (hafter : (s'.link l).session ≠ some g) :
    ∃ rest, pc = .markLocking l g rest := by
  have hdone : pc ≠ .done := by
    intro heq
    rw [heq] at hin
    cases hin
  obtain ⟨op, s₁, pc', p, h₁, rfl⟩ := stepTask_of_callerPc hpc hdone hs
  rcases stepCaller_session l h₁ with ⟨g₀, rest, rfl⟩ | hsame
  · have hrole : (s.view l).role (.task t) = .markLocking g₀ :=
      (Proc.role_of_callerPc hpc).trans (onLink_self _ _)
    rcases ((fresh_of_run h hg).2 l).session (.task t) g₀ hrole with hnone | hsome
    · exact absurd (hbefore.symm.trans hnone) nofun
    · obtain rfl : g = g₀ := Option.some.inj (hbefore.symm.trans hsome)
      exact ⟨rest, rfl⟩
  · exact absurd (hsame.trans hbefore) hafter

/-- A call fails on the only session there is, and clears it. -/
def failingCall : List Event := linkUp 0 ++ callArrives 1 ++ callFails 1 ++ steps 1 1

theorem failing_call_clears_its_session :
    (after failingCall).link 0 = { Link.new .bootstrap with
        session := some 0, connected := true, lock := [.task 1] } ∧
      ((after (failingCall ++ steps 1 1)).link 0).session = none ∧
      ∃ rest, CallerPc.markLocking 0 0 [] = .markLocking 0 0 rest :=
  ⟨by decide, by decide,
    cleared_only_if_failed (run_eq_runFrom (by decide)) (by decide)
      (show ((after failingCall).proc 1).callerPc = _ by decide) (by decide)
      (step_eq_runFrom (show (step .plain (after failingCall) (.run 1 .go)).isSome = _ by decide))
      (by decide) (by decide)⟩

/-- Two calls fail on session 0.  The first clears it and a respawn installs session 1 before
the second, which is between its two lockings, arrives in the queue again. -/
def lateCaller : List Event :=
  linkUp 0 ++ callArrives 1 ++ callArrives 2 ++ callFails 1 ++ callFails 2 ++ steps 1 8 ++
    linkUp 3 ++ steps 2 1

theorem stale_caller_clears_fresh_session :
    ¬ ∀ (es : List Event) (s s' : State) (t : TaskId) (c : Choice) (pc : CallerPc) (l : LinkId)
      (g : SessionId), run (step .plain) (connect .plain 1) es = some s →
      (s.proc t).callerPc = some pc → pc.inMarkDisconnected l = true →
      step .plain s (.run t c) = some s' → (s.link l).session = some g →
      (s'.link l).session ≠ some g → ∃ rest, pc = .markLocking l g rest := by
  intro h
  obtain ⟨rest, heq⟩ := h lateCaller (after lateCaller)
    (runFrom (step .plain) (after lateCaller) [.run 2 .go]) 2 .go (.markLocking 0 0 []) 0 1
    (run_eq_runFrom (by decide)) (by decide) (by decide) (step_eq_runFrom (by decide))
    (by decide) (by decide)
  cases heq

end Macula.Pool
