import Macula.Pool.Close

/-!
# One dialer per link, and when it gives up

Whoever wins the claim of a link is responsible for it until the claim is given back, and as
long as somebody is responsible nobody else wins it (`Exclusive`).  So a link has at most one
lifecycle task.

The counter of failures is a second atomic, and only the lifecycle task touches it.  To say
what it counts, a run is traced: `tracedStep` also records how each dial of each link ended.
`Counted` ties the counter to that record at every program point of the task.
-/

namespace Macula.Pool

/-! ## What a dial adds to the record -/

/-- A dial that has come to an end: who made it, and whether it connected. -/
structure Dial where
  task : TaskId
  connected : Bool

/-- How the dials of each link ended, the latest one first. -/
abbrev Dials := LinkId → List Dial

/-- The record after the event `e`. -/
def State.record (s : State) (e : Event) (h : Dials) : Dials :=
  match e with
  | .run t c =>
    match s.proc t with
    | .life l .dialing => Function.update h l (⟨t, decide (c = .go)⟩ :: h l)
    | _ => h
  | _ => h

/-- A step of the pool together with the record. -/
def tracedStep (o : Options) (r : State × Dials) (e : Event) : Option (State × Dials) :=
  (step o r.1 e).map fun s' => (s', r.1.record e r.2)

/-- How many of the latest dials failed, back to the last success. -/
def failedInARow : List Dial → Nat
  | ⟨_, false⟩ :: h => failedInARow h + 1
  | _ => 0

/-- Every run is traced, and every traced run is one of the pool. -/
theorem run_traced {o : Options} : ∀ {es : List Event} {s s' : State} {h : Dials},
    (∃ h', run (tracedStep o) (s, h) es = some (s', h')) ↔ run (step o) s es = some s' := by
  intro es
  induction es with
  | nil =>
      intro s s' h
      constructor
      · rintro ⟨h', hrun⟩
        cases hrun
        rfl
      · intro hrun
        cases hrun
        exact ⟨h, rfl⟩
  | cons e es ih =>
      intro s s' h
      rw [run_cons]
      constructor
      · rintro ⟨h', hrun⟩
        obtain ⟨r, hstep, hrun⟩ := run_cons.mp hrun
        obtain ⟨s₁, hs, rfl⟩ := Option.map_eq_some_iff.mp hstep
        exact ⟨s₁, hs, ih.mp ⟨h', hrun⟩⟩
      · rintro ⟨s₁, hs, hrun⟩
        obtain ⟨h', hrun⟩ := (ih (h := s.record e h)).mpr hrun
        exact ⟨h', run_cons.mpr ⟨_, Option.map_eq_some_iff.mpr ⟨s₁, hs, rfl⟩, hrun⟩⟩

/-! ## What only a lifecycle task touches -/

/-- The part of a link that says whether it gives up. -/
def Link.account (link : Link) : LinkOrigin × Nat × Bool :=
  (link.origin, link.consecutiveFailures, link.gaveUp)

/-- The account of `l` is as it was, and its claim is not given back. -/
structure Untouched (l : LinkId) (s s' : State) : Prop where
  account : (s'.link l).account = (s.link l).account
  redialing : (s'.link l).redialing = false → (s.link l).redialing = false

/-- `l` is a new link. -/
structure NewLink (l : LinkId) (s s' : State) : Prop where
  eq : l = s.numLinks
  link : s'.link l = Link.new .discovered

variable {o : Options} {s s' : State} {w : Who} {l : LinkId}

theorem untouched_of_link (h : s'.link l = s.link l) : Untouched l s s' where
  account := congrArg Link.account h
  redialing hr := h ▸ hr

theorem untouched_modify {l₀ : LinkId} {f : Link → Link}
    (hf : ∀ link, (f link).account = link.account)
    (hr : ∀ link, (f link).redialing = false → link.redialing = false) :
    Untouched l s (s.modify l₀ f) := by
  by_cases hl : l = l₀
  · subst hl
    have hlink : (s.modify l f).link l = f (s.link l) := Function.update_self ..
    exact ⟨by rw [hlink, hf], fun h => hr _ (by rwa [← hlink])⟩
  · exact untouched_of_link (Function.update_of_ne hl ..)

theorem stepCaller_untouched {op : Op} {pc pc' : CallerPc} {c : Choice}
    (h : stepCaller o s w op pc c = some (s', pc')) : Untouched l s s' := by
  revert h
  fun_cases stepCaller o s w op pc c
  all_goals
    intro h
    cases h
  case case21 => exact untouched_modify (fun _ => rfl) (by simp)
  all_goals
    first
    | exact untouched_of_link rfl
    | exact untouched_modify (fun _ => rfl) fun _ h => h

theorem stepLife_untouched {l₀ : LinkId} {pc pc' : LifePc} {c : Choice}
    (h : stepLife s w l₀ pc c = some (s', pc')) (hl : l ≠ l₀) : Untouched l s s' := by
  refine untouched_of_link ?_
  revert h
  fun_cases stepLife s w l₀ pc c
  all_goals
    intro h
    cases h
  all_goals first | rfl | exact Function.update_of_ne hl ..

theorem stepDisc_untouched {pc pc' : DiscPc} {c : Choice}
    (h : stepDisc o s w pc c = some (s', pc')) : Untouched l s s' ∨ NewLink l s s' := by
  revert h
  fun_cases stepDisc o s w pc c
  all_goals intro h
  case case20 =>
    obtain ⟨⟨s₁, pc₁⟩, h₁, h₂⟩ := Option.map_eq_some_iff.mp h
    cases h₂
    exact .inl (stepCaller_untouched h₁)
  all_goals cases h
  case case27 =>
    by_cases hl : l = s.numLinks
    · exact .inr ⟨hl, by rw [hl]; exact Function.update_self ..⟩
    · exact .inl (untouched_of_link (Function.update_of_ne hl ..))
  case case30 => exact .inl (untouched_modify (fun _ => rfl) (by simp))
  all_goals
    first
    | exact .inl (untouched_of_link rfl)
    | exact .inl (untouched_modify (fun _ => rfl) fun _ h => h)

theorem stepClose_untouched {pc pc' : ClosePc} (h : stepClose s pc = some (s', pc')) :
    Untouched l s s' := by
  revert h
  fun_cases stepClose s pc
  all_goals
    intro h
    cases h
  all_goals
    first
    | exact untouched_of_link rfl
    | exact untouched_modify (fun _ => rfl) fun _ h => h

theorem dropCaller_untouched {pc : CallerPc} (h : dropCaller s w pc = some s') :
    Untouched l s s' := by
  revert h
  fun_cases dropCaller s w pc
  all_goals
    intro h
    cases h
  all_goals
    first
    | exact untouched_of_link rfl
    | exact untouched_modify (fun _ => rfl) fun _ h => h

theorem dropProc_untouched {t : TaskId} (h : dropProc s t = some s') : Untouched l s s' := by
  unfold dropProc at h
  split at h
  · exact dropCaller_untouched h
  · split at h
    · next l₀ pc _ _ =>
        revert h
        fun_cases dropLife s (.task t) l₀ pc
        all_goals
          intro h
          cases h
        all_goals
          first
          | exact untouched_of_link rfl
          | exact untouched_modify (fun _ => rfl) fun _ h => h
    · cases h
  · split at h
    · next pc _ _ =>
        revert h
        fun_cases dropDisc s (.task t) pc
        all_goals intro h
        case case10 => exact dropCaller_untouched h
        all_goals cases h
        all_goals
          first
          | exact untouched_of_link rfl
          | exact untouched_modify (fun _ => rfl) fun _ h => h
    · cases h
  · cases h

/-- A party about to spawn the lifecycle task of a link has its claim. -/
theorem Proc.role_of_spawns {p : Proc} (h : p.spawns = some l) : p.role l = .claimed := by
  have hcaller : ∀ pc : CallerPc, pc.spawns = some l → pc.role l = .claimed := by
    intro pc hpc
    cases pc with
    | spawning l₀ rest =>
        obtain rfl := Option.some.inj hpc
        exact onLink_self _ _
    | _ => cases hpc
  cases p with
  | caller op pc => exact hcaller pc h
  | disc pc =>
      cases pc with
      | calling pc => exact hcaller pc h
      | spawning l₀ =>
          obtain rfl := Option.some.inj h
          exact onLink_self _ _
      | _ => cases h
  | _ => cases h

/-- The lifecycle tasks of `l` are as they were, but for a new one that the claim is handed to. -/
def SameDialers (l : LinkId) (s s' : State) : Prop :=
  ∀ t pc, s'.proc t = .life l pc →
    s.proc t = .life l pc ∨ pc = .start ∧ ∃ w, s.role l w = .claimed

theorem sameDialers_setProc {s₁ : State} {t : TaskId} {p : Proc} (hp : ∀ pc, p ≠ .life l pc)
    (h : SameDialers l s s₁) : SameDialers l s (s₁.setProc t p) := by
  intro t' pc hlife
  change Function.update s₁.proc t p t' = _ at hlife
  rw [Function.update_apply] at hlife
  split at hlife
  · exact absurd hlife (hp pc)
  · exact h t' pc hlife

theorem sameDialers_of_proc {s₁ : State} (h : s₁.proc = s.proc) : SameDialers l s s₁ :=
  fun _ _ hlife => .inl (h ▸ hlife)

theorem sameDialers_spawn {p : Proc}
    (hp : ∀ pc, p = .life l pc → pc = .start ∧ ∃ w, s.role l w = .claimed) :
    SameDialers l s (s.spawn p) := by
  intro t pc hlife
  change Function.update s.proc s.numTasks p t = _ at hlife
  rw [Function.update_apply] at hlife
  split at hlife
  · exact .inr (hp pc hlife)
  · exact .inl hlife

/-- What a step does that is no step of a lifecycle task of `l`. -/
structure Aside (l : LinkId) (e : Event) (s s' : State) : Prop where
  link : Untouched l s s' ∨ NewLink l s s'
  dialers : SameDialers l s s'
  record : ∀ h : Dials, s.record e h l = h l

theorem record_of_not_life {t : TaskId} {c : Choice} {h : Dials}
    (hne : ∀ pc, s.proc t ≠ .life l pc) : s.record (.run t c) h l = h l := by
  cases hp : s.proc t with
  | life l₀ pc =>
      have hl : l ≠ l₀ := by
        rintro rfl
        exact hne pc hp
      cases pc with
      | dialing =>
          simp only [State.record, hp]
          exact Function.update_of_ne hl ..
      | _ => simp only [State.record, hp]
  | _ => simp only [State.record, hp]

theorem sameDialers_outline {s₁ : State} {p : Proc} {w : Who}
    (hspawner : ∀ l₀, p.spawns = some l₀ → s.role l₀ w = .claimed)
    (h : SameOutline w s s₁ ∨ (∃ l₀ ∈ p.links, p.spawns = some l₀ ∧ Spawns w l₀ s s₁) ∨
      s₁ = s.pushLink) : SameDialers l s s₁ := by
  rcases h with hsame | ⟨l₀, -, hspawns, hspawn⟩ | rfl
  · exact sameDialers_of_proc hsame.proc
  · rw [hspawn.eq]
    refine sameDialers_spawn fun pc hpc => ?_
    cases hpc
    exact ⟨rfl, w, hspawner l hspawns⟩
  · exact sameDialers_of_proc rfl

theorem stepTask_aside {t : TaskId} {c : Choice} (hne : ∀ pc, s.proc t ≠ .life l pc)
    (h : stepTask o s t c = some s') : Aside l (.run t c) s s' := by
  have hspawner : ∀ l₀, (s.proc t).spawns = some l₀ → s.role l₀ (.task t) = .claimed :=
    fun l₀ hl₀ => Proc.role_of_spawns hl₀
  refine ⟨?_, ?_, fun _ => record_of_not_life hne⟩
  · obtain ⟨s₁, p, rfl, hturn⟩ := turn_of_stepTask h
    cases hturn with
    | caller hp h₁ =>
        have hlink := stepCaller_untouched (l := l) h₁
        exact .inl ⟨hlink.account, hlink.redialing⟩
    | @life l₀ pc pc' _ hp h₁ =>
        have hl : l ≠ l₀ := by
          rintro rfl
          exact hne pc hp
        have hlink := stepLife_untouched h₁ hl
        exact .inl ⟨hlink.account, hlink.redialing⟩
    | disc hp h₁ =>
        rcases stepDisc_untouched (l := l) h₁ with hlink | hnew
        · exact .inl ⟨hlink.account, hlink.redialing⟩
        · exact .inr ⟨hnew.eq, hnew.link⟩
  · obtain ⟨s₁, p, rfl, hturn⟩ := turn_of_stepTask h
    cases hturn with
    | caller hp h₁ =>
        rw [hp] at hspawner
        exact sameDialers_setProc nofun
          (sameDialers_outline hspawner ((stepCaller_outline h₁).imp_right .inl))
    | life hp h₁ =>
        refine sameDialers_setProc (fun pc₁ hpc₁ => ?_)
          (sameDialers_of_proc (stepLife_outline h₁).proc)
        cases hpc₁
        exact hne _ hp
    | disc hp h₁ =>
        rw [hp] at hspawner
        exact sameDialers_setProc nofun (sameDialers_outline hspawner (stepDisc_outline h₁))

/-- Every step is one of a lifecycle task of `l`, or goes aside. -/
theorem step_dialer_or_aside {e : Event} (h : step o s e = some s') (l : LinkId) :
    (∃ t c pc s₁ pc', e = .run t c ∧ s.proc t = .life l pc ∧
      stepLife s (.task t) l pc c = some (s₁, pc') ∧ s' = s₁.setProc t (.life l pc')) ∨
    Aside l e s s' := by
  cases happens_of_step h with
  | begin op =>
      refine .inr ⟨.inl (untouched_of_link rfl), ?_, fun _ => rfl⟩
      exact sameDialers_spawn (by simp)
  | @run t c _ h₁ =>
      by_cases hlife : ∃ pc, s.proc t = .life l pc
      · obtain ⟨pc, hp⟩ := hlife
        rw [stepTask, hp] at h₁
        obtain ⟨⟨s₁, pc'⟩, h₂, rfl⟩ := Option.map_eq_some_iff.mp h₁
        exact .inl ⟨t, c, pc, s₁, pc', rfl, hp, h₂, rfl⟩
      · exact .inr (stepTask_aside (fun pc hp => hlife ⟨pc, hp⟩) h₁)
  | drop h₁ =>
      have hlink := dropProc_untouched (l := l) h₁
      refine .inr ⟨.inl ⟨hlink.account, hlink.redialing⟩, ?_, fun _ => rfl⟩
      exact sameDialers_setProc (by simp) (sameDialers_of_proc (dropProc_outline h₁).proc)
  | close hidle =>
      exact .inr ⟨.inl (untouched_of_link rfl), sameDialers_of_proc rfl, fun _ => rfl⟩
  | runClose h₁ =>
      have hlink := stepClose_untouched (l := l) h₁
      obtain ⟨-, -, hproc, -⟩ := stepClose_outline h₁
      exact .inr ⟨.inl ⟨hlink.account, hlink.redialing⟩, sameDialers_of_proc hproc, fun _ => rfl⟩

/-! ## What the counter counts -/

/-- What the lifecycle task `t` knows at a program point of its link, of the stop signal and
of the dials so far. -/
def LifePc.Counted (t : TaskId) (link : Link) (stop : Bool) (h : List Dial) : LifePc → Prop
  -- the last failure is not counted yet
  | .failedDial => link.consecutiveFailures + 1 ≤ failedInARow h
  | .givingUp => link.origin = .discovered ∧
      discoveryLinkMaxRespawnAttempts ≤ link.consecutiveFailures ∧
      link.consecutiveFailures ≤ failedInARow h
  -- the counter is still to be reset
  | .dialed _ | .locking _ | .installed | .released | .connectedStored =>
    h.head? = some ⟨t, true⟩
  | .returning => link.consecutiveFailures ≤ failedInARow h ∧
      (link.origin = .bootstrap → stop = true ∨ h.head? = some ⟨t, true⟩)
  | .done => True
  | _ => link.consecutiveFailures ≤ failedInARow h

/-- What the dials of `l` so far say about its counter. -/
structure Counted (s : State) (h : List Dial) (l : LinkId) : Prop where
  idle : (s.link l).redialing = false → (s.link l).consecutiveFailures ≤ failedInARow h
  claimed : ∀ w, s.role l w = .claimed → (s.link l).consecutiveFailures ≤ failedInARow h
  dialer : ∀ t pc, s.proc t = .life l pc → pc.Counted t (s.link l) s.stop h
  seed : (s.link l).origin = .bootstrap → (s.link l).gaveUp = false

theorem record_of_life {t : TaskId} {c : Choice} {h : Dials} {pc : LifePc}
    (hp : s.proc t = .life l pc) :
    s.record (.run t c) h l =
      if pc = .dialing then ⟨t, decide (c = .go)⟩ :: h l else h l := by
  cases pc with
  | dialing =>
      simp only [State.record, hp, if_true]
      exact Function.update_self ..
  | _ => simp only [State.record, hp, reduceCtorEq, if_false]

@[simp] theorem link_modify (s : State) (l : LinkId) (f : Link → Link) :
    (s.modify l f).link l = f (s.link l) := Function.update_self ..

theorem of_link_modify {β : Type*} {f : Link → Link} (g : Link → β)
    (hf : g (f (s.link l)) = g (s.link l)) : g ((s.modify l f).link l) = g (s.link l) :=
  (congrArg g (link_modify s l f)).trans hf

/-- A lifecycle task keeps count. -/
theorem stepLife_counted {t : TaskId} {pc pc' : LifePc} {c : Choice} {h : List Dial}
    (hstep : stepLife s w l pc c = some (s', pc')) (hc : pc.Counted t (s.link l) s.stop h) :
    pc'.Counted t (s'.link l) s'.stop
      (if pc = .dialing then ⟨t, decide (c = .go)⟩ :: h else h) := by
  revert hstep
  fun_cases stepLife s w l pc c
  all_goals
    intro hstep
    cases hstep
  case case2 =>
    by_cases hstop : s.stop = true
    · rw [if_pos hstop]
      exact ⟨hc, fun _ => .inl hstop⟩
    · rw [if_neg hstop]
      exact hc
  case case3 => rfl
  case case4 => exact Nat.succ_le_succ hc
  case case10 =>
    refine ⟨?_, fun _ => .inr hc⟩
    rw [State.setFailures, link_modify]
    exact Nat.zero_le _
  case case11 failures =>
    have hle : failures ≤ failedInARow h :=
      Nat.le_trans (Nat.mod_le ((s.link l).consecutiveFailures + 1) (2 ^ 32)) hc
    by_cases hgive : shouldGiveUp (s.link l).origin failures = true
    · rw [if_pos hgive, State.setFailures, link_modify]
      simp only [shouldGiveUp, Bool.and_eq_true, decide_eq_true_eq] at hgive
      exact ⟨hgive.1, hgive.2, hle⟩
    · rw [if_neg hgive, State.setFailures, link_modify]
      exact hle
  case case12 =>
    obtain ⟨horigin, -, hle⟩ := hc
    rw [State.setGaveUp, link_modify]
    refine ⟨hle, fun hboot => ?_⟩
    rw [horigin] at hboot
    cases hboot
  case case16 =>
    by_cases hstop : s.stop = true
    · rw [if_pos hstop]
      exact ⟨hc, fun _ => .inl hstop⟩
    · rw [if_neg hstop]
      exact hc
  case case17 => trivial
  all_goals exact hc

/-- The flag of its link is set by a task that gives up, and by no other step of a task. -/
theorem stepLife_gaveUp {pc pc' : LifePc} {c : Choice}
    (h : stepLife s w l pc c = some (s', pc')) :
    (s'.link l).origin = (s.link l).origin ∧
      ((s'.link l).gaveUp = (s.link l).gaveUp ∨
        pc = .givingUp ∧ (s'.link l).gaveUp = true) := by
  revert h
  fun_cases stepLife s w l pc c
  all_goals
    intro h
    cases h
  case case12 =>
    exact ⟨of_link_modify Link.origin rfl, .inr ⟨rfl, congrArg Link.gaveUp (link_modify ..)⟩⟩
  all_goals
    first
    | exact ⟨rfl, .inl rfl⟩
    | exact ⟨of_link_modify Link.origin rfl, .inl (of_link_modify Link.gaveUp rfl)⟩

theorem stepLife_done {pc : LifePc} {c : Choice} (h : stepLife s w l pc c = some (s', .done)) :
    pc = .returning ∧ s' = s.setRedialing l false := by
  revert h
  fun_cases stepLife s w l pc c
  all_goals
    intro h
  case case17 =>
    cases h
    exact ⟨rfl, rfl⟩
  all_goals
    try split at h
  all_goals cases h

theorem LifePc.responsible_role {pc : LifePc} (h : pc ≠ .done) : pc.role.responsible = true := by
  cases pc with
  | done => exact absurd rfl h
  | _ => rfl

theorem role_of_life {t : TaskId} {pc : LifePc} (hp : s.proc t = .life l pc) :
    (s.view l).role (.task t) = pc.role := by
  change (s.proc t).role l = _
  rw [hp]
  exact onLink_self l _

theorem LifePc.role_ne_claimed (pc : LifePc) : pc.role ≠ .claimed := by
  cases pc <;> nofun

/-- A claim is won while it is free. -/
theorem Move.of_claimed {α γ : Type*} [DecidableEq α] {a : Act α} {v v' : View α γ} {w : α}
    (m : Move a v v') (h : v'.role w = .claimed) : v.role w = .claimed ∨ v.redialing = false := by
  have hof : ∀ {w₁ : α} {r : Role γ}, Function.update v.role w₁ r w = .claimed →
      r ≠ .claimed → v.role w = .claimed := by
    intro w₁ r hupdate hr
    rw [Function.update_apply] at hupdate
    split at hupdate
    · exact absurd hupdate hr
    · exact hupdate
  cases m with
  | stay | close => exact .inl h
  | claim w₁ hw hfree => exact .inr hfree
  | spawn w₁ w₂ hw hw₂ =>
      change Function.update (Function.update v.role w₂ .dialing) w₁ .away w = _ at h
      rw [Function.update_apply] at h
      split at h
      · cases h
      · exact .inl (hof h nofun)
  | _ => exact .inl (hof h nofun)

/-- What is counted stays so when only other parties act. -/
theorem LifePc.Counted.congr {t : TaskId} {pc : LifePc} {link link' : Link} {stop stop' : Bool}
    {h : List Dial} (hc : pc.Counted t link stop h) (haccount : link'.account = link.account)
    (hstop : stop = true → stop' = true) : pc.Counted t link' stop' h := by
  obtain ⟨horigin, hfailures, -⟩ : link'.origin = link.origin ∧
      link'.consecutiveFailures = link.consecutiveFailures ∧ link'.gaveUp = link.gaveUp := by
    simpa only [Link.account, Prod.mk.injEq] using haccount
  cases pc with
  | returning => exact ⟨hfailures ▸ hc.1, fun h => (hc.2 (horigin ▸ h)).imp_left hstop⟩
  | givingUp => exact ⟨horigin ▸ hc.1, hfailures ▸ hc.2.1, hfailures ▸ hc.2.2⟩
  | dialed | locking | installed | released | connectedStored | done => exact hc
  | failedDial => exact Nat.le_trans (Nat.le_of_eq (congrArg (· + 1) hfailures)) hc
  | _ => exact Nat.le_trans (Nat.le_of_eq hfailures) hc

theorem stepClose_stop {pc pc' : ClosePc} (h : stepClose s pc = some (s', pc'))
    (hstop : s.stop = true) : s'.stop = true := by
  revert h
  fun_cases stepClose s pc
  all_goals
    intro h
    cases h
  case case1 =>
    change (s.stop || s.hasReceiver) = true
    rw [hstop, Bool.true_or]
  all_goals exact hstop

theorem stop_of_step {e : Event} (h : step o s e = some s') (hstop : s.stop = true) :
    s'.stop = true := by
  cases happens_of_step h with
  | begin op => exact hstop
  | run h₁ => exact (stepTask_close h₁).2.trans hstop
  | drop h₁ => exact (dropProc_outline h₁).stop.trans hstop
  | close hidle => exact hstop
  | @runClose s₁ pc h₁ =>
      have hstop₁ : s₁.stop = true := stepClose_stop h₁ hstop
      exact hstop₁

namespace Counted

variable {h : Dials}

theorem aside {e : Event} (hc : Counted s (h l) l) (hwf : WellFormed s) (ha : Aside l e s s')
    (hmove : Move e.act (s.view l) (s'.view l)) (hstop : s.stop = true → s'.stop = true) :
    Counted s' (s.record e h l) l := by
  rw [ha.record h]
  rcases ha.link with hlink | hnew
  · obtain ⟨horigin, hfailures, hgaveUp⟩ : (s'.link l).origin = (s.link l).origin ∧
        (s'.link l).consecutiveFailures = (s.link l).consecutiveFailures ∧
        (s'.link l).gaveUp = (s.link l).gaveUp := by
      simpa only [Link.account, Prod.mk.injEq] using hlink.account
    refine ⟨fun hfree => ?_, fun w hw => ?_, fun t pc hp => ?_, fun hboot => ?_⟩
    · exact hfailures ▸ hc.idle (hlink.redialing hfree)
    · rw [hfailures]
      rcases hmove.of_claimed hw with hw | hfree
      · exact hc.claimed w hw
      · exact hc.idle hfree
    · rcases ha.dialers t pc hp with hp | ⟨rfl, w, hw⟩
      · exact (hc.dialer t pc hp).congr hlink.account hstop
      · exact Nat.le_trans (Nat.le_of_eq hfailures) (hc.claimed w hw)
    · rw [hgaveUp]
      exact hc.seed (horigin ▸ hboot)
  · have hzero : (s'.link l).consecutiveFailures ≤ failedInARow (h l) := by
      rw [hnew.link]
      exact Nat.zero_le _
    refine ⟨fun _ => hzero, fun _ _ => hzero, fun t pc hp => ?_, fun hboot => ?_⟩
    · rcases ha.dialers t pc hp with hp | ⟨-, w, hw⟩
      · have hlt : l < s.numLinks := hwf.proc t l (by rw [hp]; exact List.mem_singleton_self l)
        exact absurd hnew.eq (Nat.ne_of_lt hlt)
      · have haway := hwf.role_unborn w
        rw [← hnew.eq, hw] at haway
        cases haway
    · rw [hnew.link] at hboot
      cases hboot

theorem dial {t : TaskId} {c : Choice} {pc pc' : LifePc} {s₁ : State}
    (hc : Counted s (h l) l) (hx : Exclusive (s.view l)) (hp : s.proc t = .life l pc)
    (h₁ : stepLife s (.task t) l pc c = some (s₁, pc'))
    (hx' : Exclusive ((s₁.setProc t (.life l pc')).view l))
    (hmove : Move (.run (.task t)) (s.view l) ((s₁.setProc t (.life l pc')).view l)) :
    Counted (s₁.setProc t (.life l pc')) (s.record (.run t c) h l) l := by
  have hpc : pc ≠ .done := by
    rintro rfl
    cases c <;> cases h₁
  have hrole := role_of_life hp
  have hresp : ((s.view l).role (.task t)).responsible = true :=
    hrole ▸ LifePc.responsible_role hpc
  have hself : (s₁.setProc t (.life l pc')).proc t = .life l pc' := Function.update_self ..
  have hrole' := role_of_life hself
  have hcounted := stepLife_counted h₁ (hc.dialer t pc hp)
  rw [record_of_life hp]
  refine ⟨fun hfree => ?_, fun w hw => ?_, fun t' pc₁ hp₁ => ?_, fun hboot => ?_⟩
  · -- the claim is free only once the task has given it back
    have hdone : pc' = .done := by
      by_contra hne
      have hset := hx'.redialing (.task t) (hrole' ▸ LifePc.responsible_role hne)
      exact Bool.false_ne_true (hfree.symm.trans hset)
    subst hdone
    obtain ⟨rfl, rfl⟩ := stepLife_done h₁
    have hsame : ((s.setRedialing l false).link l).consecutiveFailures =
        (s.link l).consecutiveFailures := of_link_modify Link.consecutiveFailures rfl
    exact Nat.le_trans (Nat.le_of_eq hsame) (hc.dialer t _ hp).1
  · rcases hmove.of_claimed hw with hw | hfree
    · have heq := hx.unique w (.task t) (by rw [show (s.view l).role w = _ from hw]; rfl) hresp
      rw [heq, hrole] at hw
      exact absurd hw pc.role_ne_claimed
    · exact absurd (hfree.symm.trans (hx.redialing _ hresp)) Bool.false_ne_true
  · by_cases heq : t' = t
    · subst heq
      rw [hself] at hp₁
      cases hp₁
      exact hcounted
    · have hother : s.proc t' = .life l pc₁ := by
        rw [← hp₁, ← (stepLife_outline h₁).proc]
        exact (Function.update_of_ne heq ..).symm
      by_cases hdone : pc₁ = .done
      · rw [hdone]
        trivial
      · have hresp₁ : ((s.view l).role (.task t')).responsible = true :=
          role_of_life hother ▸ LifePc.responsible_role hdone
        exact absurd (Who.task.inj (hx.unique _ _ hresp₁ hresp)) heq
  · obtain ⟨horigin, hgaveUp⟩ := stepLife_gaveUp h₁
    have hboot₀ : (s.link l).origin = .bootstrap := horigin ▸ hboot
    rcases hgaveUp with hgaveUp | ⟨rfl, -⟩
    · exact hgaveUp.trans (hc.seed hboot₀)
    · exact absurd ((hc.dialer t _ hp).1.symm.trans hboot₀) nofun

end Counted

/-- A task goes on by its own steps only. -/
theorem proc_of_step {e : Event} {t : TaskId} (hwf : WellFormed s) (h : step o s e = some s')
    (ht : s.proc t ≠ .ended) : (∃ c, e = .run t c) ∨ e = .drop t ∨ s'.proc t = s.proc t := by
  have hold : t ≠ s.numTasks := Nat.ne_of_lt (hwf.lt_numTasks ht)
  cases happens_of_step h with
  | begin op => exact .inr (.inr (Function.update_of_ne hold ..))
  | @run t₁ c _ h₁ =>
      by_cases heq : t₁ = t
      · exact .inl ⟨c, by rw [heq]⟩
      · obtain ⟨s₁, p, rfl, -, hcases⟩ := stepTask_outline h₁
        refine .inr (.inr ((Function.update_of_ne (Ne.symm heq) ..).trans ?_))
        rcases hcases with ho | ⟨l₀, -, -, hsp⟩ | rfl
        · rw [ho.proc]
        · rw [hsp.eq]
          exact Function.update_of_ne hold ..
        · rfl
  | @drop t₁ s₁ h₁ =>
      by_cases heq : t₁ = t
      · exact .inr (.inl (by rw [heq]))
      · refine .inr (.inr ((Function.update_of_ne (Ne.symm heq) ..).trans ?_))
        rw [(dropProc_outline h₁).proc]
  | close hidle => exact .inr (.inr rfl)
  | runClose h₁ =>
      obtain ⟨-, -, hproc, -⟩ := stepClose_outline h₁
      exact .inr (.inr (congrFun hproc t))

/-! ## In every run -/

/-- `t` is a lifecycle task of `l` that has not finished. -/
def State.Dialer (s : State) (l : LinkId) (t : TaskId) : Prop :=
  ∃ pc, s.proc t = .life l pc ∧ pc ≠ .done

theorem State.Dialer.responsible {t : TaskId} (h : s.Dialer l t) :
    ((s.view l).role (.task t)).responsible = true := by
  obtain ⟨pc, hp, hpc⟩ := h
  exact role_of_life hp ▸ LifePc.responsible_role hpc

theorem exclusive_connect (n : Nat) (l : LinkId) : Exclusive ((connect o n).view l) := by
  have hof : ∀ w, ((connect o n).role l w).responsible = true → w = .task l ∧ l < n := by
    intro w hw
    rcases connect_role o n l w with hrole | ⟨rfl, hl, -⟩
    · rw [hrole] at hw
      cases hw
    · exact ⟨rfl, hl⟩
  exact
    { redialing := fun w hw => decide_eq_true (hof w hw).2
      unique := fun w w' hw hw' => (hof w hw).1.trans (hof w' hw').1.symm }

/-- What is known of a traced run from `n` seeds. -/
structure Honest (n : Nat) (r : State × Dials) : Prop where
  wellFormed : WellFormed r.1
  exclusive : ∀ l, Exclusive (r.1.view l)
  counted : ∀ l, Counted r.1 (r.2 l) l
  seeds : ∀ l < n, l < r.1.numLinks ∧ (r.1.link l).origin = .bootstrap

namespace Honest

variable {n : Nat} {h : Dials}

theorem connect (o : Options) (n : Nat) : Honest n (connect o n, fun _ => []) where
  wellFormed := .connect n
  exclusive := exclusive_connect n
  counted l := by
    refine ⟨fun _ => Nat.le_refl 0, fun _ _ => Nat.le_refl 0, fun t pc hp => ?_, fun _ => rfl⟩
    change (if t < n then Proc.life t .start
      else if t = n ∧ o.discovery then Proc.disc .start else Proc.ended) = _ at hp
    split at hp
    · cases hp
      exact Nat.le_refl 0
    · split at hp
      · cases hp
      · cases hp
  seeds _ hl := ⟨hl, rfl⟩

theorem step {r r' : State × Dials} {e : Event} (hr : Honest n r)
    (hstep : tracedStep o r e = some r') : Honest n r' := by
  obtain ⟨s, h⟩ := r
  obtain ⟨s', hs, rfl⟩ := Option.map_eq_some_iff.mp hstep
  have hmove := fun l => step_moves hr.wellFormed hs l
  have hexclusive := fun l => (hr.exclusive l).move (hmove l)
  refine ⟨hr.wellFormed.step hs, hexclusive, fun l => ?_, fun l hl => ?_⟩
  · rcases step_dialer_or_aside hs l with ⟨t, c, pc, s₁, pc', rfl, hp, h₁, rfl⟩ | haside
    · exact (hr.counted l).dial (hr.exclusive l) hp h₁ (hexclusive l) (hmove l)
    · exact (hr.counted l).aside hr.wellFormed haside (hmove l) (stop_of_step hs)
  · obtain ⟨hborn, horigin⟩ := hr.seeds l hl
    refine ⟨of_decide_eq_true ((hmove l).born (decide_eq_true hborn)), ?_⟩
    rcases step_dialer_or_aside hs l with ⟨t, c, pc, s₁, pc', rfl, hp, h₁, rfl⟩ | haside
    · exact (stepLife_gaveUp h₁).1.trans horigin
    · rcases haside.link with hlink | hnew
      · exact (congrArg Prod.fst hlink.account).trans horigin
      · exact absurd hnew.eq (Nat.ne_of_lt hborn)

/-- A link gives up after that many dials in a row that failed. -/
theorem gives_up {s' : State} {e : Event} (hr : Honest n (s, h))
    (hs : Macula.Pool.step o s e = some s')
    (hbefore : (s.link l).gaveUp = false) (hafter : (s'.link l).gaveUp = true) :
    (s.link l).origin = .discovered ∧
      discoveryLinkMaxRespawnAttempts ≤ failedInARow (s.record e h l) := by
  rcases step_dialer_or_aside hs l with ⟨t, c, pc, s₁, pc', rfl, hp, h₁, rfl⟩ | haside
  · rcases (stepLife_gaveUp h₁).2 with hsame | ⟨rfl, -⟩
    · exact absurd ((hsame.trans hbefore).symm.trans hafter) Bool.false_ne_true
    · obtain ⟨horigin, hfive, hcount⟩ := (hr.counted l).dialer t _ hp
      rw [record_of_life hp, if_neg nofun]
      exact ⟨horigin, Nat.le_trans hfive hcount⟩
  · rcases haside.link with hlink | hnew
    · have hsame : (s'.link l).gaveUp = (s.link l).gaveUp :=
        congrArg (fun account => account.2.2) hlink.account
      exact absurd ((hsame.trans hbefore).symm.trans hafter) Bool.false_ne_true
    · rw [hnew.link] at hafter
      cases hafter

/-- How the task of a seed ends. -/
theorem ends {s' : State} {e : Event} {t : TaskId} (hr : Honest n (s, h))
    (hs : Macula.Pool.step o s e = some s') (hboot : (s.link l).origin = .bootstrap)
    (hbefore : s.Dialer l t) (hafter : ¬ s'.Dialer l t) :
    (h l).head? = some ⟨t, true⟩ ∨ s.stop = true ∨ e = .drop t ∧ s.close = .shutting := by
  obtain ⟨pc, hp, hpc⟩ := hbefore
  rcases proc_of_step hr.wellFormed hs (by rw [hp]; nofun) with ⟨c, rfl⟩ | rfl | hsame
  · change stepTask o s t c = some s' at hs
    rw [stepTask, hp] at hs
    obtain ⟨⟨s₁, pc'⟩, h₁, rfl⟩ := Option.map_eq_some_iff.mp hs
    obtain rfl : pc' = .done := by
      by_contra hne
      exact hafter ⟨pc', Function.update_self .., hne⟩
    obtain ⟨rfl, -⟩ := stepLife_done h₁
    exact (((hr.counted l).dialer t _ hp).2 hboot).elim (fun h => .inr (.inl h)) .inl
  · obtain ⟨s₁, h₁, -⟩ := Option.map_eq_some_iff.mp hs
    rw [dropProc, hp] at h₁
    by_cases hclose : s.close = .shutting
    · exact .inr (.inr ⟨rfl, hclose⟩)
    · change (if s.close = .shutting then _ else none) = some s₁ at h₁
      rw [if_neg hclose] at h₁
      cases h₁
  · exact absurd ⟨pc, hsame.trans hp, hpc⟩ hafter

end Honest

theorem honest_of_run {n : Nat} {es : List Event} {h : Dials}
    (hrun : run (tracedStep o) (connect o n, fun _ => []) es = some (s, h)) : Honest n (s, h) :=
  run_invariant_of_step (Honest n) (fun _ _ _ hr he => hr.step he) (.connect o n) hrun

/-- At every moment of every run a link has at most one lifecycle task, and its claim is set
while it has one.  Its flag is set only for a link that discovery found, after five or more
dials in a row that failed.  A seed never gives up, and its task ends when it has connected,
by the stop signal, or when `Pool::close` aborts it. -/
theorem one_honest_dialer {n : Nat} {es : List Event} {h : Dials}
    (hrun : run (tracedStep o) (connect o n, fun _ => []) es = some (s, h)) (l : LinkId) :
    (∀ t t', s.Dialer l t → s.Dialer l t' → t = t') ∧
    (∀ t, s.Dialer l t → (s.link l).redialing = true) ∧
    (∀ e s' h', tracedStep o (s, h) e = some (s', h') →
      (s.link l).gaveUp = false → (s'.link l).gaveUp = true →
        (s.link l).origin = .discovered ∧
          discoveryLinkMaxRespawnAttempts ≤ failedInARow (h' l)) ∧
    (l < n → (s.link l).origin = .bootstrap) ∧
    ((s.link l).origin = .bootstrap →
      (s.link l).gaveUp = false ∧
      ∀ e s' h' t, tracedStep o (s, h) e = some (s', h') → s.Dialer l t → ¬ s'.Dialer l t →
        (h l).head? = some ⟨t, true⟩ ∨ s.stop = true ∨ e = .drop t ∧ s.close = .shutting) := by
  have hr := honest_of_run hrun
  refine ⟨fun t t' ht ht' => ?_, fun t ht => ?_, fun e s' h' hstep hbefore hafter => ?_,
    fun hl => (hr.seeds l hl).2, fun hboot => ⟨(hr.counted l).seed hboot, ?_⟩⟩
  · exact Who.task.inj ((hr.exclusive l).unique _ _ ht.responsible ht'.responsible)
  · exact (hr.exclusive l).redialing _ ht.responsible
  · obtain ⟨s₁, hs, heq⟩ := Option.map_eq_some_iff.mp hstep
    cases heq
    exact hr.gives_up hs hbefore hafter
  · intro e s' h' t hstep hbefore hafter
    obtain ⟨s₁, hs, heq⟩ := Option.map_eq_some_iff.mp hstep
    cases heq
    exact hr.ends hs hboot hbefore hafter

/-- One target for a publish, the links shuffled, and room for one discovered link. -/
def Options.discovering : Options where
  random := true
  replicationFactor := 1
  discovery := true
  maxLinks := 1
  pinned := false

/-- The seed connects, and the discovery loop finds one station through it, as link 1 and
task 2. -/
def discovers : List Event :=
  linkUp 0 ++ steps 1 12 ++ .run 1 (.order [0]) :: steps 1 5 ++ .run 1 .row :: steps 1 4

/-- The new lifecycle task `t` fails five times and gives up. -/
def givesUp (t : TaskId) : List Event :=
  steps t 1 ++ (List.replicate 5 (.run t .go :: .run t .fails :: steps t 2)).flatten ++ steps t 1

/-- What has become of a pool with one seed and discovery, and of its dials. -/
def traced (es : List Event) : State × Dials :=
  runFrom (tracedStep .discovering) (connect .discovering 1, fun _ => []) es

theorem run_eq_traced {es : List Event}
    (h : (run (tracedStep .discovering) (connect .discovering 1, fun _ => []) es).isSome = true) :
    run (tracedStep .discovering) (connect .discovering 1, fun _ => []) es =
      some ((traced es).1, (traced es).2) := run_eq_runFrom h

/-- The new lifecycle task `t` fails five times, up to where it sets the flag. -/
def failsFive (t : TaskId) : List Event :=
  steps t 1 ++ (List.replicate 4 (.run t .go :: .run t .fails :: steps t 2)).flatten ++
    .run t .go :: .run t .fails :: steps t 1

/-- Link 1 has been dialed five times in vain. -/
def failedFive : State × Dials := traced (discovers ++ failsFive 2)

/-- Link 1 has given up. -/
def flagged : State × Dials := runFrom (tracedStep .discovering) failedFive [.run 2 .go]

theorem discovered_link_gave_up :
    tracedStep .discovering (failedFive.1, failedFive.2) (.run 2 .go) =
        some (flagged.1, flagged.2) ∧
      (failedFive.1.link 1).gaveUp = false ∧ (flagged.1.link 1).gaveUp = true ∧
      (failedFive.1.link 1).origin = .discovered ∧
      discoveryLinkMaxRespawnAttempts ≤ failedInARow (flagged.2 1) ∧
      (failedFive.1.link 0).gaveUp = false := by
  have hrun : run (tracedStep .discovering) (connect .discovering 1, fun _ => [])
      (discovers ++ failsFive 2) = some (failedFive.1, failedFive.2) :=
    run_eq_traced (by decide +kernel)
  have hstep : tracedStep .discovering (failedFive.1, failedFive.2) (.run 2 .go) =
      some (flagged.1, flagged.2) := by
    rw [Prod.eta, Prod.eta]
    exact step_eq_runFrom (by decide +kernel)
  have hbefore : (failedFive.1.link 1).gaveUp = false := by decide +kernel
  have hafter : (flagged.1.link 1).gaveUp = true := by decide +kernel
  have hboot : (failedFive.1.link 0).origin = .bootstrap := by decide +kernel
  obtain ⟨horigin, hfailed⟩ := (one_honest_dialer hrun 1).2.2.1 (.run 2 .go) flagged.1 flagged.2
    hstep hbefore hafter
  obtain ⟨-, -, -, -, hseed⟩ := one_honest_dialer hrun 0
  exact ⟨hstep, hbefore, hafter, horigin, hfailed, (hseed hboot).1⟩

end Macula.Pool
