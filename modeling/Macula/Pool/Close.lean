import Macula.Pool.Refines

/-!
# Whether `Pool::close` is final

`close` sends the stop signal, aborts the background tasks and waits for them, and then
takes the session out of every link.  Nothing it waits for can dial afterwards.  What it
does not wait for are calls and publishes that are still under way: one that fails spawns a
lifecycle task into the emptied `JoinSet`.  That task is harmless as long as it sees the stop
signal, which it looks at before it dials.

The signal is there if somebody was listening when it was sent.  A `watch` channel without
receivers drops what is sent, and a pool whose links are all up, and that discovers nothing,
has no receivers.  So a call in flight can bring a closed pool back to life
(`closed_pool_redials`), and nothing else can (`close_final`).
-/

namespace Macula.Pool

/-- `JoinSet::shutdown` has returned. -/
def ClosePc.shutDown : ClosePc → Bool
  | .emptied | .draining | .next _ | .locking _ _ | .closing _ _ | .storing _ _
  | .releasing _ _ | .done => true
  | _ => false

/-- `links.drain(..)` has begun. -/
def ClosePc.drained : ClosePc → Bool
  | .next _ | .locking _ _ | .closing _ _ | .storing _ _ | .releasing _ _ | .done => true
  | _ => false

/-- The links whose session is still to be taken. -/
def ClosePc.remaining : ClosePc → List LinkId
  | .next rest => rest
  | .locking l rest => l :: rest
  | .closing _ rest | .storing _ rest | .releasing _ rest => rest
  | _ => []

/-- A lifecycle task that is spawned after the shutdown finds the stop signal. -/
def heeded (s : State) : Event → Bool
  | .run t _ => !(s.close.shutDown && (s.proc t).spawns.isSome) || s.stop
  | _ => true

/-- Such a task is on its way to finish: it finds the stop signal before it dials. -/
def Proc.ending (stop : Bool) : Proc → Bool
  | .life _ .start | .life _ .check => stop
  | .life _ .returning | .life _ .done => true
  | .life _ _ => false
  | .disc pc => pc = .done
  | _ => true

structure Closing (s : State) : Prop extends Sound s where
  /-- After the shutdown no task dials, and no discovery runs. -/
  ending : s.close.shutDown = true → ∀ t, (s.proc t).ending s.stop = true
  /-- Until the drain, `Pool::links` has every link there is. -/
  known : s.close.drained = false → ∀ l < s.numLinks, l ∈ s.links
  exists_link : ∀ l, (s.link l).session ≠ none → l < s.numLinks
  remaining : s.close.drained = true → ∀ l, (s.link l).session ≠ none → l ∈ s.close.remaining

variable {o : Options} {s s' : State} {w : Who} {l : LinkId}

theorem ClosePc.shutDown_of_drained {pc : ClosePc} (h : pc.drained = true) :
    pc.shutDown = true := by
  cases pc <;> first | rfl | cases h

/-- A session comes only from a task that installs it. -/
theorem Move.session {α γ : Type*} [DecidableEq α] {a : Act α} {v v' : View α γ}
    (m : Move a v v') (h : v'.session ≠ none) :
    v.session ≠ none ∨ ∃ w g, a = .run w ∧ v.role w = .locking g := by
  cases m with
  | install w g hw _ => exact .inr ⟨w, g, rfl, hw⟩
  | clear | birth | take => exact absurd rfl h
  | _ => exact .inl h

/-- The roles that only a lifecycle task has, from its handshake on. -/
def Role.handshaken {γ : Type*} : Role γ → Bool
  | .dialed _ | .locking _ | .installed | .released => true
  | _ => false

theorem Proc.life_of_handshaken {p : Proc} {r : Role SessionId} (h : p.role l = r)
    (hr : r.handshaken = true) : ∃ pc : LifePc, p = .life l pc ∧ pc.role = r := by
  subst h
  have hother : ∀ {l₀ : LinkId} {r : Role SessionId}, (onLink l₀ l r).handshaken = true →
      l₀ = l ∧ r.handshaken = true := by
    intro l₀ r hr
    have haway : onLink l₀ l r ≠ .away := by
      intro haway
      rw [haway] at hr
      cases hr
    obtain ⟨hlink, heq⟩ := onLink_eq rfl haway
    exact ⟨hlink, by rwa [← heq] at hr⟩
  have hcaller : ∀ pc : CallerPc, (pc.role l).handshaken = true → False := by
    intro pc hpc
    cases pc with
    | start | selecting | next | spawned | done => cases hpc
    | _ => cases (hother hpc).2
  cases p with
  | caller op pc => exact (hcaller pc hr).elim
  | life l₀ pc =>
      obtain ⟨rfl, -⟩ := hother hr
      exact ⟨pc, rfl, (onLink_self l₀ pc.role).symm⟩
  | disc pc =>
      cases pc with
      | calling pc => exact (hcaller pc hr).elim
      | askLocking | scanning | askRelease | peeking | peeked | claiming | claimed | spawning =>
          cases (hother hr).2
      | _ => cases hr
  | ended => cases hr

theorem Proc.life_of_locking {p : Proc} {g : SessionId} (h : p.role l = .locking g) :
    p = .life l (.locking g) := by
  obtain ⟨pc, rfl, hpc⟩ := Proc.life_of_handshaken h rfl
  cases pc with
  | locking => rw [Role.locking.inj hpc]
  | _ => cases hpc

theorem Proc.life_of_released {p : Proc} (h : p.role l = .released) : p = .life l .released := by
  obtain ⟨pc, rfl, hpc⟩ := Proc.life_of_handshaken h rfl
  cases pc with
  | released => rfl
  | _ => cases hpc

/-- A session that a step adds to a link is installed by a lifecycle task of that link. -/
theorem session_of_step {e : Event} (hwf : WellFormed s) (he : step o s e = some s')
    (h : (s'.link l).session ≠ none) :
    (s.link l).session ≠ none ∨ ∃ t g, s.proc t = .life l (.locking g) := by
  rcases (step_moves hwf he l).session h with h | ⟨w, g, -, hw⟩
  · exact .inl h
  · cases w with
    | task t => exact .inr ⟨t, g, Proc.life_of_locking hw⟩
    | closer =>
        rcases s.close.role_cases l with h' | h'
        · exact absurd (h'.symm.trans hw) nofun
        · exact absurd (h'.symm.trans hw) nofun

/-- A task on its way to finish stays on it, and adds no link. -/
theorem stepTask_ending {t : TaskId} {c : Choice} (hend : (s.proc t).ending s.stop = true)
    (h : stepTask o s t c = some s') :
    ∃ s₁ p, s' = s₁.setProc t p ∧ p.ending s.stop = true ∧
      (SameOutline (.task t) s s₁ ∨
        ∃ l, (s.proc t).spawns = some l ∧ Spawns (.task t) l s s₁) := by
  obtain ⟨s₁, p, rfl, hturn⟩ := turn_of_stepTask h
  refine ⟨s₁, p, rfl, ?_⟩
  cases hturn with
  | caller hp h₁ =>
      rw [hp]
      refine ⟨rfl, ?_⟩
      rcases stepCaller_outline h₁ with ho | ⟨l, -, hl, hsp⟩
      · exact .inl ho
      · exact .inr ⟨l, hl, hsp⟩
  | @life l pc pc' _ hp h₁ =>
      rw [hp] at hend
      refine ⟨?_, .inl (stepLife_outline h₁)⟩
      cases pc with
      | start =>
          cases c <;> cases h₁
          exact hend
      | check =>
          cases c <;> cases h₁
          show (Proc.life l (if s.stop then _ else _)).ending s.stop = true
          rw [show s.stop = true from hend]
          rfl
      | returning =>
          cases c <;> cases h₁
          rfl
      | done => cases c <;> cases h₁
      | _ => cases hend
  | @disc pc pc' _ hp h₁ =>
      rw [hp] at hend
      obtain rfl : pc = .done := of_decide_eq_true hend
      cases c <;> cases h₁

theorem Move.born {α γ : Type*} [DecidableEq α] {a : Act α} {v v' : View α γ}
    (m : Move a v v') (h : v.born = true) : v'.born = true := by
  cases m with
  | birth => rfl
  | _ => exact h

/-- A task leaves `close` alone, and the stop signal with it. -/
theorem stepTask_close {t : TaskId} {c : Choice} (h : stepTask o s t c = some s') :
    s'.close = s.close ∧ s'.stop = s.stop := by
  obtain ⟨s₁, p, rfl, -, ho | ⟨_, -, -, hsp⟩ | rfl⟩ := stepTask_outline h
  · exact ⟨ho.close, ho.stop⟩
  · rw [hsp.eq]
    exact ⟨rfl, rfl⟩
  · exact ⟨rfl, rfl⟩

theorem ending_setProc {t : TaskId} {p : Proc} {stop : Bool}
    (h : ∀ t, (s.proc t).ending stop = true) (hp : p.ending stop = true) (t' : TaskId) :
    ((s.setProc t p).proc t').ending stop = true := by
  show (Function.update s.proc t p t').ending stop = true
  rw [Function.update_apply]
  split
  · exact hp
  · exact h t'

namespace Closing

theorem connect (n : Nat) : Closing (connect o n) where
  toSound := .connect n
  ending h := nomatch h
  known _ _ hl := List.mem_range.mpr hl
  exists_link _ h := absurd rfl h
  remaining h := nomatch h

theorem ending_stepTask (h : Closing s) {t : TaskId} {c : Choice}
    (hheed : heeded s (.run t c) = true) (hs : stepTask o s t c = some s')
    (hshut : s'.close.shutDown = true) (t' : TaskId) : (s'.proc t').ending s'.stop = true := by
  obtain ⟨hclose, hstop⟩ := stepTask_close hs
  rw [hclose] at hshut
  have hend := h.ending hshut
  rw [hstop]
  obtain ⟨s₁, p, rfl, hp, ho | ⟨l, hl, hsp⟩⟩ := stepTask_ending (hend t) hs
  · exact ending_setProc (ho.proc ▸ hend) hp t'
  · -- the new task is about to look at the signal
    have hset : s.stop = true := by
      simpa [heeded, hshut, hl] using hheed
    rw [hsp.eq]
    refine ending_setProc (ending_setProc hend ?_) hp t'
    exact hset

theorem known_stepTask (h : Closing s) {t : TaskId} {c : Choice}
    (hs : stepTask o s t c = some s') (hdrained : s'.close.drained = false) :
    ∀ l < s'.numLinks, l ∈ s'.links := by
  rw [(stepTask_close hs).1] at hdrained
  have hknown := h.known hdrained
  obtain ⟨s₁, p, rfl, -, ho | ⟨l, -, -, hsp⟩ | rfl⟩ := stepTask_outline hs
  · show ∀ l < s₁.numLinks, l ∈ s₁.links
    rw [ho.numLinks, ho.links]
    exact hknown
  · rw [hsp.eq]
    exact hknown
  · intro l hl
    rcases Nat.lt_succ_iff_lt_or_eq.mp hl with hl | rfl
    · exact List.mem_append_left _ (hknown l hl)
    · exact List.mem_append_right _ (List.mem_singleton_self _)

theorem exists_link_step (h : Closing s) {e : Event} (hs : Macula.Pool.step o s e = some s')
    (l : LinkId) (hl : (s'.link l).session ≠ none) : l < s'.numLinks := by
  have hborn : l < s.numLinks := by
    rcases session_of_step h.wellFormed hs hl with hold | ⟨t, g, ht⟩
    · exact h.exists_link l hold
    · refine h.wellFormed.proc t l ?_
      rw [ht]
      exact List.mem_singleton_self l
  exact of_decide_eq_true ((step_moves h.wellFormed hs l).born (decide_eq_true hborn))

/-- After the shutdown no session is added to a link. -/
theorem session_step (h : Closing s) {e : Event} (hs : Macula.Pool.step o s e = some s')
    (hshut : s.close.shutDown = true) (l : LinkId) (hl : (s'.link l).session ≠ none) :
    (s.link l).session ≠ none := by
  rcases session_of_step h.wellFormed hs hl with hold | ⟨t, g, ht⟩
  · exact hold
  · have := h.ending hshut t
    rw [ht] at this
    cases this

/-- When every task of the `JoinSet` has finished, none is under way. -/
theorem ending_of_not_anyLive (hwf : WellFormed s) (hlive : ¬ s.anyLive = true) (t : TaskId) :
    (s.proc t).ending s.stop = true := by
  by_cases ht : t < s.numTasks
  · have hdead : (s.proc t).live = false := by
      rw [Bool.eq_false_iff]
      intro hl
      exact hlive (List.any_eq_true.mpr ⟨t, List.mem_range.mpr ht, hl⟩)
    cases hp : s.proc t with
    | life l pc =>
        rw [hp] at hdead
        cases pc <;> first | rfl | cases hdead
    | disc pc =>
        rw [hp] at hdead
        cases pc <;> first | rfl | cases hdead
    | _ => rfl
  · rw [hwf.fresh t (Nat.le_of_not_lt ht)]
    rfl

theorem stepClose (h : Closing s) (hs : Macula.Pool.step o s .runClose = some s') :
    Closing s' := by
  have hsound := h.toSound.step hs
  have hlink := h.exists_link_step hs
  obtain ⟨⟨s₁, pc⟩, h₁, rfl⟩ := Option.map_eq_some_iff.mp hs
  have hend := h.ending
  have hknown := h.known
  have hremaining := h.remaining
  generalize hq : s.close = q at h₁ hend hknown hremaining
  revert h₁
  fun_cases Macula.Pool.stepClose s q
  all_goals
    intro h₁
    cases h₁
  case case1 =>
    exact ⟨hsound, by simp [ClosePc.shutDown], fun _ => hknown rfl, hlink,
      by simp [ClosePc.drained]⟩
  case case2 =>
    exact ⟨hsound, by simp [ClosePc.shutDown], fun _ => hknown rfl, hlink,
      by simp [ClosePc.drained]⟩
  case case3 =>
    exact ⟨hsound, by simp [ClosePc.shutDown], fun _ => hknown rfl, hlink,
      by simp [ClosePc.drained]⟩
  case case6 hlive =>
    refine ⟨hsound, fun _ t => ?_, fun _ => hknown rfl, hlink, by simp [ClosePc.drained]⟩
    exact ending_of_not_anyLive h.wellFormed hlive t
  case case7 =>
    exact ⟨hsound, fun _ => hend rfl, fun _ => hknown rfl, hlink, by simp [ClosePc.drained]⟩
  case case8 =>
    refine ⟨hsound, fun _ => hend rfl, by simp [ClosePc.drained], hlink, fun _ l hl => ?_⟩
    exact hknown rfl l (h.exists_link l hl)
  case case9 =>
    exact ⟨hsound, fun _ => hend rfl, by simp [ClosePc.drained], hlink, fun _ => hremaining rfl⟩
  case case10 l₀ rest =>
    refine ⟨hsound, fun _ => hend rfl, by simp [ClosePc.drained], hlink, fun _ l hl => ?_⟩
    refine hremaining rfl l (h.session_step hs ?_ l hl)
    rw [hq]
    rfl
  case case11 l₀ rest _ =>
    have hrest : ∀ l, ((s.setSession l₀ none).link l).session ≠ none → l ∈ rest := by
      intro l hl
      change (Function.update s.link l₀ _ l).session ≠ none at hl
      by_cases heq : l = l₀
      · rw [heq, Function.update_self] at hl
        exact absurd rfl hl
      · rw [Function.update_of_ne heq] at hl
        exact (List.mem_cons.mp (hremaining rfl l hl)).resolve_left heq
    refine ⟨hsound, fun _ => hend rfl, ?_, hlink, fun _ l hl => ?_⟩
    · show ClosePc.drained (if _ then _ else _) = false → _
      split
      · simp [ClosePc.drained]
      · simp [ClosePc.drained]
    · show l ∈ ClosePc.remaining (if _ then _ else _)
      split
      · exact hrest l hl
      · exact hrest l hl
  case case13 =>
    exact ⟨hsound, fun _ => hend rfl, by simp [ClosePc.drained], hlink, fun _ => hremaining rfl⟩
  all_goals
    refine ⟨hsound, fun _ => hend rfl, by simp [ClosePc.drained], hlink, fun _ l hl => ?_⟩
    refine hremaining rfl l (h.session_step hs ?_ l hl)
    rw [hq]
    rfl

theorem step {e : Event} (h : Closing s) (hheed : heeded s e = true)
    (hs : Macula.Pool.step o s e = some s') : Closing s' := by
  have hsound := h.toSound.step hs
  cases happens_of_step hs with
  | begin op =>
      refine ⟨hsound, fun hshut => ?_, h.known, h.exists_link, h.remaining⟩
      exact ending_setProc (h.ending hshut) rfl
  | run h₁ =>
      obtain ⟨hclose, -⟩ := stepTask_close h₁
      refine ⟨hsound, h.ending_stepTask hheed hs, h.known_stepTask hs,
        h.exists_link_step hs, fun hd l hl => ?_⟩
      rw [hclose] at hd ⊢
      exact h.remaining hd l (h.session_step hs (ClosePc.shutDown_of_drained hd) l hl)
  | @drop t s₁ h₁ =>
      have hlink := h.exists_link_step hs
      have hsession := h.session_step hs
      have ho := dropProc_outline h₁
      have hclose : (s₁.setProc t .ended).close = s.close := ho.close
      refine ⟨hsound, fun hshut => ?_, fun hd => ?_, hlink, fun hd l hl => ?_⟩
      · rw [hclose] at hshut
        show ∀ t', _ = true
        have hstop : (s₁.setProc t .ended).stop = s.stop := ho.stop
        rw [hstop]
        exact ending_setProc (ho.proc ▸ h.ending hshut) rfl
      · rw [hclose] at hd
        show ∀ l < s₁.numLinks, l ∈ s₁.links
        rw [ho.numLinks, ho.links]
        exact h.known hd
      · rw [hclose] at hd ⊢
        exact h.remaining hd l (hsession (ClosePc.shutDown_of_drained hd) l hl)
  | close hidle =>
      have hd : s.close.drained = false := by
        rw [hidle]
        rfl
      exact ⟨hsound, nofun, fun _ => h.known hd, h.exists_link, nofun⟩
  | runClose => exact h.stepClose hs

end Closing

/-! ## Runs -/

/-- *Closing is final.*  In every run in which each lifecycle task spawned after the shutdown
finds the stop signal, once `close` has returned no task dials and no link has a session. -/
theorem close_final {n : Nat} {es : List Event} (h : run (step o) (connect o n) es = some s)
    (hg : Guarded (step o) (fun s e => heeded s e) (connect o n) es) (hdone : s.close = .done) :
    (∀ t l, s.proc t ≠ .life l .dialing) ∧ ∀ l, (s.link l).session = none := by
  have hc : Closing s :=
    run_invariant Closing (fun _ _ _ hi he hs => hi.step he hs) (.connect n) hg h
  have hshut : s.close.shutDown = true := by
    rw [hdone]
    rfl
  have hdrained : s.close.drained = true := by
    rw [hdone]
    rfl
  refine ⟨fun t l hdial => ?_, fun l => ?_⟩
  · have := hc.ending hshut t
    rw [hdial] at this
    cases this
  · by_contra hsession
    have := hc.remaining hdrained l hsession
    rw [hdone] at this
    exact List.not_mem_nil this

/-- A pool with two seeds after the events. -/
def afterTwo (es : List Event) : State := runFrom (step .plain) (connect .plain 2) es

/-- Link 0 is connected and link 1 is being dialed when a call fails on link 0. -/
def failsBeforeClose : List Event :=
  linkUp 0 ++ steps 1 2 ++ .begin .call :: steps 2 3 ++ .run 2 (.order [0]) :: steps 2 1 ++
    callFails 2

/-- All of `close`.  The task that dials has the stop signal sent, and is aborted. -/
def closesBoth : List Event :=
  .close :: List.replicate 3 .runClose ++ .drop 1 :: List.replicate 13 .runClose

/-- The call clears link 0 and spawns a lifecycle task. -/
def marksAfterClose : List Event := steps 2 8 ++ steps 3 3

theorem closed_after_use :
    (afterTwo (failsBeforeClose ++ closesBoth)).close = .done ∧
      (afterTwo (failsBeforeClose ++ closesBoth)).proc 3 = .ended ∧
      (afterTwo (failsBeforeClose ++ closesBoth ++ marksAfterClose)).proc 3 = .life 0 .done ∧
      (∀ t l, (afterTwo (failsBeforeClose ++ closesBoth ++ marksAfterClose)).proc t ≠
        .life l .dialing) ∧
      ∀ l, ((afterTwo (failsBeforeClose ++ closesBoth ++ marksAfterClose)).link l).session =
        none := by
  have hdone : (afterTwo (failsBeforeClose ++ closesBoth ++ marksAfterClose)).close = .done := by
    decide
  have hclosed := close_final (run_eq_runFrom (by decide)) (by decide) hdone
  exact ⟨by decide, by decide, by decide, hclosed⟩

/-- All of `close`, on a pool with one link that has a session. -/
def closes : List Event := .close :: List.replicate 12 .runClose

/-- The link is up, so nobody listens when the stop signal is sent.  A call has failed and is
about to queue again; after `close` it clears the link and spawns a lifecycle task. -/
def lateFailure : List Event :=
  linkUp 0 ++ callArrives 1 ++ callFails 1 ++ closes ++ steps 1 7

theorem closed_pool_redials :
    ¬ ∀ (es : List Event) (s : State), run (step .plain) (connect .plain 1) es = some s →
      s.close = .done →
      (∀ t l, s.proc t ≠ .life l .dialing) ∧ ∀ l, (s.link l).session = none := by
  intro h
  have hsession := (h (lateFailure ++ linkUp 2) _ (run_eq_runFrom (by decide)) (by decide)).2 0
  exact absurd hsession (by decide)

end Macula.Pool
