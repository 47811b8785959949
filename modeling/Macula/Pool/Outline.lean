import Macula.Pool.Step

/-!
# The outline of a step

Most steps of a task touch one link or one lock and nothing else.  The exceptions are few:
a task that holds `tasks` spawns a lifecycle task, and the discovery loop adds a link.  This
module says so once (`stepTask_outline`), and derives what every reachable state satisfies:
tasks only know links that exist (`WellFormed`).
-/

namespace Macula.Pool

/-! ## The parts of a step -/

/-- What a task runs takes a step: the pool after it, and what the task then runs. -/
inductive Turn (o : Options) (s : State) (t : TaskId) (c : Choice) : State → Proc → Prop
  | caller {op : Op} {pc pc' : CallerPc} {s₁ : State} : s.proc t = .caller op pc →
      stepCaller o s (.task t) op pc c = some (s₁, pc') → Turn o s t c s₁ (.caller op pc')
  | life {l : LinkId} {pc pc' : LifePc} {s₁ : State} : s.proc t = .life l pc →
      stepLife s (.task t) l pc c = some (s₁, pc') → Turn o s t c s₁ (.life l pc')
  | disc {pc pc' : DiscPc} {s₁ : State} : s.proc t = .disc pc →
      stepDisc o s (.task t) pc c = some (s₁, pc') → Turn o s t c s₁ (.disc pc')

theorem turn_of_stepTask {o : Options} {s s' : State} {t : TaskId} {c : Choice}
    (h : stepTask o s t c = some s') : ∃ s₁ p, s' = s₁.setProc t p ∧ Turn o s t c s₁ p := by
  rw [stepTask] at h
  split at h
  · next hp =>
      obtain ⟨⟨s₁, pc'⟩, h₁, h₂⟩ := Option.map_eq_some_iff.mp h
      exact ⟨s₁, _, h₂.symm, .caller hp h₁⟩
  · next hp =>
      obtain ⟨⟨s₁, pc'⟩, h₁, h₂⟩ := Option.map_eq_some_iff.mp h
      exact ⟨s₁, _, h₂.symm, .life hp h₁⟩
  · next hp =>
      obtain ⟨⟨s₁, pc'⟩, h₁, h₂⟩ := Option.map_eq_some_iff.mp h
      exact ⟨s₁, _, h₂.symm, .disc hp h₁⟩
  · cases h

/-- An event and the pool after it. -/
inductive Happens (o : Options) (s : State) : Event → State → Prop
  | begin (op : Op) : Happens o s (.begin op) (s.spawn (.caller op .start))
  | run {t : TaskId} {c : Choice} {s' : State} : stepTask o s t c = some s' →
      Happens o s (.run t c) s'
  | drop {t : TaskId} {s₁ : State} : dropProc s t = some s₁ →
      Happens o s (.drop t) (s₁.setProc t .ended)
  | close : s.close = .idle → Happens o s .close (s.setClose .start)
  | runClose {s₁ : State} {pc : ClosePc} : stepClose s s.close = some (s₁, pc) →
      Happens o s .runClose (s₁.setClose pc)

theorem happens_of_step {o : Options} {s s' : State} {e : Event} (h : step o s e = some s') :
    Happens o s e s' := by
  cases e with
  | begin op =>
      cases h
      exact .begin op
  | run t c => exact .run h
  | drop t =>
      obtain ⟨s₁, h₁, rfl⟩ := Option.map_eq_some_iff.mp h
      exact .drop h₁
  | close =>
      rw [step] at h
      split at h
      · next hidle =>
          cases h
          exact .close hidle
      · cases h
  | runClose =>
      obtain ⟨⟨s₁, pc⟩, h₁, rfl⟩ := Option.map_eq_some_iff.mp h
      exact .runClose h₁

/-! ## The links a task knows -/

def CallerPc.links : CallerPc → List LinkId
  | .start | .done => []
  | .selecting todo connected => todo ++ connected
  | .next rest | .spawned rest => rest
  | .locking l rest | .absent l rest | .calling l _ rest | .answered l rest
  | .failed l _ rest | .marking l _ rest | .markLocking l _ rest | .cleared l rest
  | .flagged l rest | .claiming l rest | .claimed l rest | .spawning l rest => l :: rest

def DiscPc.links : DiscPc → List LinkId
  | .probing todo _ | .resolving todo => todo
  | .asking l | .askLocking l | .scanning l | .askRelease l _ | .peeking l | .peeked l
  | .claiming l | .claimed l | .spawning l => [l]
  | .calling pc => pc.links
  | _ => []

def ClosePc.links : ClosePc → List LinkId
  | .next rest => rest
  | .locking l rest | .closing l rest | .storing l rest | .releasing l rest => l :: rest
  | _ => []

def Proc.links : Proc → List LinkId
  | .caller _ pc => pc.links
  | .life l _ => [l]
  | .disc pc => pc.links
  | .ended => []

/-- The link whose lifecycle task a task is about to spawn. -/
def CallerPc.spawns : CallerPc → Option LinkId
  | .spawning l _ => some l
  | _ => none

def Proc.spawns : Proc → Option LinkId
  | .caller _ pc => pc.spawns
  | .disc (.spawning l) => some l
  | .disc (.calling pc) => pc.spawns
  | _ => none

/-! ## What a step leaves alone -/

/-- After a step of `w`, `s'` differs from `s` at most in what is inside the links, in the
count of the sessions and in the place of `w` in the queue of `tasks`. -/
structure SameOutline (w : Who) (s s' : State) : Prop where
  numLinks : s'.numLinks = s.numLinks := by rfl
  links : s'.links = s.links := by rfl
  stop : s'.stop = s.stop := by rfl
  close : s'.close = s.close := by rfl
  proc : s'.proc = s.proc := by rfl
  numTasks : s'.numTasks = s.numTasks := by rfl
  tasks : ∀ w', w' ≠ w → s.TasksGranted w' → s'.TasksGranted w' := by exact fun _ _ h => h

/-- `w` spawns the lifecycle task of `l`. -/
structure Spawns (w : Who) (l : LinkId) (s s' : State) : Prop where
  granted : s.TasksGranted w
  eq : s' = s.spawn (.life l .start)

variable {o : Options} {s s' : State} {w : Who} {l : LinkId}

theorem sameOutline_enqueueTasks : SameOutline w s (s.enqueueTasks w) where
  tasks _ _ h := Fifo.Granted.enqueue h w

theorem sameOutline_leaveTasks : SameOutline w s (s.leaveTasks w) where
  tasks _ hne h := Fifo.Granted.leave h hne

theorem mem_of_selectLinks {connected ls : List LinkId} (h : selectLinks o connected ls)
    (hl : l ∈ ls) : l ∈ connected := by
  unfold selectLinks at h
  split at h
  · exact (List.isPerm_iff.mp h).mem_iff.mp hl
  · exact of_decide_eq_true h ▸ hl

theorem Op.mem_of_targets {op : Op} {ls : List LinkId} (hl : l ∈ op.targets o ls) : l ∈ ls := by
  cases op with
  | call => exact hl
  | publish => exact List.mem_of_mem_take hl

theorem stepCaller_links {op : Op} {pc pc' : CallerPc} {c : Choice}
    (h : stepCaller o s w op pc c = some (s', pc')) (hl : l ∈ pc'.links) :
    l ∈ pc.links ∨ l ∈ s.links := by
  revert h
  fun_cases stepCaller o s w op pc c
  all_goals
    intro h
    cases h
  case case1 => exact .inr (by simpa [CallerPc.links] using hl)
  case case2 =>
    have : ∀ x ys, l ∈ (if (s.link x).connected then ys ++ [x] else ys) → l = x ∨ l ∈ ys := by
      intro x ys h
      split at h
      · simpa [or_comm] using h
      · exact .inr h
    rcases List.mem_append.mp hl with hl | hl
    · exact .inl (List.mem_append_left _ (List.mem_cons_of_mem _ hl))
    · rcases this _ _ hl with rfl | hl
      · exact .inl (List.mem_cons_self ..)
      · exact .inl (List.mem_append_right _ hl)
  case case3 hsel => exact .inl (mem_of_selectLinks hsel (Op.mem_of_targets hl))
  case case13 =>
    cases op with
    | call => exact absurd hl List.not_mem_nil
    | publish => exact .inl (List.mem_cons_of_mem _ hl)
  all_goals first | exact .inl hl | exact .inl (List.mem_cons_of_mem _ hl)

theorem stepCaller_outline {op : Op} {pc pc' : CallerPc} {c : Choice}
    (h : stepCaller o s w op pc c = some (s', pc')) :
    SameOutline w s s' ∨ ∃ l ∈ pc.links, pc.spawns = some l ∧ Spawns w l s s' := by
  revert h
  fun_cases stepCaller o s w op pc c
  all_goals
    intro h
    cases h
  case case22 => exact .inl sameOutline_enqueueTasks
  case case23 hg => exact .inr ⟨_, List.mem_cons_self .., rfl, hg, rfl⟩
  case case25 => exact .inl sameOutline_leaveTasks
  all_goals exact .inl {}

theorem stepLife_outline {pc pc' : LifePc} {c : Choice}
    (h : stepLife s w l pc c = some (s', pc')) : SameOutline w s s' := by
  revert h
  fun_cases stepLife s w l pc c
  all_goals
    intro h
    cases h
  all_goals exact {}

theorem stepDisc_links {pc pc' : DiscPc} {c : Choice}
    (h : stepDisc o s w pc c = some (s', pc')) (hl : l ∈ pc'.links) :
    l ∈ pc.links ∨ l ∈ s.links ∨ l = s.numLinks ∧ s' = s.pushLink := by
  revert h
  fun_cases stepDisc o s w pc c
  all_goals intro h
  case case20 =>
    obtain ⟨⟨s₁, pc₁⟩, h₁, h₂⟩ := Option.map_eq_some_iff.mp h
    cases h₂
    exact (stepCaller_links h₁ hl).imp_right .inl
  all_goals cases h
  case case10 =>
    split at hl
    · exact .inl (List.mem_singleton.mp hl ▸ List.mem_cons_self ..)
    · exact .inl (List.mem_cons_of_mem _ hl)
  case case22 hmem => exact .inr (.inl (List.mem_singleton.mp hl ▸ hmem.1))
  case case27 => exact .inr (.inr ⟨List.mem_singleton.mp hl, rfl⟩)
  all_goals try split at hl
  all_goals
    first
    | exact .inl hl
    | exact .inl (List.mem_cons_of_mem _ hl)
    | exact .inr (.inl hl)

theorem stepDisc_outline {pc pc' : DiscPc} {c : Choice}
    (h : stepDisc o s w pc c = some (s', pc')) :
    SameOutline w s s' ∨
      (∃ l ∈ pc.links, (Proc.disc pc).spawns = some l ∧ Spawns w l s s') ∨ s' = s.pushLink := by
  revert h
  fun_cases stepDisc o s w pc c
  all_goals intro h
  case case20 pc =>
    obtain ⟨⟨s₁, pc₁⟩, h₁, h₂⟩ := Option.map_eq_some_iff.mp h
    cases h₂
    exact (stepCaller_outline h₁).imp_right .inl
  all_goals cases h
  case case27 => exact .inr (.inr rfl)
  case case31 => exact .inl sameOutline_enqueueTasks
  case case32 hg => exact .inr (.inl ⟨_, List.mem_cons_self .., rfl, hg, rfl⟩)
  case case34 => exact .inl sameOutline_leaveTasks
  all_goals exact .inl {}

/-- A step of task `t` takes it to another program point, where it knows no link it has not
known or found in the pool.  Besides, it spawns a lifecycle task, adds a link, or leaves the
outline alone. -/
theorem stepTask_outline {t : TaskId} {c : Choice} (h : stepTask o s t c = some s') :
    ∃ s₁ p, s' = s₁.setProc t p ∧
      (∀ l ∈ p.links, l ∈ (s.proc t).links ∨ l ∈ s.links ∨ l = s.numLinks ∧ s₁ = s.pushLink) ∧
      (SameOutline (.task t) s s₁ ∨
        (∃ l ∈ (s.proc t).links, (s.proc t).spawns = some l ∧ Spawns (.task t) l s s₁) ∨
        s₁ = s.pushLink) := by
  obtain ⟨s₁, p, rfl, hturn⟩ := turn_of_stepTask h
  refine ⟨s₁, p, rfl, ?_⟩
  cases hturn with
  | caller hp h₁ =>
      rw [hp]
      exact ⟨fun l hl => (stepCaller_links h₁ hl).imp_right .inl,
        (stepCaller_outline h₁).imp_right .inl⟩
  | life hp h₁ =>
      rw [hp]
      exact ⟨fun l hl => .inl hl, .inl (stepLife_outline h₁)⟩
  | disc hp h₁ =>
      rw [hp]
      exact ⟨fun l hl => stepDisc_links h₁ hl, stepDisc_outline h₁⟩

theorem dropCaller_outline {pc : CallerPc} (h : dropCaller s w pc = some s') :
    SameOutline w s s' := by
  revert h
  fun_cases dropCaller s w pc
  all_goals
    intro h
    cases h
  case case5 => exact sameOutline_leaveTasks
  all_goals exact {}

theorem dropProc_outline {t : TaskId} (h : dropProc s t = some s') :
    SameOutline (.task t) s s' := by
  unfold dropProc at h
  split at h
  · exact dropCaller_outline h
  · split at h
    · next l pc _ _ =>
        revert h
        fun_cases dropLife s (.task t) l pc
        all_goals
          intro h
          cases h
        all_goals exact {}
    · cases h
  · split at h
    · next pc _ _ =>
        revert h
        fun_cases dropDisc s (.task t) pc
        all_goals intro h
        case case10 => exact dropCaller_outline h
        all_goals cases h
        case case11 => exact sameOutline_leaveTasks
        all_goals exact {}
    · cases h
  · cases h

theorem stepClose_outline {pc pc' : ClosePc} (h : stepClose s pc = some (s', pc')) :
    s'.numLinks = s.numLinks ∧ (∀ l ∈ s'.links, l ∈ s.links) ∧ s'.proc = s.proc ∧
      s'.numTasks = s.numTasks ∧ (∀ l ∈ pc'.links, l ∈ pc.links ∨ l ∈ s.links) ∧
      pc' ≠ .idle ∧ s'.close = s.close := by
  revert h
  fun_cases stepClose s pc
  all_goals
    intro h
    cases h
  case case8 =>
    exact ⟨rfl, fun _ hl => absurd hl List.not_mem_nil, rfl, rfl, fun _ hl => .inr hl, nofun, rfl⟩
  case case11 l rest _ =>
    refine ⟨rfl, fun _ hl => hl, rfl, rfl, fun l' hl => ?_, ?_, rfl⟩
    · split at hl
      · exact .inl hl
      · exact .inl hl
    · split
      · nofun
      · nofun
  all_goals refine ⟨rfl, fun _ hl => hl, rfl, rfl, fun l hl => ?_, nofun, rfl⟩
  all_goals first | exact .inl hl | exact .inl (List.mem_cons_of_mem _ hl)

/-! ## Tasks only know links that exist -/

structure WellFormed (s : State) : Prop where
  links : ∀ l ∈ s.links, l < s.numLinks
  proc : ∀ t, ∀ l ∈ (s.proc t).links, l < s.numLinks
  close : ∀ l ∈ s.close.links, l < s.numLinks
  fresh : ∀ t, s.numTasks ≤ t → s.proc t = .ended
  /-- Nobody but `Pool::close` sends the stop signal. -/
  stop : s.stop = true → s.close ≠ .idle

namespace WellFormed

theorem of_sameOutline (h : WellFormed s) (ho : SameOutline w s s') : WellFormed s' where
  links := ho.links ▸ ho.numLinks ▸ h.links
  proc := ho.proc ▸ ho.numLinks ▸ h.proc
  close := ho.close ▸ ho.numLinks ▸ h.close
  fresh := ho.proc ▸ ho.numTasks ▸ h.fresh
  stop := ho.stop ▸ ho.close ▸ h.stop

theorem setProc (h : WellFormed s) {t : TaskId} {p : Proc} (ht : t < s.numTasks)
    (hp : ∀ l ∈ p.links, l < s.numLinks) : WellFormed (s.setProc t p) where
  links := h.links
  proc t' l hl := by
    change l ∈ (Function.update s.proc t p t').links at hl
    by_cases heq : t' = t
    · rw [heq, Function.update_self] at hl
      exact hp l hl
    · rw [Function.update_of_ne heq] at hl
      exact h.proc t' l hl
  close := h.close
  fresh t' ht' := by
    have hne : t' ≠ t := Nat.ne_of_gt (Nat.lt_of_lt_of_le ht ht')
    show Function.update s.proc t p t' = .ended
    rw [Function.update_of_ne hne]
    exact h.fresh t' ht'
  stop := h.stop

theorem spawn (h : WellFormed s) {p : Proc} (hp : ∀ l ∈ p.links, l < s.numLinks) :
    WellFormed (s.spawn p) := by
  have h₁ : WellFormed { s with numTasks := s.numTasks + 1 } :=
    ⟨h.links, h.proc, h.close, fun t ht => h.fresh t (Nat.le_of_succ_le ht), h.stop⟩
  exact h₁.setProc (Nat.lt_succ_self _) hp

theorem pushLink (h : WellFormed s) : WellFormed s.pushLink where
  links l hl := by
    rcases List.mem_append.mp hl with hl | hl
    · exact Nat.lt_succ_of_lt (h.links l hl)
    · exact List.mem_singleton.mp hl ▸ Nat.lt_succ_self _
  proc t l hl := Nat.lt_succ_of_lt (h.proc t l hl)
  close l hl := Nat.lt_succ_of_lt (h.close l hl)
  fresh := h.fresh
  stop := h.stop

/-- A task that has not ended exists. -/
theorem lt_numTasks (h : WellFormed s) {t : TaskId} (ht : s.proc t ≠ .ended) :
    t < s.numTasks := by
  by_contra hge
  exact ht (h.fresh t (Nat.le_of_not_lt hge))

theorem stepTask (h : WellFormed s) {t : TaskId} {c : Choice}
    (hs : Macula.Pool.stepTask o s t c = some s') : WellFormed s' := by
  have ht : t < s.numTasks := by
    refine h.lt_numTasks (fun hp => ?_)
    rw [Macula.Pool.stepTask, hp] at hs
    cases hs
  obtain ⟨s₁, p, rfl, hp, hcases⟩ := stepTask_outline hs
  have hold : ∀ l ∈ p.links, l < s.numLinks ∨ l = s.numLinks ∧ s₁ = s.pushLink :=
    fun l hl => by
      rcases hp l hl with hl | hl | hl
      · exact .inl (h.proc t l hl)
      · exact .inl (h.links l hl)
      · exact .inr hl
  rcases hcases with ho | ⟨l, hl, -, hsp⟩ | rfl
  · refine (h.of_sameOutline ho).setProc (ho.numTasks ▸ ht) (fun l hl => ?_)
    rcases hold l hl with hlt | ⟨rfl, rfl⟩
    · exact ho.numLinks ▸ hlt
    · exact absurd ho.numLinks (Nat.succ_ne_self _)
  · have hlink : ∀ l' ∈ (Proc.life l .start).links, l' < s.numLinks :=
      fun l' hl' => List.mem_singleton.mp hl' ▸ h.proc t l hl
    rw [hsp.eq] at hold ⊢
    refine (h.spawn hlink).setProc (Nat.lt_succ_of_lt ht) (fun l' hl' => ?_)
    rcases hold l' hl' with hlt | ⟨rfl, heq⟩
    · exact hlt
    · exact absurd (congrArg State.numLinks heq).symm (Nat.succ_ne_self _)
  · refine h.pushLink.setProc ht (fun l hl => ?_)
    rcases hold l hl with hlt | ⟨rfl, -⟩
    · exact Nat.lt_succ_of_lt hlt
    · exact Nat.lt_succ_self _

theorem setClose (h : WellFormed s) {pc : ClosePc} (hpc : ∀ l ∈ pc.links, l < s.numLinks)
    (hne : pc ≠ .idle) : WellFormed (s.setClose pc) :=
  ⟨h.links, h.proc, hpc, h.fresh, fun _ => hne⟩

theorem stepClose (h : WellFormed s) {pc : ClosePc}
    (hs : Macula.Pool.stepClose s s.close = some (s', pc)) : WellFormed (s'.setClose pc) := by
  obtain ⟨hn, hl, hp, ht, hpc, hne, -⟩ := stepClose_outline hs
  exact {
    links := fun l hmem => hn ▸ h.links l (hl l hmem)
    proc := hp ▸ hn ▸ h.proc
    close := fun l hmem => hn ▸ (hpc l hmem).elim (h.close l) (h.links l)
    fresh := hp ▸ ht ▸ h.fresh
    stop := fun _ => hne }

theorem step {e : Event} (h : WellFormed s) (hs : Macula.Pool.step o s e = some s') :
    WellFormed s' := by
  cases happens_of_step hs with
  | begin op => exact h.spawn (fun _ hl => absurd hl List.not_mem_nil)
  | run h₁ => exact h.stepTask h₁
  | @drop t s₁ h₁ =>
      have ho := dropProc_outline h₁
      have ht : t < s.numTasks := by
        refine h.lt_numTasks (fun hp => ?_)
        rw [dropProc, hp] at h₁
        cases h₁
      exact (h.of_sameOutline ho).setProc (ho.numTasks ▸ ht)
        (fun _ hl => absurd hl List.not_mem_nil)
  | close hidle => exact h.setClose (fun _ hl => absurd hl List.not_mem_nil) nofun
  | runClose h₁ => exact h.stepClose h₁

theorem connect (n : Nat) : WellFormed (Macula.Pool.connect o n) where
  links l hl := List.mem_range.mp hl
  proc t l hl := by
    change l ∈ (if t < n then Proc.life t .start
      else if t = n ∧ o.discovery then Proc.disc .start else Proc.ended).links at hl
    split at hl
    · next ht => exact List.mem_singleton.mp hl ▸ ht
    · split at hl
      · exact absurd hl List.not_mem_nil
      · exact absurd hl List.not_mem_nil
  close l hl := absurd hl List.not_mem_nil
  fresh t ht := by
    change n + (if o.discovery then 1 else 0) ≤ t at ht
    show (if t < n then Proc.life t .start
      else if t = n ∧ o.discovery then Proc.disc .start else Proc.ended) = .ended
    rw [if_neg (by omega), if_neg]
    intro h
    rw [if_pos h.2] at ht
    omega
  stop h := absurd h Bool.false_ne_true

end WellFormed

theorem wellFormed_of_run {n : Nat} {es : List Event}
    (h : run (step o) (connect o n) es = some s) : WellFormed s :=
  run_invariant_of_step WellFormed (fun _ _ _ hi he => hi.step he) (.connect n) h

end Macula.Pool
