import Macula.Pool.Refines

/-!
# No lost respawn

A link that lost its session is to get a new one.  The claim `redialing` says that somebody
sees to it, and is given back when it has been seen to.  Three invariants carry this:

* `Claimed`: the claim is set exactly as long as one party is responsible for the link;
* `Truthful`: the flag `connected` says whether the slot is full, but for the party that is
  just changing one of the two;
* `Tended`: an empty slot has somebody who clears it still, or who brings a session.

The last two fail in the code, because a lifecycle task stores `connected` and gives the
claim back *after* it has released the lock.  A caller can clear the new session in between.
If it does so before `connected` is stored, the flag is left standing over an empty slot; if
it then tries for the claim before the claim is given back, nobody dials.  `careful` excludes
just these two, and a caller dropped with the claim in its hands.
-/

namespace Macula.Pool

section Protocol

variable {α γ : Type*}

/-- A party with such a role will see to the link, or will try for the claim. -/
def Role.minding (r : Role γ) : Bool := r.bringing || r.clearing

/-- Such a party has emptied the slot and still holds the lock. -/
def Role.emptied : Role γ → Bool
  | .cleared | .flagged => true
  | _ => false

/-- Such a party has emptied the slot and not yet said so. -/
def Role.justCleared : Role γ → Bool
  | .cleared => true
  | _ => false

/-- Such a party has filled the slot and not yet said so. -/
def Role.filled : Role γ → Bool
  | .installed | .released => true
  | _ => false

structure Claimed (v : View α γ) : Prop where
  exists_responsible : v.redialing = true → ∃ w, (v.role w).responsible = true
  redialing : ∀ w, (v.role w).responsible = true → v.redialing = true
  unique : ∀ w w', (v.role w).responsible = true → (v.role w').responsible = true → w = w'

theorem Claimed.exclusive {v : View α γ} (h : Claimed v) : Exclusive v :=
  ⟨h.redialing, h.unique⟩

structure Truthful (v : View α γ) : Prop where
  emptied : ∀ w, (v.role w).emptied = true → v.session = none
  filled : ∀ w, (v.role w).filled = true → v.session ≠ none
  up : v.connected = true → v.session ≠ none ∨ ∃ w, (v.role w).justCleared = true
  down : v.session ≠ none → v.connected = true ∨ ∃ w, (v.role w).filled = true

/-- Unless the link has given up. -/
def Tended (v : View α γ) : Prop :=
  v.born = true → v.session = none → v.gaveUp = false → ∃ w, (v.role w).minding = true

/-- The events that undo a respawn do not happen. -/
def View.Careful (v : View α γ) : Act α → Prop
  | .run w =>
      (∀ g, v.role w = .markLocking g → ∀ w', v.role w' ≠ .released) ∧
      (v.role w = .claiming → v.redialing = true → v.session = none → v.gaveUp = false →
        ∀ w', v.role w' ≠ .returning)
  | .drop w => v.role w = .claimed → v.closed = true
  | .env => True

variable [DecidableEq α] {v v' : View α γ} {w : α} {r : Role γ}

/-- Whoever is spawned dials. -/
theorem spawn_role {w' : α} (hw : v.role w = .claimed) (hw' : v.role w' = .away) :
    ((v.become w' .dialing).become w .away).role w' = .dialing := by
  have hne : w' ≠ w := ne_of_apply_ne v.role (by rw [hw, hw']; nofun)
  rw [View.become_role_of_ne _ _ hne, View.become_role_self]

/-! ## Who is responsible -/

namespace Claimed

/-- After a step of `w` that keeps its responsibility. -/
theorem still (h : Claimed v) (hr : (v.role w).responsible = true → r.responsible = true)
    (hv : v.redialing = true) : ∃ w', (Function.update v.role w r w').responsible = true :=
  exists_update _ (h.exists_responsible hv) hr

/-- A set claim that a move leaves set has a responsible party. -/
theorem responsible_of_move {a : Act α} (h : Claimed v) (hc : v.Careful a)
    (hopen : v'.closed = false) (m : Move a v v') (hv : v'.redialing = true) :
    ∃ w, (v'.role w).responsible = true := by
  cases m with
  | stay => exact h.exists_responsible hv
  | claim w hw _ => exact ⟨w, by rw [View.become_role_self]; rfl⟩
  | spawn w w' hw hw' => exact ⟨w', by rw [spawn_role hw hw']; rfl⟩
  | unclaim w hw => exact absurd hv Bool.false_ne_true
  | birth w hw => exact absurd hv Bool.false_ne_true
  -- a closed pool apart, nobody is dropped with the claim
  | abandon w hw => exact absurd ((hc hw).symm.trans hopen) nofun
  | abort w hw hclosed => exact absurd (hclosed.symm.trans hopen) nofun
  | abortLocking w g hw hclosed => exact absurd (hclosed.symm.trans hopen) nofun
  | close => cases hopen
  | take w _ _ hclosed => exact absurd (hclosed.symm.trans hopen) nofun
  | disconnect w _ hclosed => exact absurd (hclosed.symm.trans hopen) nofun
  | dial w g hw | enter w g hw | install w g hw _ => exact h.still (fun _ => rfl) hv
  | release w hw | announce w hw | giveUp w hw | halt w hw _ => exact h.still (fun _ => rfl) hv
  | arrive w hw | leave w hw | fail w g hw | mark w g hw => exact h.still (by rw [hw]; nofun) hv
  | clear w g hw _ | withdraw w g hw => exact h.still (by rw [hw]; nofun) hv
  | flag w hw | unlock w hw | lose w hw _ => exact h.still (by rw [hw]; nofun) hv

theorem move {a : Act α} (h : Claimed v) (hc : v.Careful a) (hopen : v'.closed = false)
    (m : Move a v v') : Claimed v' where
  exists_responsible := h.responsible_of_move hc hopen m
  redialing := (h.exclusive.move m).redialing
  unique := (h.exclusive.move m).unique

end Claimed

/-! ## Whether the flag tells the truth -/

namespace Truthful

/-- A step that touches neither the slot nor the flag. -/
theorem same (h : Truthful v) (hrole : v'.role = Function.update v.role w r)
    (he : r.emptied = true → (v.role w).emptied = true)
    (hj : (v.role w).justCleared = true → r.justCleared = true)
    (hf : r.filled = (v.role w).filled) (hsession : v'.session = v.session)
    (hconnected : v'.connected = v.connected) : Truthful v' where
  emptied w' hw' := by
    rw [hrole] at hw'
    rw [hsession]
    exact h.emptied w' (of_update _ hw' he)
  filled w' hw' := by
    rw [hrole] at hw'
    rw [hsession]
    exact h.filled w' (of_update _ hw' (fun hr => hf ▸ hr))
  up hv := by
    rw [hsession, hrole]
    exact (h.up (hconnected ▸ hv)).imp_right (fun hex => exists_update _ hex hj)
  down hv := by
    rw [hconnected, hrole]
    exact (h.down (hsession ▸ hv)).imp_right (fun hex => exists_update _ hex (fun hr => hf ▸ hr))

theorem clear (hl : Locked v) {g : γ} (hw : v.role w = .markLocking g)
    (hg : Fifo.Granted v.lock w) (hc : v.Careful (.run w)) :
    Truthful ({ v with session := none }.become w .cleared) where
  emptied _ _ := rfl
  filled w' hw' := by
    have hfilled : (v.role w').filled = true := of_update _ hw' nofun
    cases hr : v.role w' with
    | installed =>
        -- it would hold the lock, which `w` does
        have : w' = w := hl.unique hg (by rw [hr]; rfl)
        rw [this, hw] at hr
        cases hr
    | released => exact absurd hr (hc.1 g hw w')
    | _ =>
        rw [hr] at hfilled
        cases hfilled
  up _ := .inr ⟨w, by rw [View.become_role_self]; rfl⟩
  down hv := absurd rfl hv

theorem flag (h : Truthful v) (hw : v.role w = .cleared) :
    Truthful ({ v with connected := false }.become w .flagged) where
  emptied _ _ := h.emptied w (by rw [hw]; rfl)
  filled w' hw' := h.filled w' (of_update _ hw' nofun)
  up hv := absurd hv Bool.false_ne_true
  down hv := absurd (h.emptied w (by rw [hw]; rfl)) hv

theorem install (hl : Locked v) (g : γ) (hg : Fifo.Granted v.lock w)
    (hw : v.role w = .locking g) :
    Truthful ({ v with session := some g }.become w .installed) where
  emptied w' hw' := by
    have hemptied : (v.role w').emptied = true := of_update _ hw' nofun
    have hholding : (v.role w').holding = true := by
      cases hr : v.role w' with
      | cleared | flagged => rfl
      | _ =>
          rw [hr] at hemptied
          cases hemptied
    rw [hl.unique hg hholding, hw] at hemptied
    cases hemptied
  filled _ _ := nofun
  up _ := .inl nofun
  down _ := .inr ⟨w, by rw [View.become_role_self]; rfl⟩

theorem announce (h : Truthful v) (hw : v.role w = .released) :
    Truthful ({ v with connected := true }.become w .returning) where
  emptied w' hw' := h.emptied w' (of_update _ hw' nofun)
  filled w' hw' := h.filled w' (of_update _ hw' nofun)
  up _ := .inl (h.filled w (by rw [hw]; rfl))
  down _ := .inl rfl

theorem birth (hw : ∀ w', v.role w' = .away)
    (hrole : v'.role = Function.update v.role w .claiming) (hsession : v'.session = none)
    (hconnected : v'.connected = false) : Truthful v' where
  emptied _ _ := hsession
  filled w' hw' := by
    rw [hrole] at hw'
    have := of_update _ hw' nofun
    rw [hw w'] at this
    cases this
  up hv := absurd (hconnected.symm.trans hv) Bool.false_ne_true
  down hv := absurd hsession hv

theorem move {a : Act α} (h : Truthful v) (hl : Locked v) (hc : v.Careful a)
    (hopen : v'.closed = false) (m : Move a v v') : Truthful v' := by
  cases m with
  | stay => exact h
  | arrive w hw | leave w hw | fail w g hw | mark w g hw | unlock w hw =>
      exact h.same rfl nofun (by rw [hw]; nofun) (by rw [hw]; rfl) rfl rfl
  | claim w hw _ | lose w hw _ | dial w g hw | enter w g hw | release w hw =>
      exact h.same rfl nofun (by rw [hw]; nofun) (by rw [hw]; rfl) rfl rfl
  | giveUp w hw | halt w hw _ | unclaim w hw =>
      exact h.same rfl nofun (by rw [hw]; nofun) (by rw [hw]; rfl) rfl rfl
  | withdraw w g hw | abandon w hw | abort w hw _ | abortLocking w g hw _ =>
      exact h.same rfl nofun (by rw [hw]; nofun) (by rw [hw]; rfl) rfl rfl
  | clear w g hw hg => exact clear hl hw hg hc
  | flag w hw => exact h.flag hw
  | spawn w w' hw hw' =>
      have hne : w ≠ w' := ne_of_apply_ne v.role (by rw [hw, hw']; nofun)
      have h₁ : Truthful (v.become w' .dialing) :=
        h.same rfl nofun (by rw [hw']; nofun) (by rw [hw']; rfl) rfl rfl
      have hr : (v.become w' .dialing).role w = .claimed := by
        rw [View.become_role_of_ne v _ hne, hw]
      exact h₁.same rfl nofun (by rw [hr]; nofun) (by rw [hr]; rfl) rfl rfl
  | install w g hw hg => exact install hl g hg hw
  | announce w hw => exact h.announce hw
  | birth w hw => exact birth hw rfl rfl rfl
  | close => cases hopen
  | take w _ _ hclosed => exact absurd (hclosed.symm.trans hopen) nofun
  | disconnect w _ hclosed => exact absurd (hclosed.symm.trans hopen) nofun

end Truthful

/-! ## Whether somebody sees to an empty slot -/

namespace Tended

/-- A step that empties no slot and takes nobody away from one. -/
theorem same (h : Tended v) (hrole : v'.role = Function.update v.role w r)
    (hr : (v.role w).minding = true → r.minding = true) (hborn : v'.born = v.born)
    (hsession : v'.session = v.session) (hgaveUp : v'.gaveUp = v.gaveUp) : Tended v' := by
  intro hb hs hg
  rw [hrole]
  exact exists_update _ (h (hborn ▸ hb) (hsession ▸ hs) (hgaveUp ▸ hg)) hr

/-- Whoever loses the claim leaves the link to the winner, who has not brought its session
yet. -/
theorem lose (hclaimed : Claimed v) (htruth : Truthful v)
    (hw : v.role w = .claiming) (hlost : v.redialing = true) (hc : v.Careful (.run w)) :
    Tended (v.become w .away) := by
  intro _ hs hg
  obtain ⟨w', hw'⟩ := hclaimed.exists_responsible hlost
  have hne : w' ≠ w := by
    intro heq
    rw [heq, hw] at hw'
    cases hw'
  refine ⟨w', ?_⟩
  rw [View.become_role_of_ne _ _ hne]
  cases hr : v.role w' with
  | claimed | dialing | dialed | locking => rfl
  | installed | released => exact absurd hs (htruth.filled w' (by rw [hr]; rfl))
  | returning => exact absurd hr (hc.2 hw hlost hs hg w')
  | _ =>
      rw [hr] at hw'
      cases hw'

theorem move {a : Act α} (h : Tended v) (hclaimed : Claimed v) (htruth : Truthful v)
    (hc : v.Careful a) (hopen : v'.closed = false) (m : Move a v v') : Tended v' := by
  cases m with
  | stay => exact h
  | arrive w hw | leave w hw | fail w g hw | mark w g hw | withdraw w g hw =>
      exact h.same rfl (by rw [hw]; nofun) rfl rfl rfl
  | release w hw | announce w hw | unclaim w hw =>
      exact h.same rfl (by rw [hw]; nofun) rfl rfl rfl
  | flag w hw | unlock w hw | claim w hw _ | dial w g hw | enter w g hw =>
      exact h.same rfl (fun _ => rfl) rfl rfl rfl
  | clear w g hw _ => exact fun _ _ _ => ⟨w, by rw [View.become_role_self]; rfl⟩
  | lose w hw hlost => exact lose hclaimed htruth hw hlost hc
  | spawn w w' hw hw' => exact fun _ _ _ => ⟨w', by rw [spawn_role hw hw']; rfl⟩
  | install w g hw _ => exact fun _ hs => nomatch hs
  | giveUp w hw => exact fun _ _ hg => nomatch hg
  | birth w hw => exact fun _ _ _ => ⟨w, by rw [View.become_role_self]; rfl⟩
  | abandon w hw => exact absurd ((hc hw).symm.trans hopen) nofun
  | halt w hw hclosed => exact absurd (hclosed.symm.trans hopen) nofun
  | abort w hw hclosed => exact absurd (hclosed.symm.trans hopen) nofun
  | abortLocking w g hw hclosed => exact absurd (hclosed.symm.trans hopen) nofun
  | close => cases hopen
  | take w _ _ hclosed => exact absurd (hclosed.symm.trans hopen) nofun
  | disconnect w _ hclosed => exact absurd (hclosed.symm.trans hopen) nofun

end Tended

end Protocol

/-! ## In the pool -/

/-- The link whose claim a task is about to try for. -/
def Proc.claims : Proc → Option LinkId
  | .caller _ (.claiming l _) | .disc (.claiming l) | .disc (.calling (.claiming l _)) => some l
  | _ => none

/-- Some lifecycle task of `l` is at such a program point. -/
def State.lifeAt (s : State) (l : LinkId) (p : LifePc → Bool) : Bool :=
  (List.range s.numTasks).any (fun t =>
    match s.proc t with
    | .life l₀ pc => l₀ = l && p pc
    | _ => false)

/-- Nobody clears the slot of a link between the release of its lock and the store of
`connected` of a lifecycle task; nobody loses the claim of an empty link to a lifecycle task
that has only its claim left to give back; no call is dropped in the queue of `tasks`, where
it has the claim. -/
def careful (s : State) : Event → Bool
  | .run t _ =>
    (match (s.proc t).callerPc with
      | some (.markLocking l _ _) => !s.lifeAt l (fun pc => pc = .released)
      | _ => true) &&
    match (s.proc t).claims with
    | some l =>
      !((s.link l).redialing && (s.link l).session = none && !(s.link l).gaveUp &&
        s.lifeAt l (fun pc => pc = .connectedStored || pc = .returning))
    | none => true
  | .drop t =>
    match s.proc t with
    | .caller _ (.spawning _ _) => false
    | _ => true
  | _ => true

/-- The task is a lifecycle task of `l` that has not finished, or is inside
`mark_disconnected` on `l`, or has pushed `l` and not yet spawned its lifecycle task. -/
def Proc.attends (l : LinkId) : Proc → Bool
  | .life l₀ pc => l₀ = l && pc ≠ .done
  | .caller _ pc | .disc (.calling pc) => pc.inMarkDisconnected l
  | .disc (.claiming l₀) | .disc (.claimed l₀) | .disc (.spawning l₀) => l₀ = l
  | _ => false

def settled (s : State) (l : LinkId) : Bool :=
  (List.range s.numTasks).all (fun t => !(s.proc t).attends l)

variable {o : Options} {s s' : State} {l : LinkId}

theorem State.lifeAt_of_proc (hwf : WellFormed s) {t : TaskId} {pc : LifePc}
    (h : s.proc t = .life l pc) {p : LifePc → Bool} (hp : p pc = true) : s.lifeAt l p = true := by
  refine List.any_eq_true.mpr ⟨t, List.mem_range.mpr (hwf.lt_numTasks ?_), ?_⟩
  · rw [h]
    nofun
  · rw [h]
    exact Bool.and_eq_true_iff.mpr ⟨decide_eq_true rfl, hp⟩

theorem Proc.eq_markLocking {p : Proc} {g : SessionId} (h : p.role l = .markLocking g) :
    ∃ rest, p.callerPc = some (.markLocking l g rest) := by
  obtain ⟨pc, hpc, hr⟩ := Proc.callerPc_of_role h rfl
  cases pc with
  | markLocking l₀ g₀ rest =>
      obtain ⟨rfl, hg⟩ := onLink_eq hr nofun
      cases hg
      exact ⟨rest, hpc⟩
  | start | selecting | next | spawned | done => cases hr
  | _ => exact absurd (onLink_eq hr nofun).2 nofun

theorem CallerPc.eq_claiming {pc : CallerPc} (h : pc.role l = .claiming) :
    ∃ rest, pc = .claiming l rest := by
  cases pc with
  | claiming l₀ rest =>
      obtain ⟨rfl, -⟩ := onLink_eq h nofun
      exact ⟨rest, rfl⟩
  | start | selecting | next | spawned | done => cases h
  | _ => exact absurd (onLink_eq h nofun).2 nofun

theorem Proc.claims_of_role {p : Proc} (h : p.role l = .claiming) : p.claims = some l := by
  cases p with
  | caller op pc =>
      obtain ⟨rest, rfl⟩ := CallerPc.eq_claiming h
      rfl
  | life l₀ pc => cases pc <;> exact absurd (onLink_eq h nofun).2 nofun
  | disc pc =>
      cases pc with
      | calling pc =>
          obtain ⟨rest, rfl⟩ := CallerPc.eq_claiming h
          rfl
      | claiming l₀ =>
          obtain ⟨rfl, -⟩ := onLink_eq h nofun
          rfl
      | askLocking | scanning | askRelease | peeking | peeked | claimed | spawning =>
          exact absurd (onLink_eq h nofun).2 nofun
      | _ => cases h
  | ended => cases h

/-- Only a lifecycle task fills a slot, or is done with filling it. -/
theorem Proc.life_of_role {p : Proc} {r : Role SessionId} (h : p.role l = r)
    (hr : r = .released ∨ r = .returning) : ∃ pc : LifePc, p = .life l pc ∧ pc.role = r := by
  have hne : r ≠ .away := by
    rcases hr with rfl | rfl
    · nofun
    · nofun
  have hno : ∀ {l₀ r'}, onLink l₀ l r' = r → r' ≠ .released → r' ≠ .returning → False := by
    intro l₀ r' heq h₁ h₂
    obtain ⟨-, rfl⟩ := onLink_eq heq hne
    exact hr.elim h₁ h₂
  have hcaller : ∀ pc : CallerPc, pc.role l = r → False := by
    intro pc hpc
    cases pc <;> first | exact hne hpc.symm | exact hno hpc nofun nofun
  cases p with
  | caller op pc => exact (hcaller pc h).elim
  | life l₀ pc =>
      obtain ⟨rfl, hpc⟩ := onLink_eq h hne
      exact ⟨pc, rfl, hpc⟩
  | disc pc =>
      cases pc with
      | calling pc => exact (hcaller pc h).elim
      | askLocking | scanning | askRelease | peeking | peeked | claiming | claimed | spawning =>
          exact (hno h nofun nofun).elim
      | _ => exact absurd h.symm hne
  | ended => exact absurd h.symm hne

/-- A party that fills the slot, or is done with it, is a lifecycle task. -/
theorem State.lifeAt_of_role (hwf : WellFormed s) {w : Who} {r : Role SessionId}
    (h : (s.view l).role w = r) (hr : r = .released ∨ r = .returning) (p : LifePc → Bool)
    (hp : ∀ pc : LifePc, pc.role = r → p pc = true) : s.lifeAt l p = true := by
  cases w with
  | task t =>
      obtain ⟨pc, hproc, hpc⟩ := Proc.life_of_role h hr
      exact s.lifeAt_of_proc hwf hproc (hp pc hpc)
  | closer =>
      have hcloser : s.close.role l = r := h
      rcases s.close.role_cases l with h' | h'
      · rw [← hcloser, h'] at hr
        exact absurd hr (by simp)
      · rw [← hcloser, h'] at hr
        exact absurd hr (by simp)

theorem careful_view {e : Event} (hwf : WellFormed s) (h : careful s e = true)
    (he : step o s e = some s') (l : LinkId) : (s.view l).Careful e.act := by
  cases e with
  | run t c =>
      obtain ⟨hclear, hlose⟩ := Bool.and_eq_true_iff.mp h
      constructor
      · intro g hr w' hw'
        obtain ⟨rest, hpc⟩ := Proc.eq_markLocking hr
        rw [hpc] at hclear
        have hlife := s.lifeAt_of_role hwf hw' (.inl rfl) (fun pc => pc = .released)
          (fun pc hpc => by cases pc <;> first | rfl | cases hpc)
        simp [hlife] at hclear
      · intro hr hlost hsession hgaveUp w' hw'
        have hclaims : (s.proc t).claims = some l := Proc.claims_of_role hr
        rw [hclaims] at hlose
        have hlife := s.lifeAt_of_role hwf hw' (.inr rfl)
          (fun pc => pc = .connectedStored || pc = .returning)
          (fun pc hpc => by cases pc <;> first | rfl | cases hpc)
        have hlost : (s.link l).redialing = true := hlost
        have hsession : (s.link l).session = none := hsession
        have hgaveUp : (s.link l).gaveUp = false := hgaveUp
        simp [hlife, hlost, hsession, hgaveUp] at hlose
  | drop t =>
      intro hr
      obtain ⟨s₁, h₁, -⟩ := Option.map_eq_some_iff.mp he
      have hr : (s.proc t).role l = .claimed := hr
      unfold dropProc at h₁
      split at h₁
      · next op pc hp =>
          rw [careful, hp] at h
          rw [hp] at hr
          cases pc with
          | claimed => cases h₁
          | spawning => cases h
          | start | selecting | next | spawned | done => cases hr
          | _ => exact absurd (onLink_eq hr nofun).2 nofun
      · next l₀ pc hp =>
          rw [hp] at hr
          cases pc <;> exact absurd (onLink_eq hr nofun).2 nofun
      · split at h₁
        · next hshut =>
            refine decide_eq_true (fun hidle => ?_)
            rw [hshut] at hidle
            cases hidle
        · cases h₁
      · cases h₁
  | runClose =>
      constructor
      · intro g hr
        rcases s.close.role_cases l with h | h
        · exact absurd (h.symm.trans hr) nofun
        · exact absurd (h.symm.trans hr) nofun
      · intro hr
        rcases s.close.role_cases l with h | h
        · exact absurd (h.symm.trans hr) nofun
        · exact absurd (h.symm.trans hr) nofun
  | begin | close => trivial

/-! ## Runs -/

theorem Move.closed {α γ : Type*} [DecidableEq α] {a : Act α} {v v' : View α γ}
    (m : Move a v v') (h : v'.closed = false) : v.closed = false := by
  cases m with
  | close => cases h
  | _ => exact h

theorem connect_claimed (n : Nat) (l : LinkId) : Claimed ((connect o n).view l) where
  exists_responsible hv := by
    have hl : l < n := of_decide_eq_true hv
    refine ⟨.task l, ?_⟩
    show (Proc.role l (if l < n then _ else _)).responsible = true
    rw [if_pos hl, Proc.role, onLink_self]
    rfl
  redialing w hw := by
    rcases connect_role o n l w with h | ⟨-, hl, -⟩
    · rw [show ((connect o n).view l).role w = .away from h] at hw
      cases hw
    · exact decide_eq_true hl
  unique w w' hw hw' := by
    have honly : ∀ u, (((connect o n).view l).role u).responsible = true → u = .task l := by
      intro u hu
      rcases connect_role o n l u with h | ⟨h, -, -⟩
      · rw [show ((connect o n).view l).role u = .away from h] at hu
        cases hu
      · exact h
    exact (honly w hw).trans (honly w' hw').symm

theorem connect_truthful (n : Nat) (l : LinkId) : Truthful ((connect o n).view l) where
  emptied _ _ := rfl
  filled w hw := by
    rcases connect_role o n l w with h | ⟨-, -, h⟩
    · rw [show ((connect o n).view l).role w = _ from h] at hw
      cases hw
    · rw [show ((connect o n).view l).role w = _ from h] at hw
      cases hw
  up hv := absurd hv Bool.false_ne_true
  down hv := absurd rfl hv

theorem connect_tended (n : Nat) (l : LinkId) : Tended ((connect o n).view l) := by
  intro hb _ _
  have hl : l < n := of_decide_eq_true hb
  refine ⟨.task l, ?_⟩
  show (Proc.role l (if l < n then _ else _)).minding = true
  rw [if_pos hl, Proc.role, onLink_self]
  rfl

/-- What careful steps preserve until the pool is closed. -/
structure Kept (s : State) : Prop extends Sound s where
  claimed : s.close = .idle → ∀ l, Claimed (s.view l)
  truthful : s.close = .idle → ∀ l, Truthful (s.view l)
  tended : s.close = .idle → ∀ l, Tended (s.view l)

theorem Kept.connect (n : Nat) : Kept (connect o n) where
  toSound := .connect n
  claimed _ := connect_claimed n
  truthful _ := connect_truthful n
  tended _ := connect_tended n

theorem Kept.step {e : Event} (h : Kept s) (hc : careful s e = true)
    (he : Macula.Pool.step o s e = some s') : Kept s' := by
  have hmove := fun l => step_moves h.wellFormed he l
  have hcareful := fun l => careful_view h.wellFormed hc he l
  have hclosed : ∀ l, s'.close = .idle → (s'.view l).closed = false := fun l hidle =>
    decide_eq_false (fun hne => hne hidle)
  have hidle : s'.close = .idle → s.close = .idle := fun hidle => by
    by_contra hne
    have := (hmove 0).closed (hclosed 0 hidle)
    exact (of_decide_eq_false this) hne
  exact {
    toSound := h.toSound.step he
    claimed := fun hi l =>
      (h.claimed (hidle hi) l).move (hcareful l) (hclosed l hi) (hmove l)
    truthful := fun hi l =>
      (h.truthful (hidle hi) l).move (h.locked l) (hcareful l) (hclosed l hi) (hmove l)
    tended := fun hi l =>
      (h.tended (hidle hi) l).move (h.claimed (hidle hi) l) (h.truthful (hidle hi) l)
        (hcareful l) (hclosed l hi) (hmove l) }

/-- Who does not attend to a link is away, or uses its session. -/
theorem Proc.role_of_attends {p : Proc} (h : p.attends l = false) :
    p.role l = .away ∨ p.role l = .user := by
  have hother : ∀ {l₀ : LinkId} {r}, decide (l₀ = l) = false →
      onLink l₀ l r = .away ∨ onLink l₀ l r = .user := fun h =>
    .inl (onLink_of_ne _ (Ne.symm (of_decide_eq_false h)))
  have hcaller : ∀ pc : CallerPc, pc.inMarkDisconnected l = false →
      pc.role l = .away ∨ pc.role l = .user := by
    intro pc hpc
    cases pc with
    | locking | absent | calling | answered | failed => exact (onLink_cases _ l .user).symm
    | start | selecting | next | spawned | done => exact .inl rfl
    | _ => exact hother hpc
  cases p with
  | caller op pc => exact hcaller pc h
  | life l₀ pc =>
      cases pc with
      | done => exact .inl (onLink_away l₀ l)
      | _ => exact hother ((Bool.and_eq_false_iff.mp h).resolve_right nofun)
  | disc pc =>
      cases pc with
      | calling pc => exact hcaller pc h
      | askLocking | scanning | askRelease | peeking | peeked =>
          exact (onLink_cases _ l .user).symm
      | claiming | claimed | spawning => exact hother h
      | _ => exact .inl rfl
  | ended => exact .inl rfl

theorem role_of_settled (hwf : WellFormed s) (h : settled s l = true) (w : Who) :
    (s.view l).role w = .away ∨ (s.view l).role w = .user := by
  cases w with
  | closer => exact (s.close.role_cases l).symm
  | task t =>
      refine Proc.role_of_attends ?_
      by_cases ht : t < s.numTasks
      · have := List.all_eq_true.mp h t (List.mem_range.mpr ht)
        exact Bool.not_eq_true' _ ▸ this
      · rw [hwf.fresh t (Nat.le_of_not_lt ht)]
        rfl

/-- *No respawn is lost.*  In every careful run, when nobody attends to a link of an open
pool, its flag says whether it has a session, and it has one unless it has given up. -/
theorem respawned {n : Nat} {es : List Event} (h : run (step o) (connect o n) es = some s)
    (hg : Guarded (step o) (fun s e => careful s e) (connect o n) es) (hopen : s.close = .idle)
    (hl : l < s.numLinks) (hs : settled s l = true) :
    ((s.link l).connected = true ↔ (s.link l).session ≠ none) ∧
      ((s.link l).session ≠ none ∨ (s.link l).gaveUp = true) := by
  have hk : Kept s := run_invariant Kept (fun _ _ _ hi he hs => hi.step he hs) (.connect n) hg h
  have hrole := role_of_settled hk.wellFormed hs
  have hnone : ∀ {p : Role SessionId → Bool}, p .away = false → p .user = false →
      ¬ ∃ w, p ((s.view l).role w) = true := by
    rintro p haway huser ⟨w, hw⟩
    rcases hrole w with h | h
    · rw [h, haway] at hw
      cases hw
    · rw [h, huser] at hw
      cases hw
  refine ⟨⟨fun hup => ?_, fun hsession => ?_⟩, ?_⟩
  · exact ((hk.truthful hopen l).up hup).resolve_right (hnone rfl rfl)
  · exact ((hk.truthful hopen l).down hsession).resolve_right (hnone rfl rfl)
  · by_contra hlost
    obtain ⟨hsession, hgaveUp⟩ := not_or.mp hlost
    exact hnone rfl rfl (hk.tended hopen l (decide_eq_true hl) (not_not.mp hsession)
      (Bool.eq_false_iff.mpr hgaveUp))

/-- The link goes up, a call fails on it, and its session is cleared and installed anew. -/
def respawn : List Event := linkUp 0 ++ callArrives 1 ++ callFails 1 ++ steps 1 9 ++ linkUp 2

theorem respawned_after_failed_call :
    ((after respawn).link 0).session = some 1 ∧
      (((after respawn).link 0).connected = true ↔ ((after respawn).link 0).session ≠ none) ∧
      (((after respawn).link 0).session ≠ none ∨ ((after respawn).link 0).gaveUp = true) :=
  ⟨by decide, respawned (run_eq_runFrom (by decide)) (by decide) (by decide) (by decide)
    (by decide)⟩

/-- The lifecycle task has stored `connected` and still has its claim to give back.  A call
uses the link, fails, clears the slot and loses the claim.  Then the lifecycle task ends. -/
def lostRespawn : List Event :=
  steps 0 7 ++ callArrives 1 ++ callFails 1 ++ steps 1 6 ++ steps 0 2

theorem respawn_lost :
    ¬ ∀ (es : List Event) (s : State) (l : LinkId),
      run (step .plain) (connect .plain 1) es = some s → s.close = .idle → l < s.numLinks →
      settled s l = true →
      ((s.link l).connected = true ↔ (s.link l).session ≠ none) ∧
        ((s.link l).session ≠ none ∨ (s.link l).gaveUp = true) := by
  intro h
  have hlost := (h lostRespawn (after lostRespawn) 0 (run_eq_runFrom (by decide)) (by decide)
    (by decide) (by decide)).2
  exact absurd hlost (by decide)

end Macula.Pool
