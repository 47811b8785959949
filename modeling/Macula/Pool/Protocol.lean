import Mathlib.Logic.Function.Basic
import Macula.Lib.Fifo

/-!
# The protocol of one link

What the parties of a pool do to *one* link, with everything else they do left out.  A link
is a slot for a session behind a fair lock, with three flags beside it.  A party that finds
the session dead clears the slot and flags the link down; whoever then wins the claim is
responsible for the link until a new session is installed, by itself or by a task that it
spawns, and the claim is given back.

The parties are any type `α` and the sessions any type `γ`.  A `View` is the link together
with what each party is about to do to it, and `Move` is one access.  `Macula.Pool.Refines`
shows that every step of the pool is a move of the views of all its links.

Every move keeps two invariants: the lock has one holder (`Locked`), and while a party is
responsible for the link nobody else wins the claim (`Exclusive`).
-/

namespace Macula.Pool

/-- What a party is doing to the link. -/
inductive Role (γ : Type*) where
  | away
  /-- In the queue of the lock, or holding it, to use or to look at the session. -/
  | user
  /-- Has seen an operation on session `g` fail, and has released the lock. -/
  | marking (g : γ)
  /-- In the queue again to clear the slot, on account of `g`. -/
  | markLocking (g : γ)
  | cleared
  | flagged
  | claiming
  /-- Has won the claim and not yet spawned the task that dials. -/
  | claimed
  | dialing
  | dialed (g : γ)
  /-- In the queue to install `g`. -/
  | locking (g : γ)
  | installed
  | released
  | returning
deriving DecidableEq

namespace Role

variable {γ : Type*}

/-- Such a party is in the queue of the lock. -/
def queued : Role γ → Bool
  | .user | .markLocking _ | .cleared | .flagged | .locking _ | .installed => true
  | _ => false

/-- Such a party holds the lock. -/
def holding : Role γ → Bool
  | .cleared | .flagged | .installed => true
  | _ => false

/-- Such a party has the claim. -/
def responsible : Role γ → Bool
  | .claimed | .dialing | .dialed _ | .locking _ | .installed | .released | .returning => true
  | _ => false

/-- Such a party is on its way to install a session, or to give up. -/
def bringing : Role γ → Bool
  | .claimed | .dialing | .dialed _ | .locking _ => true
  | _ => false

/-- Such a party means to clear the slot. -/
def aboutToClear : Role γ → Bool
  | .marking _ | .markLocking _ => true
  | _ => false

/-- Such a party has cleared the slot and not yet tried for the claim. -/
def clearing : Role γ → Bool
  | .cleared | .flagged | .claiming => true
  | _ => false

def isMarkLocking : Role γ → Bool
  | .markLocking _ => true
  | _ => false

def isLocking : Role γ → Bool
  | .locking _ => true
  | _ => false

theorem queued_of_holding {r : Role γ} (h : r.holding) : r.queued := by
  cases r <;> first | rfl | exact absurd h Bool.false_ne_true

theorem responsible_of_bringing {r : Role γ} (h : r.bringing) : r.responsible := by
  cases r <;> first | rfl | exact absurd h Bool.false_ne_true

end Role

structure View (α γ : Type*) where
  session : Option γ
  lock : List α
  connected : Bool
  gaveUp : Bool
  redialing : Bool
  role : α → Role γ
  /-- The link exists. -/
  born : Bool
  /-- `Pool::close` has been called. -/
  closed : Bool

/-- Who acts: a party taking a step, a party whose future is dropped, or somebody else. -/
inductive Act (α : Type*) where
  | run (w : α)
  | drop (w : α)
  | env

variable {α γ : Type*}

/-- The queue holds each party once, and those it holds are those that say so. -/
structure Locked (v : View α γ) : Prop where
  nodup : v.lock.Nodup
  mem : ∀ w, w ∈ v.lock ↔ (v.role w).queued
  granted : ∀ w, (v.role w).holding → Fifo.Granted v.lock w

/-- Only the queue and the roles matter. -/
theorem Locked.congr {v v' : View α γ} (h : Locked v) (hlock : v'.lock = v.lock)
    (hrole : v'.role = v.role) : Locked v' :=
  ⟨hlock ▸ h.nodup, hlock ▸ hrole ▸ h.mem, hlock ▸ hrole ▸ h.granted⟩

/-- At most one party holds the lock. -/
theorem Locked.unique {v : View α γ} (h : Locked v) {w w' : α} (hw : Fifo.Granted v.lock w)
    (hw' : (v.role w').holding) : w' = w :=
  Fifo.granted_unique (h.granted w' hw') hw

/-- Only the holder of the claim is responsible for the link. -/
structure Exclusive (v : View α γ) : Prop where
  redialing : ∀ w, (v.role w).responsible = true → v.redialing = true
  unique : ∀ w w', (v.role w).responsible = true → (v.role w').responsible = true → w = w'

namespace Exclusive

variable {v v' : View α γ} {w : α}

theorem of_idle (h : ∀ w, (v.role w).responsible = false) : Exclusive v where
  redialing w hw := by
    rw [h w] at hw
    cases hw
  unique w w' hw := by
    rw [h w] at hw
    cases hw

/-- The party `w` alone is responsible after it took over. -/
theorem takeOver (hother : ∀ w', w' ≠ w → (v'.role w').responsible = false)
    (hredialing : v'.redialing = true) : Exclusive v' := by
  have hself : ∀ w', (v'.role w').responsible = true → w' = w := by
    intro w' hw'
    by_contra hne
    rw [hother w' hne] at hw'
    cases hw'
  exact
    { redialing := fun _ _ => hredialing
      unique := fun w₁ w₂ h₁ h₂ => (hself w₁ h₁).trans (hself w₂ h₂).symm }

/-- While the claim is free nobody is responsible. -/
theorem not_responsible (h : Exclusive v) (hfree : v.redialing = false) (w : α) :
    (v.role w).responsible = false := by
  by_contra hw
  rw [Bool.not_eq_false] at hw
  rw [h.redialing w hw] at hfree
  cases hfree

/-- While `w` is responsible nobody else is. -/
theorem not_responsible_of_ne (h : Exclusive v) (hw : (v.role w).responsible = true) {w' : α}
    (hne : w' ≠ w) : (v.role w').responsible = false := by
  by_contra hw'
  rw [Bool.not_eq_false] at hw'
  exact hne (h.unique w' w hw' hw)

end Exclusive

variable [DecidableEq α]

/-- `w` is doing `r` from now on. -/
def View.become (v : View α γ) (w : α) (r : Role γ) : View α γ :=
  { v with role := Function.update v.role w r }

/-- One access to the link. -/
inductive Move : Act α → View α γ → View α γ → Prop where
  | stay : Move a v v
  /-- Arrives in the queue to use the session. -/
  | arrive (w) : v.role w = .away →
      Move (.run w) v ({ v with lock := Fifo.enqueue v.lock w }.become w .user)
  | leave (w) : v.role w = .user →
      Move a v ({ v with lock := Fifo.leave v.lock w }.become w .away)
  /-- Releases the lock after a failure on session `g`. -/
  | fail (w g) : v.role w = .user →
      Move (.run w) v ({ v with lock := Fifo.leave v.lock w }.become w (.marking g))
  | mark (w g) : v.role w = .marking g →
      Move (.run w) v ({ v with lock := Fifo.enqueue v.lock w }.become w (.markLocking g))
  | clear (w g) : v.role w = .markLocking g → Fifo.Granted v.lock w →
      Move (.run w) v ({ v with session := none }.become w .cleared)
  | flag (w) : v.role w = .cleared →
      Move (.run w) v ({ v with connected := false }.become w .flagged)
  | unlock (w) : v.role w = .flagged →
      Move (.run w) v ({ v with lock := Fifo.leave v.lock w }.become w .claiming)
  | claim (w) : v.role w = .claiming → v.redialing = false →
      Move (.run w) v ({ v with redialing := true }.become w .claimed)
  | lose (w) : v.role w = .claiming → v.redialing = true →
      Move (.run w) v (v.become w .away)
  /-- `w` hands its claim to the new task `w'`. -/
  | spawn (w w') : v.role w = .claimed → v.role w' = .away →
      Move (.run w) v ((v.become w' .dialing).become w .away)
  | dial (w g) : v.role w = .dialing → Move (.run w) v (v.become w (.dialed g))
  | enter (w g) : v.role w = .dialed g →
      Move (.run w) v ({ v with lock := Fifo.enqueue v.lock w }.become w (.locking g))
  | install (w g) : v.role w = .locking g → Fifo.Granted v.lock w →
      Move (.run w) v ({ v with session := some g }.become w .installed)
  | release (w) : v.role w = .installed →
      Move (.run w) v ({ v with lock := Fifo.leave v.lock w }.become w .released)
  | announce (w) : v.role w = .released →
      Move (.run w) v ({ v with connected := true }.become w .returning)
  | giveUp (w) : v.role w = .dialing →
      Move (.run w) v ({ v with gaveUp := true }.become w .returning)
  | halt (w) : v.role w = .dialing → v.closed = true →
      Move (.run w) v (v.become w .returning)
  | unclaim (w) : v.role w = .returning →
      Move (.run w) v ({ v with redialing := false }.become w .away)
  /-- The link comes into being, found by `w`. -/
  | birth (w) : (∀ w', v.role w' = .away) →
      Move (.run w) v
        ({ v with
            session := none, lock := [], connected := false, gaveUp := false,
            redialing := false, born := true }.become w .claiming)
  | withdraw (w g) : v.role w = .markLocking g →
      Move (.drop w) v ({ v with lock := Fifo.leave v.lock w }.become w .away)
  | abandon (w) : v.role w = .claimed → Move (.drop w) v (v.become w .away)
  | abort (w) : v.role w = .dialing → v.closed = true →
      Move (.drop w) v (v.become w .away)
  | abortLocking (w g) : v.role w = .locking g → v.closed = true →
      Move (.drop w) v ({ v with lock := Fifo.leave v.lock w }.become w .away)
  | close : Move .env v { v with closed := true }
  /-- `Pool::close` takes the session out. -/
  | take (w) : v.role w = .user → Fifo.Granted v.lock w → v.closed = true →
      Move (.run w) v ({ v with session := none }.become w .user)
  | disconnect (w) : v.role w = .user → v.closed = true →
      Move (.run w) v ({ v with connected := false }.become w .user)

namespace View

@[simp] theorem become_role_self (v : View α γ) (w : α) (r : Role γ) :
    (v.become w r).role w = r := Function.update_self ..

theorem become_role_of_ne (v : View α γ) {w w' : α} (r : Role γ) (h : w' ≠ w) :
    (v.become w r).role w' = v.role w' := Function.update_of_ne h ..

theorem become_role (v : View α γ) (w w' : α) (r : Role γ) :
    (v.become w r).role w' = if w' = w then r else v.role w' := Function.update_apply ..

/-- Going on as before. -/
theorem become_self (v : View α γ) {w : α} {r : Role γ} (h : v.role w = r) :
    v.become w r = v := by
  subst h
  show ({ v with role := Function.update v.role w (v.role w) } : View α γ) = v
  rw [Function.update_eq_self]

end View

section

variable {v : View α γ} {w : α} {r : Role γ} (p : Role γ → Bool)

theorem exists_update (h : ∃ w', p (v.role w') = true)
    (hp : p (v.role w) = true → p r = true) :
    ∃ w', p (Function.update v.role w r w') = true := by
  obtain ⟨w', hw'⟩ := h
  by_cases heq : w' = w
  · subst heq
    refine ⟨w', ?_⟩
    rw [Function.update_self]
    exact hp hw'
  · refine ⟨w', ?_⟩
    rwa [Function.update_of_ne heq]

theorem of_update {w' : α} (h : p (Function.update v.role w r w') = true)
    (hp : p r = true → p (v.role w) = true) : p (v.role w') = true := by
  by_cases heq : w' = w
  · subst heq
    rw [Function.update_self] at h
    exact hp h
  · rwa [Function.update_of_ne heq] at h

end

/-! ## The lock -/

namespace Locked

variable {v v' : View α γ} {w : α} {r : Role γ}

/-- `w` changes what it does in the queue, or outside of it. -/
theorem become (h : Locked v) (hlock : v'.lock = v.lock)
    (hrole : v'.role = Function.update v.role w r) (hq : r.queued = (v.role w).queued)
    (hh : r.holding → Fifo.Granted v.lock w) : Locked v' where
  nodup := hlock ▸ h.nodup
  mem w' := by
    rw [hlock, hrole, h.mem, Function.update_apply]
    split
    · next heq => rw [heq, hq]
    · rfl
  granted w' hw' := by
    rw [hrole, Function.update_apply] at hw'
    rw [hlock]
    split at hw'
    · next heq => exact heq ▸ hh hw'
    · exact h.granted w' hw'

theorem enqueue (h : Locked v) (hlock : v'.lock = Fifo.enqueue v.lock w)
    (hrole : v'.role = Function.update v.role w r) (hw : (v.role w).queued = false)
    (hq : r.queued = true) (hh : r.holding = false) : Locked v' where
  nodup := hlock ▸ Fifo.nodup_enqueue h.nodup (by rw [h.mem, hw]; exact Bool.false_ne_true)
  mem w' := by
    rw [hlock, hrole, Fifo.mem_enqueue, h.mem, Function.update_apply]
    split
    · next heq => exact ⟨fun _ => hq, fun _ => Or.inr heq⟩
    · next hne => exact or_iff_left hne
  granted w' hw' := by
    rw [hrole, Function.update_apply] at hw'
    rw [hlock]
    split at hw'
    · rw [hh] at hw'
      exact absurd hw' Bool.false_ne_true
    · exact (h.granted w' hw').enqueue w

theorem leave (h : Locked v) (hlock : v'.lock = Fifo.leave v.lock w)
    (hrole : v'.role = Function.update v.role w r) (hq : r.queued = false) : Locked v' where
  nodup := hlock ▸ Fifo.nodup_leave w h.nodup
  mem w' := by
    rw [hlock, hrole, Fifo.mem_leave, h.mem, Function.update_apply]
    split
    · next heq => exact ⟨fun hw => absurd heq hw.2, fun hr => absurd (hq ▸ hr) Bool.false_ne_true⟩
    · next hne => exact and_iff_left hne
  granted w' hw' := by
    rw [hrole, Function.update_apply] at hw'
    rw [hlock]
    split at hw'
    · have := Role.queued_of_holding hw'
      rw [hq] at this
      exact absurd this Bool.false_ne_true
    · next hne => exact (h.granted w' hw').leave hne

theorem move {a : Act α} (h : Locked v) (m : Move a v v') : Locked v' := by
  cases m with
  | stay => exact h
  | arrive w hw => exact h.enqueue rfl rfl (by rw [hw]; rfl) rfl rfl
  | leave w hw => exact h.leave rfl rfl rfl
  | fail w g hw => exact h.leave rfl rfl rfl
  | mark w g hw => exact h.enqueue rfl rfl (by rw [hw]; rfl) rfl rfl
  | clear w g hw hl => exact h.become rfl rfl (by rw [hw]; rfl) (fun _ => hl)
  | flag w hw =>
      exact h.become rfl rfl (by rw [hw]; rfl) (fun _ => h.granted w (by rw [hw]; rfl))
  | unlock w hw => exact h.leave rfl rfl rfl
  | claim w hw _ => exact h.become rfl rfl (by rw [hw]; rfl) nofun
  | lose w hw _ => exact h.become rfl rfl (by rw [hw]; rfl) nofun
  | spawn w w' hw hw' =>
      have hne : w ≠ w' := ne_of_apply_ne v.role (by rw [hw, hw']; nofun)
      have h₁ : Locked (v.become w' .dialing) := h.become rfl rfl (by rw [hw']; rfl) nofun
      refine h₁.become rfl rfl ?_ nofun
      rw [View.become_role_of_ne v _ hne, hw]
      rfl
  | dial w g hw => exact h.become rfl rfl (by rw [hw]; rfl) nofun
  | enter w g hw => exact h.enqueue rfl rfl (by rw [hw]; rfl) rfl rfl
  | install w g hw hl => exact h.become rfl rfl (by rw [hw]; rfl) (fun _ => hl)
  | release w hw => exact h.leave rfl rfl rfl
  | announce w hw => exact h.become rfl rfl (by rw [hw]; rfl) nofun
  | giveUp w hw => exact h.become rfl rfl (by rw [hw]; rfl) nofun
  | halt w hw _ => exact h.become rfl rfl (by rw [hw]; rfl) nofun
  | unclaim w hw => exact h.become rfl rfl (by rw [hw]; rfl) nofun
  | birth w hw =>
      have h₀ : Locked { v with lock := [] } :=
        ⟨List.nodup_nil, fun w' => by simp [hw w', Role.queued],
          fun w' hw' => by simp [hw w', Role.holding] at hw'⟩
      exact h₀.become rfl rfl (by rw [hw w]; rfl) nofun
  | withdraw w g hw => exact h.leave rfl rfl rfl
  | abandon w hw => exact h.become rfl rfl (by rw [hw]; rfl) nofun
  | abort w hw _ => exact h.become rfl rfl (by rw [hw]; rfl) nofun
  | abortLocking w g hw _ => exact h.leave rfl rfl rfl
  | close => exact h.congr rfl rfl
  | take w hw _ _ => exact h.become rfl rfl (by rw [hw]) nofun
  | disconnect w hw _ => exact h.become rfl rfl (by rw [hw]) nofun

end Locked

/-! ## One responsible party -/

namespace Exclusive

variable {v v' : View α γ} {w : α} {r : Role γ}

/-- A step that makes nobody responsible. -/
theorem same (h : Exclusive v) (hrole : v'.role = Function.update v.role w r)
    (hr : r.responsible = true → (v.role w).responsible = true)
    (hredialing : v'.redialing = v.redialing) : Exclusive v' := by
  have hof : ∀ w', (v'.role w').responsible = true → (v.role w').responsible = true := by
    intro w' hw'
    rw [hrole] at hw'
    exact of_update _ hw' hr
  exact
    { redialing := fun w' hw' => hredialing ▸ h.redialing w' (hof w' hw')
      unique := fun w₁ w₂ h₁ h₂ => h.unique w₁ w₂ (hof w₁ h₁) (hof w₂ h₂) }

theorem move {a : Act α} (h : Exclusive v) (m : Move a v v') : Exclusive v' := by
  cases m with
  | stay => exact h
  | close => exact ⟨h.redialing, h.unique⟩
  | claim w hw hfree =>
      refine takeOver (w := w) (fun w' hne => ?_) rfl
      rw [View.become_role_of_ne _ _ hne]
      exact h.not_responsible hfree w'
  | spawn w w' hw hw' =>
      have hresp : (v.role w).responsible = true := by rw [hw]; rfl
      refine takeOver (w := w') (fun w₁ hne => ?_) (h.redialing w hresp)
      by_cases heq : w₁ = w
      · rw [heq, View.become_role_self]
        rfl
      · rw [View.become_role_of_ne _ _ heq, View.become_role_of_ne _ _ hne]
        exact h.not_responsible_of_ne hresp heq
  | unclaim w hw =>
      have hresp : (v.role w).responsible = true := by rw [hw]; rfl
      refine of_idle fun w' => ?_
      by_cases heq : w' = w
      · rw [heq, View.become_role_self]
        rfl
      · rw [View.become_role_of_ne _ _ heq]
        exact h.not_responsible_of_ne hresp heq
  | birth w hw =>
      refine of_idle fun w' => ?_
      by_cases heq : w' = w
      · rw [heq, View.become_role_self]
        rfl
      · rw [View.become_role_of_ne _ _ heq]
        exact congrArg Role.responsible (hw w')
  | enter w g hw | install w g hw _ | dial w g hw =>
      exact h.same rfl (fun _ => by rw [hw]; rfl) rfl
  | release w hw | announce w hw | giveUp w hw | halt w hw _ =>
      exact h.same rfl (fun _ => by rw [hw]; rfl) rfl
  | _ => exact h.same rfl nofun rfl

end Exclusive

end Macula.Pool
