import Mathlib.Algebra.Group.Nat.Defs
import Mathlib.Tactic.Basic

/-!
# Outcomes of fallible functions that may panic

A Rust function of type `Result<T, E>` has three ways to end: `Ok`, `Err`, and a
panic that unwinds past its caller.  `Outcome` keeps the third one apart, so that
an `expect`, an index or a slice of the modelled code is a place where the model
can panic, and "this function never panics" is a statement about the model.

`Outcome.bind_eq_ok` and its two siblings take a computation apart at its first
step; the functions above this module are inverted with them and never by
unfolding the monad.
-/

/-- The ways a function of type `Result<α, ε>` ends. -/
inductive Outcome (ε : Type u) (α : Type v) where
  /-- `Ok(value)`. -/
  | ok (value : α)
  /-- `Err(error)`. -/
  | err (error : ε)
  /-- The function panicked. -/
  | panicked
deriving DecidableEq

namespace Outcome

variable {ε ε' : Type u} {α β γ : Type v}

/-- The `?` operator: only `Ok` continues. -/
protected def bind : Outcome ε α → (α → Outcome ε β) → Outcome ε β
  | .ok a, f => f a
  | .err e, _ => .err e
  | .panicked, _ => .panicked

instance : Monad (Outcome ε) where
  pure := .ok
  bind := Outcome.bind

@[simp] theorem pure_eq (a : α) : (pure a : Outcome ε α) = .ok a := rfl

@[simp] theorem ok_bind (a : α) (f : α → Outcome ε β) : (Outcome.ok a >>= f) = f a := rfl

@[simp] theorem err_bind (e : ε) (f : α → Outcome ε β) :
    ((Outcome.err e : Outcome ε α) >>= f) = .err e := rfl

@[simp] theorem panicked_bind (f : α → Outcome ε β) :
    ((Outcome.panicked : Outcome ε α) >>= f) = .panicked := rfl

theorem bind_assoc (x : Outcome ε α) (f : α → Outcome ε β) (g : β → Outcome ε γ) :
    (x >>= f) >>= g = x >>= fun a => f a >>= g := by
  cases x <;> rfl

/-- A computation returns `Ok` exactly when each of its two steps does. -/
theorem bind_eq_ok {x : Outcome ε α} {f : α → Outcome ε β} {b : β} :
    (x >>= f) = .ok b ↔ ∃ a, x = .ok a ∧ f a = .ok b := by
  cases x <;> simp

/-- The same where the first step is a check. -/
theorem check_bind_eq_ok {β : Type} {x : Outcome ε Unit} {f : Unit → Outcome ε β} {b : β} :
    (x >>= f) = .ok b ↔ x = .ok () ∧ f () = .ok b := by
  cases x <;> simp

/-- A computation panics in its first step or in its second. -/
theorem bind_eq_panicked {x : Outcome ε α} {f : α → Outcome ε β} :
    (x >>= f) = .panicked ↔ x = .panicked ∨ ∃ a, x = .ok a ∧ f a = .panicked := by
  cases x <;> simp

/-- A computation whose two steps cannot panic cannot panic. -/
theorem bind_ne_panicked {x : Outcome ε α} {f : α → Outcome ε β} (hx : x ≠ .panicked)
    (hf : ∀ a, x = .ok a → f a ≠ .panicked) : (x >>= f) ≠ .panicked := by
  intro h
  rcases bind_eq_panicked.mp h with hp | ⟨a, ha, hp⟩
  · exact hx hp
  · exact hf a ha hp

/-- What neither panics nor returns `Ok` returns `Err`. -/
theorem exists_eq_err {x : Outcome ε α} :
    (∃ e, x = .err e) ↔ x ≠ .panicked ∧ ∀ a, x ≠ .ok a := by
  cases x <;> simp

/-- `result.map_err(f)`. -/
def mapErr (f : ε → ε') : Outcome ε α → Outcome ε' α
  | .ok a => .ok a
  | .err e => .err (f e)
  | .panicked => .panicked

@[simp] theorem mapErr_eq_ok {f : ε → ε'} {x : Outcome ε α} {a : α} :
    x.mapErr f = .ok a ↔ x = .ok a := by
  cases x <;> simp [mapErr]

@[simp] theorem mapErr_eq_panicked {f : ε → ε'} {x : Outcome ε α} :
    x.mapErr f = .panicked ↔ x = .panicked := by
  cases x <;> simp [mapErr]

/-- `option.ok_or(e)`. -/
def okOr (e : ε) : Option α → Outcome ε α
  | some a => .ok a
  | none => .err e

@[simp] theorem okOr_eq_ok {e : ε} {x : Option α} {a : α} : okOr e x = .ok a ↔ x = some a := by
  cases x <;> simp [okOr]

@[simp] theorem okOr_ne_panicked {e : ε} {x : Option α} : okOr e x ≠ .panicked := by
  cases x <;> simp [okOr]

/-- `option.expect(..)`: `None` panics. -/
def expectSome : Option α → Outcome ε α
  | some a => .ok a
  | none => .panicked

@[simp] theorem expectSome_eq_ok {x : Option α} {a : α} :
    (expectSome x : Outcome ε α) = .ok a ↔ x = some a := by
  cases x <;> simp [expectSome]

/-- `result.expect(..)`: `Err` panics. -/
def expectOk : Outcome ε' α → Outcome ε α
  | .ok a => .ok a
  | .err _ => .panicked
  | .panicked => .panicked

@[simp] theorem expectOk_eq_ok {x : Outcome ε' α} {a : α} :
    (expectOk x : Outcome ε α) = .ok a ↔ x = .ok a := by
  cases x <;> simp [expectOk]

/-- `let _ = result;`: only a panic goes on. -/
def ignored : Outcome ε α → Outcome ε' Unit
  | .panicked => .panicked
  | _ => .ok ()

theorem ignored_eq_ok {x : Outcome ε α} (h : x ≠ .panicked) :
    (ignored x : Outcome ε' Unit) = .ok () := by
  cases x with
  | ok a => rfl
  | err e => rfl
  | panicked => exact absurd rfl h

/-- `let result = x; next(&result); result`. -/
def after {ε α : Type} (x : Outcome ε α) (next : Except ε α → Outcome ε Unit) : Outcome ε α :=
  match x with
  | .ok a => do
      next (.ok a)
      .ok a
  | .err e => do
      next (.error e)
      .err e
  | .panicked => .panicked

/-- What always returns afterwards changes nothing. -/
theorem after_eq {ε α : Type} {x : Outcome ε α} {next : Except ε α → Outcome ε Unit}
    (h : ∀ result, next result = .ok ()) : x.after next = x := by
  cases x with
  | ok a => rw [after, h, ok_bind]
  | err e => rw [after, h, ok_bind]
  | panicked => rfl

/-- `a + b` on `u64`, which panics on an overflow. -/
def addU64 (a b : UInt64) : Outcome ε UInt64 :=
  if a.toNat + b.toNat < 2 ^ 64 then .ok (a + b) else .panicked

theorem addU64_eq_ok {a b c : UInt64} :
    (addU64 a b : Outcome ε UInt64) = .ok c ↔ a.toNat + b.toNat < 2 ^ 64 ∧ c = a + b := by
  unfold addU64
  split
  · next h =>
      rw [Outcome.ok.injEq]
      exact ⟨fun hc => ⟨h, hc.symm⟩, fun hc => hc.2.symm⟩
  · next h => exact ⟨nofun, fun hc => absurd hc.1 h⟩

theorem addU64_eq_panicked {a b : UInt64} :
    (addU64 a b : Outcome ε UInt64) = .panicked ↔ ¬ a.toNat + b.toNat < 2 ^ 64 := by
  unfold addU64
  split
  · next h => exact ⟨by simp, fun hn => absurd h hn⟩
  · next h => exact ⟨fun _ => h, fun _ => rfl⟩

/-- The `Ok` value, if there is one. -/
def toOption : Outcome ε α → Option α
  | .ok a => some a
  | _ => none

@[simp] theorem toOption_eq_some {x : Outcome ε α} {a : α} : x.toOption = some a ↔ x = .ok a := by
  cases x <;> simp [toOption]

end Outcome
