import Macula.Lib.Outcome

/-!
# Two runs side by side

`Paired R x y` says that two fallible computations end alike: with the same error, or with
values that `R` relates.  Neither of them panics.

`Paired.bind` is the rule of sequential composition, and `Paired.bind_same` the one for a step
that both runs take in the same way.  A function run in two modes is then compared step by
step, with no case analysis on how its steps end.
-/

namespace Outcome

variable {ε : Type u} {α β γ δ : Type v}

/-- Both runs fail with one error, or both return and `R` relates what they return. -/
inductive Paired (R : α → β → Prop) : Outcome ε α → Outcome ε β → Prop where
  | ok {a : α} {b : β} : R a b → Paired R (.ok a) (.ok b)
  | err (e : ε) : Paired R (.err e) (.err e)

variable {R : α → β → Prop} {S : γ → δ → Prop} {x : Outcome ε α} {y : Outcome ε β}
  {f : α → Outcome ε γ} {g : β → Outcome ε δ}

theorem Paired.bind (h : Paired R x y) (hnext : ∀ a b, R a b → Paired S (f a) (g b)) :
    Paired S (x >>= f) (y >>= g) := by
  cases h with
  | ok hR => exact hnext _ _ hR
  | err e => exact .err e

/-- A step that both runs take in the same way. -/
theorem Paired.bind_same {g : α → Outcome ε δ} (hx : x ≠ .panicked)
    (hnext : ∀ a, x = .ok a → Paired S (f a) (g a)) : Paired S (x >>= f) (x >>= g) := by
  cases x with
  | ok a => exact hnext a rfl
  | err e => exact .err e
  | panicked => exact absurd rfl hx

theorem paired_iff : Paired R x y ↔
    (∃ e, x = .err e ∧ y = .err e) ∨ ∃ a b, x = .ok a ∧ y = .ok b ∧ R a b := by
  constructor
  · intro h
    cases h with
    | ok hR => exact .inr ⟨_, _, rfl, rfl, hR⟩
    | err e => exact .inl ⟨e, rfl, rfl⟩
  · rintro (⟨e, rfl, rfl⟩ | ⟨a, b, rfl, rfl, hR⟩)
    · exact .err e
    · exact .ok hR

end Outcome
