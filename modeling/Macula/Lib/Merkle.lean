import Mathlib.Data.List.Basic
import Mathlib.Logic.Function.Basic

/-!
# Merkle folds

A level of a Merkle fold pairs the digests from the front, the last one with itself when
their number is odd, and takes each pair to one digest.  `rounds` folds level by level while
more than one digest is left.

The pairs of `[a]` and of `[a, a]` are the same, so a fold does not determine how many leaves
it started from.  Given their number it does determine the leaves, up to a collision:
`rounds_inj` finds two different pairs with one digest among those that the two folds hash.

`Collide h as bs` says that some element of `as` and a different one of `bs` have the same
image under `h`.  It is the way out in every statement about what a hash determines.
-/

section Collide

variable {α β γ : Type*} {h : α → β} {as bs as' bs' : List α}

/-- Two different inputs, one on each side, with one image under `h`. -/
def Collide (h : α → β) (as bs : List α) : Prop :=
  ∃ a ∈ as, ∃ b ∈ bs, a ≠ b ∧ h a = h b

theorem Collide.mono (ha : as ⊆ as') (hb : bs ⊆ bs') (hc : Collide h as bs) :
    Collide h as' bs' := by
  obtain ⟨a, hmem, b, hmem', hne, heq⟩ := hc
  exact ⟨a, ha hmem, b, hb hmem', hne, heq⟩

/-- A collision stays one when the inputs are written another way. -/
theorem Collide.map {f : α → γ} {g : γ → β} (hf : Function.Injective f)
    (hg : ∀ a, g (f a) = h a) (hc : Collide h as bs) : Collide g (as.map f) (bs.map f) := by
  obtain ⟨a, hmem, b, hmem', hne, heq⟩ := hc
  refine ⟨f a, List.mem_map_of_mem hmem, f b, List.mem_map_of_mem hmem', hf.ne hne, ?_⟩
  rw [hg, hg, heq]

theorem eq_or_collide {a b : α} (ha : a ∈ as) (hb : b ∈ bs) (heq : h a = h b) :
    a = b ∨ Collide h as bs := by
  by_cases hab : a = b
  · exact .inl hab
  · exact .inr ⟨a, ha, b, hb, hab, heq⟩

/-- Two lists with the same images are equal, up to a collision between them. -/
theorem eq_or_collide_of_map_eq (heq : as.map h = bs.map h) : as = bs ∨ Collide h as bs := by
  induction as generalizing bs with
  | nil => exact .inl (by simpa using heq.symm)
  | cons a as ih =>
      cases bs with
      | nil => simp at heq
      | cons b bs =>
          simp only [List.map_cons, List.cons.injEq] at heq
          rcases eq_or_collide (List.mem_cons_self (a := a) (l := as))
            (List.mem_cons_self (a := b) (l := bs)) heq.1 with rfl | hc
          · rcases ih heq.2 with rfl | hc
            · exact .inl rfl
            · exact .inr (hc.mono (List.subset_cons_self _ _) (List.subset_cons_self _ _))
          · exact .inr hc

end Collide

namespace Merkle

variable {δ : Type*}

/-- Neighbours from the front, an odd last one with itself. -/
def pairs : List δ → List (δ × δ)
  | [] => []
  | [a] => [(a, a)]
  | a :: b :: l => (a, b) :: pairs l

@[simp] theorem pairs_nil : pairs ([] : List δ) = [] := rfl

@[simp] theorem pairs_singleton (a : δ) : pairs [a] = [(a, a)] := rfl

@[simp] theorem pairs_cons_cons (a b : δ) (l : List δ) :
    pairs (a :: b :: l) = (a, b) :: pairs l := rfl

theorem length_pairs : ∀ l : List δ, (pairs l).length = (l.length + 1) / 2
  | [] => by simp
  | [_] => by simp
  | _ :: _ :: l => by
      simp only [pairs_cons_cons, List.length_cons, length_pairs l]
      omega

/-- Among lists of one length the pairs tell them apart. -/
theorem pairs_inj : ∀ {as bs : List δ}, as.length = bs.length → pairs as = pairs bs → as = bs
  | [], [], _, _ => rfl
  | [_], [_], _, h => by simpa using h
  | _ :: _ :: as, _ :: _ :: bs, hlen, h => by
      simp only [pairs_cons_cons, List.cons.injEq, Prod.mk.injEq] at h
      obtain ⟨⟨rfl, rfl⟩, htail⟩ := h
      rw [pairs_inj (by simpa using hlen) htail]
  | [], _ :: _, hlen, _ => by simp at hlen
  | _ :: _, [], hlen, _ => by simp at hlen
  | [_], _ :: _ :: _, hlen, _ => by simp at hlen
  | _ :: _ :: _, [_], hlen, _ => by simp at hlen

variable (node : δ × δ → δ)

/-- At most `fuel` levels, while more than one digest is left. -/
def rounds : (fuel : Nat) → List δ → List δ
  | 0, l => l
  | fuel + 1, l => if l.length > 1 then rounds fuel ((pairs l).map node) else l

/-- The pairs that `rounds` takes to a digest. -/
def hashed : (fuel : Nat) → List δ → List (δ × δ)
  | 0, _ => []
  | fuel + 1, l =>
      if l.length > 1 then pairs l ++ hashed fuel ((pairs l).map node) else []

/-- With as much fuel as digests, the fold ends with one. -/
theorem length_rounds : ∀ {fuel : Nat} {l : List δ}, l ≠ [] → l.length ≤ fuel →
    (rounds node fuel l).length = 1 := by
  intro fuel
  induction fuel with
  | zero =>
      intro l hne hlen
      exact absurd (List.eq_nil_of_length_eq_zero (Nat.le_zero.mp hlen)) hne
  | succ fuel ih =>
      intro l hne hlen
      have hpos := List.length_pos_of_ne_nil hne
      simp only [rounds]
      split
      · have hpairs : ((pairs l).map node).length = (l.length + 1) / 2 := by simp [length_pairs]
        exact ih (List.ne_nil_of_length_pos (by omega)) (by omega)
      · omega

/-- More fuel than digests changes nothing. -/
theorem rounds_of_le : ∀ {fuel fuel' : Nat} {l : List δ}, l.length ≤ fuel → l.length ≤ fuel' →
    rounds node fuel l = rounds node fuel' l := by
  intro fuel
  induction fuel with
  | zero =>
      intro fuel' l h _
      obtain rfl := List.eq_nil_of_length_eq_zero (Nat.le_zero.mp h)
      cases fuel' <;> simp [rounds]
  | succ fuel ih =>
      intro fuel' l h h'
      cases fuel' with
      | zero =>
          obtain rfl := List.eq_nil_of_length_eq_zero (Nat.le_zero.mp h')
          simp [rounds]
      | succ fuel' =>
          simp only [rounds]
          split
          · have hpairs : ((pairs l).map node).length = (l.length + 1) / 2 := by
              simp [length_pairs]
            exact ih (by omega) (by omega)
          · rfl

variable {node}

/-- **A fold determines its leaves, given their number, up to a collision.** -/
theorem rounds_inj {fuel : Nat} {as bs : List δ} (hlen : as.length = bs.length)
    (h : rounds node fuel as = rounds node fuel bs) :
    as = bs ∨ Collide node (hashed node fuel as) (hashed node fuel bs) := by
  induction fuel generalizing as bs with
  | zero => exact .inl h
  | succ fuel ih =>
      simp only [rounds, hashed, ← hlen] at h ⊢
      split at h
      · rename_i hlong
        simp only [if_pos hlong]
        have hlevel : ((pairs as).map node).length = ((pairs bs).map node).length := by
          simp [length_pairs, hlen]
        rcases ih hlevel h with heq | hc
        · rcases eq_or_collide_of_map_eq heq with hpairs | hc
          · exact .inl (pairs_inj hlen hpairs)
          · exact .inr (hc.mono (List.subset_append_left _ _) (List.subset_append_left _ _))
        · exact .inr (hc.mono (List.subset_append_right _ _) (List.subset_append_right _ _))
      · exact .inl h

end Merkle
