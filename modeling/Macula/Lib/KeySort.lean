import Mathlib.Data.List.Sort

/-!
# Stable sorting by a key

`keySort key l` is `l.sort_by(|a, b| key(a).cmp(&key(b)))`: sorted by key, entries of
equal key in their old order.  It is insertion sort, which evaluates in the kernel.

A list sorted by key is determined by its entries when no two of them share a key
(`keySort_eq_of_perm`), and sorting commutes with every map that keeps the keys
(`map_keySort`).
-/

section KeySort

variable {α β κ : Type*} [LE κ] [DecidableLE κ] (key : α → κ)

/-- `l` sorted by `key`, stably. -/
def keySort (l : List α) : List α := l.insertionSort (fun a b => key a ≤ key b)

theorem keySort_perm (l : List α) : (keySort key l).Perm l := List.perm_insertionSort _ l

@[simp] theorem length_keySort (l : List α) : (keySort key l).length = l.length :=
  (keySort_perm key l).length_eq

@[simp] theorem mem_keySort {l : List α} {a : α} : a ∈ keySort key l ↔ a ∈ l :=
  (keySort_perm key l).mem_iff

/-- Sorting commutes with a map that keeps the keys. -/
theorem map_keySort (f : α → β) (key' : β → κ) (h : ∀ a, key' (f a) = key a) (l : List α) :
    (keySort key l).map f = keySort key' (l.map f) :=
  List.map_insertionSort _ _ f l (by simp [h])

/-- A list in key order is left alone. -/
theorem keySort_of_pairwise {l : List α} (h : l.Pairwise (fun a b => key a ≤ key b)) :
    keySort key l = l :=
  h.insertionSort_eq

variable [Std.IsLinearOrder κ]

theorem keySort_pairwise (l : List α) :
    (keySort key l).Pairwise (fun a b => key a ≤ key b) := by
  have : Std.Total (fun a b : α => key a ≤ key b) := ⟨fun _ _ => Std.le_total⟩
  have : IsTrans α (fun a b : α => key a ≤ key b) := ⟨fun _ _ _ => Std.le_trans⟩
  exact List.pairwise_insertionSort _ l

@[simp] theorem keySort_keySort (l : List α) : keySort key (keySort key l) = keySort key l :=
  keySort_of_pairwise key (keySort_pairwise key l)

/-- Without repeated keys, only the entries matter and not their order. -/
theorem keySort_eq_of_perm {l l' : List α} (h : l.Perm l') (hn : (l.map key).Nodup) :
    keySort key l = keySort key l' := by
  have hp : (keySort key l).Perm (keySort key l') :=
    (keySort_perm key l).trans (h.trans (keySort_perm key l').symm)
  refine hp.eq_of_pairwise (fun a b ha hb hab hba => ?_) (keySort_pairwise key l)
    (keySort_pairwise key l')
  have hkey : key a = key b := Std.le_antisymm hab hba
  have ha' : a ∈ l := (mem_keySort key).mp ha
  have hb' : b ∈ l := h.mem_iff.mpr ((mem_keySort key).mp hb)
  exact List.inj_on_of_nodup_map hn ha' hb' hkey

end KeySort
