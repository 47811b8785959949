import Mathlib.Data.List.Basic
import Mathlib.Order.Basic

/-!
# Fixed-size chunks

`chunksOf n l` is `l.chunks(n)`: consecutive pieces of `n` elements, the last one shorter if
need be, and none at all for an empty list.  It recurses on a bound for the number of
pieces, so that it evaluates in the kernel; `chunksOf_ne_nil` is its recursion on the
list.
-/

section Chunks

variable {α : Type*}

/-- At most `fuel` pieces of `n` elements. -/
def chunksOfFuel (n : Nat) : (fuel : Nat) → List α → List (List α)
  | 0, _ => []
  | _ + 1, [] => []
  | fuel + 1, a :: l => (a :: l).take n :: chunksOfFuel n fuel ((a :: l).drop n)

def chunksOf (n : Nat) (l : List α) : List (List α) := chunksOfFuel n l.length l

theorem chunksOfFuel_of_le {n : Nat} (hn : 0 < n) : ∀ {fuel fuel' : Nat} {l : List α},
    l.length ≤ fuel → l.length ≤ fuel' → chunksOfFuel n fuel l = chunksOfFuel n fuel' l := by
  intro fuel
  induction fuel with
  | zero =>
      intro fuel' l h _
      obtain rfl := List.eq_nil_of_length_eq_zero (Nat.le_zero.mp h)
      cases fuel' <;> rfl
  | succ fuel ih =>
      intro fuel' l h h'
      cases fuel' with
      | zero =>
          obtain rfl := List.eq_nil_of_length_eq_zero (Nat.le_zero.mp h')
          rfl
      | succ fuel' =>
          cases l with
          | nil => rfl
          | cons a l =>
              rw [List.length_cons] at h h'
              have hdrop : ((a :: l).drop n).length ≤ l.length := by
                rw [List.length_drop, List.length_cons]
                omega
              have hrec := @ih fuel' ((a :: l).drop n) (by omega) (by omega)
              rw [chunksOfFuel, chunksOfFuel, hrec]

@[simp] theorem chunksOf_nil (n : Nat) : chunksOf n ([] : List α) = [] := rfl

/-- A non-empty list is its first piece and the pieces of the rest. -/
theorem chunksOf_ne_nil {n : Nat} (hn : 0 < n) {l : List α} (hl : l ≠ []) :
    chunksOf n l = l.take n :: chunksOf n (l.drop n) := by
  obtain ⟨a, l, rfl⟩ := List.exists_cons_of_ne_nil hl
  rw [chunksOf, List.length_cons, chunksOfFuel, chunksOf]
  congr 1
  refine chunksOfFuel_of_le hn ?_ (Nat.le_refl _)
  rw [List.length_drop, List.length_cons]
  omega

/-- A list that fits in one piece is that piece. -/
theorem chunksOf_length_le {n : Nat} {l : List α} (hl : l ≠ []) (h : l.length ≤ n) :
    chunksOf n l = [l] := by
  have hn : 0 < n := Nat.lt_of_lt_of_le (List.length_pos_of_ne_nil hl) h
  rw [chunksOf_ne_nil hn hl, List.take_of_length_le h, List.drop_of_length_le h, chunksOf_nil]

theorem length_chunksOfFuel_le (n : Nat) : ∀ (fuel : Nat) (l : List α),
    (chunksOfFuel n fuel l).length ≤ fuel := by
  intro fuel
  induction fuel with
  | zero => exact fun _ => Nat.le_refl _
  | succ fuel ih =>
      intro l
      cases l with
      | nil => exact Nat.zero_le _
      | cons a l =>
          have := ih ((a :: l).drop n)
          simp only [chunksOfFuel, List.length_cons]
          omega

theorem length_chunksOf_le (n : Nat) (l : List α) : (chunksOf n l).length ≤ l.length :=
  length_chunksOfFuel_le n l.length l

/-- No piece is empty. -/
theorem ne_nil_of_mem_chunksOfFuel {n : Nat} (hn : 0 < n) : ∀ {fuel : Nat} {l piece : List α},
    piece ∈ chunksOfFuel n fuel l → piece ≠ [] := by
  intro fuel
  induction fuel with
  | zero =>
      intro l piece h
      cases h
  | succ fuel ih =>
      intro l piece h
      cases l with
      | nil => cases h
      | cons a l =>
          rcases List.mem_cons.mp h with rfl | h
          · intro hnil
            have hlen := congrArg List.length hnil
            rw [List.length_take, List.length_cons, List.length_nil] at hlen
            omega
          · exact ih h

theorem ne_nil_of_mem_chunksOf {n : Nat} (hn : 0 < n) {l piece : List α}
    (h : piece ∈ chunksOf n l) : piece ≠ [] :=
  ne_nil_of_mem_chunksOfFuel hn h

theorem chunksOf_eq_nil {n : Nat} (hn : 0 < n) {l : List α} : chunksOf n l = [] ↔ l = [] := by
  constructor
  · intro h
    by_contra hl
    rw [chunksOf_ne_nil hn hl] at h
    cases h
  · rintro rfl
    rfl

/-- The pieces in their order are the list. -/
theorem flatten_chunksOfFuel {n : Nat} (hn : 0 < n) : ∀ {fuel : Nat} {l : List α},
    l.length ≤ fuel → (chunksOfFuel n fuel l).flatten = l := by
  intro fuel
  induction fuel with
  | zero =>
      intro l h
      obtain rfl := List.eq_nil_of_length_eq_zero (Nat.le_zero.mp h)
      rfl
  | succ fuel ih =>
      intro l h
      cases l with
      | nil => rfl
      | cons a l =>
          have hdrop : ((a :: l).drop n).length ≤ fuel := by
            rw [List.length_drop]
            omega
          rw [chunksOfFuel, List.flatten_cons, ih hdrop, List.take_append_drop]

theorem flatten_chunksOf {n : Nat} (hn : 0 < n) (l : List α) : (chunksOf n l).flatten = l :=
  flatten_chunksOfFuel hn (Nat.le_refl _)

/-- What holds of nothing, and of a list when it holds of all but its first piece, holds of
every list. -/
theorem chunksOf_induction {n : Nat} (hn : 0 < n) {motive : List α → Prop} (nil : motive [])
    (piece : ∀ l, l ≠ [] → motive (l.drop n) → motive l) (l : List α) : motive l := by
  induction hlen : l.length using Nat.strongRecOn generalizing l with
  | ind k ih =>
      by_cases hl : l = []
      · rw [hl]
        exact nil
      · have hpos := List.length_pos_of_ne_nil hl
        have hdrop : (l.drop n).length < k := by
          rw [List.length_drop]
          omega
        exact piece l hl (ih _ hdrop (l.drop n) rfl)

/-- As many pieces as `n` fits into the length, rounded up. -/
theorem length_chunksOf {n : Nat} (hn : 0 < n) (l : List α) :
    (chunksOf n l).length = (l.length + n - 1) / n := by
  induction l using chunksOf_induction hn with
  | nil =>
      simp only [chunksOf_nil, List.length_nil]
      exact (Nat.div_eq_of_lt (by omega)).symm
  | piece l hl ih =>
      have hpos := List.length_pos_of_ne_nil hl
      rw [chunksOf_ne_nil hn hl, List.length_cons, ih, List.length_drop]
      rcases Nat.lt_or_ge l.length n with hlt | hge
      · have hnone : (l.length - n + n - 1) / n = 0 := Nat.div_eq_of_lt (by omega)
        have hone : (l.length + n - 1) / n = 1 := Nat.div_eq_of_lt_le (by omega) (by omega)
        rw [hnone, hone]
      · have hsplit : l.length + n - 1 = (l.length - n + n - 1) + n := by omega
        rw [hsplit, Nat.add_div_right _ hn]

/-- Every piece but the last has `n` elements. -/
theorem length_of_mem_dropLast_chunksOf {n : Nat} (hn : 0 < n) (l : List α) :
    ∀ piece ∈ (chunksOf n l).dropLast, piece.length = n := by
  induction l using chunksOf_induction hn with
  | nil => intro piece h; cases h
  | piece l hl ih =>
      intro piece h
      rw [chunksOf_ne_nil hn hl] at h
      by_cases hrest : l.drop n = []
      · rw [hrest, chunksOf_nil] at h
        cases h
      · have hmore : chunksOf n (l.drop n) ≠ [] := mt (chunksOf_eq_nil hn).mp hrest
        rw [List.dropLast_cons_of_ne_nil hmore] at h
        rcases List.mem_cons.mp h with rfl | h
        · have hlong := List.length_pos_of_ne_nil hrest
          rw [List.length_drop] at hlong
          rw [List.length_take]
          omega
        · exact ih piece h

/-- No piece has more than `n` elements. -/
theorem length_le_of_mem_chunksOf {n : Nat} (hn : 0 < n) (l : List α) :
    ∀ piece ∈ chunksOf n l, piece.length ≤ n := by
  induction l using chunksOf_induction hn with
  | nil => intro piece h; cases h
  | piece l hl ih =>
      intro piece h
      rw [chunksOf_ne_nil hn hl] at h
      rcases List.mem_cons.mp h with rfl | h
      · exact List.length_take_le n l
      · exact ih piece h

end Chunks
