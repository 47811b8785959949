import Macula.Lib.Outcome

/-!
# The first element that passes

A search goes through a list in order, checks each element and stops at the first one that
passes.  The check may depend on the position, as one that reads a clock does, and it may
panic, which ends the search.

`First check i l b` says that the search through `l`, from position `i` on, ends with `b`.
-/

namespace Outcome

variable {ε : Type u} {ε' : Type u} {α : Type v} {β : Type v}

/-- The first element of `l` that passes gives `b`.  Those before it are turned down. -/
inductive First (check : Nat → α → Outcome ε β) : Nat → List α → β → Prop where
  | here {i : Nat} {a : α} {l : List α} {b : β} : check i a = .ok b → First check i (a :: l) b
  | there {i : Nat} {a : α} {l : List α} {b : β} {e : ε} : check i a = .err e →
      First check (i + 1) l b → First check i (a :: l) b

/-- `iter.find_map(|a| check(a).ok())`. -/
def findFirst (check : Nat → α → Outcome ε β) : Nat → List α → Outcome ε' (Option β)
  | _, [] => .ok none
  | i, a :: l =>
      match check i a with
      | .ok b => .ok (some b)
      | .err _ => findFirst check (i + 1) l
      | .panicked => .panicked

theorem findFirst_eq_some {check : Nat → α → Outcome ε β} {b : β} :
    ∀ {i : Nat} {l : List α},
      (findFirst check i l : Outcome ε' (Option β)) = .ok (some b) ↔ First check i l b := by
  intro i l
  induction l generalizing i with
  | nil =>
    constructor
    · intro h
      cases h
    · intro h
      cases h
  | cons a l ih =>
    rw [findFirst]
    constructor
    · intro h
      split at h
      · rename_i hcheck
        cases h
        exact .here hcheck
      · rename_i hcheck
        exact .there hcheck (ih.mp h)
      · cases h
    · intro h
      cases h with
      | here hcheck => rw [hcheck]
      | there hcheck hrest =>
        rw [hcheck]
        exact ih.mpr hrest

/-! ## Where a search ends -/

/-- The search comes to the element at `k`: those before it are turned down. -/
structure Comes (check : Nat → α → Outcome ε β) (i : Nat) (l : List α) (k : Nat) (a : α) : Prop where
  get : l[k]? = some a
  before : ∀ j c, j < k → l[j]? = some c → ∃ e, check (i + j) c = .err e

/-- It comes to the head, and past a head that is turned down to an element behind it. -/
theorem exists_comes_cons {check : Nat → α → Outcome ε β} {Q : Nat → α → Prop} {i : Nat} {a : α}
    {l : List α} : (∃ k b, Comes check i (a :: l) k b ∧ Q (i + k) b) ↔
      Q i a ∨ (∃ e, check i a = .err e) ∧ ∃ k b, Comes check (i + 1) l k b ∧ Q (i + 1 + k) b := by
  constructor
  · rintro ⟨k, b, ⟨hget, hbefore⟩, hq⟩
    cases k with
    | zero =>
      obtain rfl := Option.some.inj hget
      exact .inl hq
    | succ k =>
      rw [Nat.add_comm k, ← Nat.add_assoc] at hq
      refine .inr ⟨hbefore 0 a (Nat.succ_pos k) rfl, k, b, ⟨hget, fun j c hj hc => ?_⟩, hq⟩
      rw [Nat.add_assoc, Nat.add_comm 1]
      exact hbefore (j + 1) c (Nat.succ_lt_succ hj) hc
  · rintro (hq | ⟨herr, k, b, ⟨hget, hbefore⟩, hq⟩)
    · exact ⟨0, a, ⟨rfl, fun j _ hj => absurd hj (Nat.not_lt_zero j)⟩, hq⟩
    · rw [Nat.add_assoc, Nat.add_comm 1] at hq
      refine ⟨k + 1, b, ⟨hget, fun j c hj hc => ?_⟩, hq⟩
      cases j with
      | zero =>
        obtain rfl := Option.some.inj hc
        exact herr
      | succ j =>
        rw [Nat.add_comm j, ← Nat.add_assoc]
        exact hbefore j c (Nat.lt_of_succ_lt_succ hj) hc

/-- A search ends with the element it comes to, when that passes. -/
theorem first_iff {check : Nat → α → Outcome ε β} {b : β} : ∀ {i : Nat} {l : List α},
    First check i l b ↔ ∃ k a, Comes check i l k a ∧ check (i + k) a = .ok b := by
  intro i l
  induction l generalizing i with
  | nil =>
    constructor
    · intro h
      cases h
    · rintro ⟨k, a, hcomes, -⟩
      cases hcomes.get
  | cons a l ih =>
    rw [exists_comes_cons (Q := fun i a => check i a = .ok b), ← ih]
    constructor
    · intro h
      cases h with
      | here hcheck => exact .inl hcheck
      | there hcheck hrest => exact .inr ⟨⟨_, hcheck⟩, hrest⟩
    · rintro (hcheck | ⟨⟨e, hcheck⟩, hrest⟩)
      · exact .here hcheck
      · exact .there hcheck hrest

/-- A search panics when the check of the element that it comes to does. -/
theorem findFirst_eq_panicked {check : Nat → α → Outcome ε β} :
    ∀ {i : Nat} {l : List α}, (findFirst check i l : Outcome ε' (Option β)) = .panicked ↔
      ∃ k a, Comes check i l k a ∧ check (i + k) a = .panicked := by
  intro i l
  induction l generalizing i with
  | nil =>
    constructor
    · intro h
      cases h
    · rintro ⟨k, a, hcomes, -⟩
      cases hcomes.get
  | cons a l ih =>
    rw [exists_comes_cons (Q := fun i a => check i a = .panicked), ← ih, findFirst]
    cases check i a with
    | ok b => simp
    | err e => simp
    | panicked => simp

/-- What a search ends with passed at its place. -/
theorem First.exists_mem {check : Nat → α → Outcome ε β} {i : Nat} {l : List α} {b : β}
    (h : First check i l b) : ∃ j a, l[j]? = some a ∧ check (i + j) a = .ok b := by
  obtain ⟨k, a, hcomes, hcheck⟩ := first_iff.mp h
  exact ⟨k, a, hcomes.get, hcheck⟩

/-- A search has one result. -/
theorem First.unique {check : Nat → α → Outcome ε β} {i : Nat} {l : List α} {b b' : β}
    (h : First check i l b) (h' : First check i l b') : b = b' := by
  have hb : (findFirst check i l : Outcome ε (Option β)) = .ok (some b) :=
    findFirst_eq_some.mpr h
  rw [findFirst_eq_some.mpr h'] at hb
  cases hb
  rfl

/-! ## Checks that do not depend on the position -/

/-- `l'` is `l` with elements inserted that are all `bad`. -/
inductive Inserted (bad : α → Prop) : List α → List α → Prop where
  | nil : Inserted bad [] []
  | keep {a : α} {l l' : List α} : Inserted bad l l' → Inserted bad (a :: l) (a :: l')
  | insert {a : α} {l l' : List α} : bad a → Inserted bad l l' → Inserted bad l (a :: l')

section

variable {check : α → Outcome ε β} {b : β}

/-- The search splits the list at the first element that passes. -/
theorem first_iff_split {l : List α} : ∀ {i : Nat}, First (fun _ => check) i l b ↔
    ∃ pre a post, l = pre ++ a :: post ∧ check a = .ok b ∧
      ∀ c ∈ pre, ∃ e, check c = .err e := by
  induction l with
  | nil =>
    intro i
    constructor
    · intro h; cases h
    · rintro ⟨pre, a, post, h, -⟩
      cases pre <;> cases h
  | cons c l ih =>
    intro i
    constructor
    · intro h
      cases h with
      | here hcheck => exact ⟨[], c, l, rfl, hcheck, nofun⟩
      | there hcheck hrest =>
        obtain ⟨pre, a, post, rfl, ha, hpre⟩ := ih.mp hrest
        exact ⟨c :: pre, a, post, rfl, ha, List.forall_mem_cons.mpr ⟨⟨_, hcheck⟩, hpre⟩⟩
    · rintro ⟨pre, a, post, heq, ha, hpre⟩
      cases pre with
      | nil =>
        obtain ⟨rfl, rfl⟩ := List.cons.inj heq
        exact .here ha
      | cons d pre =>
        obtain ⟨rfl, rfl⟩ := List.cons.inj heq
        obtain ⟨⟨e, hd⟩, hpre⟩ := List.forall_mem_cons.mp hpre
        exact .there hd (ih.mpr ⟨pre, a, post, rfl, ha, hpre⟩)

/-- Without a panic, a search finds something exactly when something passes. -/
theorem exists_first_iff {l : List α} (hl : ∀ a ∈ l, check a ≠ .panicked) : ∀ {i : Nat},
    (∃ b, First (fun _ => check) i l b) ↔ ∃ a ∈ l, ∃ b, check a = .ok b := by
  induction l with
  | nil =>
    intro i
    constructor
    · rintro ⟨b, h⟩; cases h
    · rintro ⟨a, h, -⟩; cases h
  | cons c l ih =>
    intro i
    obtain ⟨hc, hl⟩ := List.forall_mem_cons.mp hl
    have hrest := ih hl (i := i + 1)
    constructor
    · rintro ⟨b, h⟩
      cases h with
      | here hcheck => exact ⟨c, List.mem_cons_self .., b, hcheck⟩
      | there _ h =>
        obtain ⟨a, ha, hpass⟩ := hrest.mp ⟨b, h⟩
        exact ⟨a, List.mem_cons_of_mem c ha, hpass⟩
    · rintro ⟨a, ha, hpass⟩
      cases hcheck : check c with
      | ok b => exact ⟨b, .here hcheck⟩
      | err e =>
        rcases List.mem_cons.mp ha with rfl | ha
        · rw [hcheck] at hpass
          cases hpass.choose_spec
        · obtain ⟨b, h⟩ := hrest.mpr ⟨a, ha, hpass⟩
          exact ⟨b, .there hcheck h⟩
      | panicked => exact absurd hcheck hc

section

variable {P : α → β → Prop} {l : List α} (hpasses : ∀ a ∈ l, ∀ b, check a = .ok b ↔ P a b)
  (hreturns : ∀ a ∈ l, check a ≠ .panicked)

include hpasses hreturns

/-- What does not pass is turned down. -/
theorem err_iff_of_passes {a : α} (ha : a ∈ l) : (∃ e, check a = .err e) ↔ ∀ b, ¬ P a b := by
  simp only [← hpasses a ha]
  cases h : check a with
  | ok b => simp
  | err e => simp
  | panicked => exact absurd h (hreturns a ha)

/-- The first element that passes, as `P` says what passes. -/
theorem first_iff_of_passes {i : Nat} : First (fun _ => check) i l b ↔
    ∃ pre a post, l = pre ++ a :: post ∧ P a b ∧ ∀ c ∈ pre, ∀ b', ¬ P c b' := by
  rw [first_iff_split]
  constructor
  · rintro ⟨pre, a, post, rfl, ha, hpre⟩
    refine ⟨pre, a, post, rfl, (hpasses a (by simp) b).mp ha, fun c hc => ?_⟩
    exact (err_iff_of_passes hpasses hreturns (by simp [hc])).mp (hpre c hc)
  · rintro ⟨pre, a, post, rfl, ha, hpre⟩
    refine ⟨pre, a, post, rfl, (hpasses a (by simp) b).mpr ha, fun c hc => ?_⟩
    exact (err_iff_of_passes hpasses hreturns (by simp [hc])).mpr (hpre c hc)

theorem exists_first_iff_of_passes {i : Nat} :
    (∃ b, First (fun _ => check) i l b) ↔ ∃ a ∈ l, ∃ b, P a b := by
  rw [exists_first_iff hreturns]
  constructor
  · rintro ⟨a, ha, b, h⟩
    exact ⟨a, ha, b, (hpasses a ha b).mp h⟩
  · rintro ⟨a, ha, b, h⟩
    exact ⟨a, ha, b, (hpasses a ha b).mpr h⟩

end

/-- Elements that are turned down do not change what a search ends with. -/
theorem findFirst_inserted {bad : α → Prop} (hbad : ∀ a, bad a → ∃ e, check a = .err e)
    {l l' : List α} (h : Inserted bad l l') : ∀ {i i' : Nat},
      (findFirst (fun _ => check) i l : Outcome ε' (Option β)) =
        findFirst (fun _ => check) i' l' := by
  induction h with
  | nil => intro i i'; rfl
  | keep _ ih =>
    intro i i'
    rw [findFirst, findFirst, ih]
  | insert hmem _ ih =>
    intro i i'
    obtain ⟨e, he⟩ := hbad _ hmem
    simp only [findFirst, he]
    exact ih

theorem first_inserted {bad : α → Prop} (hbad : ∀ a, bad a → ∃ e, check a = .err e)
    {l l' : List α} (h : Inserted bad l l') {i i' : Nat} :
    First (fun _ => check) i l b ↔ First (fun _ => check) i' l' b := by
  have hsame : (findFirst (fun _ => check) i l : Outcome ε (Option β)) =
      findFirst (fun _ => check) i' l' := findFirst_inserted hbad h
  calc First (fun _ => check) i l b
    _ ↔ (findFirst (fun _ => check) i l : Outcome ε (Option β)) = .ok (some b) :=
        findFirst_eq_some.symm
    _ ↔ (findFirst (fun _ => check) i' l' : Outcome ε (Option β)) = .ok (some b) := by rw [hsame]
    _ ↔ First (fun _ => check) i' l' b := findFirst_eq_some

end

/-! ## Attempts -/

/-- Of `retries` attempts from the `n`-th on, one is done, and those before it were to be made
again. -/
def FirstAttempt (done again : Nat → Prop) (retries n : Nat) : Prop :=
  ∃ m < retries, done (n + m) ∧ ∀ k < m, again (n + k)

section

variable {done again : Nat → Prop} {retries n : Nat}

theorem not_firstAttempt_zero : ¬ FirstAttempt done again 0 n := by
  rintro ⟨m, hm, -⟩
  exact absurd hm (Nat.not_lt_zero m)

/-- The next attempt is done, or the rest is made after it. -/
theorem firstAttempt_succ : FirstAttempt done again (retries + 1) n ↔
    done n ∨ again n ∧ FirstAttempt done again retries (n + 1) := by
  have hshift : ∀ k, n + 1 + k = n + (k + 1) := fun k => by omega
  simp only [FirstAttempt, Nat.exists_lt_succ_left, Nat.forall_lt_succ_left, hshift]
  constructor
  · rintro (⟨hdone, -⟩ | ⟨m, hm, hdone, hagain, hrest⟩)
    · exact .inl hdone
    · exact .inr ⟨hagain, m, hm, hdone, hrest⟩
  · rintro (hdone | ⟨hagain, m, hm, hdone, hrest⟩)
    · exact .inl ⟨hdone, fun k hk => absurd hk (Nat.not_lt_zero k)⟩
    · exact .inr ⟨m, hm, hdone, hagain, hrest⟩

end

end Outcome
