import Macula.Cbor.Decode

/-!
# The accepted language

`Item d s v` says that `s` is one item at nesting depth `d` and `v` its value: any width
of head, text that is UTF-8, floats of three widths, and maps whose repeated keys have
been merged by `dedup`, the first occurrence giving the slot and the key and the last one
the value.  Keys are the same when their canonical bytes are.

The relation follows the bytes and knows nothing of positions, buffers or canonical
bytes computed on the side.
-/

namespace Macula.Cbor

/-! ## Repeated keys -/

/-- Add an entry, or give the entry already under its key a new value. -/
def insertEntry (p : Value × Value) : List (Value × Value) → List (Value × Value)
  | [] => [p]
  | q :: pairs => if entryKey q = entryKey p then (q.1, p.2) :: pairs else q :: insertEntry p pairs

/-- The entries of a map as the decoder keeps them: last write wins, in the first slot. -/
def dedup (entries : List (Value × Value)) : List (Value × Value) :=
  entries.foldl (fun pairs p => insertEntry p pairs) []

/-- The keys of a map's entries, encoded. -/
def entryKeys (pairs : List (Value × Value)) : List Bytes := pairs.map entryKey

@[simp] theorem entryKeys_nil : entryKeys [] = [] := rfl

@[simp] theorem entryKeys_cons (p : Value × Value) (pairs : List (Value × Value)) :
    entryKeys (p :: pairs) = entryKey p :: entryKeys pairs := rfl

@[simp] theorem entryKeys_append (pairs pairs' : List (Value × Value)) :
    entryKeys (pairs ++ pairs') = entryKeys pairs ++ entryKeys pairs' := List.map_append

theorem insertEntry_of_notMem {p : Value × Value} : ∀ {pairs : List (Value × Value)},
    entryKey p ∉ entryKeys pairs → insertEntry p pairs = pairs ++ [p] := by
  intro pairs
  induction pairs with
  | nil =>
      intro _
      rfl
  | cons q pairs ih =>
      intro h
      rw [entryKeys_cons, List.mem_cons, not_or] at h
      rw [insertEntry, if_neg (Ne.symm h.1), ih h.2, List.cons_append]

theorem entryKeys_insertEntry (p : Value × Value) : ∀ (pairs : List (Value × Value)),
    entryKeys (insertEntry p pairs) =
      if entryKey p ∈ entryKeys pairs then entryKeys pairs
      else entryKeys pairs ++ [entryKey p] := by
  intro pairs
  induction pairs with
  | nil => simp [insertEntry]
  | cons q pairs ih =>
      rw [insertEntry]
      split
      · rename_i h
        have hq : entryKey (q.1, p.2) = entryKey q := rfl
        rw [entryKeys_cons, entryKeys_cons, hq, h, if_pos List.mem_cons_self]
      · rename_i h
        simp only [entryKeys_cons, ih, List.mem_cons, Ne.symm h, false_or]
        split <;> rfl

theorem nodup_insertEntry {p : Value × Value} {pairs : List (Value × Value)}
    (h : (entryKeys pairs).Nodup) : (entryKeys (insertEntry p pairs)).Nodup := by
  rw [entryKeys_insertEntry]
  split
  · exact h
  · rename_i hmem
    exact List.nodup_append.mpr ⟨h, List.nodup_singleton _, fun a ha b hb hab =>
      hmem (List.mem_singleton.mp hb ▸ hab ▸ ha)⟩

theorem length_insertEntry_le (p : Value × Value) (pairs : List (Value × Value)) :
    (insertEntry p pairs).length ≤ pairs.length + 1 := by
  have h := congrArg List.length (entryKeys_insertEntry p pairs)
  split at h <;> simp only [entryKeys, List.length_append, List.length_map] at h
  · omega
  · rw [h, List.length_singleton]

/-- What `insertEntry` keeps of the entries it is given. -/
theorem mem_insertEntry {p r : Value × Value} : ∀ {pairs : List (Value × Value)},
    r ∈ insertEntry p pairs → r = p ∨ r ∈ pairs ∨ ∃ q ∈ pairs, r = (q.1, p.2) := by
  intro pairs
  induction pairs with
  | nil =>
      intro h
      exact .inl (List.mem_singleton.mp h)
  | cons q pairs ih =>
      intro h
      rw [insertEntry] at h
      split at h
      · rcases List.mem_cons.mp h with rfl | h
        · exact .inr (.inr ⟨q, List.mem_cons_self, rfl⟩)
        · exact .inr (.inl (List.mem_cons_of_mem _ h))
      · rcases List.mem_cons.mp h with rfl | h
        · exact .inr (.inl List.mem_cons_self)
        · rcases ih h with h | h | ⟨q', hq', h⟩
          · exact .inl h
          · exact .inr (.inl (List.mem_cons_of_mem _ h))
          · exact .inr (.inr ⟨q', List.mem_cons_of_mem _ hq', h⟩)

theorem nodup_foldl_insertEntry : ∀ (entries : List (Value × Value)) {pairs : List (Value × Value)},
    (entryKeys pairs).Nodup →
      (entryKeys (entries.foldl (fun pairs p => insertEntry p pairs) pairs)).Nodup := by
  intro entries
  induction entries with
  | nil =>
      intro _ h
      exact h
  | cons p entries ih =>
      intro pairs h
      exact ih (nodup_insertEntry h)

/-- A decoded map has no key twice. -/
theorem nodup_dedup (entries : List (Value × Value)) : (entryKeys (dedup entries)).Nodup :=
  nodup_foldl_insertEntry entries List.nodup_nil

theorem length_foldl_insertEntry_le : ∀ (entries pairs : List (Value × Value)),
    (entries.foldl (fun pairs p => insertEntry p pairs) pairs).length ≤
      pairs.length + entries.length := by
  intro entries
  induction entries with
  | nil =>
      intro _
      exact le_rfl
  | cons p entries ih =>
      intro pairs
      have h := ih (insertEntry p pairs)
      have hp := length_insertEntry_le p pairs
      rw [List.foldl_cons, List.length_cons]
      omega

theorem length_dedup_le (entries : List (Value × Value)) :
    (dedup entries).length ≤ entries.length := by
  simpa [dedup] using length_foldl_insertEntry_le entries []

/-- A property of keys and a property of values survive merging. -/
theorem forall_foldl_insertEntry {P Q : Value → Prop} :
    ∀ (entries : List (Value × Value)) {pairs : List (Value × Value)},
      (∀ p ∈ entries, P p.1 ∧ Q p.2) → (∀ p ∈ pairs, P p.1 ∧ Q p.2) →
        ∀ p ∈ entries.foldl (fun pairs p => insertEntry p pairs) pairs, P p.1 ∧ Q p.2 := by
  intro entries
  induction entries with
  | nil =>
      intro _ _ h
      exact h
  | cons e entries ih =>
      intro pairs hentries h
      obtain ⟨he, hentries⟩ := List.forall_mem_cons.mp hentries
      apply ih hentries
      intro p hp
      rcases mem_insertEntry hp with rfl | hp | ⟨q, hq, rfl⟩
      · exact he
      · exact h p hp
      · exact ⟨(h q hq).1, he.2⟩

theorem forall_dedup {P Q : Value → Prop} {entries : List (Value × Value)}
    (h : ∀ p ∈ entries, P p.1 ∧ Q p.2) : ∀ p ∈ dedup entries, P p.1 ∧ Q p.2 :=
  forall_foldl_insertEntry entries h (by simp)

theorem foldl_insertEntry_of_nodup : ∀ (entries pairs : List (Value × Value)),
    (entryKeys (pairs ++ entries)).Nodup →
      entries.foldl (fun pairs p => insertEntry p pairs) pairs = pairs ++ entries := by
  intro entries
  induction entries with
  | nil =>
      intro pairs _
      simp
  | cons p entries ih =>
      intro pairs h
      have hnot : entryKey p ∉ entryKeys pairs := by
        rw [entryKeys_append, entryKeys_cons] at h
        intro hmem
        exact (List.nodup_append.mp h).2.2 _ hmem _ List.mem_cons_self rfl
      rw [List.foldl_cons, insertEntry_of_notMem hnot,
        ih (pairs ++ [p]) (by simpa using h), List.append_assoc,
        List.singleton_append]

/-- Entries with distinct keys are all kept, in their order. -/
theorem dedup_of_nodup {entries : List (Value × Value)} (h : (entryKeys entries).Nodup) :
    dedup entries = entries :=
  foldl_insertEntry_of_nodup entries [] h

/-! ## Items -/

/-- The items of major type 7, and their values. -/
inductive Simple : Bytes → Value → Prop where
  | null : Simple [headByte 7 22] .null
  | half {tail : Bytes} {bits : UInt64} : tail.length = 2 → halfToF64 (ofBe tail) = some bits →
      Simple (headByte 7 25 :: tail) (.float bits)
  | single {tail : Bytes} : tail.length = 4 →
      Simple (headByte 7 26 :: tail) (.float (f32ToF64 (ofBe tail)))
  | double {tail : Bytes} : tail.length = 8 →
      Simple (headByte 7 27 :: tail) (.float (.ofNat (ofBe tail)))

/-- The other items without sub-items. -/
inductive Scalar : Bytes → Value → Prop where
  | uint {n : Nat} {h : Bytes} : Head 0 n h → Scalar h (.int n)
  | nint {n : Nat} {h : Bytes} : Head 1 n h → Scalar h (.int (-1 - n))
  | bytes {b h : Bytes} : Head 2 b.length h → Scalar (h ++ b) (.bytes b)
  | text {s : String} {h : Bytes} : Head 3 (Utf8.bytes s).length h →
      Scalar (h ++ Utf8.bytes s) (.text s)

mutual

/-- `s` is one item at depth `d`, with value `v`. -/
inductive Item : (d : Nat) → (s : Bytes) → (v : Value) → Prop where
  | simple {d : Nat} {s : Bytes} {v : Value} : d ≤ MAX_NESTING_DEPTH → Simple s v → Item d s v
  | scalar {d : Nat} {s : Bytes} {v : Value} : d ≤ MAX_NESTING_DEPTH → Scalar s v → Item d s v
  | list {d : Nat} {h body : Bytes} {items : List Value} : d ≤ MAX_NESTING_DEPTH →
      Head 4 items.length h → Items (d + 1) body items → Item d (h ++ body) (.list items)
  | map {d : Nat} {h body : Bytes} {entries : List (Value × Value)} : d ≤ MAX_NESTING_DEPTH →
      Head 5 entries.length h → Entries (d + 1) body entries →
      Item d (h ++ body) (.map (dedup entries))

/-- Items one after the other. -/
inductive Items : (d : Nat) → (s : Bytes) → (items : List Value) → Prop where
  | nil {d : Nat} : Items d [] []
  | cons {d : Nat} {s t : Bytes} {v : Value} {items : List Value} : Item d s v → Items d t items →
      Items d (s ++ t) (v :: items)

/-- Keys and values in turn. -/
inductive Entries : (d : Nat) → (s : Bytes) → (entries : List (Value × Value)) → Prop where
  | nil {d : Nat} : Entries d [] []
  | cons {d : Nat} {s t u : Bytes} {k v : Value} {entries : List (Value × Value)} : Item d s k →
      Item d t v → Entries d u entries → Entries d (s ++ (t ++ u)) ((k, v) :: entries)

end

theorem Item.ne_nil {d : Nat} {s : Bytes} {v : Value} (h : Item d s v) : s ≠ [] := by
  cases h with
  | simple _ h => cases h <;> exact List.cons_ne_nil _ _
  | scalar _ h =>
      cases h with
      | uint h | nint h => exact h.ne_nil
      | bytes h | text h => exact List.append_ne_nil_of_left_ne_nil h.ne_nil _
  | list _ h _ | map _ h _ => exact List.append_ne_nil_of_left_ne_nil h.ne_nil _

theorem Item.depth_le {d : Nat} {s : Bytes} {v : Value} (h : Item d s v) :
    d ≤ MAX_NESTING_DEPTH := by
  cases h <;> assumption

end Macula.Cbor
