import Macula.Cbor.Head

/-!
# Canonical form

`v.sorted` is `v` with the entries of every map, at every level and inside keys too,
sorted by encoded key.  `plain` encodes a value and leaves the entries of its maps in
the order they have.  The encoder is the composition of the two
(`canon_eq_plain_sorted`): it never looks at an order of entries but the sorted one.

`plain` is a self-delimiting code over all values, repeated keys included
(`plain_unique`).  So two values have equal encodings exactly when they agree up to
the order of map entries (`canon_eq_canon_iff`), which is what a signature over an
encoding binds.
-/

namespace Macula.Cbor

/-! ## Sorting every map -/

mutual

/-- `v` with the entries of every map in key order. -/
def Value.sorted : Value → Value
  | .list items => .list (sortedItems items)
  | .map pairs => .map (keySort entryKey (sortedPairs pairs))
  | v => v

def sortedItems : List Value → List Value
  | [] => []
  | v :: items => v.sorted :: sortedItems items

def sortedPairs : List (Value × Value) → List (Value × Value)
  | [] => []
  | (k, v) :: pairs => (k.sorted, v.sorted) :: sortedPairs pairs

end

/-- An entry with key and value sorted. -/
def sortedEntry (p : Value × Value) : Value × Value := (p.1.sorted, p.2.sorted)

theorem sortedItems_eq : ∀ (items : List Value), sortedItems items = items.map Value.sorted := by
  intro items
  induction items with
  | nil => rfl
  | cons v items ih => rw [sortedItems, ih, List.map_cons]

theorem sortedPairs_eq : ∀ (pairs : List (Value × Value)),
    sortedPairs pairs = pairs.map sortedEntry
  | [] => rfl
  | (k, v) :: pairs => by rw [sortedPairs, sortedPairs_eq pairs, List.map_cons, sortedEntry]

@[simp] theorem Value.sorted_list (items : List Value) :
    (Value.list items).sorted = .list (items.map Value.sorted) := by
  rw [Value.sorted, sortedItems_eq]

@[simp] theorem Value.sorted_map (pairs : List (Value × Value)) :
    (Value.map pairs).sorted = .map (keySort entryKey (pairs.map sortedEntry)) := by
  rw [Value.sorted, sortedPairs_eq]

@[simp] theorem Value.sorted_int (n : Int) : (Value.int n).sorted = .int n :=
  rfl

@[simp] theorem Value.sorted_bytes (b : Bytes) : (Value.bytes b).sorted = .bytes b :=
  rfl

@[simp] theorem Value.sorted_text (s : String) : (Value.text s).sorted = .text s :=
  rfl

@[simp] theorem Value.sorted_null : Value.null.sorted = .null :=
  rfl

@[simp] theorem Value.sorted_float (bits : UInt64) : (Value.float bits).sorted = .float bits :=
  rfl

/-- Sorting first does not change the encoding. -/
theorem canon_sorted (v : Value) : canon v.sorted = canon v := by
  induction v using Value.induct with
  | list items ih =>
      rw [Value.sorted_list, canon_list, canon_list, List.length_map, List.flatMap_map]
      congr 1
      exact List.flatMap_congr ih
  | map pairs ih =>
      have hentry : (pairs.map sortedEntry).map canonEntry = pairs.map canonEntry := by
        rw [List.map_map]
        apply List.map_congr_left
        intro p hp
        obtain ⟨hk, hv⟩ := ih p hp
        simp only [Function.comp, canonEntry, sortedEntry, hk, hv]
      have hsort : (keySort entryKey (pairs.map sortedEntry)).map canonEntry =
          keySort Prod.fst (pairs.map canonEntry) := by
        rw [map_keySort entryKey canonEntry Prod.fst (fun _ => rfl), hentry]
      rw [Value.sorted_map, canon_map, canon_map, length_keySort, List.length_map, hsort,
        sortedEntries, keySort_keySort, sortedEntries]
  | _ => simp

theorem entryKey_sortedEntry (p : Value × Value) : entryKey (sortedEntry p) = entryKey p :=
  canon_sorted p.1

/-! ## Encoding in the given order -/

mutual

/-- The bytes of `v`, with the entries of its maps in the order they have. -/
def plain : Value → Bytes
  | .list items => encodeHead 4 items.length ++ plainItems items
  | .map pairs => encodeHead 5 pairs.length ++ plainPairs pairs
  | v => canon v

def plainItems : List Value → Bytes
  | [] => []
  | v :: items => plain v ++ plainItems items

def plainPairs : List (Value × Value) → Bytes
  | [] => []
  | (k, v) :: pairs => plain k ++ (plain v ++ plainPairs pairs)

end

theorem plainItems_eq : ∀ (items : List Value), plainItems items = items.flatMap plain := by
  intro items
  induction items with
  | nil => rfl
  | cons v items ih => rw [plainItems, ih, List.flatMap_cons]

theorem plainPairs_eq : ∀ (pairs : List (Value × Value)),
    plainPairs pairs = pairs.flatMap fun p => plain p.1 ++ plain p.2
  | [] => rfl
  | (k, v) :: pairs => by
      rw [plainPairs, plainPairs_eq pairs, List.flatMap_cons, List.append_assoc]

/-- **Encoding is sorting, then writing in order.** -/
theorem canon_eq_plain_sorted (v : Value) : canon v = plain v.sorted := by
  induction v using Value.induct with
  | list items ih =>
      rw [canon_list, Value.sorted_list, plain, plainItems_eq, List.length_map, List.flatMap_map]
      congr 1
      exact List.flatMap_congr ih
  | map pairs ih =>
      have hsort : keySort Prod.fst (pairs.map canonEntry) =
          (keySort entryKey pairs).map canonEntry :=
        (map_keySort entryKey canonEntry Prod.fst (fun _ => rfl) pairs).symm
      have hsort' : keySort entryKey (pairs.map sortedEntry) =
          (keySort entryKey pairs).map sortedEntry :=
        (map_keySort entryKey sortedEntry entryKey entryKey_sortedEntry pairs).symm
      rw [canon_map, Value.sorted_map, plain, plainPairs_eq, length_keySort, List.length_map,
        sortedEntries, hsort, hsort', List.flatMap_map, List.flatMap_map]
      congr 1
      apply List.flatMap_congr
      intro p hp
      obtain ⟨hk, hv⟩ := ih p ((mem_keySort entryKey).mp hp)
      simp only [canonEntry, sortedEntry, hk, hv]
  | _ => simp [plain]

/-! ## Values that fit in memory -/

/-- The length of a container is a `usize`, as the length of every `Vec` and `String` is. -/
def LenOk : Value → Prop
  | .bytes b => b.length < 2 ^ 64
  | .text s => (Utf8.bytes s).length < 2 ^ 64
  | .list items => items.length < 2 ^ 64
  | .map pairs => pairs.length < 2 ^ 64
  | _ => True

instance (v : Value) : Decidable (LenOk v) :=
  match v with
  | .bytes b => inferInstanceAs (Decidable (b.length < 2 ^ 64))
  | .text s => inferInstanceAs (Decidable ((Utf8.bytes s).length < 2 ^ 64))
  | .list items => inferInstanceAs (Decidable (items.length < 2 ^ 64))
  | .map pairs => inferInstanceAs (Decidable (pairs.length < 2 ^ 64))
  | .int _ | .null | .float _ => inferInstanceAs (Decidable True)

/-- Every byte string, text, list and map in `v` has a 64-bit length. -/
def Value.Sized (v : Value) : Prop := v.All LenOk

/-- The values a program can hold and the encoder accepts. -/
structure Value.Encodable (v : Value) : Prop where
  ints : v.IntsInRange
  sized : v.Sized

theorem Value.Encodable.item {items : List Value} (h : (Value.list items).Encodable) {v : Value}
    (hv : v ∈ items) : v.Encodable :=
  ⟨(Value.all_list.mp h.ints).2 v hv, (Value.all_list.mp h.sized).2 v hv⟩

theorem Value.Encodable.key {pairs : List (Value × Value)} (h : (Value.map pairs).Encodable)
    {p : Value × Value} (hp : p ∈ pairs) : p.1.Encodable :=
  ⟨((Value.all_map.mp h.ints).2 p hp).1, ((Value.all_map.mp h.sized).2 p hp).1⟩

theorem Value.Encodable.value {pairs : List (Value × Value)} (h : (Value.map pairs).Encodable)
    {p : Value × Value} (hp : p ∈ pairs) : p.2.Encodable :=
  ⟨((Value.all_map.mp h.ints).2 p hp).2, ((Value.all_map.mp h.sized).2 p hp).2⟩

/-! ## The head of an encoding -/

/-- The major type of a value. -/
def Value.major : Value → UInt8
  | .int n => if n ≥ 0 then 0 else 1
  | .bytes _ => 2
  | .text _ => 3
  | .list _ => 4
  | .map _ => 5
  | .null | .float _ => 7

/-- The argument of a value's head. -/
def Value.arg : Value → Nat
  | .int n => if n ≥ 0 then n.toNat else (-1 - n).toNat
  | .bytes b => b.length
  | .text s => (Utf8.bytes s).length
  | .list items => items.length
  | .map pairs => pairs.length
  | .null => 22
  | .float bits => bits.toNat

/-- The head bytes of a value. -/
def Value.headBytes : Value → Bytes
  | .float bits => 0xFB :: beBytes 8 bits.toNat
  | v => encodeHead v.major v.arg

/-- What follows the head. -/
def Value.body : Value → Bytes
  | .bytes b => b
  | .text s => Utf8.bytes s
  | .list items => plainItems items
  | .map pairs => plainPairs pairs
  | _ => []

theorem Value.major_lt (v : Value) : v.major < 8 := by
  cases v with
  | int n =>
      rw [Value.major]
      split <;> decide
  | bytes _ | text _ | list _ | map _ | null | float _ =>
      rw [Value.major]
      decide

theorem plain_eq_head_body (v : Value) : plain v = v.headBytes ++ v.body := by
  cases v with
  | int n =>
      simp only [plain, canon, canonInt, Value.headBytes, Value.body, Value.major, Value.arg,
        List.append_nil]
      split <;> rfl
  | null => rfl
  | float bits => simp [plain, canon, Value.headBytes, Value.body]
  | bytes b => rw [plain, canon] <;> simp [Value.headBytes, Value.body, Value.major, Value.arg]
  | text s => rw [plain, canon] <;> simp [Value.headBytes, Value.body, Value.major, Value.arg]
  | list items => rw [plain]; rfl
  | map pairs => rw [plain]; rfl

theorem Value.head {v : Value} (h : v.Encodable) : Head v.major v.arg v.headBytes := by
  cases v with
  | float bits => exact @head_wide 7 27 8 bits.toNat rfl (by decide) bits.toNat_lt
  | int n =>
      have hn := h.ints.self
      simp only [IntOk] at hn
      refine head_encodeHead _ ?_
      rw [Value.arg]
      split <;> omega
  | null => exact head_encodeHead _ (by decide)
  | bytes b => exact head_encodeHead _ h.sized.self
  | text s => exact head_encodeHead _ h.sized.self
  | list items => exact head_encodeHead _ h.sized.self
  | map pairs => exact head_encodeHead _ h.sized.self

/-- Two values of one constructor whose heads carry the same argument. -/
inductive SameHead : Value → Value → Prop where
  | int (n : Int) : SameHead (.int n) (.int n)
  | bytes {b c : Bytes} : b.length = c.length → SameHead (.bytes b) (.bytes c)
  | text {s t : String} : (Utf8.bytes s).length = (Utf8.bytes t).length →
      SameHead (.text s) (.text t)
  | list {items items' : List Value} : items.length = items'.length →
      SameHead (.list items) (.list items')
  | map {pairs pairs' : List (Value × Value)} : pairs.length = pairs'.length →
      SameHead (.map pairs) (.map pairs')
  | null : SameHead .null .null
  | float (bits : UInt64) : SameHead (.float bits) (.float bits)

theorem Value.major_int_ne {w : Value} (n : Int) (hw : 2 ≤ w.major.toNat) :
    (Value.int n).major ≠ w.major := by
  intro h
  rw [← h, Value.major] at hw
  split at hw <;> exact absurd hw (by decide)

/-- The major type of an integer is its sign. -/
theorem Value.int_inj {m n : Int} (hmajor : (Value.int m).major = (Value.int n).major)
    (harg : (Value.int m).arg = (Value.int n).arg) : m = n := by
  simp only [Value.major, Value.arg] at hmajor harg
  split at hmajor
  · split at hmajor
    · simp only [*, if_true] at harg
      omega
    · exact absurd hmajor (by decide)
  · split at hmajor
    · exact absurd hmajor (by decide)
    · simp only [*, if_false] at harg
      omega

/-- The head tells the constructor and the argument; null and floats share a major type
and differ in the head byte. -/
theorem sameHead_of_eq {v w : Value} (hmajor : v.major = w.major) (harg : v.arg = w.arg)
    (hhead : v.headBytes = w.headBytes) : SameHead v w := by
  cases v with
  | int m =>
      cases w with
      | int n =>
          rw [Value.int_inj hmajor harg]
          exact .int n
      | bytes _ | text _ | list _ | map _ | null | float _ =>
          exact absurd hmajor (Value.major_int_ne m (by simp [Value.major]))
  | bytes b =>
      cases w with
      | bytes c => exact .bytes harg
      | int n => exact absurd hmajor.symm (Value.major_int_ne n (by simp [Value.major]))
      | text _ | list _ | map _ | null | float _ => simp [Value.major] at hmajor
  | text s =>
      cases w with
      | text t => exact .text harg
      | int n => exact absurd hmajor.symm (Value.major_int_ne n (by simp [Value.major]))
      | bytes _ | list _ | map _ | null | float _ => simp [Value.major] at hmajor
  | list items =>
      cases w with
      | list items' => exact .list harg
      | int n => exact absurd hmajor.symm (Value.major_int_ne n (by simp [Value.major]))
      | bytes _ | text _ | map _ | null | float _ => simp [Value.major] at hmajor
  | map pairs =>
      cases w with
      | map pairs' => exact .map harg
      | int n => exact absurd hmajor.symm (Value.major_int_ne n (by simp [Value.major]))
      | bytes _ | text _ | list _ | null | float _ => simp [Value.major] at hmajor
  | null =>
      cases w with
      | null => exact .null
      | float bits =>
          exact absurd (congrArg List.length hhead)
            (by simp [Value.headBytes, encodeHead, Value.arg])
      | int n => exact absurd hmajor.symm (Value.major_int_ne n (by simp [Value.major]))
      | bytes _ | text _ | list _ | map _ => simp [Value.major] at hmajor
  | float bits =>
      cases w with
      | float bits' =>
          rw [UInt64.toNat_inj.mp harg]
          exact .float bits'
      | null =>
          exact absurd (congrArg List.length hhead)
            (by simp [Value.headBytes, encodeHead, Value.arg])
      | int n => exact absurd hmajor.symm (Value.major_int_ne n (by simp [Value.major]))
      | bytes _ | text _ | list _ | map _ => simp [Value.major] at hmajor

/-- Two encodings that start one byte string start with the same head. -/
theorem plain_head_unique {v w : Value} (hv : v.Encodable) (hw : w.Encodable) {r r' : Bytes}
    (heq : plain v ++ r = plain w ++ r') : SameHead v w ∧ v.body ++ r = w.body ++ r' := by
  rw [plain_eq_head_body v, plain_eq_head_body w, List.append_assoc, List.append_assoc] at heq
  obtain ⟨hmajor, harg, hhead, hbody⟩ :=
    Head.unique v.major_lt w.major_lt (Value.head hv) (Value.head hw) heq
  exact ⟨sameHead_of_eq hmajor harg hhead, hbody⟩

/-! ## The code is self-delimiting -/

mutual

/-- **At most one encoding starts a byte string.** -/
theorem plain_unique : ∀ {v w : Value} {r r' : Bytes}, v.Encodable → w.Encodable →
    plain v ++ r = plain w ++ r' → v = w ∧ r = r'
  | .int _, _, _, _, hv, hw, heq => by
      obtain ⟨hhead, hbody⟩ := plain_head_unique hv hw heq
      cases hhead
      exact ⟨rfl, hbody⟩
  | .bytes _, _, _, _, hv, hw, heq => by
      obtain ⟨hhead, hbody⟩ := plain_head_unique hv hw heq
      cases hhead with
      | bytes hlen =>
          obtain ⟨hb, hr⟩ := List.append_inj hbody hlen
          exact ⟨congrArg Value.bytes hb, hr⟩
  | .text _, _, _, _, hv, hw, heq => by
      obtain ⟨hhead, hbody⟩ := plain_head_unique hv hw heq
      cases hhead with
      | text hlen =>
          obtain ⟨hs, hr⟩ := List.append_inj hbody hlen
          exact ⟨congrArg Value.text (Utf8.bytes_inj hs), hr⟩
  | .list items, _, _, _, hv, hw, heq => by
      obtain ⟨hhead, hbody⟩ := plain_head_unique hv hw heq
      cases hhead with
      | list hlen =>
          obtain ⟨hitems, hr⟩ := @plainItems_unique items _ _ _ (fun v h => hv.item h)
            (fun v h => hw.item h) hlen hbody
          exact ⟨congrArg Value.list hitems, hr⟩
  | .map pairs, _, _, _, hv, hw, heq => by
      obtain ⟨hhead, hbody⟩ := plain_head_unique hv hw heq
      cases hhead with
      | map hlen =>
          obtain ⟨hpairs, hr⟩ := @plainPairs_unique pairs _ _ _
            (fun p h => ⟨hv.key h, hv.value h⟩) (fun p h => ⟨hw.key h, hw.value h⟩) hlen hbody
          exact ⟨congrArg Value.map hpairs, hr⟩
  | .null, _, _, _, hv, hw, heq => by
      obtain ⟨hhead, hbody⟩ := plain_head_unique hv hw heq
      cases hhead
      exact ⟨rfl, hbody⟩
  | .float _, _, _, _, hv, hw, heq => by
      obtain ⟨hhead, hbody⟩ := plain_head_unique hv hw heq
      cases hhead
      exact ⟨rfl, hbody⟩

theorem plainItems_unique : ∀ {items items' : List Value} {r r' : Bytes},
    (∀ v ∈ items, v.Encodable) → (∀ v ∈ items', v.Encodable) → items.length = items'.length →
    plainItems items ++ r = plainItems items' ++ r' → items = items' ∧ r = r'
  | [], [], _, _, _, _, _, heq => ⟨rfl, heq⟩
  | v :: items, v' :: items', r, r', h, h', hlen, heq => by
      rw [List.forall_mem_cons] at h h'
      simp only [plainItems, List.append_assoc] at heq
      obtain ⟨hv, hrest⟩ := plain_unique h.1 h'.1 heq
      obtain ⟨hitems, hr⟩ := plainItems_unique h.2 h'.2 (by simpa using hlen) hrest
      exact ⟨by rw [hv, hitems], hr⟩

theorem plainPairs_unique : ∀ {pairs pairs' : List (Value × Value)} {r r' : Bytes},
    (∀ p ∈ pairs, p.1.Encodable ∧ p.2.Encodable) →
    (∀ p ∈ pairs', p.1.Encodable ∧ p.2.Encodable) → pairs.length = pairs'.length →
    plainPairs pairs ++ r = plainPairs pairs' ++ r' → pairs = pairs' ∧ r = r'
  | [], [], _, _, _, _, _, heq => ⟨rfl, heq⟩
  | (k, v) :: pairs, (k', v') :: pairs', r, r', h, h', hlen, heq => by
      rw [List.forall_mem_cons] at h h'
      simp only [plainPairs, List.append_assoc] at heq
      obtain ⟨hk, hrest⟩ := plain_unique h.1.1 h'.1.1 heq
      obtain ⟨hv, hrest⟩ := plain_unique h.1.2 h'.1.2 hrest
      obtain ⟨hpairs, hr⟩ := plainPairs_unique h.2 h'.2 (by simpa using hlen) hrest
      have hkv : (k, v) = (k', v') := Prod.ext hk hv
      exact ⟨by rw [hkv, hpairs], hr⟩

end

/-! ## Encodings and equality up to the order of entries -/

/-- Sorting keeps every predicate that does not see the order of a map's entries. -/
theorem Value.all_sorted {P : Value → Prop}
    (hlist : ∀ items, P (.list (items.map Value.sorted)) ↔ P (.list items))
    (hmap : ∀ pairs, P (.map (keySort entryKey (pairs.map sortedEntry))) ↔ P (.map pairs))
    (v : Value) : v.sorted.All P ↔ v.All P := by
  induction v using Value.induct with
  | list items ih =>
      rw [Value.sorted_list, Value.all_list, Value.all_list, hlist, List.forall_mem_map]
      exact and_congr_right fun _ => forall₂_congr ih
  | map pairs ih =>
      rw [Value.sorted_map, Value.all_map, Value.all_map, hmap]
      simp only [mem_keySort, List.forall_mem_map, sortedEntry]
      exact and_congr_right fun _ => forall₂_congr fun p hp => and_congr (ih p hp).1 (ih p hp).2
  | _ => simp

theorem Value.inRange_sorted {v : Value} : v.sorted.IntsInRange ↔ v.IntsInRange :=
  Value.all_sorted (fun _ => Iff.rfl) (fun _ => Iff.rfl) v

theorem Value.sized_sorted {v : Value} : v.sorted.Sized ↔ v.Sized :=
  Value.all_sorted (fun _ => by simp [LenOk]) (fun _ => by simp [LenOk]) v

theorem Value.encodable_sorted {v : Value} : v.sorted.Encodable ↔ v.Encodable :=
  ⟨fun h => ⟨Value.inRange_sorted.mp h.ints, Value.sized_sorted.mp h.sized⟩,
    fun h => ⟨Value.inRange_sorted.mpr h.ints, Value.sized_sorted.mpr h.sized⟩⟩

/-- Sorting twice is sorting once. -/
@[simp] theorem Value.sorted_sorted (v : Value) : v.sorted.sorted = v.sorted := by
  induction v using Value.induct with
  | list items ih =>
      simp only [Value.sorted_list, List.map_map]
      exact congrArg Value.list (List.map_congr_left fun v hv => ih v hv)
  | map pairs ih =>
      have hentries : (pairs.map sortedEntry).map sortedEntry = pairs.map sortedEntry := by
        rw [List.map_map]
        refine List.map_congr_left fun p hp => ?_
        simp only [Function.comp, sortedEntry, (ih p hp).1, (ih p hp).2]
      rw [Value.sorted_map, Value.sorted_map,
        map_keySort entryKey sortedEntry entryKey entryKey_sortedEntry, hentries, keySort_keySort]
  | _ => simp

/-- **An encoding determines its value up to the order of map entries.** -/
theorem canon_eq_canon_iff {v w : Value} (hv : v.Encodable) (hw : w.Encodable) :
    canon v = canon w ↔ v.sorted = w.sorted := by
  constructor
  · intro heq
    rw [canon_eq_plain_sorted, canon_eq_plain_sorted] at heq
    exact (plain_unique (Value.encodable_sorted.mpr hv) (Value.encodable_sorted.mpr hw)
      (congrArg (· ++ []) heq)).1
  · intro heq
    rw [← canon_sorted v, ← canon_sorted w, heq]

/-! ## An encoding that fits in memory -/

theorem encodeHead_ne_nil (major : UInt8) (n : Nat) : encodeHead major n ≠ [] := by
  unfold encodeHead
  repeat' split
  all_goals exact List.cons_ne_nil _ _

theorem length_plain_pos (v : Value) : 0 < (plain v).length := by
  rw [plain_eq_head_body, List.length_append]
  refine Nat.add_pos_left (List.length_pos_of_ne_nil ?_) _
  cases v with
  | float bits => exact List.cons_ne_nil _ _
  | _ => exact encodeHead_ne_nil _ _

theorem length_plainItems : ∀ (items : List Value),
    items.length ≤ (plainItems items).length ∧
      ∀ v ∈ items, (plain v).length ≤ (plainItems items).length := by
  intro items
  induction items with
  | nil => simp
  | cons v items ih =>
      obtain ⟨hlen, hitems⟩ := ih
      have hv := length_plain_pos v
      simp only [plainItems, List.length_append, List.length_cons, List.forall_mem_cons]
      refine ⟨by omega, by omega, fun w hw => ?_⟩
      have := hitems w hw
      omega

theorem length_plainPairs : ∀ (pairs : List (Value × Value)),
    pairs.length ≤ (plainPairs pairs).length ∧
      ∀ p ∈ pairs, (plain p.1).length ≤ (plainPairs pairs).length ∧
        (plain p.2).length ≤ (plainPairs pairs).length
  | [] => by simp
  | (k, v) :: pairs => by
      obtain ⟨hlen, hpairs⟩ := length_plainPairs pairs
      have hk := length_plain_pos k
      simp only [plainPairs, List.length_append, List.length_cons, List.forall_mem_cons]
      refine ⟨by omega, ⟨by omega, by omega⟩, fun p hp => ?_⟩
      have := hpairs p hp
      omega

theorem Value.sized_of_length_plain (v : Value) : (plain v).length < 2 ^ 64 → v.Sized := by
  induction v using Value.induct with
  | bytes b | text s =>
      intro h
      rw [plain_eq_head_body, List.length_append] at h
      simp only [Value.body] at h
      simp only [Value.Sized, Value.all_bytes, Value.all_text, LenOk]
      omega
  | list items ih =>
      intro h
      obtain ⟨hlen, hitems⟩ := length_plainItems items
      rw [plain_eq_head_body, List.length_append] at h
      simp only [Value.body] at h
      refine Value.all_list.mpr ⟨?_, fun v hv => ih v hv ?_⟩
      · rw [LenOk]
        omega
      · have := hitems v hv
        omega
  | map pairs ih =>
      intro h
      obtain ⟨hlen, hpairs⟩ := length_plainPairs pairs
      rw [plain_eq_head_body, List.length_append] at h
      simp only [Value.body] at h
      refine Value.all_map.mpr ⟨?_, fun p hp => ?_⟩
      · rw [LenOk]
        omega
      · have := hpairs p hp
        exact ⟨(ih p hp).1 (by omega), (ih p hp).2 (by omega)⟩
  | _ => simp [Value.Sized, LenOk]

/-- A value whose encoding fits in memory fits in memory. -/
theorem Value.sized_of_length_canon {v : Value} (h : (canon v).length < 2 ^ 64) : v.Sized := by
  rw [canon_eq_plain_sorted] at h
  exact Value.sized_sorted.mp (v.sorted.sized_of_length_plain h)

end Macula.Cbor
