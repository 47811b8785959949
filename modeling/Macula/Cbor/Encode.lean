import Macula.Lib.KeySort
import Macula.Cbor.Value

/-!
# The deterministic encoder

`encode` writes a value: minimal-length heads, raw bytes, and map entries sorted by
the bytes of their own encoded key, with a stable sort.  The only failure is an
integer outside `-(2^64)..=2^64 - 1`.

The encoder appends to a buffer in the source and returns its bytes here.  On a value
whose integers are in range it computes a total function, `canon`
(`encodeValue_eq_ok`), and everything later is about `canon`.
-/

namespace Macula.Cbor

/-- An integer outside the encodable range. -/
structure IntOutOfRange where
  n : Int
deriving DecidableEq

/-- The first byte of an item: the major type over five bits of additional info. -/
def headByte (major ai : UInt8) : UInt8 := major <<< 5 ||| ai

/-- The head of an item: its major type and the shortest form of its count. -/
def encodeHead (major : UInt8) (n : Nat) : Bytes :=
  if n ≤ 23 then [headByte major (.ofNat n)]
  else if n ≤ 0xFF then headByte major 24 :: beBytes 1 n
  else if n ≤ 0xFFFF then headByte major 25 :: beBytes 2 n
  else if n ≤ 0xFFFFFFFF then headByte major 26 :: beBytes 4 n
  else headByte major 27 :: beBytes 8 n

def U64_MAX : Nat := 2 ^ 64 - 1

def encodeInt (n : Int) : Outcome IntOutOfRange Bytes :=
  if n ≥ 0 then
    if n ≤ U64_MAX then .ok (encodeHead 0 n.toNat) else .err ⟨n⟩
  else
    let count := -1 - n
    if 0 ≤ count ∧ count ≤ U64_MAX then .ok (encodeHead 1 count.toNat) else .err ⟨n⟩

/-- The body of a map: the encoded entries, sorted by their encoded keys. -/
def sortedEntries (encoded : List (Bytes × Bytes)) : Bytes :=
  (keySort Prod.fst encoded).flatMap fun p => p.1 ++ p.2

mutual

def encodeValue : Value → Outcome IntOutOfRange Bytes
  | .int n => encodeInt n
  | .bytes b => .ok (encodeHead 2 b.length ++ b)
  | .text s => .ok (encodeHead 3 (Utf8.bytes s).length ++ Utf8.bytes s)
  | .list items => do
      let body ← encodeItems items
      return encodeHead 4 items.length ++ body
  | .map pairs => do
      let encoded ← encodePairs pairs
      return encodeHead 5 encoded.length ++ sortedEntries encoded
  | .null => .ok [0xF6]
  | .float bits => .ok (0xFB :: beBytes 8 bits.toNat)

/-- The items of a list, one after the other. -/
def encodeItems : List Value → Outcome IntOutOfRange Bytes
  | [] => .ok []
  | v :: items => do
      let head ← encodeValue v
      let tail ← encodeItems items
      return head ++ tail

/-- The entries of a map, each key and value encoded on its own. -/
def encodePairs : List (Value × Value) → Outcome IntOutOfRange (List (Bytes × Bytes))
  | [] => .ok []
  | (k, v) :: pairs => do
      let kbuf ← encodeValue k
      let vbuf ← encodeValue v
      let encoded ← encodePairs pairs
      return (kbuf, vbuf) :: encoded

end

/-- Encode `value` as deterministic CBOR. -/
def encode (value : Value) : Outcome IntOutOfRange Bytes := encodeValue value

/-! ## The encoding of a value whose integers are in range -/

/-- An integer the format has room for. -/
def IntOk : Value → Prop
  | .int n => -(2 ^ 64) ≤ n ∧ n ≤ 2 ^ 64 - 1
  | _ => True

instance (v : Value) : Decidable (IntOk v) :=
  match v with
  | .int n => inferInstanceAs (Decidable (-(2 ^ 64) ≤ n ∧ n ≤ 2 ^ 64 - 1))
  | .bytes _ | .text _ | .list _ | .map _ | .null | .float _ => inferInstanceAs (Decidable True)

/-- Every integer in `v`, at any level, is in range. -/
def Value.IntsInRange (v : Value) : Prop := v.All IntOk

@[simp] theorem Value.inRange_null : Value.null.IntsInRange := Value.all_null.mpr trivial

@[simp] theorem Value.inRange_bytes (b : Bytes) : (Value.bytes b).IntsInRange :=
  Value.all_bytes.mpr trivial

@[simp] theorem Value.inRange_text (t : String) : (Value.text t).IntsInRange :=
  Value.all_text.mpr trivial

theorem Value.inRange_list {items : List Value} :
    (Value.list items).IntsInRange ↔ ∀ v ∈ items, v.IntsInRange :=
  Value.all_list.trans (and_iff_right trivial)

theorem Value.inRange_map {pairs : List (Value × Value)} :
    (Value.map pairs).IntsInRange ↔ ∀ p ∈ pairs, p.1.IntsInRange ∧ p.2.IntsInRange :=
  Value.all_map.trans (and_iff_right trivial)

/-- A field that is null when there is nothing to put in it. -/
theorem Value.inRange_optional {α : Type} {f : α → Value} (h : ∀ a, (f a).IntsInRange)
    (a : Option α) : ((a.map f).getD .null).IntsInRange := by
  cases a with
  | none => exact Value.inRange_null
  | some a => exact h a

/-- The encoding of an integer in range. -/
def canonInt (n : Int) : Bytes :=
  if n ≥ 0 then encodeHead 0 n.toNat else encodeHead 1 (-1 - n).toNat

mutual

/-- The bytes of `v`, without the range check. -/
def canon : Value → Bytes
  | .int n => canonInt n
  | .bytes b => encodeHead 2 b.length ++ b
  | .text s => encodeHead 3 (Utf8.bytes s).length ++ Utf8.bytes s
  | .list items => encodeHead 4 items.length ++ canonItems items
  | .map pairs => encodeHead 5 pairs.length ++ sortedEntries (canonPairs pairs)
  | .null => [0xF6]
  | .float bits => 0xFB :: beBytes 8 bits.toNat

def canonItems : List Value → Bytes
  | [] => []
  | v :: items => canon v ++ canonItems items

def canonPairs : List (Value × Value) → List (Bytes × Bytes)
  | [] => []
  | (k, v) :: pairs => (canon k, canon v) :: canonPairs pairs

end

/-- The encoded key of an entry, by which a map is sorted and deduplicated. -/
def entryKey (p : Value × Value) : Bytes := canon p.1

/-- An entry, key and value encoded. -/
def canonEntry (p : Value × Value) : Bytes × Bytes := (canon p.1, canon p.2)

theorem canonItems_eq : ∀ (items : List Value), canonItems items = items.flatMap canon := by
  intro items
  induction items with
  | nil => rfl
  | cons v items ih => rw [canonItems, ih, List.flatMap_cons]

theorem canonPairs_eq : ∀ (pairs : List (Value × Value)), canonPairs pairs = pairs.map canonEntry
  | [] => rfl
  | (k, v) :: pairs => by rw [canonPairs, canonPairs_eq pairs, List.map_cons, canonEntry]

@[simp] theorem canon_list (items : List Value) :
    canon (.list items) = encodeHead 4 items.length ++ items.flatMap canon := by
  rw [canon, canonItems_eq]

@[simp] theorem canon_map (pairs : List (Value × Value)) :
    canon (.map pairs) = encodeHead 5 pairs.length ++ sortedEntries (pairs.map canonEntry) := by
  rw [canon, canonPairs_eq]

theorem encodeInt_eq_ok {n : Int} {b : Bytes} :
    encodeInt n = .ok b ↔ IntOk (.int n) ∧ b = canonInt n := by
  have hmax : (U64_MAX : Int) = 2 ^ 64 - 1 := by decide
  simp only [encodeInt, canonInt, IntOk, hmax]
  split
  · split
    · constructor
      · intro h
        exact ⟨⟨by omega, by omega⟩, (Outcome.ok.inj h).symm⟩
      · rintro ⟨-, rfl⟩
        rfl
    · constructor
      · intro h
        cases h
      · rintro ⟨⟨-, h⟩, -⟩
        omega
  · split
    · constructor
      · intro h
        exact ⟨⟨by omega, by omega⟩, (Outcome.ok.inj h).symm⟩
      · rintro ⟨-, rfl⟩
        rfl
    · constructor
      · intro h
        cases h
      · rintro ⟨⟨h, -⟩, -⟩
        omega

mutual

theorem encodeValue_eq_ok : ∀ {v : Value} {b : Bytes},
    encodeValue v = .ok b ↔ v.IntsInRange ∧ b = canon v
  | .int n, b => by
      rw [encodeValue, canon, Value.IntsInRange, Value.all_int]
      exact encodeInt_eq_ok
  | .bytes _, _ => by simp [encodeValue, canon, Value.IntsInRange, IntOk, eq_comm]
  | .text _, _ => by simp [encodeValue, canon, Value.IntsInRange, IntOk, eq_comm]
  | .list items, b => by
      simp only [encodeValue, Outcome.bind_eq_ok, @encodeItems_eq_ok items,
        Outcome.pure_eq, Outcome.ok.injEq, Value.IntsInRange, Value.all_list, canon]
      constructor
      · rintro ⟨body, ⟨hall, rfl⟩, rfl⟩
        exact ⟨⟨trivial, hall⟩, rfl⟩
      · rintro ⟨⟨-, hall⟩, rfl⟩
        exact ⟨_, ⟨hall, rfl⟩, rfl⟩
  | .map pairs, b => by
      simp only [encodeValue, Outcome.bind_eq_ok, @encodePairs_eq_ok pairs,
        Outcome.pure_eq, Outcome.ok.injEq, Value.IntsInRange, Value.all_map, canon]
      constructor
      · rintro ⟨encoded, ⟨hall, rfl⟩, rfl⟩
        exact ⟨⟨trivial, hall⟩, by simp [canonPairs_eq]⟩
      · rintro ⟨⟨-, hall⟩, rfl⟩
        exact ⟨_, ⟨hall, rfl⟩, by simp [canonPairs_eq]⟩
  | .null, _ => by simp [encodeValue, canon, Value.IntsInRange, IntOk, eq_comm]
  | .float _, _ => by simp [encodeValue, canon, Value.IntsInRange, IntOk, eq_comm]

theorem encodeItems_eq_ok : ∀ {items : List Value} {b : Bytes},
    encodeItems items = .ok b ↔ (∀ v ∈ items, v.IntsInRange) ∧ b = canonItems items
  | [], _ => by simp [encodeItems, canonItems, eq_comm]
  | v :: items, b => by
      simp only [encodeItems, Outcome.bind_eq_ok, @encodeValue_eq_ok v,
        @encodeItems_eq_ok items, Outcome.pure_eq, Outcome.ok.injEq,
        List.forall_mem_cons, canonItems]
      constructor
      · rintro ⟨_, ⟨hv, rfl⟩, _, ⟨hall, rfl⟩, rfl⟩
        exact ⟨⟨hv, hall⟩, rfl⟩
      · rintro ⟨⟨hv, hall⟩, rfl⟩
        exact ⟨_, ⟨hv, rfl⟩, _, ⟨hall, rfl⟩, rfl⟩

theorem encodePairs_eq_ok : ∀ {pairs : List (Value × Value)} {encoded : List (Bytes × Bytes)},
    encodePairs pairs = .ok encoded ↔
      (∀ p ∈ pairs, p.1.IntsInRange ∧ p.2.IntsInRange) ∧ encoded = canonPairs pairs
  | [], _ => by simp [encodePairs, canonPairs, eq_comm]
  | (k, v) :: pairs, b => by
      simp only [encodePairs, Outcome.bind_eq_ok, @encodeValue_eq_ok k,
        @encodeValue_eq_ok v, @encodePairs_eq_ok pairs, Outcome.pure_eq,
        Outcome.ok.injEq, List.forall_mem_cons, canonPairs]
      constructor
      · rintro ⟨_, ⟨hk, rfl⟩, _, ⟨hv, rfl⟩, _, ⟨hall, rfl⟩, rfl⟩
        exact ⟨⟨⟨hk, hv⟩, hall⟩, rfl⟩
      · rintro ⟨⟨⟨hk, hv⟩, hall⟩, rfl⟩
        exact ⟨_, ⟨hk, rfl⟩, _, ⟨hv, rfl⟩, _, ⟨hall, rfl⟩, rfl⟩

end

/-- The encoder succeeds exactly on the values whose integers are in range. -/
theorem encode_eq_ok {v : Value} {b : Bytes} : encode v = .ok b ↔ v.IntsInRange ∧ b = canon v :=
  encodeValue_eq_ok

theorem encode_of_inRange {v : Value} (h : v.IntsInRange) : encode v = .ok (canon v) :=
  encode_eq_ok.mpr ⟨h, rfl⟩

end Macula.Cbor
