import Macula.Cbor.Total
import Macula.Lib.Paired

/-!
# Canonical bytes from the bottom up

The decoder puts the canonical bytes of a value together from those of its children, and only
where it is asked to: always for a key, and for a value when its map is inside a key.  Here it
runs twice from one position, once not asked and once asked.

The two runs go in step (`Steady`).  At every point of a loop the asked run holds the bytes of
what both have read so far: of a list the items one after the other, of a map those of its
values by slot, and in `index_of_key` those of its keys.  So the bytes at the end are what the
encoder gives the value, and asking for them changes nothing else (`decodeOne_bottomUp`).
-/

namespace Macula.Cbor

open Outcome (Paired)

variable {bits : Nat} {buf : Bytes} {one : ItemDecoder}

/-! ## Two runs -/

/-- What the run that is not asked returns, and what the one that is asked does. -/
inductive Alike : Value × Bytes × Nat → Value × Bytes × Nat → Prop where
  | mk {v : Value} (next : Nat) : v.IntsInRange → Alike (v, [], next) (v, canon v, next)

/-- What both runs return for a key. -/
inductive AlikeKey : Value × Bytes × Nat → Value × Bytes × Nat → Prop where
  | mk {k : Value} (next : Nat) : k.IntsInRange → AlikeKey (k, canon k, next) (k, canon k, next)

/-- Asking for canonical bytes changes nothing else, from any position. -/
def Steady (one : ItemDecoder) : Prop := ∀ pos, Paired Alike (one pos false) (one pos true)

theorem Steady.key (hone : Steady one) (pos : Nat) :
    Paired AlikeKey (one pos true) (one pos true) := by
  have h := hone pos
  generalize one pos false = x at h
  generalize one pos true = y at h
  cases h with
  | ok halike =>
      cases halike with
      | mk next hk => exact .ok (.mk next hk)
  | err e => exact .err e

theorem scalarCanonicalBytes_paired {v : Value} (h : v.IntsInRange) (next : Nat) :
    Paired Alike (scalarCanonicalBytes v next false) (scalarCanonicalBytes v next true) := by
  rw [scalarCanonicalBytes_of_inRange h, scalarCanonicalBytes_of_inRange h]
  exact .ok (.mk next h)

/-! ## Lists -/

/-- The two runs after `n` items. -/
inductive AlikeItems (head : Bytes) (n : Nat) :
    List Value × Bytes × Nat → List Value × Bytes × Nat → Prop where
  | mk {items : List Value} (next : Nat) : items.length = n → (∀ v ∈ items, v.IntsInRange) →
      AlikeItems head n (items, [], next) (items, head ++ items.flatMap canon, next)

theorem decodeListLoop_paired (hone : Steady one) (head : Bytes) (n : Nat) (count : Nat) :
    ∀ {pos : Nat} {items : List Value}, items.length + count = n → (∀ v ∈ items, v.IntsInRange) →
      Paired (AlikeItems head n) (decodeListLoop one false count pos items [])
        (decodeListLoop one true count pos items (head ++ items.flatMap canon)) := by
  induction count with
  | zero =>
      intro pos items hlen hitems
      exact .ok (.mk pos hlen hitems)
  | succ count ih =>
      intro pos items hlen hitems
      apply (hone pos).bind
      rintro _ _ ⟨next, hv⟩
      rename_i v
      have hlen' : (items ++ [v]).length + count = n := by
        simp
        omega
      have hitems' : ∀ w ∈ items ++ [v], w.IntsInRange := by
        simpa [or_imp, forall_and] using ⟨hitems, hv⟩
      simpa using @ih next (items ++ [v]) hlen' hitems'

theorem decodeList_paired (hone : Steady one) (pos count : Nat) :
    Paired Alike (decodeList one pos count false) (decodeList one pos count true) := by
  have hloop := @decodeListLoop_paired one hone (encodeHead 4 count) count count pos []
    (Nat.zero_add _) (by simp)
  simp only [List.flatMap_nil, List.append_nil] at hloop
  apply hloop.bind
  rintro _ _ ⟨next, hlen, hitems⟩
  rw [← hlen, ← canon_list]
  exact .ok (.mk next (Value.inRange_list.mpr hitems))

/-! ## Maps -/

/-- The two runs when the entries so far are `pairs`, repeated keys merged. -/
inductive AlikeEntries : MapState × Nat → MapState × Nat → Prop where
  | mk {pairs : List (Value × Value)} (next : Nat) :
      (∀ p ∈ pairs, p.1.IntsInRange ∧ p.2.IntsInRange) →
        AlikeEntries (.of false pairs, next) (.of true pairs, next)

theorem inRange_insertEntry {k v : Value} {pairs : List (Value × Value)} (hk : k.IntsInRange)
    (hv : v.IntsInRange) (h : ∀ p ∈ pairs, p.1.IntsInRange ∧ p.2.IntsInRange) :
    ∀ p ∈ insertEntry (k, v) pairs, p.1.IntsInRange ∧ p.2.IntsInRange := by
  intro p hp
  rcases mem_insertEntry hp with rfl | hp | ⟨q, hq, rfl⟩
  · exact ⟨hk, hv⟩
  · exact h p hp
  · exact ⟨(h q hq).1, hv⟩

/-- A later value replaces the earlier one and its bytes in both runs. -/
theorem decodeMapLoop_paired (hone : Steady one) (count : Nat) :
    ∀ {pos : Nat} {pairs : List (Value × Value)},
      (∀ p ∈ pairs, p.1.IntsInRange ∧ p.2.IntsInRange) →
        Paired AlikeEntries (decodeMapLoop one false count pos (.of false pairs))
          (decodeMapLoop one true count pos (.of true pairs)) := by
  induction count with
  | zero =>
      intro pos pairs hpairs
      exact .ok (.mk pos hpairs)
  | succ count ih =>
      intro pos pairs hpairs
      apply (hone.key pos).bind
      rintro _ _ ⟨next₁, hk⟩
      rename_i k
      apply (hone next₁).bind
      rintro _ _ ⟨next₂, hv⟩
      rename_i v
      have hinsert := MapState.insert_of false k v pairs
      have hinsert' := MapState.insert_of true k v pairs
      rw [canonIf_false] at hinsert
      rw [canonIf_true] at hinsert'
      simp only [hinsert, hinsert', Outcome.ok_bind]
      exact ih (inRange_insertEntry hk hv hpairs)

theorem decodeMap_paired (hone : Steady one) (pos count : Nat) :
    Paired Alike (decodeMap one pos count false) (decodeMap one pos count true) := by
  have hloop := @decodeMapLoop_paired one hone count pos [] (by simp)
  rw [MapState.of_nil, MapState.of_nil] at hloop
  apply hloop.bind
  rintro _ _ ⟨next, hpairs⟩
  rename_i pairs
  have hcanon : canon (.map pairs) =
      encodeHead 5 (keySort Prod.fst (MapState.of true pairs).indexOfKey).length ++
        sortedEntries (pairs.map canonEntry) := by
    simp [MapState.of, entryKeys]
  simp only [entriesCanon_of, Outcome.ok_bind, Bool.not_false, Bool.not_true, Bool.false_eq_true,
    if_true, if_false, Outcome.pure_eq, ← hcanon]
  exact .ok (.mk next (Value.inRange_map.mpr hpairs))

/-! ## Items -/

theorem slice_ne_panicked {pos k : Nat} (h : need buf pos k = .ok ()) :
    (slice buf pos (pos + k) : Outcome DecodeError Bytes) ≠ .panicked := by
  rw [slice_of_le (Nat.le_add_right _ _) (need_eq_ok.mp h)]
  nofun

theorem need_ne_panicked {pos k : Nat} : need buf pos k ≠ .panicked := by
  rw [need]
  split <;> simp

/-- Past a head, both runs read the same string, list or map. -/
theorem decodeCounted_paired (hone : Steady one) {major : UInt8} {n : Nat} (hn : n < 2 ^ 64)
    (next : Nat) : Paired Alike (decodeCounted bits buf one major n next false)
      (decodeCounted bits buf one major n next true) := by
  rw [decodeCounted, decodeCounted]
  split
  · refine scalarCanonicalBytes_paired (Value.all_int.mpr ?_) next
    exact ⟨by omega, by omega⟩
  · split
    · refine scalarCanonicalBytes_paired (Value.all_int.mpr ?_) next
      exact ⟨by omega, by omega⟩
    · split
      · refine .bind_same need_ne_panicked fun _ hneed => ?_
        refine .bind_same (slice_ne_panicked hneed) fun b _ => ?_
        exact scalarCanonicalBytes_paired (Value.inRange_bytes b) _
      · split
        · refine .bind_same need_ne_panicked fun _ hneed => ?_
          refine .bind_same (slice_ne_panicked hneed) fun b _ => ?_
          refine .bind_same Outcome.okOr_ne_panicked fun text _ => ?_
          exact scalarCanonicalBytes_paired (Value.inRange_text text) _
        · split
          · exact decodeList_paired hone next n
          · split
            · exact decodeMap_paired hone next n
            · exact .err _

/-- **One level.**  When asking changes nothing for the sub-items, it changes nothing for the
item. -/
theorem decodeItem_steady (hone : Steady one) : Steady (decodeItem bits buf one) := by
  intro pos
  by_cases hpos : pos < buf.length
  · rw [decodeItem_of_lt hpos, decodeItem_of_lt hpos]
    split
    next h7 =>
      refine .bind_same decodeMajor7_ne_panicked ?_
      rintro ⟨v, next⟩ hv
      obtain ⟨-, -, hsimple⟩ := (decodeMajor7_eq_ok hpos h7).mp hv
      exact scalarCanonicalBytes_paired hsimple.inRange next
    next =>
      refine .bind_same (decodeCount_ne_panicked (ai_lt _)) ?_
      rintro ⟨n, next⟩ hcount
      obtain ⟨-, -, hhead⟩ := head_of_decodeCount hpos hcount
      exact decodeCounted_paired hone hhead.lt next
  · have hneed : need buf pos 1 = .err .truncated := if_neg hpos
    rw [decodeItem, decodeItem, hneed]
    exact .err _

theorem decodeLevels_steady (bits : Nat) (buf : Bytes) (levels : Nat) :
    Steady (decodeLevels bits buf levels) := by
  induction levels with
  | zero =>
      intro pos
      exact .err _
  | succ levels ih => exact decodeItem_steady ih

/-! ## The order of a hash map -/

/-- An order in which a hash map gives its entries back: any rearrangement of them. -/
structure Iteration where
  order : List (Bytes × Nat) → List (Bytes × Nat)
  perm : ∀ entries, (order entries).Perm entries

/-- `decode_map` where `index_of_key` iterates in the order `iter`. -/
def decodeMapIn (iter : Iteration) (one : ItemDecoder) (pos count : Nat) (needCanon : Bool) :
    Decoded := do
  let (s, pos) ← decodeMapLoop one needCanon count pos ⟨[], [], []⟩
  if !needCanon then return (.map s.pairs, [], pos)
  let order := keySort Prod.fst (iter.order s.indexOfKey)
  let entries ← entriesCanon s.valsCanon order
  return (.map s.pairs, encodeHead 5 order.length ++ entries, pos)

/-- No key is in the hash map twice. -/
def MapState.KeysOnce (s : MapState) : Prop := (s.indexOfKey.map Prod.fst).Nodup

theorem MapState.keysOnce_insert {s s' : MapState} {k v : Value} {keyCanon valCanon : Bytes}
    {needCanon : Bool} (hs : s.KeysOnce)
    (h : s.insert k v keyCanon valCanon needCanon = .ok s') : s'.KeysOnce := by
  rw [MapState.insert] at h
  cases hlookup : s.indexOfKey.lookup keyCanon with
  | some i =>
      rw [hlookup] at h
      obtain ⟨slot, -, h⟩ := Outcome.bind_eq_ok.mp h
      obtain ⟨pairs, -, h⟩ := Outcome.bind_eq_ok.mp h
      cases needCanon with
      | false =>
          cases h
          exact hs
      | true =>
          obtain ⟨valsCanon, -, h⟩ := Outcome.bind_eq_ok.mp h
          cases h
          exact hs
  | none =>
      rw [hlookup] at h
      cases h
      have hnew : keyCanon ∉ s.indexOfKey.map Prod.fst := by
        rw [List.lookup_eq_none_iff] at hlookup
        rw [List.mem_map]
        rintro ⟨p, hp, rfl⟩
        simpa using hlookup p hp
      simp only [MapState.KeysOnce, List.map_append, List.map_cons, List.map_nil]
      exact List.nodup_append.mpr ⟨hs, List.nodup_singleton _, fun a ha b hb hab =>
        hnew (List.mem_singleton.mp hb ▸ hab ▸ ha)⟩

theorem keysOnce_decodeMapLoop {needCanon : Bool} {s' : MapState} {next : Nat} (count : Nat) :
    ∀ {pos : Nat} {s : MapState}, s.KeysOnce →
      decodeMapLoop one needCanon count pos s = .ok (s', next) → s'.KeysOnce := by
  induction count with
  | zero =>
      intro pos s hs h
      cases h
      exact hs
  | succ count ih =>
      intro pos s hs h
      obtain ⟨⟨k, kc, next₁⟩, -, h⟩ := Outcome.bind_eq_ok.mp h
      obtain ⟨⟨v, vc, next₂⟩, -, h⟩ := Outcome.bind_eq_ok.mp h
      obtain ⟨s₁, hinsert, h⟩ := Outcome.bind_eq_ok.mp h
      exact ih (MapState.keysOnce_insert hs hinsert) h

/-- Sorted by its keys, a hash map is the same in whatever order it iterates. -/
theorem decodeMapIn_eq (iter : Iteration) (one : ItemDecoder) (pos count : Nat)
    (needCanon : Bool) : decodeMapIn iter one pos count needCanon =
      decodeMap one pos count needCanon := by
  rw [decodeMapIn, decodeMap]
  cases hloop : decodeMapLoop one needCanon count pos ⟨[], [], []⟩ with
  | ok r =>
      obtain ⟨s, next⟩ := r
      have hnil : (⟨[], [], []⟩ : MapState).KeysOnce := List.nodup_nil
      have hkeys := keysOnce_decodeMapLoop count hnil hloop
      have horder : keySort Prod.fst (iter.order s.indexOfKey) = keySort Prod.fst s.indexOfKey :=
        (keySort_eq_of_perm Prod.fst (iter.perm s.indexOfKey).symm hkeys).symm
      simp only [Outcome.ok_bind, horder]
  | err e => rfl
  | panicked => rfl

/-! ## The decoder -/

/-- **Bottom-up bytes are the encoder's.**  From any position, at any depth and for any width of
`usize`, the run that is not asked for canonical bytes and the run that is fail with the same
error, or return the same value and end at the same position, and then the bytes of the second
are the encoding of that value.  The order in which a hash map iterates does not matter. -/
theorem decodeOne_bottomUp (bits : Nat) (buf : Bytes) (pos depth : Nat) :
    ((∃ e, decodeOne bits buf pos depth false = .err e ∧
        decodeOne bits buf pos depth true = .err e) ∨
      ∃ v c next, decodeOne bits buf pos depth false = .ok (v, [], next) ∧
        decodeOne bits buf pos depth true = .ok (v, c, next) ∧ encode v = .ok c) ∧
    ∀ (iter : Iteration) (one : ItemDecoder) (pos count : Nat) (needCanon : Bool),
      decodeMapIn iter one pos count needCanon = decodeMap one pos count needCanon := by
  refine ⟨?_, decodeMapIn_eq⟩
  have hsteady := decodeLevels_steady bits buf (MAX_NESTING_DEPTH + 1 - depth) pos
  rcases Outcome.paired_iff.mp hsteady with herr | ⟨_, _, hplain, hasked, ⟨next, hv⟩⟩
  · exact .inl herr
  · exact .inr ⟨_, _, next, hplain, hasked, encode_of_inRange hv⟩

-- A map as a key, its own repeated key merged: the key's bytes are those of `{1: null}`.
example : decodeOne 64 [0xA1, 0xA2, 0x01, 0x02, 0x01, 0xF6, 0x03] 0 0 true =
    .ok (.map [(.map [(.int 1, .null)], .int 3)], [0xA1, 0xA1, 0x01, 0xF6, 0x03], 7) := by
  decide

end Macula.Cbor
