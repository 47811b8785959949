import Macula.Cbor.Grammar

/-!
# What the decoder accepts

The decoder accepts exactly the language of `Item`.  From a position it returns a value
and the position after it if and only if the bytes between the two are an item with that
value (`decodeLevels_sound`, `decodeLevels_complete`), and then the bytes it computed on
the side are the canonical bytes of that value, when it was asked for them.

Both directions go level by level.  One level is `decodeItem` over any decoder of
sub-items that is already known to be right, so the loops over items and entries are
dealt with once, by induction on the count, and the recursion is one more induction on
top.
-/

namespace Macula.Cbor

/-! ## The readers -/

theorem need_eq_ok {buf : Bytes} {pos n : Nat} {u : Unit} :
    need buf pos n = .ok u ↔ pos + n ≤ buf.length := by
  rw [need]
  split <;> simp_all

theorem readBe_eq_ok {buf : Bytes} {pos k n : Nat} :
    readBe buf pos k = .ok n ↔ pos + k ≤ buf.length ∧ n = ofBe (seg buf pos (pos + k)) := by
  simp only [readBe, Outcome.bind_eq_ok, slice_eq_ok, Outcome.expectSome_eq_ok, toArr_eq_some,
    Outcome.pure_eq, Outcome.ok.injEq]
  constructor
  · rintro ⟨b, ⟨-, hle, rfl⟩, arr, harr, rfl⟩
    exact ⟨hle, by rw [harr]⟩
  · rintro ⟨hle, rfl⟩
    have hlen : (seg buf pos (pos + k)).length = k := by
      rw [length_seg hle]
      omega
    exact ⟨_, ⟨Nat.le_add_right _ _, hle, rfl⟩, ⟨_, hlen⟩, rfl, rfl⟩

theorem seg_two {buf : Bytes} {pos : Nat} (h : pos + 1 < buf.length) :
    seg buf pos (pos + 2) = [buf[pos], buf[pos + 1]] := by
  rw [← seg_append_seg (Nat.le_succ pos) (Nat.le_succ (pos + 1)), seg_succ (by omega), seg_succ h]
  rfl

theorem readU16_of_le {buf : Bytes} {pos : Nat} (h : pos + 2 ≤ buf.length) :
    readU16 buf pos = .ok (ofBe (seg buf pos (pos + 2))) := by
  have h₁ : pos + 1 < buf.length := h
  rw [readU16, index_of_lt (by omega), Outcome.ok_bind, index_of_lt h₁, seg_two h₁]
  rfl

theorem readBe_of_le {buf : Bytes} {pos k : Nat} (h : pos + k ≤ buf.length) :
    readBe buf pos k = .ok (ofBe (seg buf pos (pos + k))) :=
  readBe_eq_ok.mpr ⟨h, rfl⟩

/-- Running past a bounds check. -/
theorem need_bind_eq_ok {α : Type} {buf : Bytes} {pos k : Nat} {f : Unit → Outcome DecodeError α}
    {a : α} : (need buf pos k >>= f) = .ok a ↔ pos + k ≤ buf.length ∧ f () = .ok a := by
  rw [Outcome.bind_eq_ok]
  simp only [need_eq_ok]
  exact ⟨fun ⟨_, h, hf⟩ => ⟨h, hf⟩, fun ⟨h, hf⟩ => ⟨(), h, hf⟩⟩

/-- A count is read from the bytes that follow the head byte. -/
theorem decodeCount_eq_ok {buf : Bytes} {pos n next : Nat} {ai : UInt8} (hpos : pos ≤ buf.length) :
    decodeCount buf pos ai = .ok (n, next) ↔
      ∃ k, argWidth ai = some k ∧ pos + k ≤ buf.length ∧ next = pos + k ∧
        n = argValue ai (seg buf pos (pos + k)) := by
  have wide : ∀ (k : Nat) (read : Outcome DecodeError Nat), ¬ ai ≤ 23 →
      (pos + k ≤ buf.length → read = .ok (ofBe (seg buf pos (pos + k)))) →
      ((need buf pos k >>= fun _ => read >>= fun n => pure (n, pos + k)) = .ok (n, next) ↔
        ∃ k', some k = some k' ∧ pos + k' ≤ buf.length ∧ next = pos + k' ∧
          n = argValue ai (seg buf pos (pos + k'))) := by
    intro k read hai hread
    rw [need_bind_eq_ok]
    simp only [Option.some.injEq, exists_eq_left', argValue, if_neg hai]
    refine and_congr_right fun hle => ?_
    rw [hread hle, Outcome.ok_bind, Outcome.pure_eq, Outcome.ok.injEq, Prod.mk.injEq]
    exact ⟨fun h => ⟨h.2.symm, h.1.symm⟩, fun h => ⟨h.2.symm, h.1.symm⟩⟩
  rw [decodeCount, argWidth]
  split
  · rename_i hai
    simp only [Outcome.ok.injEq, Prod.mk.injEq, Option.some.injEq, exists_eq_left', argValue,
      if_pos hai]
    exact ⟨fun h => ⟨hpos, h.2.symm, h.1.symm⟩, fun h => ⟨h.2.2.symm, h.2.1.symm⟩⟩
  · rename_i hai
    split
    · have hread : pos + 1 ≤ buf.length → (index buf pos >>= fun b => pure b.toNat) =
          (.ok (ofBe (seg buf pos (pos + 1))) : Outcome DecodeError Nat) := by
        intro hle
        rw [index_of_lt hle, seg_succ hle]
        simp [ofBe]
      simpa only [Outcome.bind_assoc, Outcome.pure_eq, Outcome.ok_bind] using wide 1 _ hai hread
    · split
      · exact wide 2 _ hai readU16_of_le
      · split
        · exact wide 4 _ hai readBe_of_le
        · split
          · exact wide 8 _ hai readBe_of_le
          · split <;> simp

/-! ## Heads at a position -/

/-- A head byte and the count after it are a head. -/
theorem head_of_decodeCount {buf : Bytes} {pos n next : Nat} (hpos : pos < buf.length)
    (hcount : decodeCount buf (pos + 1) (buf[pos] &&& 0x1F) = .ok (n, next)) :
    pos < next ∧ next ≤ buf.length ∧ Head (buf[pos] >>> 5) n (seg buf pos next) := by
  obtain ⟨k, hk, hle, rfl, rfl⟩ := (decodeCount_eq_ok hpos).mp hcount
  refine ⟨by omega, hle, ?_⟩
  rw [seg_cons hpos (by omega), ← headByte_parts buf[pos], headByte_major (major_lt _) (ai_lt _),
    headByte_ai (major_lt _) (ai_lt _)]
  refine .mk ?_
  rw [length_seg hle, hk, Nat.add_sub_cancel_left]

/-- A head at a position is read back. -/
theorem decodeCount_of_head {buf h rest : Bytes} {pos n next : Nat} {major : UInt8}
    (hm : major < 8) (hh : Head major n h) (hle : pos ≤ next) (hnext : next ≤ buf.length)
    (hseg : seg buf pos next = h ++ rest) :
    ∃ hpos : pos < buf.length, buf[pos] >>> 5 = major ∧
      decodeCount buf (pos + 1) (buf[pos] &&& 0x1F) = .ok (n, pos + h.length) := by
  obtain ⟨hmid, hhead, -⟩ := seg_split hle hnext hseg
  cases hh with
  | mk hk =>
    rename_i ai tail
    rw [List.length_cons] at hmid hhead
    have hpos : pos < buf.length := by omega
    have hai := ai_lt_of_argWidth hk
    rw [seg_cons hpos (by omega)] at hhead
    obtain ⟨hbyte, htail⟩ := List.cons.inj hhead
    have hend : pos + 1 + tail.length = pos + (tail.length + 1) := by omega
    refine ⟨hpos, by rw [hbyte, headByte_major hm hai], ?_⟩
    rw [hbyte, headByte_ai hm hai]
    refine (decodeCount_eq_ok hpos).mpr ⟨tail.length, hk, by omega, hend.symm, ?_⟩
    rw [hend, htail]

/-- The four items of major type 7. -/
theorem decodeMajor7_eq_ok {buf : Bytes} {pos next : Nat} {v : Value} (hpos : pos < buf.length)
    (h7 : buf[pos] >>> 5 = 7) :
    decodeMajor7 buf pos (buf[pos] &&& 0x1F) = .ok (v, next) ↔
      pos < next ∧ next ≤ buf.length ∧ Simple (seg buf pos next) v := by
  have hbyte : buf[pos] = headByte 7 (buf[pos] &&& 0x1F) := by
    rw [← h7, headByte_parts]
  constructor
  · intro h
    rw [decodeMajor7] at h
    split at h
    · rename_i hai
      obtain ⟨rfl, rfl⟩ := Prod.mk.inj (Outcome.ok.inj h)
      refine ⟨Nat.lt_succ_self pos, hpos, ?_⟩
      rw [seg_succ hpos, hbyte, hai]
      exact .null
    · split at h
      · rename_i hai
        obtain ⟨hle, h⟩ := need_bind_eq_ok.mp h
        rw [readU16_of_le hle, Outcome.ok_bind] at h
        obtain ⟨bits, hbits, h⟩ := Outcome.bind_eq_ok.mp h
        obtain ⟨rfl, rfl⟩ := Prod.mk.inj (Outcome.ok.inj h)
        refine ⟨by omega, hle, ?_⟩
        rw [seg_cons hpos (by omega), hbyte, hai]
        exact .half (by rw [length_seg hle]; omega) (Outcome.okOr_eq_ok.mp hbits)
      · split at h
        · rename_i hai
          obtain ⟨hle, h⟩ := need_bind_eq_ok.mp h
          rw [readBe_of_le hle, Outcome.ok_bind] at h
          obtain ⟨rfl, rfl⟩ := Prod.mk.inj (Outcome.ok.inj h)
          refine ⟨by omega, hle, ?_⟩
          rw [seg_cons hpos (by omega), hbyte, hai]
          exact .single (by rw [length_seg hle]; omega)
        · split at h
          · rename_i hai
            obtain ⟨hle, h⟩ := need_bind_eq_ok.mp h
            rw [readBe_of_le hle, Outcome.ok_bind] at h
            obtain ⟨rfl, rfl⟩ := Prod.mk.inj (Outcome.ok.inj h)
            refine ⟨by omega, hle, ?_⟩
            rw [seg_cons hpos (by omega), hbyte, hai]
            exact .double (by rw [length_seg hle]; omega)
          · cases h
  · rintro ⟨hlt, hnext, h⟩
    rw [seg_cons hpos hlt] at h
    have hlen : (seg buf (pos + 1) next).length = next - (pos + 1) := length_seg hnext
    generalize htail : seg buf (pos + 1) next = tail at h hlen
    generalize buf[pos] = byte at h
    clear hbyte
    cases h with
    | null =>
        have hend : next = pos + 1 := by
          rw [List.length_nil] at hlen
          omega
        rw [hend]
        rfl
    | half hwidth hbits =>
        obtain rfl : next = pos + 1 + 2 := by omega
        rw [decodeMajor7, if_neg (by decide), if_pos (by decide), need_bind_eq_ok,
          readU16_of_le hnext, htail, Outcome.ok_bind, hbits]
        exact ⟨hnext, rfl⟩
    | single hwidth =>
        obtain rfl : next = pos + 1 + 4 := by omega
        rw [decodeMajor7, if_neg (by decide), if_neg (by decide), if_pos (by decide),
          need_bind_eq_ok, readBe_of_le hnext, htail]
        exact ⟨hnext, rfl⟩
    | double hwidth =>
        obtain rfl : next = pos + 1 + 8 := by omega
        rw [decodeMajor7, if_neg (by decide), if_neg (by decide), if_neg (by decide),
          if_pos (by decide), need_bind_eq_ok, readBe_of_le hnext, htail]
        exact ⟨hnext, rfl⟩

/-! ## Canonical bytes on the side -/

/-- The canonical bytes a decoder returns: those of its value, or none when not asked. -/
def canonIf (needCanon : Bool) (v : Value) : Bytes := if needCanon then canon v else []

@[simp] theorem canonIf_true (v : Value) : canonIf true v = canon v := rfl

@[simp] theorem canonIf_false (v : Value) : canonIf false v = [] := rfl

theorem scalarCanonicalBytes_of_inRange {v : Value} (h : v.IntsInRange) (next : Nat)
    (needCanon : Bool) :
    scalarCanonicalBytes v next needCanon = .ok (v, canonIf needCanon v, next) := by
  cases needCanon with
  | false => rfl
  | true =>
      rw [scalarCanonicalBytes, if_pos rfl, withCanonicalBytes, encodeValue_eq_ok.mpr ⟨h, rfl⟩]
      rfl

theorem Simple.inRange {s : Bytes} {v : Value} (h : Simple s v) : v.IntsInRange := by
  cases h <;> simp [Value.IntsInRange, IntOk]

theorem Scalar.inRange {s : Bytes} {v : Value} (h : Scalar s v) : v.IntsInRange := by
  cases h with
  | uint h | nint h =>
      have hlt := h.lt
      simp only [Value.IntsInRange, Value.all_int, IntOk]
      omega
  | bytes | text => simp [Value.IntsInRange, IntOk]

/-! ## Lists -/

/-- `one` decodes the sub-items at depth `d`: it accepts the items at that depth and returns
their values. -/
def Accepts (buf : Bytes) (d : Nat) (one : ItemDecoder) : Prop :=
  ∀ {pos next : Nat} {needCanon : Bool} {v : Value} {c : Bytes},
    one pos needCanon = .ok (v, c, next) ↔
      pos ≤ next ∧ next ≤ buf.length ∧ Item d (seg buf pos next) v ∧ c = canonIf needCanon v

variable {buf : Bytes} {d : Nat} {one : ItemDecoder}

theorem decodeListLoop_eq_ok (hone : Accepts buf d one) {needCanon : Bool} {next : Nat}
    {items' : List Value} {c' : Bytes} : ∀ {count pos : Nat} {items : List Value} {c : Bytes},
    pos ≤ buf.length →
    (decodeListLoop one needCanon count pos items c = .ok (items', c', next) ↔
      pos ≤ next ∧ next ≤ buf.length ∧ ∃ tail, Items d (seg buf pos next) tail ∧
        tail.length = count ∧ items' = items ++ tail ∧
        c' = if needCanon then c ++ tail.flatMap canon else c) := by
  intro count
  induction count with
  | zero =>
      intro pos items c hpos
      rw [decodeListLoop, Outcome.ok.injEq, Prod.mk.injEq, Prod.mk.injEq]
      constructor
      · rintro ⟨rfl, rfl, rfl⟩
        refine ⟨le_rfl, hpos, [], ?_, rfl, by simp, by simp⟩
        rw [seg_self]
        exact .nil
      · rintro ⟨hle, hnext, tail, hitems, htail, rfl, rfl⟩
        obtain rfl := List.length_eq_zero_iff.mp htail
        generalize hs : seg buf pos next = s at hitems
        cases hitems
        have hlen := @length_seg buf pos next hnext
        rw [hs, List.length_nil] at hlen
        exact ⟨by simp, by simp, by omega⟩
  | succ count ih =>
      intro pos items c hpos
      rw [decodeListLoop, Outcome.bind_eq_ok]
      constructor
      · rintro ⟨⟨v, vc, mid⟩, hv, hloop⟩
        obtain ⟨hle, hmid, hitem, rfl⟩ := hone.mp hv
        obtain ⟨hle', hnext, tail, hitems, htail, rfl, rfl⟩ :=
          (ih hmid).mp hloop
        refine ⟨hle.trans hle', hnext, v :: tail, ?_, by rw [List.length_cons, htail], by simp, ?_⟩
        · rw [← seg_append_seg hle hle']
          exact .cons hitem hitems
        · cases needCanon <;> simp [canonIf]
      · rintro ⟨hle, hnext, tail, hitems, htail, rfl, rfl⟩
        generalize hs : seg buf pos next = s at hitems
        cases hitems with
        | nil => cases htail
        | cons hitem hitems =>
          rename_i s t v tail
          obtain ⟨hmid, hs, ht⟩ := seg_split hle hnext hs
          rw [← hs] at hitem
          rw [← ht] at hitems
          refine ⟨_, hone.mpr ⟨Nat.le_add_right pos s.length, hmid.trans hnext, hitem, rfl⟩, ?_⟩
          refine (ih (hmid.trans hnext)).mpr
            ⟨hmid, hnext, tail, hitems, Nat.succ.inj htail, by simp, ?_⟩
          cases needCanon <;> simp [canonIf]

theorem decodeList_eq_ok (hone : Accepts buf d one) {needCanon : Bool} {count pos next : Nat}
    {v : Value} {c : Bytes} (hpos : pos ≤ buf.length) :
    decodeList one pos count needCanon = .ok (v, c, next) ↔
      pos ≤ next ∧ next ≤ buf.length ∧ ∃ items, Items d (seg buf pos next) items ∧
        items.length = count ∧ v = .list items ∧ c = canonIf needCanon v := by
  rw [decodeList, Outcome.bind_eq_ok]
  constructor
  · rintro ⟨⟨items, c, pos'⟩, hloop, h⟩
    obtain ⟨hle, hnext, tail, hitems, rfl, rfl, rfl⟩ :=
      (decodeListLoop_eq_ok hone hpos).mp hloop
    simp only [Outcome.pure_eq, Outcome.ok.injEq, Prod.mk.injEq] at h
    obtain ⟨rfl, rfl, rfl⟩ := h
    refine ⟨hle, hnext, _, hitems, rfl, rfl, ?_⟩
    cases needCanon <;> simp [canonIf]
  · rintro ⟨hle, hnext, items, hitems, rfl, rfl, rfl⟩
    refine ⟨(items, canonIf needCanon (.list items), next), ?_, rfl⟩
    refine (decodeListLoop_eq_ok hone hpos).mpr ⟨hle, hnext, items, hitems, rfl, rfl, ?_⟩
    cases needCanon <;> simp [canonIf]

/-! ## Maps -/

/-- The locals of `decode_map` when its entries so far are `pairs`. -/
def MapState.of (needCanon : Bool) (pairs : List (Value × Value)) : MapState where
  pairs := pairs
  indexOfKey := (entryKeys pairs).zipIdx
  valsCanon := if needCanon then pairs.map fun p => canon p.2 else []

theorem MapState.of_nil (needCanon : Bool) : MapState.of needCanon [] = ⟨[], [], []⟩ := by
  cases needCanon <;> rfl

/-- Looking a key up among keys numbered from `n`. -/
theorem lookup_zipIdx (key : Bytes) : ∀ (keys : List Bytes) (n : Nat),
    (keys.zipIdx n).lookup key = (keys.idxOf? key).map (· + n) := by
  intro keys
  induction keys with
  | nil =>
      intro _
      rfl
  | cons k keys ih =>
      intro n
      rw [List.zipIdx_cons, List.lookup_cons, List.idxOf?_cons, ih (n + 1)]
      by_cases hk : k = key
      · simp [hk]
      · have hk' : (key == k) = false := by simpa using Ne.symm hk
        have hk'' : (k == key) = false := by simpa using hk
        simp only [hk', hk'', Bool.false_eq_true, if_false, Option.map_map]
        congr 1
        funext i
        simp only [Function.comp]
        omega

/-- The slot of a key that is there, and what overwriting it does. -/
theorem insertEntry_of_idxOf? {p : Value × Value} : ∀ {pairs : List (Value × Value)} {i : Nat},
    (entryKeys pairs).idxOf? (entryKey p) = some i →
      ∃ q, pairs[i]? = some q ∧ insertEntry p pairs = pairs.set i (q.1, p.2) := by
  intro pairs
  induction pairs with
  | nil =>
      intro _ h
      simp at h
  | cons q pairs ih =>
      intro i h
      rw [entryKeys_cons, List.idxOf?_cons] at h
      by_cases hq : entryKey q = entryKey p
      · simp only [hq, beq_self_eq_true, if_true, Option.some.injEq] at h
        subst h
        exact ⟨q, rfl, by rw [insertEntry, if_pos hq]; rfl⟩
      · have hq' : (entryKey q == entryKey p) = false := by simpa using hq
        simp only [hq', Bool.false_eq_true, if_false, Option.map_eq_some_iff] at h
        obtain ⟨j, hj, rfl⟩ := h
        obtain ⟨r, hr, hset⟩ := ih hj
        exact ⟨r, by simpa using hr, by rw [insertEntry, if_neg hq, hset]; rfl⟩

theorem setAt_of_lt {ε α : Type} {xs : List α} {i : Nat} (x : α) (h : i < xs.length) :
    (setAt xs i x : Outcome ε (List α)) = .ok (xs.set i x) := by
  rw [setAt, if_pos h]

/-- What overwriting the value in a slot does to the values' canonical bytes. -/
theorem map_canon_set (pairs : List (Value × Value)) (i : Nat) (k v : Value) :
    (pairs.set i (k, v)).map (fun p => canon p.2) =
      (pairs.map fun p => canon p.2).set i (canon v) :=
  List.map_set

/-- **One entry.**  The slots stay in step with the entries, and no index is out of bounds. -/
theorem MapState.insert_of (needCanon : Bool) (k v : Value) (pairs : List (Value × Value)) :
    (MapState.of needCanon pairs).insert k v (canon k) (canonIf needCanon v) needCanon =
      .ok (MapState.of needCanon (insertEntry (k, v) pairs)) := by
  have hlookup : (MapState.of needCanon pairs).indexOfKey.lookup (canon k) =
      (entryKeys pairs).idxOf? (canon k) := by
    rw [MapState.of, lookup_zipIdx]
    simp
  rw [MapState.insert, hlookup]
  cases hi : (entryKeys pairs).idxOf? (canon k) with
  | some i =>
      obtain ⟨q, hq, hset⟩ := @insertEntry_of_idxOf? (k, v) pairs i hi
      have hlt : i < pairs.length := (List.getElem?_eq_some_iff.mp hq).1
      have hmem : entryKey (k, v) ∈ entryKeys pairs := by
        by_contra hnot
        have hnone : (entryKeys pairs).idxOf? (canon k) = none := List.idxOf?_eq_none_iff.mpr hnot
        rw [hnone] at hi
        cases hi
      have hkeys : entryKeys (insertEntry (k, v) pairs) = entryKeys pairs := by
        rw [entryKeys_insertEntry, if_pos hmem]
      rw [MapState.of, MapState.of, hkeys, hset]
      simp only [hq, Outcome.expectSome, Outcome.ok_bind, setAt_of_lt _ hlt]
      cases needCanon with
      | false => simp
      | true =>
          have hlt' : i < (pairs.map fun p => canon p.2).length := by
            rw [List.length_map]
            exact hlt
          simp only [if_true, canonIf, setAt_of_lt _ hlt', Outcome.ok_bind, Outcome.pure_eq,
            map_canon_set]
  | none =>
      have hnot : entryKey (k, v) ∉ entryKeys pairs := List.idxOf?_eq_none_iff.mp hi
      rw [MapState.of, MapState.of, insertEntry_of_notMem hnot, entryKeys_append,
        List.zipIdx_append]
      cases needCanon <;> simp [canonIf, entryKeys, entryKey]

/-- One round of the loop over entries. -/
theorem decodeMapLoop_succ {needCanon : Bool} {count pos mid₁ mid₂ : Nat} {k v : Value}
    {pairs : List (Value × Value)} (hk : one pos true = .ok (k, canonIf true k, mid₁))
    (hv : one mid₁ needCanon = .ok (v, canonIf needCanon v, mid₂)) :
    decodeMapLoop one needCanon (count + 1) pos (.of needCanon pairs) =
      decodeMapLoop one needCanon count mid₂ (.of needCanon (insertEntry (k, v) pairs)) := by
  simp only [decodeMapLoop, hk, hv, Outcome.ok_bind, canonIf_true, MapState.insert_of]

theorem decodeMapLoop_eq_ok (hone : Accepts buf d one) {needCanon : Bool} {next : Nat}
    {s' : MapState} : ∀ {count pos : Nat} {pairs : List (Value × Value)}, pos ≤ buf.length →
    (decodeMapLoop one needCanon count pos (.of needCanon pairs) = .ok (s', next) ↔
      pos ≤ next ∧ next ≤ buf.length ∧ ∃ entries, Entries d (seg buf pos next) entries ∧
        entries.length = count ∧
        s' = .of needCanon (entries.foldl (fun pairs p => insertEntry p pairs) pairs)) := by
  intro count
  induction count with
  | zero =>
      intro pos pairs hpos
      rw [decodeMapLoop, Outcome.ok.injEq, Prod.mk.injEq]
      constructor
      · rintro ⟨rfl, rfl⟩
        refine ⟨le_rfl, hpos, [], ?_, rfl, rfl⟩
        rw [seg_self]
        exact .nil
      · rintro ⟨hle, hnext, entries, hentries, hlen, rfl⟩
        obtain rfl := List.length_eq_zero_iff.mp hlen
        generalize hs : seg buf pos next = s at hentries
        cases hentries
        have hlen := @length_seg buf pos next hnext
        rw [hs, List.length_nil] at hlen
        exact ⟨rfl, by omega⟩
  | succ count ih =>
      intro pos pairs hpos
      constructor
      · intro h
        rw [decodeMapLoop] at h
        obtain ⟨⟨k, kc, mid₁⟩, hk, h⟩ := Outcome.bind_eq_ok.mp h
        obtain ⟨⟨v, vc, mid₂⟩, hv, h⟩ := Outcome.bind_eq_ok.mp h
        obtain ⟨hle₁, -, hkey, rfl⟩ := hone.mp hk
        obtain ⟨hle₂, hmid, hvalue, rfl⟩ := hone.mp hv
        simp only [canonIf_true, MapState.insert_of, Outcome.ok_bind] at h
        obtain ⟨hle₃, hnext, entries, hentries, hlen, rfl⟩ := (ih hmid).mp h
        refine ⟨hle₁.trans (hle₂.trans hle₃), hnext, (k, v) :: entries, ?_,
          by rw [List.length_cons, hlen], rfl⟩
        rw [← seg_append_seg hle₁ (hle₂.trans hle₃), ← seg_append_seg hle₂ hle₃]
        exact .cons hkey hvalue hentries
      · rintro ⟨hle, hnext, entries, hentries, hlen, rfl⟩
        generalize hs : seg buf pos next = s at hentries
        cases hentries with
        | nil => cases hlen
        | cons hkey hvalue hentries =>
          rename_i s t u k v entries
          obtain ⟨hmid₁, hs, htu⟩ := seg_split hle hnext hs
          obtain ⟨hmid₂, ht, hu⟩ := seg_split hmid₁ hnext htu
          rw [← hs] at hkey
          rw [← ht] at hvalue
          rw [← hu] at hentries
          have hk : one pos true = .ok (k, canonIf true k, pos + s.length) :=
            hone.mpr ⟨Nat.le_add_right _ _, hmid₁.trans hnext, hkey, rfl⟩
          have hv : one (pos + s.length) needCanon =
              .ok (v, canonIf needCanon v, pos + s.length + t.length) :=
            hone.mpr ⟨Nat.le_add_right _ _, hmid₂.trans hnext, hvalue, rfl⟩
          rw [decodeMapLoop_succ hk hv]
          exact (ih (hmid₂.trans hnext)).mpr
            ⟨hmid₂, hnext, entries, hentries, Nat.succ.inj hlen, rfl⟩

/-- A numbered entry as the sorted copy of the `HashMap` has it. -/
def slotOf (x : (Value × Value) × Nat) : Bytes × Nat := (entryKey x.1, x.2)

theorem entriesCanon_map_slotOf {valsCanon : List Bytes} :
    ∀ {slots : List ((Value × Value) × Nat)},
      (∀ x ∈ slots, valsCanon[x.2]? = some (canon x.1.2)) →
        entriesCanon valsCanon (slots.map slotOf) =
          .ok (slots.flatMap fun x => canon x.1.1 ++ canon x.1.2) := by
  intro slots
  induction slots with
  | nil =>
      intro _
      rfl
  | cons x slots ih =>
      intro h
      obtain ⟨hx, hslots⟩ := List.forall_mem_cons.mp h
      rw [List.map_cons, slotOf, entriesCanon, hx, ih hslots]
      simp [Outcome.expectSome, entryKey]

/-- The canonical bytes of a decoded map are those of its entries, sorted. -/
theorem entriesCanon_of (pairs : List (Value × Value)) :
    entriesCanon (MapState.of true pairs).valsCanon
        (keySort Prod.fst (MapState.of true pairs).indexOfKey) =
      .ok (sortedEntries (pairs.map canonEntry)) := by
  have hslots : (MapState.of true pairs).indexOfKey = pairs.zipIdx.map slotOf := by
    rw [MapState.of, entryKeys, List.zipIdx_map]
    rfl
  have hentries : pairs.map canonEntry = pairs.zipIdx.map fun x => canonEntry x.1 :=
    calc pairs.map canonEntry = (pairs.zipIdx.map Prod.fst).map canonEntry := by
          rw [List.zipIdx_map_fst]
      _ = pairs.zipIdx.map fun x => canonEntry x.1 := List.map_map
  have hsorted : keySort Prod.fst (pairs.map canonEntry) =
      (keySort (fun x => entryKey x.1) pairs.zipIdx).map fun x => canonEntry x.1 := by
    rw [hentries, map_keySort (fun x : (Value × Value) × Nat => entryKey x.1)
      (fun x => canonEntry x.1) Prod.fst fun _ => rfl]
  rw [hslots, ← map_keySort (fun x => entryKey x.1) slotOf Prod.fst fun _ => rfl,
    entriesCanon_map_slotOf, sortedEntries, hsorted, List.flatMap_map]
  · rfl
  · intro x hx
    have hget := List.mem_zipIdx' ((mem_keySort _).mp hx)
    simp [MapState.of, hget]

/-- What `decode_map` makes of its locals when the loop is over. -/
theorem decodeMap_of_loop {needCanon : Bool} {count pos next : Nat} {pairs : List (Value × Value)}
    (h : decodeMapLoop one needCanon count pos (.of needCanon []) =
      .ok (.of needCanon pairs, next)) :
    decodeMap one pos count needCanon = .ok (.map pairs, canonIf needCanon (.map pairs), next) := by
  rw [decodeMap, ← MapState.of_nil needCanon, h, Outcome.ok_bind]
  cases needCanon with
  | false => rfl
  | true =>
      simp only [entriesCanon_of]
      simp [canonIf, MapState.of, entryKeys]

theorem decodeMap_eq_ok (hone : Accepts buf d one) {needCanon : Bool} {count pos next : Nat}
    {v : Value} {c : Bytes} (hpos : pos ≤ buf.length) :
    decodeMap one pos count needCanon = .ok (v, c, next) ↔
      pos ≤ next ∧ next ≤ buf.length ∧ ∃ entries, Entries d (seg buf pos next) entries ∧
        entries.length = count ∧ v = .map (dedup entries) ∧ c = canonIf needCanon v := by
  constructor
  · intro h
    rw [decodeMap, ← MapState.of_nil needCanon] at h
    obtain ⟨⟨s, pos'⟩, hloop, -⟩ := Outcome.bind_eq_ok.mp h
    obtain ⟨hle, hnext, entries, hentries, hlen, rfl⟩ := (decodeMapLoop_eq_ok hone hpos).mp hloop
    have hmap := decodeMap_of_loop hloop
    rw [decodeMap, ← MapState.of_nil needCanon, h] at hmap
    simp only [Outcome.ok.injEq, Prod.mk.injEq] at hmap
    obtain ⟨rfl, rfl, rfl⟩ := hmap
    exact ⟨hle, hnext, entries, hentries, hlen, rfl, rfl⟩
  · rintro ⟨hle, hnext, entries, hentries, hlen, rfl, rfl⟩
    exact decodeMap_of_loop
      ((decodeMapLoop_eq_ok hone hpos).mpr ⟨hle, hnext, entries, hentries, hlen, rfl⟩)

/-! ## Items -/

theorem asUsize_of_lt {n : Nat} (h : n < 2 ^ 64) : asUsize 64 n = n := Nat.mod_eq_of_lt h

/-- What a successful bounds check and slice read. -/
theorem need_slice_bind_eq_ok {α : Type} {pos n : Nat} {f : Bytes → Outcome DecodeError α} {a : α} :
    (need buf pos n >>= fun _ => slice buf pos (pos + n) >>= f) = .ok a ↔
      pos + n ≤ buf.length ∧ f (seg buf pos (pos + n)) = .ok a := by
  rw [need_bind_eq_ok]
  refine and_congr_right fun hle => ?_
  rw [slice_of_le (Nat.le_add_right pos n) hle, Outcome.ok_bind]

/-- A length on the wire is that of the segment it announces. -/
theorem head_length_seg {major : UInt8} {n pos : Nat} {h : Bytes} (hh : Head major n h)
    (hle : pos + n ≤ buf.length) : Head major (seg buf pos (pos + n)).length h := by
  rw [length_seg hle, Nat.add_sub_cancel_left]
  exact hh

/-- After a head, every accepted continuation completes an item. -/
theorem decodeCounted_sound (hd : d ≤ MAX_NESTING_DEPTH) (hone : Accepts buf (d + 1) one)
    {needCanon : Bool} {major : UInt8} {n start mid next : Nat} {v : Value} {c : Bytes}
    (hstart : start ≤ mid) (hmid : mid ≤ buf.length) (hhead : Head major n (seg buf start mid))
    (h : decodeCounted 64 buf one major n mid needCanon = .ok (v, c, next)) :
    mid ≤ next ∧ next ≤ buf.length ∧ Item d (seg buf start next) v ∧ c = canonIf needCanon v := by
  rw [decodeCounted, asUsize_of_lt hhead.lt] at h
  split at h
  · rename_i hmajor
    subst hmajor
    have hitem := Scalar.uint hhead
    rw [scalarCanonicalBytes_of_inRange hitem.inRange] at h
    simp only [Outcome.ok.injEq, Prod.mk.injEq] at h
    obtain ⟨rfl, rfl, rfl⟩ := h
    exact ⟨le_rfl, hmid, .scalar hd hitem, rfl⟩
  · split at h
    · rename_i hmajor
      subst hmajor
      have hitem := Scalar.nint hhead
      rw [scalarCanonicalBytes_of_inRange hitem.inRange] at h
      simp only [Outcome.ok.injEq, Prod.mk.injEq] at h
      obtain ⟨rfl, rfl, rfl⟩ := h
      exact ⟨le_rfl, hmid, .scalar hd hitem, rfl⟩
    · split at h
      · rename_i hmajor
        subst hmajor
        obtain ⟨hle, h⟩ := need_slice_bind_eq_ok.mp h
        have hitem := Scalar.bytes (head_length_seg hhead hle)
        rw [scalarCanonicalBytes_of_inRange hitem.inRange] at h
        simp only [Outcome.ok.injEq, Prod.mk.injEq] at h
        obtain ⟨rfl, rfl, rfl⟩ := h
        rw [seg_append_seg hstart (Nat.le_add_right mid n)] at hitem
        exact ⟨Nat.le_add_right mid n, hle, .scalar hd hitem, rfl⟩
      · split at h
        · rename_i hmajor
          subst hmajor
          obtain ⟨hle, h⟩ := need_slice_bind_eq_ok.mp h
          obtain ⟨text, htext, h⟩ := Outcome.bind_eq_ok.mp h
          have hbytes := Utf8.decode_eq_some.mp (Outcome.okOr_eq_ok.mp htext)
          have hitem : Scalar (seg buf start mid ++ Utf8.bytes text) (.text text) :=
            .text (hbytes ▸ head_length_seg hhead hle)
          rw [scalarCanonicalBytes_of_inRange hitem.inRange] at h
          simp only [Outcome.ok.injEq, Prod.mk.injEq] at h
          obtain ⟨rfl, rfl, rfl⟩ := h
          rw [← hbytes, seg_append_seg hstart (Nat.le_add_right mid n)] at hitem
          exact ⟨Nat.le_add_right mid n, hle, .scalar hd hitem, rfl⟩
        · split at h
          · rename_i hmajor
            subst hmajor
            obtain ⟨hle, hnext, items, hitems, rfl, rfl, rfl⟩ :=
              (decodeList_eq_ok hone hmid).mp h
            refine ⟨hle, hnext, ?_, rfl⟩
            rw [← seg_append_seg hstart hle]
            exact .list hd hhead hitems
          · split at h
            · rename_i hmajor
              subst hmajor
              obtain ⟨hle, hnext, entries, hentries, rfl, rfl, rfl⟩ :=
                (decodeMap_eq_ok hone hmid).mp h
              refine ⟨hle, hnext, ?_, rfl⟩
              rw [← seg_append_seg hstart hle]
              exact .map hd hhead hentries
            · cases h

theorem decodeItem_of_lt {bits : Nat} {needCanon : Bool} {pos : Nat} (hpos : pos < buf.length) :
    decodeItem bits buf one pos needCanon =
      if buf[pos] >>> 5 = 7 then
        decodeMajor7 buf pos (buf[pos] &&& 0x1F) >>= fun r => scalarCanonicalBytes r.1 r.2 needCanon
      else
        decodeCount buf (pos + 1) (buf[pos] &&& 0x1F) >>= fun r =>
          decodeCounted bits buf one (buf[pos] >>> 5) r.1 r.2 needCanon := by
  have hneed : need buf pos 1 = .ok () := need_eq_ok.mpr hpos
  rw [decodeItem, hneed, Outcome.ok_bind, index_of_lt hpos, Outcome.ok_bind]

/-- An item that starts with a head is decoded by what follows the head. -/
theorem decodeItem_of_head {bits : Nat} {needCanon : Bool} {major : UInt8} {h rest : Bytes}
    {n pos next : Nat} (hm : major < 7) (hh : Head major n h) (hle : pos ≤ next)
    (hnext : next ≤ buf.length) (hseg : seg buf pos next = h ++ rest) :
    decodeItem bits buf one pos needCanon =
      decodeCounted bits buf one major n (pos + h.length) needCanon := by
  obtain ⟨hpos, hmajor, hcount⟩ :=
    decodeCount_of_head (UInt8.lt_trans hm (by decide)) hh hle hnext hseg
  rw [decodeItem_of_lt hpos, hmajor, if_neg (UInt8.ne_of_lt hm), hcount]
  rfl

/-- The first byte of an item of major type 7. -/
theorem Simple.head {s : Bytes} {v : Value} (h : Simple s v) :
    ∃ ai tail, s = headByte 7 ai :: tail ∧ ai < 32 := by
  cases h with
  | null | half | single | double => exact ⟨_, _, rfl, by decide⟩

theorem decodeItem_of_simple {bits : Nat} {needCanon : Bool} {pos next : Nat} {v : Value}
    (hle : pos ≤ next) (hnext : next ≤ buf.length) (h : Simple (seg buf pos next) v) :
    decodeItem bits buf one pos needCanon = .ok (v, canonIf needCanon v, next) := by
  obtain ⟨ai, tail, hs, hai⟩ := h.head
  have hlen := congrArg List.length hs
  rw [length_seg hnext, List.length_cons] at hlen
  have hlt : pos < next := by omega
  have hpos : pos < buf.length := by omega
  have h7 : buf[pos] >>> 5 = 7 := by
    rw [seg_cons hpos hlt] at hs
    rw [(List.cons.inj hs).1, headByte_major (by decide) hai]
  rw [decodeItem_of_lt hpos, if_pos h7, (decodeMajor7_eq_ok hpos h7).mpr ⟨hlt, hnext, h⟩,
    Outcome.ok_bind, scalarCanonicalBytes_of_inRange h.inRange]

theorem decodeItem_of_scalar {needCanon : Bool} {pos next : Nat} {v : Value} (hle : pos ≤ next)
    (hnext : next ≤ buf.length) (h : Scalar (seg buf pos next) v) :
    decodeItem 64 buf one pos needCanon = .ok (v, canonIf needCanon v, next) := by
  have hrange := h.inRange
  have hlen := @length_seg buf pos next hnext
  generalize hs : seg buf pos next = s at h hlen
  cases h with
  | uint hhead =>
      rw [decodeItem_of_head (by decide) hhead hle hnext (hs.trans (List.append_nil _).symm),
        decodeCounted, if_pos rfl, scalarCanonicalBytes_of_inRange hrange, hlen,
        Nat.add_sub_cancel' hle]
  | nint hhead =>
      rw [decodeItem_of_head (by decide) hhead hle hnext (hs.trans (List.append_nil _).symm),
        decodeCounted, if_neg (by decide), if_pos rfl, scalarCanonicalBytes_of_inRange hrange, hlen,
        Nat.add_sub_cancel' hle]
  | bytes hhead =>
      rename_i b h
      obtain ⟨hmid, -, hbody⟩ := seg_split hle hnext hs
      rw [List.length_append] at hlen
      have hend : pos + h.length + b.length = next := by omega
      rw [decodeItem_of_head (by decide) hhead hle hnext hs, decodeCounted, if_neg (by decide),
        if_neg (by decide), if_pos rfl, asUsize_of_lt hhead.lt]
      refine need_slice_bind_eq_ok.mpr ⟨hend.trans_le hnext, ?_⟩
      rw [hend, hbody, scalarCanonicalBytes_of_inRange hrange]
  | text hhead =>
      rename_i text h
      obtain ⟨hmid, -, hbody⟩ := seg_split hle hnext hs
      rw [List.length_append] at hlen
      have hend : pos + h.length + (Utf8.bytes text).length = next := by omega
      rw [decodeItem_of_head (by decide) hhead hle hnext hs, decodeCounted, if_neg (by decide),
        if_neg (by decide), if_neg (by decide), if_pos rfl, asUsize_of_lt hhead.lt]
      refine need_slice_bind_eq_ok.mpr ⟨hend.trans_le hnext, ?_⟩
      rw [hend, hbody, Utf8.decode_bytes]
      exact scalarCanonicalBytes_of_inRange hrange _ _

/-- **One level.**  With the sub-items decoded right, the item is. -/
theorem decodeItem_accepts (hd : d ≤ MAX_NESTING_DEPTH) (hone : Accepts buf (d + 1) one) :
    Accepts buf d (decodeItem 64 buf one) := by
  intro pos next needCanon v c
  constructor
  · intro h
    have hpos : pos < buf.length := (need_bind_eq_ok.mp h).1
    rw [decodeItem_of_lt hpos] at h
    split at h
    · rename_i h7
      obtain ⟨⟨w, next'⟩, hw, h⟩ := Outcome.bind_eq_ok.mp h
      obtain ⟨hlt, hnext, hsimple⟩ := (decodeMajor7_eq_ok hpos h7).mp hw
      rw [scalarCanonicalBytes_of_inRange hsimple.inRange] at h
      simp only [Outcome.ok.injEq, Prod.mk.injEq] at h
      obtain ⟨rfl, rfl, rfl⟩ := h
      exact ⟨hlt.le, hnext, .simple hd hsimple, rfl⟩
    · obtain ⟨⟨n, mid⟩, hcount, h⟩ := Outcome.bind_eq_ok.mp h
      obtain ⟨hlt, hmid, hhead⟩ := head_of_decodeCount hpos hcount
      obtain ⟨hle, hrest⟩ := decodeCounted_sound hd hone hlt.le hmid hhead h
      exact ⟨hlt.le.trans hle, hrest⟩
  · rintro ⟨hle, hnext, hitem, rfl⟩
    generalize hs : seg buf pos next = s at hitem
    cases hitem with
    | simple _ hsimple => exact decodeItem_of_simple hle hnext (hs ▸ hsimple)
    | scalar _ hscalar => exact decodeItem_of_scalar hle hnext (hs ▸ hscalar)
    | list _ hhead hitems =>
        rw [decodeItem_of_head (by decide) hhead hle hnext hs]
        obtain ⟨hmid, -, hbody⟩ := seg_split hle hnext hs
        rw [← hbody] at hitems
        exact (decodeList_eq_ok hone (hmid.trans hnext)).mpr
          ⟨hmid, hnext, _, hitems, rfl, rfl, rfl⟩
    | map _ hhead hentries =>
        rw [decodeItem_of_head (by decide) hhead hle hnext hs]
        obtain ⟨hmid, -, hbody⟩ := seg_split hle hnext hs
        rw [← hbody] at hentries
        exact (decodeMap_eq_ok hone (hmid.trans hnext)).mpr
          ⟨hmid, hnext, _, hentries, rfl, rfl, rfl⟩

/-- **The decoder accepts exactly the items**, with the depth still open below. -/
theorem decodeLevels_accepts : ∀ {levels d : Nat}, levels + d = MAX_NESTING_DEPTH + 1 →
    Accepts buf d (decodeLevels 64 buf levels) := by
  intro levels
  induction levels with
  | zero =>
      intro d hd
      rw [decodeLevels]
      intro pos next needCanon v c
      constructor
      · intro h
        cases h
      · rintro ⟨-, -, hitem, -⟩
        have := hitem.depth_le
        omega
  | succ levels ih =>
      intro d hd
      exact decodeItem_accepts (by omega) (ih (by omega))

theorem decodeOne_accepts (hd : d ≤ MAX_NESTING_DEPTH) :
    Accepts buf d (fun pos => decodeOne 64 buf pos d) :=
  decodeLevels_accepts (by omega)

/-- **Acceptance.**  A byte string decodes to `v` exactly when it is one item with value `v`. -/
theorem decode_eq_ok {v : Value} : decode 64 buf = .ok v ↔ Item 0 buf v := by
  rw [decode, Outcome.bind_eq_ok]
  constructor
  · rintro ⟨⟨w, c, pos⟩, hone, h⟩
    obtain ⟨-, -, hitem, -⟩ := (decodeOne_accepts (Nat.zero_le _)).mp hone
    by_cases hpos : pos = buf.length
    · subst hpos
      simp only [ne_eq, not_true_eq_false, if_false, Outcome.pure_eq, Outcome.ok.injEq] at h
      rw [seg_all, h] at hitem
      exact hitem
    · simp only [ne_eq, hpos, not_false_eq_true, if_true] at h
      cases h
  · intro hitem
    refine ⟨(v, [], buf.length), ?_, by simp⟩
    exact (decodeOne_accepts (Nat.zero_le _)).mpr
      ⟨Nat.zero_le _, le_rfl, by rwa [seg_all], rfl⟩

/-- The decoder run on an item and whatever follows it stops after the item. -/
theorem Item.decodeOne {d : Nat} {s : Bytes} {v : Value} (h : Item d s v) (rest : Bytes) :
    decodeOne 64 (s ++ rest) 0 d false = .ok (v, [], s.length) := by
  refine (decodeOne_accepts h.depth_le).mpr ⟨Nat.zero_le _, by simp, ?_, rfl⟩
  have hseg : seg (s ++ rest) 0 s.length = s := by simp [seg]
  rwa [hseg]

/-- **At most one item starts a byte string.** -/
theorem Item.unique {d : Nat} {s s' r r' : Bytes} {v v' : Value} (h : Item d s v)
    (h' : Item d s' v') (heq : s ++ r = s' ++ r') : s = s' ∧ v = v' ∧ r = r' := by
  have hdecode := h.decodeOne r
  rw [heq, h'.decodeOne r'] at hdecode
  simp only [Outcome.ok.injEq, Prod.mk.injEq, true_and] at hdecode
  obtain ⟨hs, hr⟩ := List.append_inj heq hdecode.2.symm
  exact ⟨hs, hdecode.1.symm, hr⟩

end Macula.Cbor
