import Macula.Cbor.Accept

/-!
# Where the decoder stops

`Item` says which bytes are accepted and with which value.  Here values are left out and
errors are put in.  `Reads d s t` says that one item at depth `d` stands at the front of `s`
and that `t` is what follows it; `Comes d s d' t` that the decoder, on its way through the
item at the front of `s`, comes to an item at depth `d'` that should start `t`; and `Fails d t e`
that it stops there, with `e`, on account of that item's own head.

A length on the wire counts modulo `2 ^ bits`, as it does after `as usize`, so the relations
describe the decoder on a platform of either word size.
-/

namespace Macula.Cbor

/-! ## Items without their values -/

/-- A head with `n` sub-items after it.  An entry of a map is two. -/
inductive Opens : (n : Nat) → (h : Bytes) → Prop where
  | list {n : Nat} {h : Bytes} : Head 4 n h → Opens n h
  | map {n : Nat} {h : Bytes} : Head 5 n h → Opens (2 * n) h

/-- How many bytes follow the head byte of a float. -/
def floatWidth (ai : UInt8) : Option Nat :=
  if ai = 25 then some 2 else if ai = 26 then some 4 else if ai = 27 then some 8 else none

/-- The items without sub-items. -/
inductive Leaf (bits : Nat) : (s : Bytes) → Prop where
  | simple {s : Bytes} {v : Value} : Simple s v → Leaf bits s
  | uint {n : Nat} {h : Bytes} : Head 0 n h → Leaf bits h
  | nint {n : Nat} {h : Bytes} : Head 1 n h → Leaf bits h
  | bytes {n : Nat} {h b : Bytes} : Head 2 n h → b.length = asUsize bits n → Leaf bits (h ++ b)
  | text {n : Nat} {h : Bytes} {text : String} : Head 3 n h →
      (Utf8.bytes text).length = asUsize bits n → Leaf bits (h ++ Utf8.bytes text)

mutual

/-- One item at depth `d` is at the front of `s`, and `t` follows it. -/
inductive Reads (bits : Nat) : (d : Nat) → (s t : Bytes) → Prop where
  | leaf {d : Nat} {s t : Bytes} : d ≤ MAX_NESTING_DEPTH → Leaf bits s → Reads bits d (s ++ t) t
  | container {d n : Nat} {h s t : Bytes} : d ≤ MAX_NESTING_DEPTH → Opens n h →
      ReadsMany bits (d + 1) n s t → Reads bits d (h ++ s) t

/-- `n` items one after the other. -/
inductive ReadsMany (bits : Nat) : (d n : Nat) → (s t : Bytes) → Prop where
  | nil {d : Nat} {s : Bytes} : ReadsMany bits d 0 s s
  | cons {d n : Nat} {s t u : Bytes} : Reads bits d s t → ReadsMany bits d n t u →
      ReadsMany bits d (n + 1) s u

end

/-- On the way through the item at the front of `s` the decoder comes to one that should
start `t`. -/
inductive Comes (bits : Nat) : (d : Nat) → (s : Bytes) → (d' : Nat) → (t : Bytes) → Prop where
  | here {d : Nat} {s : Bytes} : Comes bits d s d s
  | inside {d n k d' : Nat} {h s t u : Bytes} : d ≤ MAX_NESTING_DEPTH → Opens n h → k < n →
      ReadsMany bits (d + 1) k s t → Comes bits (d + 1) t d' u → Comes bits d (h ++ s) d' u

/-- The item that should start `s` cannot be read, whatever its sub-items are. -/
inductive HeadFails (bits : Nat) : (s : Bytes) → (e : DecodeError) → Prop where
  | empty : HeadFails bits [] .truncated
  | cut {major ai : UInt8} {k : Nat} {s : Bytes} : major < 7 → argWidth ai = some k →
      s.length < k → HeadFails bits (headByte major ai :: s) .truncated
  | reserved {major ai : UInt8} {s : Bytes} : major < 7 → ai < 32 → argWidth ai = none →
      HeadFails bits (headByte major ai :: s) (.unsupportedAdditionalInfoEncoding ai)
  | short {major : UInt8} {n : Nat} {h s : Bytes} : major = 2 ∨ major = 3 → Head major n h →
      s.length < asUsize bits n → HeadFails bits (h ++ s) .truncated
  | notUtf8 {n : Nat} {h b s : Bytes} : Head 3 n h → b.length = asUsize bits n →
      Utf8.decode b = none → HeadFails bits (h ++ (b ++ s)) .invalidUtf8
  | tag {n : Nat} {h s : Bytes} : Head 6 n h → HeadFails bits (h ++ s) (.unsupportedMajorType 6)
  | cutFloat {ai : UInt8} {k : Nat} {s : Bytes} : floatWidth ai = some k → s.length < k →
      HeadFails bits (headByte 7 ai :: s) .truncated
  | half {b s : Bytes} : b.length = 2 → halfToF64 (ofBe b) = none →
      HeadFails bits (headByte 7 25 :: (b ++ s)) .unrepresentableFloat
  | simple {ai : UInt8} {s : Bytes} : ai < 32 → ai ≠ 22 → floatWidth ai = none →
      HeadFails bits (headByte 7 ai :: s) (.unsupportedAdditionalInfo ai)

/-- The decoder stops with `e` at an item at depth `d` that should start `s`. -/
inductive Fails (bits : Nat) : (d : Nat) → (s : Bytes) → (e : DecodeError) → Prop where
  | deep {d : Nat} {s : Bytes} : MAX_NESTING_DEPTH < d → Fails bits d s .nestingTooDeep
  | head {d : Nat} {s : Bytes} {e : DecodeError} : d ≤ MAX_NESTING_DEPTH → HeadFails bits s e →
      Fails bits d s e

theorem Reads.depth_le {bits d : Nat} {s t : Bytes} (h : Reads bits d s t) :
    d ≤ MAX_NESTING_DEPTH := by
  generalize hs : s = s' at h
  cases h with
  | leaf hd | container hd => exact hd

mutual

theorem Reads.length_le {bits : Nat} : ∀ {d : Nat} {s t : Bytes}, Reads bits d s t →
    t.length ≤ s.length
  | _, _, _, .leaf _ _ => by simp
  | _, _, _, .container _ _ hmany => by
      have := hmany.length_le
      rw [List.length_append]
      omega

theorem ReadsMany.length_le {bits : Nat} : ∀ {d n : Nat} {s t : Bytes}, ReadsMany bits d n s t →
    t.length ≤ s.length
  | _, _, _, _, .nil => le_rfl
  | _, _, _, _, .cons hitem hmany => hmany.length_le.trans hitem.length_le

end

/-- The decoder only goes forward. -/
theorem Comes.length_le {bits d d' : Nat} {s t : Bytes} (h : Comes bits d s d' t) :
    t.length ≤ s.length := by
  induction h with
  | here => exact le_rfl
  | inside _ _ _ hmany _ ih =>
      have := hmany.length_le
      rw [List.length_append]
      omega

/-- Reading the item at the front of `s`, at depth `d`, ends in `e`. -/
def Stops (bits d : Nat) (s : Bytes) (e : DecodeError) : Prop :=
  ∃ d' t, Comes bits d s d' t ∧ Fails bits d' t e

variable {bits d : Nat} {buf : Bytes} {one : ItemDecoder}

theorem Stops.here {s : Bytes} {e : DecodeError} (hd : d ≤ MAX_NESTING_DEPTH)
    (h : HeadFails bits s e) : Stops bits d s e :=
  ⟨d, s, .here, .head hd h⟩

theorem Stops.inside {n k : Nat} {h s t : Bytes} {e : DecodeError} (hd : d ≤ MAX_NESTING_DEPTH)
    (ho : Opens n h) (hk : k < n) (hmany : ReadsMany bits (d + 1) k s t)
    (hstops : Stops bits (d + 1) t e) : Stops bits d (h ++ s) e := by
  obtain ⟨d', u, hcomes, hfails⟩ := hstops
  exact ⟨d', u, .inside hd ho hk hmany hcomes, hfails⟩

/-- Past the limit the only end is the limit's. -/
theorem Stops.of_deep {s : Bytes} {e : DecodeError} (hd : MAX_NESTING_DEPTH < d)
    (h : Stops bits d s e) : e = .nestingTooDeep := by
  obtain ⟨d', t, hcomes, hfails⟩ := h
  have hd' : MAX_NESTING_DEPTH < d' := by
    cases hcomes with
    | here => exact hd
    | inside hle => omega
  cases hfails with
  | deep => rfl
  | head hle => omega

/-! ## Reading at a position -/

theorem seg_length (buf : Bytes) (pos : Nat) : seg buf pos buf.length = buf.drop pos := by
  rw [seg, ← List.length_drop, List.take_length]

/-- What a position in the buffer says about the bytes after it. -/
theorem drop_eq_cons {pos : Nat} {b : UInt8} {s : Bytes} (h : buf.drop pos = b :: s) :
    ∃ hpos : pos < buf.length, buf[pos] = b ∧ buf.drop (pos + 1) = s := by
  have hpos : pos < buf.length := by
    by_contra hge
    rw [List.drop_eq_nil_of_le (not_lt.mp hge)] at h
    cases h
  rw [List.drop_eq_getElem_cons hpos] at h
  exact ⟨hpos, (List.cons.inj h).1, (List.cons.inj h).2⟩

theorem drop_append {pos : Nat} {s t : Bytes} (hpos : pos ≤ buf.length)
    (h : buf.drop pos = s ++ t) :
    pos + s.length + t.length = buf.length ∧ seg buf pos (pos + s.length) = s ∧
      buf.drop (pos + s.length) = t := by
  have hlen := congrArg List.length h
  rw [List.length_drop, List.length_append] at hlen
  rw [← seg_length] at h
  obtain ⟨-, hs, ht⟩ := seg_split hpos le_rfl h
  rw [seg_length] at ht
  exact ⟨by omega, hs, ht⟩

theorem drop_eq_seg_append {pos k : Nat} (h : pos + k ≤ buf.length) :
    buf.drop pos = seg buf pos (pos + k) ++ buf.drop (pos + k) := by
  rw [← seg_length, ← seg_length, seg_append_seg (Nat.le_add_right pos k) h]

/-! ## The head -/

theorem floatWidth_lt {ai : UInt8} {k : Nat} (h : floatWidth ai = some k) : ai < 32 := by
  rw [floatWidth] at h
  split at h
  · next hai => simp [hai]
  · split at h
    · next hai => simp [hai]
    · split at h
      · next hai => simp [hai]
      · cases h

theorem need_bind_of_gt {α : Type} {pos k : Nat} {f : Unit → Outcome DecodeError α}
    (h : buf.length < pos + k) : (need buf pos k >>= f) = .err .truncated := by
  rw [need, if_neg (by omega)]
  rfl

theorem argWidth_eq_some {ai : UInt8} {k : Nat} (h : argWidth ai = some k) :
    (ai ≤ 23 ∧ k = 0) ∨ (ai = 24 ∧ k = 1) ∨ (ai = 25 ∧ k = 2) ∨ (ai = 26 ∧ k = 4) ∨
      (ai = 27 ∧ k = 8) := by
  rw [argWidth] at h
  split at h
  · next hai => exact .inl ⟨hai, (Option.some.inj h).symm⟩
  · right
    split at h
    · next hai => exact .inl ⟨hai, (Option.some.inj h).symm⟩
    · right
      grind

theorem floatWidth_eq_some {ai : UInt8} {k : Nat} (h : floatWidth ai = some k) :
    (ai = 25 ∧ k = 2) ∨ (ai = 26 ∧ k = 4) ∨ (ai = 27 ∧ k = 8) := by
  rw [floatWidth] at h
  grind

/-- The argument of a head is cut short. -/
theorem decodeCount_of_gt {pos k : Nat} {ai : UInt8} (hpos : pos ≤ buf.length)
    (hk : argWidth ai = some k) (h : buf.length < pos + k) :
    decodeCount buf pos ai = .err .truncated := by
  rcases argWidth_eq_some hk with ⟨-, rfl⟩ | ⟨rfl, rfl⟩ | ⟨rfl, rfl⟩ | ⟨rfl, rfl⟩ | ⟨rfl, rfl⟩
  · omega
  · exact need_bind_of_gt h
  · exact need_bind_of_gt h
  · exact need_bind_of_gt h
  · exact need_bind_of_gt h

theorem decodeCount_of_reserved {pos : Nat} {ai : UInt8} (hai : ai < 32) (h : argWidth ai = none) :
    decodeCount buf pos ai = .err (.unsupportedAdditionalInfoEncoding ai) := by
  have hle : ai ≤ 31 := UInt8.le_iff_toNat_le.mpr (Nat.le_of_lt_succ hai)
  rw [argWidth] at h
  split at h
  · cases h
  · next hsmall =>
      rw [decodeCount, if_neg hsmall]
      grind

theorem decodeMajor7_of_gt {pos k : Nat} {ai : UInt8} (hk : floatWidth ai = some k)
    (h : buf.length < pos + 1 + k) : decodeMajor7 buf pos ai = .err .truncated := by
  rcases floatWidth_eq_some hk with ⟨rfl, rfl⟩ | ⟨rfl, rfl⟩ | ⟨rfl, rfl⟩
  · exact need_bind_of_gt h
  · exact need_bind_of_gt h
  · exact need_bind_of_gt h

theorem decodeMajor7_of_half {pos : Nat} (h : pos + 1 + 2 ≤ buf.length)
    (hhalf : halfToF64 (ofBe (seg buf (pos + 1) (pos + 1 + 2))) = none) :
    decodeMajor7 buf pos 25 = .err .unrepresentableFloat := by
  have hneed : need buf (pos + 1) 2 = .ok () := need_eq_ok.mpr h
  rw [decodeMajor7, if_neg (by decide), if_pos rfl, hneed, Outcome.ok_bind, readU16_of_le h,
    Outcome.ok_bind, hhalf]
  rfl

theorem decodeMajor7_of_none {pos : Nat} {ai : UInt8} (hnull : ai ≠ 22)
    (h : floatWidth ai = none) :
    decodeMajor7 buf pos ai = .err (.unsupportedAdditionalInfo ai) := by
  rw [floatWidth] at h
  rw [decodeMajor7]
  grind

/-! ## One item -/

theorem decodeItem_of_cons {pos : Nat} {needCanon : Bool} {major ai : UInt8} {s : Bytes}
    (hm : major < 7) (hai : ai < 32) (h : buf.drop pos = headByte major ai :: s) :
    decodeItem bits buf one pos needCanon =
      decodeCount buf (pos + 1) ai >>= fun r =>
        decodeCounted bits buf one major r.1 r.2 needCanon := by
  obtain ⟨hpos, hbyte, -⟩ := drop_eq_cons h
  have hm' : major < 8 := UInt8.lt_trans hm (by decide)
  rw [decodeItem_of_lt hpos, hbyte, headByte_major hm' hai, headByte_ai hm' hai,
    if_neg (UInt8.ne_of_lt hm)]

theorem decodeItem_of_seven {pos : Nat} {needCanon : Bool} {ai : UInt8} {s : Bytes}
    (hai : ai < 32) (h : buf.drop pos = headByte 7 ai :: s) :
    decodeItem bits buf one pos needCanon =
      decodeMajor7 buf pos ai >>= fun r => scalarCanonicalBytes r.1 r.2 needCanon := by
  obtain ⟨hpos, hbyte, -⟩ := drop_eq_cons h
  rw [decodeItem_of_lt hpos, hbyte, headByte_major (by decide) hai, headByte_ai (by decide) hai,
    if_pos rfl]

/-- A head at the front is read, and what follows it decides. -/
theorem decodeItem_of_drop {pos n : Nat} {needCanon : Bool} {major : UInt8} {h s : Bytes}
    (hpos : pos ≤ buf.length) (hm : major < 7) (hh : Head major n h)
    (hs : buf.drop pos = h ++ s) :
    decodeItem bits buf one pos needCanon =
      decodeCounted bits buf one major n (pos + h.length) needCanon :=
  decodeItem_of_head hm hh hpos le_rfl ((seg_length buf pos).trans hs)

/-- An item whose head cannot be read fails. -/
theorem decodeItem_of_headFails {pos : Nat} {needCanon : Bool} {e : DecodeError}
    (hpos : pos ≤ buf.length) (h : HeadFails bits (buf.drop pos) e) :
    decodeItem bits buf one pos needCanon = .err e := by
  generalize hs : buf.drop pos = s at h
  have hlen := congrArg List.length hs
  rw [List.length_drop] at hlen
  cases h with
  | empty =>
      rw [List.length_nil] at hlen
      exact need_bind_of_gt (by omega)
  | cut hm hk hlt =>
      rw [List.length_cons] at hlen
      rw [decodeItem_of_cons hm (ai_lt_of_argWidth hk) hs,
        decodeCount_of_gt (by omega) hk (by omega)]
      rfl
  | reserved hm hai hk =>
      rw [decodeItem_of_cons hm hai hs, decodeCount_of_reserved hai hk]
      rfl
  | short hmajor hh hlt =>
      rename_i major n h s
      rw [List.length_append] at hlen
      have hneed : buf.length < pos + h.length + asUsize bits n := by omega
      rcases hmajor with rfl | rfl
      · rw [decodeItem_of_drop hpos (by decide) hh hs]
        exact need_bind_of_gt hneed
      · rw [decodeItem_of_drop hpos (by decide) hh hs]
        exact need_bind_of_gt hneed
  | notUtf8 hh hb hnone =>
      rename_i n h b s
      obtain ⟨hend, -, hdrop⟩ := drop_append hpos hs
      obtain ⟨hend', hseg, -⟩ := drop_append (by omega) hdrop
      have hneed : need buf (pos + h.length) b.length = .ok () := need_eq_ok.mpr (by omega)
      rw [decodeItem_of_drop hpos (by decide) hh hs, decodeCounted, if_neg (by decide),
        if_neg (by decide), if_neg (by decide), if_pos rfl]
      simp only [← hb, hneed, Outcome.ok_bind]
      rw [slice_of_le (Nat.le_add_right _ _) (by omega), Outcome.ok_bind, hseg, hnone]
      rfl
  | tag hh =>
      rw [decodeItem_of_drop hpos (by decide) hh hs]
      rfl
  | cutFloat hk hlt =>
      rw [List.length_cons] at hlen
      rw [decodeItem_of_seven (floatWidth_lt hk) hs, decodeMajor7_of_gt hk (by omega)]
      rfl
  | half hb hnone =>
      rename_i b s
      obtain ⟨hlt, -, hdrop⟩ := drop_eq_cons hs
      obtain ⟨hend, hseg, -⟩ := drop_append hlt hdrop
      rw [hb] at hend hseg
      rw [decodeItem_of_seven (by decide) hs, decodeMajor7_of_half (by omega) (hseg ▸ hnone)]
      rfl
  | simple hai hnull hk =>
      rw [decodeItem_of_seven hai hs, decodeMajor7_of_none hnull hk]
      rfl

/-- An item without sub-items is read up to its end. -/
theorem decodeItem_of_leaf {pos : Nat} {needCanon : Bool} {s t : Bytes} (hpos : pos ≤ buf.length)
    (h : Leaf bits s) (hs : buf.drop pos = s ++ t) :
    ∃ v, decodeItem bits buf one pos needCanon =
      .ok (v, canonIf needCanon v, pos + s.length) := by
  obtain ⟨hend, hseg, -⟩ := drop_append hpos hs
  cases h with
  | simple hsimple =>
      rename_i v
      rw [← hseg] at hsimple
      exact ⟨v, decodeItem_of_simple (Nat.le_add_right _ _) (by omega) hsimple⟩
  | uint hh =>
      rw [decodeItem_of_drop hpos (by decide) hh hs]
      exact ⟨_, scalarCanonicalBytes_of_inRange (Scalar.uint hh).inRange _ _⟩
  | nint hh =>
      rw [decodeItem_of_drop hpos (by decide) hh hs]
      exact ⟨_, scalarCanonicalBytes_of_inRange (Scalar.nint hh).inRange _ _⟩
  | bytes hh hb =>
      rename_i n h b
      rw [List.append_assoc] at hs
      obtain ⟨-, -, hdrop⟩ := drop_append hpos hs
      rw [List.length_append] at hend
      obtain ⟨-, hbytes, -⟩ := drop_append (by omega) hdrop
      rw [List.length_append, ← Nat.add_assoc, hb]
      rw [hb] at hend hbytes
      rw [decodeItem_of_drop hpos (by decide) hh hs, decodeCounted, if_neg (by decide),
        if_neg (by decide), if_pos rfl]
      refine ⟨.bytes b, need_slice_bind_eq_ok.mpr ⟨by omega, ?_⟩⟩
      rw [hbytes]
      exact scalarCanonicalBytes_of_inRange (Value.inRange_bytes _) _ _
  | text hh hb =>
      rename_i n h text
      rw [List.append_assoc] at hs
      obtain ⟨-, -, hdrop⟩ := drop_append hpos hs
      rw [List.length_append] at hend
      obtain ⟨-, htext, -⟩ := drop_append (by omega) hdrop
      rw [List.length_append, ← Nat.add_assoc, hb]
      rw [hb] at hend htext
      rw [decodeItem_of_drop hpos (by decide) hh hs, decodeCounted, if_neg (by decide),
        if_neg (by decide), if_neg (by decide), if_pos rfl]
      refine ⟨.text text, need_slice_bind_eq_ok.mpr ⟨by omega, ?_⟩⟩
      rw [htext, Utf8.decode_bytes]
      exact scalarCanonicalBytes_of_inRange (Value.inRange_text _) _ _

/-! ## Lists and maps -/

/-- `one`, called at depth `d`, ends as the relations say. -/
structure Follows (bits : Nat) (buf : Bytes) (d : Nat) (one : ItemDecoder) : Prop where
  reads {pos : Nat} {t : Bytes} (needCanon : Bool) : pos ≤ buf.length →
    Reads bits d (buf.drop pos) t → ∃ v next,
      one pos needCanon = .ok (v, canonIf needCanon v, next) ∧ next ≤ buf.length ∧
        buf.drop next = t
  stops {pos : Nat} {e : DecodeError} (needCanon : Bool) : pos ≤ buf.length →
    Stops bits d (buf.drop pos) e → one pos needCanon = .err e

theorem decodeListLoop_of_readsMany (hone : Follows bits buf d one) {needCanon : Bool} {t : Bytes} :
    ∀ {count pos : Nat} {items : List Value} {c : Bytes}, pos ≤ buf.length →
      ReadsMany bits d count (buf.drop pos) t → ∃ tail next,
        decodeListLoop one needCanon count pos items c =
          .ok (items ++ tail, if needCanon then c ++ tail.flatMap canon else c, next) ∧
        tail.length = count ∧ next ≤ buf.length ∧ buf.drop next = t := by
  intro count
  induction count with
  | zero =>
      intro pos items c hpos hmany
      cases hmany
      exact ⟨[], pos, by simp [decodeListLoop], rfl, hpos, rfl⟩
  | succ count ih =>
      intro pos items c hpos hmany
      cases hmany with
      | cons hitem hmany =>
        obtain ⟨v, mid, hv, hmid, rfl⟩ := hone.reads needCanon hpos hitem
        obtain ⟨tail, next, hloop, hlen, hnext, hdrop⟩ :=
          ih hmid hmany
        refine ⟨v :: tail, next, ?_, by rw [List.length_cons, hlen], hnext, hdrop⟩
        rw [decodeListLoop, hv, Outcome.ok_bind]
        refine hloop.trans ?_
        cases needCanon <;> simp [canonIf]

theorem decodeListLoop_of_stops (hone : Follows bits buf d one) {needCanon : Bool} {t : Bytes}
    {e : DecodeError} (hstops : Stops bits d t e) :
    ∀ {k count pos : Nat} {items : List Value} {c : Bytes}, pos ≤ buf.length → k < count →
      ReadsMany bits d k (buf.drop pos) t → decodeListLoop one needCanon count pos items c = .err e
  | _, 0, _, _, _, _, hk, _ => by omega
  | 0, count + 1, pos, items, c, hpos, _, hmany => by
      cases hmany
      rw [decodeListLoop, hone.stops needCanon hpos hstops]
      rfl
  | k + 1, count + 1, pos, items, c, hpos, hk, hmany => by
      cases hmany with
      | cons hitem hmany =>
        obtain ⟨v, mid, hv, hmid, rfl⟩ := hone.reads needCanon hpos hitem
        rw [decodeListLoop, hv, Outcome.ok_bind]
        exact decodeListLoop_of_stops hone hstops hmid (by omega) hmany

theorem decodeMapLoop_of_readsMany (hone : Follows bits buf d one) {needCanon : Bool} {t : Bytes} :
    ∀ {count pos : Nat} {pairs : List (Value × Value)}, pos ≤ buf.length →
      ReadsMany bits d (2 * count) (buf.drop pos) t → ∃ pairs' next,
        decodeMapLoop one needCanon count pos (.of needCanon pairs) =
          .ok (.of needCanon pairs', next) ∧ next ≤ buf.length ∧ buf.drop next = t := by
  intro count
  induction count with
  | zero =>
      intro pos pairs hpos hmany
      cases hmany
      exact ⟨pairs, pos, rfl, hpos, rfl⟩
  | succ count ih =>
      intro pos pairs hpos hmany
      cases hmany with
      | cons hkey hmany =>
        cases hmany with
        | cons hvalue hmany =>
          obtain ⟨k, mid₁, hk, hmid₁, rfl⟩ := hone.reads true hpos hkey
          obtain ⟨v, mid₂, hv, hmid₂, rfl⟩ := hone.reads needCanon hmid₁ hvalue
          rw [decodeMapLoop_succ hk hv]
          exact ih hmid₂ hmany

theorem decodeMapLoop_of_stops (hone : Follows bits buf d one) {needCanon : Bool} {t : Bytes}
    {e : DecodeError} (hstops : Stops bits d t e) :
    ∀ {k count pos : Nat} {pairs : List (Value × Value)}, pos ≤ buf.length → k < 2 * count →
      ReadsMany bits d k (buf.drop pos) t →
        decodeMapLoop one needCanon count pos (.of needCanon pairs) = .err e
  | _, 0, _, _, _, hk, _ => by omega
  | 0, count + 1, pos, pairs, hpos, _, hmany => by
      cases hmany
      rw [decodeMapLoop, hone.stops true hpos hstops]
      rfl
  | 1, count + 1, pos, pairs, hpos, _, hmany => by
      cases hmany with
      | cons hkey hmany =>
        cases hmany
        obtain ⟨k, mid, hk, hmid, rfl⟩ := hone.reads true hpos hkey
        simp only [decodeMapLoop, hk, Outcome.ok_bind, hone.stops needCanon hmid hstops,
          Outcome.err_bind]
  | k + 2, count + 1, pos, pairs, hpos, hk, hmany => by
      cases hmany with
      | cons hkey hmany =>
        cases hmany with
        | cons hvalue hmany =>
          obtain ⟨key, mid₁, hkey', hmid₁, rfl⟩ := hone.reads true hpos hkey
          obtain ⟨v, mid₂, hv, hmid₂, rfl⟩ := hone.reads needCanon hmid₁ hvalue
          rw [decodeMapLoop_succ hkey' hv]
          exact decodeMapLoop_of_stops hone hstops hmid₂ (by omega) hmany

/-- The sub-items behind a head are read, and the container with them. -/
theorem decodeItem_of_readsMany (hone : Follows bits buf (d + 1) one) {pos n : Nat}
    {needCanon : Bool} {h s t : Bytes} (hpos : pos ≤ buf.length) (ho : Opens n h)
    (hs : buf.drop pos = h ++ s) (hmany : ReadsMany bits (d + 1) n s t) :
    ∃ v next, decodeItem bits buf one pos needCanon = .ok (v, canonIf needCanon v, next) ∧
      next ≤ buf.length ∧ buf.drop next = t := by
  obtain ⟨hend, -, rfl⟩ := drop_append hpos hs
  cases ho with
  | list hh =>
      obtain ⟨items, next, hloop, hlen, hnext, hdrop⟩ :=
        @decodeListLoop_of_readsMany _ _ _ _ hone needCanon _ _ _ []
          (if needCanon then encodeHead 4 n else []) (by omega) hmany
      refine ⟨.list items, next, ?_, hnext, hdrop⟩
      rw [decodeItem_of_drop hpos (by decide) hh hs]
      change decodeList one _ n needCanon = _
      rw [decodeList, hloop, ← hlen]
      cases needCanon <;> simp [canonIf]
  | map hh =>
      rename_i n
      obtain ⟨pairs, next, hloop, hnext, hdrop⟩ :=
        @decodeMapLoop_of_readsMany _ _ _ _ hone needCanon _ _ _ [] (by omega) hmany
      refine ⟨.map pairs, next, ?_, hnext, hdrop⟩
      rw [decodeItem_of_drop hpos (by decide) hh hs]
      exact decodeMap_of_loop hloop

/-- A sub-item that stops the decoder stops it for the container. -/
theorem decodeItem_of_stops (hone : Follows bits buf (d + 1) one) {pos n k : Nat}
    {needCanon : Bool} {h s t : Bytes} {e : DecodeError} (hpos : pos ≤ buf.length)
    (ho : Opens n h) (hs : buf.drop pos = h ++ s) (hk : k < n)
    (hmany : ReadsMany bits (d + 1) k s t) (hstops : Stops bits (d + 1) t e) :
    decodeItem bits buf one pos needCanon = .err e := by
  obtain ⟨hend, -, rfl⟩ := drop_append hpos hs
  cases ho with
  | list hh =>
      rw [decodeItem_of_drop hpos (by decide) hh hs]
      change decodeList one _ n needCanon = _
      rw [decodeList, decodeListLoop_of_stops hone hstops (by omega) hk hmany]
      rfl
  | map hh =>
      rename_i n
      rw [decodeItem_of_drop hpos (by decide) hh hs]
      change decodeMap one _ n needCanon = _
      rw [decodeMap, ← MapState.of_nil needCanon,
        decodeMapLoop_of_stops hone hstops (by omega) hk hmany]
      rfl

/-- **One level.**  When the sub-items end as the relations say, the item does. -/
theorem decodeItem_follows (hd : d ≤ MAX_NESTING_DEPTH) (hone : Follows bits buf (d + 1) one) :
    Follows bits buf d (decodeItem bits buf one) where
  reads := by
    intro pos t needCanon hpos hreads
    generalize hs : buf.drop pos = s at hreads
    cases hreads with
    | leaf _ hleaf =>
        rename_i s
        obtain ⟨hend, -, hdrop⟩ := drop_append hpos hs
        obtain ⟨v, hv⟩ := @decodeItem_of_leaf bits buf one pos needCanon _ _ hpos hleaf hs
        exact ⟨v, _, hv, by omega, hdrop⟩
    | container _ ho hmany => exact decodeItem_of_readsMany hone hpos ho hs hmany
  stops := by
    rintro pos e needCanon hpos ⟨d', t, hcomes, hfails⟩
    generalize hs : buf.drop pos = s at hcomes
    cases hcomes with
    | here =>
        cases hfails with
        | deep hdeep => omega
        | head _ hfails => exact decodeItem_of_headFails hpos (hs ▸ hfails)
    | inside _ ho hk hmany hcomes =>
        exact decodeItem_of_stops hone hpos ho hs hk hmany ⟨d', t, hcomes, hfails⟩

/-- **The decoder ends as the relations say**, on a platform of either word size. -/
theorem decodeLevels_follows : ∀ {levels d : Nat}, levels + d = MAX_NESTING_DEPTH + 1 →
    Follows bits buf d (decodeLevels bits buf levels) := by
  intro levels
  induction levels with
  | zero =>
      intro d hd
      constructor
      · intro pos t needCanon _ hreads
        have hle : d ≤ MAX_NESTING_DEPTH := hreads.depth_le
        omega
      · intro pos e needCanon _ hstops
        rw [hstops.of_deep (by omega)]
        rfl
  | succ levels ih =>
      intro d hd
      exact decodeItem_follows (by omega) (ih (by omega))

/-! ## Every byte string is read or stops the decoder -/

/-- What a byte string starts with. -/
inductive Front (bits : Nat) (s : Bytes) : Prop where
  | fails {e : DecodeError} : HeadFails bits s e → Front bits s
  | leaf {u t : Bytes} : Leaf bits u → s = u ++ t → Front bits s
  | opens {n : Nat} {h t : Bytes} : Opens n h → s = h ++ t → Front bits s

theorem major_cases {major : UInt8} (h : major < 7) :
    major = 0 ∨ major = 1 ∨ major = 2 ∨ major = 3 ∨ major = 4 ∨ major = 5 ∨ major = 6 := by
  have hlt : major.toNat < 7 := h
  simp only [← UInt8.toNat_inj]
  simp
  omega

/-- A string behind its head is there, or cut short, or not text. -/
theorem front_of_string {major : UInt8} {n : Nat} {h : Bytes} (hmajor : major = 2 ∨ major = 3)
    (hh : Head major n h) (s : Bytes) : Front bits (h ++ s) := by
  by_cases hlen : s.length < asUsize bits n
  · exact .fails (.short hmajor hh hlen)
  · have hb : (s.take (asUsize bits n)).length = asUsize bits n := by
      rw [List.length_take]
      omega
    have hsplit : s = s.take (asUsize bits n) ++ s.drop (asUsize bits n) :=
      (List.take_append_drop _ s).symm
    generalize s.take (asUsize bits n) = b at hb hsplit
    rw [hsplit]
    rcases hmajor with rfl | rfl
    · exact .leaf (.bytes hh hb) (List.append_assoc _ _ _).symm
    · cases hdecode : Utf8.decode b with
      | none => exact .fails (.notUtf8 hh hb hdecode)
      | some text =>
          obtain rfl := Utf8.decode_eq_some.mp hdecode
          exact .leaf (.text hh hb) (List.append_assoc _ _ _).symm

theorem front_of_head {major : UInt8} {n : Nat} {h : Bytes} (hm : major < 7)
    (hh : Head major n h) (s : Bytes) : Front bits (h ++ s) := by
  rcases major_cases hm with rfl | rfl | rfl | rfl | rfl | rfl | rfl
  · exact .leaf (.uint hh) rfl
  · exact .leaf (.nint hh) rfl
  · exact front_of_string (.inl rfl) hh s
  · exact front_of_string (.inr rfl) hh s
  · exact .opens (.list hh) rfl
  · exact .opens (.map hh) rfl
  · exact .fails (.tag hh)

theorem front_of_seven {ai : UInt8} (hai : ai < 32) (s : Bytes) :
    Front bits (headByte 7 ai :: s) := by
  by_cases hnull : ai = 22
  · subst hnull
    exact .leaf (.simple .null) rfl
  · cases hk : floatWidth ai with
    | none => exact .fails (.simple hai hnull hk)
    | some k =>
        by_cases hlt : s.length < k
        · exact .fails (.cutFloat hk hlt)
        · have hb : (s.take k).length = k := by
            rw [List.length_take]
            omega
          have hsplit : s = s.take k ++ s.drop k := (List.take_append_drop k s).symm
          generalize s.take k = b at hb hsplit
          rw [hsplit]
          rcases floatWidth_eq_some hk with ⟨rfl, rfl⟩ | ⟨rfl, rfl⟩ | ⟨rfl, rfl⟩
          · cases hhalf : halfToF64 (ofBe b) with
            | none => exact .fails (.half hb hhalf)
            | some v => exact .leaf (.simple (.half hb hhalf)) rfl
          · exact .leaf (.simple (.single hb)) rfl
          · exact .leaf (.simple (.double hb)) rfl

theorem front (s : Bytes) : Front bits s := by
  cases s with
  | nil => exact .fails .empty
  | cons b s =>
      rw [← headByte_parts b]
      have hai := ai_lt b
      by_cases h7 : b >>> 5 = 7
      · rw [h7]
        exact front_of_seven hai s
      · have hm : b >>> 5 < 7 := by
          have hlt := UInt8.lt_iff_toNat_lt.mp (major_lt b)
          have hne : (b >>> 5).toNat ≠ 7 := fun h => h7 (UInt8.toNat_inj.mp h)
          apply UInt8.lt_iff_toNat_lt.mpr
          change (b >>> 5).toNat < 8 at hlt
          change (b >>> 5).toNat < 7
          omega
        cases hk : argWidth (b &&& 0x1F) with
        | none => exact .fails (.reserved hm hai hk)
        | some k =>
            by_cases hlt : s.length < k
            · exact .fails (.cut hm hk hlt)
            · have htail : (s.take k).length = k := by
                rw [List.length_take]
                omega
              have hh : Head (b >>> 5) _ (headByte (b >>> 5) (b &&& 0x1F) :: s.take k) :=
                .mk (by rw [hk, htail])
              have hfront : Front bits (_ ++ s.drop k) := front_of_head hm hh _
              rwa [List.cons_append, List.take_append_drop] at hfront

theorem readsMany_or_stops (h : ∀ s, (∃ t, Reads bits d s t) ∨ ∃ e, Stops bits d s e) :
    ∀ (n : Nat) (s : Bytes), (∃ t, ReadsMany bits d n s t) ∨
      ∃ k t e, k < n ∧ ReadsMany bits d k s t ∧ Stops bits d t e := by
  intro n
  induction n with
  | zero =>
      intro s
      exact .inl ⟨s, .nil⟩
  | succ n ih =>
      intro s
      rcases h s with ⟨t, hitem⟩ | ⟨e, hstops⟩
      · rcases ih t with ⟨u, hmany⟩ | ⟨k, u, e, hk, hmany, hstops⟩
        · exact .inl ⟨u, .cons hitem hmany⟩
        · exact .inr ⟨k + 1, u, e, by omega, .cons hitem hmany, hstops⟩
      · exact .inr ⟨0, s, e, by omega, .nil, hstops⟩

theorem reads_or_stops_of_levels : ∀ {levels d : Nat}, levels + d = MAX_NESTING_DEPTH + 1 →
    ∀ s, (∃ t, Reads bits d s t) ∨ ∃ e, Stops bits d s e := by
  intro levels
  induction levels with
  | zero =>
      intro d hd s
      exact .inr ⟨_, d, s, .here, .deep (by omega)⟩
  | succ levels ih =>
      intro d hd s
      have hd' : d ≤ MAX_NESTING_DEPTH := by omega
      cases @front bits s with
      | fails hfails => exact .inr ⟨_, .here hd' hfails⟩
      | leaf hleaf hs =>
          subst hs
          exact .inl ⟨_, .leaf hd' hleaf⟩
      | opens ho hs =>
          subst hs
          have hd'' : levels + (d + 1) = MAX_NESTING_DEPTH + 1 := by omega
          have hbelow : ∀ s, (∃ t, Reads bits (d + 1) s t) ∨ ∃ e, Stops bits (d + 1) s e :=
            ih hd''
          rcases readsMany_or_stops hbelow _ _ with ⟨t, hmany⟩ | ⟨k, t, e, hk, hmany, hstops⟩
          · exact .inl ⟨t, .container hd' ho hmany⟩
          · exact .inr ⟨e, .inside hd' ho hk hmany hstops⟩

/-- **The relations cover every byte string.** -/
theorem reads_or_stops (hd : d ≤ MAX_NESTING_DEPTH + 1) (s : Bytes) :
    (∃ t, Reads bits d s t) ∨ ∃ e, Stops bits d s e :=
  reads_or_stops_of_levels (Nat.sub_add_cancel hd) s

/-- What a decoder that follows the relations returns has been read. -/
theorem Follows.reads_of_ok (hone : Follows bits buf d one) (hd : d ≤ MAX_NESTING_DEPTH + 1)
    {pos next : Nat} {needCanon : Bool} {v : Value} {c : Bytes} (hpos : pos ≤ buf.length)
    (h : one pos needCanon = .ok (v, c, next)) :
    next ≤ buf.length ∧ c = canonIf needCanon v ∧ Reads bits d (buf.drop pos) (buf.drop next) := by
  rcases @reads_or_stops bits d hd (buf.drop pos) with ⟨t, hreads⟩ | ⟨e, hstops⟩
  · obtain ⟨w, next', hw, hnext, hdrop⟩ := hone.reads needCanon hpos hreads
    rw [h, Outcome.ok.injEq, Prod.mk.injEq, Prod.mk.injEq] at hw
    obtain ⟨rfl, rfl, rfl⟩ := hw
    exact ⟨hnext, rfl, hdrop ▸ hreads⟩
  · rw [hone.stops needCanon hpos hstops] at h
    cases h

/-! ## The whole buffer -/

theorem decodeOne_follows (hd : d ≤ MAX_NESTING_DEPTH + 1) :
    Follows bits buf d (fun pos => decodeOne bits buf pos d) :=
  decodeLevels_follows (Nat.sub_add_cancel hd)

theorem decode_of_reads {t : Bytes} (h : Reads bits 0 buf t) :
    ∃ v, decode bits buf = if t ≠ [] then .err .trailingBytes else .ok v := by
  have hfollows : Follows bits buf 0 _ := decodeOne_follows (Nat.zero_le _)
  obtain ⟨v, next, hv, hnext, hdrop⟩ := hfollows.reads false (Nat.zero_le _) h
  have hend : next ≠ buf.length ↔ t ≠ [] := by
    rw [← hdrop, ne_eq, ne_eq, List.drop_eq_nil_iff]
    omega
  refine ⟨v, ?_⟩
  rw [decode, hv, Outcome.ok_bind]
  simp only [hend]
  rfl

theorem decode_of_stops {e : DecodeError} (h : Stops bits 0 buf e) : decode bits buf = .err e := by
  have hfollows : Follows bits buf 0 _ := decodeOne_follows (Nat.zero_le _)
  rw [decode, hfollows.stops false (Nat.zero_le _) h]
  rfl

/-- **Values.**  A byte string is decoded exactly when it is one item and nothing more. -/
theorem exists_decode_eq_ok : (∃ v, decode bits buf = .ok v) ↔ Reads bits 0 buf [] := by
  constructor
  · rintro ⟨v, hv⟩
    rcases @reads_or_stops bits 0 (Nat.zero_le _) buf with ⟨t, hreads⟩ | ⟨e, hstops⟩
    · obtain ⟨w, hw⟩ := decode_of_reads hreads
      by_cases ht : t = []
      · exact ht ▸ hreads
      · rw [hv, if_pos ht] at hw
        cases hw
    · rw [decode_of_stops hstops] at hv
      cases hv
  · intro h
    obtain ⟨v, hv⟩ := decode_of_reads h
    exact ⟨v, hv⟩

/-- **Errors.**  The error is the one the decoder stops with, or that bytes are left over. -/
theorem decode_eq_err {e : DecodeError} : decode bits buf = .err e ↔
    Stops bits 0 buf e ∨ (e = .trailingBytes ∧ ∃ t, t ≠ [] ∧ Reads bits 0 buf t) := by
  constructor
  · intro h
    rcases @reads_or_stops bits 0 (Nat.zero_le _) buf with ⟨t, hreads⟩ | ⟨e', hstops⟩
    · obtain ⟨v, hv⟩ := decode_of_reads hreads
      rw [h] at hv
      split at hv
      · next ht => exact .inr ⟨Outcome.err.inj hv, t, ht, hreads⟩
      · cases hv
    · rw [decode_of_stops hstops] at h
      exact .inl (Outcome.err.inj h ▸ hstops)
  · rintro (hstops | ⟨rfl, t, ht, hreads⟩)
    · exact decode_of_stops hstops
    · obtain ⟨v, hv⟩ := decode_of_reads hreads
      rw [hv, if_pos ht]

end Macula.Cbor
