import Macula.Cbor.RoundTrip

/-!
# The decoder returns

On every byte string the decoder returns a value or an error.  Each index and slice stands
behind a `need`, the canonical bytes it asks for are those of values in range, and the slots
of a map stay in step with its entries (`MapState.insert_of`).

Positions are natural numbers here and `usize` in the source.  `decodeBounded` is the decoder
that panics as soon as an addition to a position could overflow, and it is the same decoder
(`decodeBounded_eq`).
-/

namespace Macula.Cbor

variable {buf : Bytes} {d : Nat} {one : ItemDecoder}

/-! ## Bytes -/

theorem need_bind_ne_panicked {α : Type} {pos k : Nat} {f : Unit → Outcome DecodeError α}
    (h : pos + k ≤ buf.length → f () ≠ .panicked) : (need buf pos k >>= f) ≠ .panicked := by
  by_cases hle : pos + k ≤ buf.length
  · rw [need, if_pos hle]
    exact h hle
  · rw [need, if_neg hle]
    simp

theorem decodeCount_ne_panicked {pos : Nat} {ai : UInt8} (hai : ai < 32) :
    decodeCount buf pos ai ≠ .panicked := by
  rw [decodeCount]
  split
  · simp
  · split
    · refine need_bind_ne_panicked fun hle => ?_
      rw [index_of_lt hle]
      simp
    · split
      · refine need_bind_ne_panicked fun hle => ?_
        rw [readU16_of_le hle]
        simp
      · split
        · refine need_bind_ne_panicked fun hle => ?_
          rw [readBe_of_le hle]
          simp
        · split
          · refine need_bind_ne_panicked fun hle => ?_
            rw [readBe_of_le hle]
            simp
          · split
            · simp
            · next hgt =>
                have hle : ai.toNat ≤ 31 := Nat.le_of_lt_succ (UInt8.lt_iff_toNat_lt.mp hai)
                exact absurd (UInt8.le_iff_toNat_le.mpr hle) hgt

theorem decodeMajor7_ne_panicked {pos : Nat} {ai : UInt8} :
    decodeMajor7 buf pos ai ≠ .panicked := by
  rw [decodeMajor7]
  split
  · simp
  · split
    · refine need_bind_ne_panicked fun hle => ?_
      rw [readU16_of_le hle, Outcome.ok_bind]
      exact Outcome.bind_ne_panicked Outcome.okOr_ne_panicked (fun _ _ => by simp)
    · split
      · refine need_bind_ne_panicked fun hle => ?_
        rw [readBe_of_le hle]
        simp
      · split
        · refine need_bind_ne_panicked fun hle => ?_
          rw [readBe_of_le hle]
          simp
        · simp

theorem scalarCanonicalBytes_ne_panicked {v : Value} (h : v.IntsInRange) (next : Nat)
    (needCanon : Bool) : scalarCanonicalBytes v next needCanon ≠ .panicked := by
  rw [scalarCanonicalBytes_of_inRange h]
  nofun

/-! ## Lists and maps -/

/-- `one` returns wherever in the buffer it is called. -/
def Returns (buf : Bytes) (one : ItemDecoder) : Prop :=
  ∀ pos needCanon, pos ≤ buf.length → one pos needCanon ≠ .panicked

theorem decodeListLoop_ne_panicked (hone : Accepts buf d one) (hreturns : Returns buf one)
    {needCanon : Bool} : ∀ {count pos : Nat} {items : List Value} {c : Bytes},
    pos ≤ buf.length → decodeListLoop one needCanon count pos items c ≠ .panicked := by
  intro count
  induction count with
  | zero =>
      intro _ _ _ _
      nofun
  | succ count ih =>
      intro pos items c hpos
      rw [decodeListLoop]
      refine Outcome.bind_ne_panicked (hreturns pos needCanon hpos) ?_
      rintro ⟨v, vc, next⟩ hv
      exact ih (hone.mp hv).2.1

theorem decodeMapLoop_ne_panicked (hone : Accepts buf d one) (hreturns : Returns buf one)
    {needCanon : Bool} : ∀ {count pos : Nat} {pairs : List (Value × Value)},
    pos ≤ buf.length → decodeMapLoop one needCanon count pos (.of needCanon pairs) ≠ .panicked := by
  intro count
  induction count with
  | zero =>
      intro _ _ _
      nofun
  | succ count ih =>
      intro pos pairs hpos
      rw [decodeMapLoop]
      refine Outcome.bind_ne_panicked (hreturns pos true hpos) ?_
      rintro ⟨k, kc, next₁⟩ hk
      obtain ⟨-, hnext₁, -, rfl⟩ := hone.mp hk
      refine Outcome.bind_ne_panicked (hreturns next₁ needCanon hnext₁) ?_
      rintro ⟨v, vc, next₂⟩ hv
      obtain ⟨-, hnext₂, -, rfl⟩ := hone.mp hv
      simp only [canonIf_true, MapState.insert_of, Outcome.ok_bind]
      exact ih hnext₂

theorem decodeList_ne_panicked (hone : Accepts buf d one) (hreturns : Returns buf one)
    {needCanon : Bool} {count pos : Nat} (hpos : pos ≤ buf.length) :
    decodeList one pos count needCanon ≠ .panicked :=
  Outcome.bind_ne_panicked (decodeListLoop_ne_panicked hone hreturns hpos) (fun _ _ => nofun)

theorem decodeMap_ne_panicked (hone : Accepts buf d one) (hreturns : Returns buf one)
    {needCanon : Bool} {count pos : Nat} (hpos : pos ≤ buf.length) :
    decodeMap one pos count needCanon ≠ .panicked := by
  rw [decodeMap, ← MapState.of_nil needCanon]
  refine Outcome.bind_ne_panicked (decodeMapLoop_ne_panicked hone hreturns hpos) ?_
  rintro ⟨s, next⟩ hloop
  obtain ⟨-, -, entries, -, -, rfl⟩ := (decodeMapLoop_eq_ok hone hpos).mp hloop
  cases needCanon with
  | false => simp
  | true =>
      simp only [entriesCanon_of]
      simp

/-! ## Items -/

theorem decodeCounted_ne_panicked (hone : Accepts buf d one) (hreturns : Returns buf one)
    {needCanon : Bool} {major : UInt8} {n mid : Nat} (hmid : mid ≤ buf.length) (hn : n < 2 ^ 64) :
    decodeCounted 64 buf one major n mid needCanon ≠ .panicked := by
  rw [decodeCounted]
  split
  · refine scalarCanonicalBytes_ne_panicked (Value.all_int.mpr ?_) _ _
    exact ⟨by omega, by omega⟩
  · split
    · refine scalarCanonicalBytes_ne_panicked (Value.all_int.mpr ?_) _ _
      exact ⟨by omega, by omega⟩
    · split
      · refine need_bind_ne_panicked fun hle => ?_
        rw [slice_of_le (Nat.le_add_right _ _) hle, Outcome.ok_bind]
        exact scalarCanonicalBytes_ne_panicked (Value.inRange_bytes _) _ _
      · split
        · refine need_bind_ne_panicked fun hle => ?_
          rw [slice_of_le (Nat.le_add_right _ _) hle, Outcome.ok_bind]
          refine Outcome.bind_ne_panicked Outcome.okOr_ne_panicked fun text _ => ?_
          exact scalarCanonicalBytes_ne_panicked (Value.inRange_text _) _ _
        · split
          · exact decodeList_ne_panicked hone hreturns hmid
          · split
            · exact decodeMap_ne_panicked hone hreturns hmid
            · simp

/-- **One level.**  When the sub-items return, the item does. -/
theorem decodeItem_returns (hone : Accepts buf d one) (hreturns : Returns buf one) :
    Returns buf (decodeItem 64 buf one) := by
  intro pos needCanon _
  by_cases hpos : pos < buf.length
  · rw [decodeItem_of_lt hpos]
    split
    · next h7 =>
        refine Outcome.bind_ne_panicked decodeMajor7_ne_panicked ?_
        rintro ⟨v, next⟩ hv
        obtain ⟨-, -, hsimple⟩ := (decodeMajor7_eq_ok hpos h7).mp hv
        exact scalarCanonicalBytes_ne_panicked hsimple.inRange _ _
    · refine Outcome.bind_ne_panicked (decodeCount_ne_panicked (ai_lt _)) ?_
      rintro ⟨n, next⟩ hcount
      obtain ⟨-, hnext, hhead⟩ := head_of_decodeCount hpos hcount
      exact decodeCounted_ne_panicked hone hreturns hnext hhead.lt
  · have hneed : need buf pos 1 = .err .truncated := if_neg hpos
    rw [decodeItem, hneed]
    simp

theorem decodeLevels_returns : ∀ {levels d : Nat}, levels + d = MAX_NESTING_DEPTH + 1 →
    Returns buf (decodeLevels 64 buf levels) := by
  intro levels
  induction levels with
  | zero =>
      intro d _ pos needCanon _
      nofun
  | succ levels ih =>
      intro d hd
      have hbelow : levels + (d + 1) = MAX_NESTING_DEPTH + 1 := by omega
      exact decodeItem_returns (decodeLevels_accepts hbelow) (ih hbelow)

/-- **The decoder returns** on every byte string. -/
theorem decode_ne_panicked (buf : Bytes) : decode 64 buf ≠ .panicked := by
  have hlevels : MAX_NESTING_DEPTH + 1 - 0 + 0 = MAX_NESTING_DEPTH + 1 := rfl
  refine Outcome.bind_ne_panicked (decodeLevels_returns hlevels 0 false (Nat.zero_le _)) ?_
  rintro ⟨v, c, next⟩ -
  dsimp only
  split <;> nofun

/-! ## Positions -/

/-- To a position the source adds at most nine, or a length that `need` has checked.  This
decoder panics where the former could leave `usize`. -/
def bounded (bits : Nat) (one : ItemDecoder) : ItemDecoder := fun pos needCanon =>
  if pos + 9 < 2 ^ bits then one pos needCanon else .panicked

def decodeBounded (bits : Nat) (buf : Bytes) : (levels : Nat) → ItemDecoder
  | 0 => fun _ _ => .err .nestingTooDeep
  | levels + 1 => bounded bits (decodeItem bits buf (decodeBounded bits buf levels))

/-- Two decoders of sub-items agree within the buffer. -/
def Agree (buf : Bytes) (one one' : ItemDecoder) : Prop :=
  ∀ pos needCanon, pos ≤ buf.length → one' pos needCanon = one pos needCanon

section

variable {one' : ItemDecoder} (hone : Accepts buf d one) (hagree : Agree buf one one')

include hone hagree

theorem decodeListLoop_agree {needCanon : Bool} : ∀ {count pos : Nat} {items : List Value}
    {c : Bytes}, pos ≤ buf.length → decodeListLoop one' needCanon count pos items c =
      decodeListLoop one needCanon count pos items c := by
  intro count
  induction count with
  | zero =>
      intro _ _ _ _
      rfl
  | succ count ih =>
      intro pos items c hpos
      rw [decodeListLoop, decodeListLoop, hagree pos needCanon hpos]
      cases hv : one pos needCanon with
      | ok r =>
          obtain ⟨v, vc, next⟩ := r
          exact ih (hone.mp hv).2.1
      | err e => rfl
      | panicked => rfl

theorem decodeMapLoop_agree {needCanon : Bool} : ∀ {count pos : Nat} {s : MapState},
    pos ≤ buf.length →
      decodeMapLoop one' needCanon count pos s = decodeMapLoop one needCanon count pos s := by
  intro count
  induction count with
  | zero =>
      intro _ _ _
      rfl
  | succ count ih =>
      intro pos s hpos
      rw [decodeMapLoop, decodeMapLoop, hagree pos true hpos]
      cases hk : one pos true with
      | ok r =>
          obtain ⟨k, kc, next₁⟩ := r
          have hnext₁ := (hone.mp hk).2.1
          simp only [Outcome.ok_bind, hagree next₁ needCanon hnext₁]
          cases hv : one next₁ needCanon with
          | ok r =>
              obtain ⟨v, vc, next₂⟩ := r
              simp only [Outcome.ok_bind, ih (hone.mp hv).2.1]
          | err e => rfl
          | panicked => rfl
      | err e => rfl
      | panicked => rfl

theorem decodeItem_agree : Agree buf (decodeItem 64 buf one) (decodeItem 64 buf one') := by
  intro pos needCanon _
  by_cases hpos : pos < buf.length
  · rw [decodeItem_of_lt hpos, decodeItem_of_lt hpos]
    split
    · rfl
    · cases hcount : decodeCount buf (pos + 1) (buf[pos] &&& 0x1F) with
      | ok r =>
          obtain ⟨n, next⟩ := r
          have hnext := (head_of_decodeCount hpos hcount).2.1
          simp only [Outcome.ok_bind, decodeCounted, decodeList, decodeMap,
            decodeListLoop_agree hone hagree hnext, decodeMapLoop_agree hone hagree hnext]
      | err e => rfl
      | panicked => rfl
  · have hneed : need buf pos 1 = .err .truncated := if_neg hpos
    rw [decodeItem, decodeItem, hneed]
    rfl

end

/-- **No position overflows** in a buffer that leaves room for one head. -/
theorem decodeBounded_eq (hbuf : buf.length + 9 < 2 ^ 64) : ∀ {levels d : Nat},
    levels + d = MAX_NESTING_DEPTH + 1 →
      Agree buf (decodeLevels 64 buf levels) (decodeBounded 64 buf levels) := by
  intro levels
  induction levels with
  | zero =>
      intro d _ pos needCanon _
      rfl
  | succ levels ih =>
      intro d hd
      have hbelow : levels + (d + 1) = MAX_NESTING_DEPTH + 1 := by omega
      intro pos needCanon hpos
      rw [decodeBounded, bounded, if_pos (by omega)]
      exact decodeItem_agree (decodeLevels_accepts hbelow) (ih hbelow) pos
        needCanon hpos

end Macula.Cbor
