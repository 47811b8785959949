import Macula.Cbor.Stops

/-!
# The word size

`decode_one` casts the length of a string with `as usize` before it checks it.  Where `usize`
has 64 bits the cast does nothing.  Where it has fewer, a claimed length that does not fit
loses its high bits, and the bounds check is made on what is left: the decoder takes for the
string bytes that the claim would have had truncated.

The two decoders agree up to the first string of this kind (`decodeLevels_narrow`), at which
the wide one stops.
-/

namespace Macula.Cbor

variable {bits d : Nat} {buf : Bytes} {one one' : ItemDecoder}

/-- A string at the front of `s` claims more than `usize` can count, and as many bytes as the
low bits of the claim say are there. -/
inductive Wraps (bits : Nat) : (s : Bytes) → Prop where
  | string {major : UInt8} {n : Nat} {h s : Bytes} : major = 2 ∨ major = 3 → Head major n h →
      2 ^ bits ≤ n → asUsize bits n ≤ s.length → Wraps bits (h ++ s)

/-- The decoder comes to a string of that kind. -/
def MeetsWrap (bits d : Nat) (s : Bytes) : Prop :=
  ∃ d' t, Comes 64 d s d' t ∧ d' ≤ MAX_NESTING_DEPTH ∧ Wraps bits t

theorem MeetsWrap.here {s : Bytes} (hd : d ≤ MAX_NESTING_DEPTH) (h : Wraps bits s) :
    MeetsWrap bits d s :=
  ⟨d, s, .here, hd, h⟩

theorem MeetsWrap.inside {n k : Nat} {h s t : Bytes} (hd : d ≤ MAX_NESTING_DEPTH)
    (ho : Opens n h) (hk : k < n) (hmany : ReadsMany 64 (d + 1) k s t)
    (hmeets : MeetsWrap bits (d + 1) t) : MeetsWrap bits d (h ++ s) := by
  obtain ⟨d', u, hcomes, hd', hwraps⟩ := hmeets
  exact ⟨d', u, .inside hd ho hk hmany hcomes, hd', hwraps⟩

/-- The wide decoder stops at such a string. -/
theorem MeetsWrap.stops {s : Bytes} (hs : s.length < 2 ^ bits) (h : MeetsWrap bits d s) :
    Stops 64 d s .truncated := by
  obtain ⟨d', t, hcomes, hd', hwraps⟩ := h
  have hlen := hcomes.length_le
  refine ⟨d', t, hcomes, .head hd' ?_⟩
  cases hwraps with
  | string hmajor hh hn hfit =>
      refine .short hmajor hh ?_
      rw [List.length_append] at hlen
      rw [asUsize_of_lt hh.lt]
      omega

/-! ## Two decoders side by side -/

/-- A narrow decoder of sub-items agrees with a wide one, up to the first string that wraps. -/
def Narrow (bits : Nat) (buf : Bytes) (d : Nat) (one one' : ItemDecoder) : Prop :=
  ∀ pos needCanon, pos ≤ buf.length →
    one' pos needCanon = one pos needCanon ∨ MeetsWrap bits d (buf.drop pos)

section

variable (hd : d ≤ MAX_NESTING_DEPTH + 1) (hone : Follows 64 buf d one)
  (hnarrow : Narrow bits buf d one one')

include hd hone hnarrow

theorem decodeListLoop_narrow {needCanon : Bool} : ∀ {count pos : Nat} {items : List Value}
    {c : Bytes}, pos ≤ buf.length →
      decodeListLoop one' needCanon count pos items c =
        decodeListLoop one needCanon count pos items c ∨
      ∃ k t, k < count ∧ ReadsMany 64 d k (buf.drop pos) t ∧ MeetsWrap bits d t := by
  intro count
  induction count with
  | zero =>
      intro _ _ _ _
      exact .inl rfl
  | succ count ih =>
      intro pos items c hpos
      rw [decodeListLoop, decodeListLoop]
      rcases hnarrow pos needCanon hpos with heq | hmeets
      · rw [heq]
        cases hv : one pos needCanon with
        | ok r =>
            obtain ⟨v, vc, next⟩ := r
            obtain ⟨hnext, -, hreads⟩ := hone.reads_of_ok hd hpos hv
            rcases ih hnext with heq | ⟨k, t, hk, hmany, hmeets⟩
            · exact .inl heq
            · exact .inr ⟨k + 1, t, by omega, .cons hreads hmany, hmeets⟩
        | err e => exact .inl rfl
        | panicked => exact .inl rfl
      · exact .inr ⟨0, _, by omega, .nil, hmeets⟩

theorem decodeMapLoop_narrow {needCanon : Bool} : ∀ {count pos : Nat} {s : MapState},
    pos ≤ buf.length →
      decodeMapLoop one' needCanon count pos s = decodeMapLoop one needCanon count pos s ∨
      ∃ k t, k < 2 * count ∧ ReadsMany 64 d k (buf.drop pos) t ∧ MeetsWrap bits d t := by
  intro count
  induction count with
  | zero =>
      intro _ _ _
      exact .inl rfl
  | succ count ih =>
      intro pos s hpos
      rw [decodeMapLoop, decodeMapLoop]
      rcases hnarrow pos true hpos with heq | hmeets
      · rw [heq]
        cases hk : one pos true with
        | ok r =>
            obtain ⟨k, kc, next₁⟩ := r
            obtain ⟨hnext₁, -, hkey⟩ := hone.reads_of_ok hd hpos hk
            simp only [Outcome.ok_bind]
            rcases hnarrow next₁ needCanon hnext₁ with heq | hmeets
            · rw [heq]
              cases hv : one next₁ needCanon with
              | ok r =>
                  obtain ⟨v, vc, next₂⟩ := r
                  obtain ⟨hnext₂, -, hvalue⟩ := hone.reads_of_ok hd hnext₁ hv
                  simp only [Outcome.ok_bind]
                  cases s.insert k v kc vc needCanon with
                  | ok s' =>
                      simp only [Outcome.ok_bind]
                      rcases ih hnext₂ with
                        heq | ⟨j, t, hj, hmany, hmeets⟩
                      · exact .inl heq
                      · exact .inr ⟨j + 2, t, by omega, .cons hkey (.cons hvalue hmany), hmeets⟩
                  | err e => exact .inl rfl
                  | panicked => exact .inl rfl
              | err e => exact .inl rfl
              | panicked => exact .inl rfl
            · exact .inr ⟨1, _, by omega, .cons hkey .nil, hmeets⟩
        | err e => exact .inl rfl
        | panicked => exact .inl rfl
      · exact .inr ⟨0, _, by omega, .nil, hmeets⟩

end

/-- A claim that does not fit and whose low bits do not fit either is refused by both. -/
theorem decodeString_narrow {needCanon : Bool} {pos n : Nat} {major : UInt8} {h s : Bytes}
    (hmajor : major = 2 ∨ major = 3) (hpos : pos ≤ buf.length) (hh : Head major n h)
    (hs : buf.drop pos = h ++ s) :
    decodeCounted bits buf one' major n (pos + h.length) needCanon =
      decodeCounted 64 buf one major n (pos + h.length) needCanon ∨ Wraps bits (h ++ s) := by
  by_cases hn : n < 2 ^ bits
  · left
    have hwide : asUsize bits n = asUsize 64 n := by
      rw [asUsize_of_lt hh.lt]
      exact Nat.mod_eq_of_lt hn
    rcases hmajor with rfl | rfl <;> simp [decodeCounted, hwide]
  · by_cases hfit : asUsize bits n ≤ s.length
    · exact .inr (.string hmajor hh (not_lt.mp hn) hfit)
    · left
      obtain ⟨hend, -, -⟩ := drop_append hpos hs
      have hle : asUsize bits n ≤ n := Nat.mod_le n _
      have hwide : asUsize 64 n = n := asUsize_of_lt hh.lt
      rcases hmajor with rfl | rfl
      · exact (need_bind_of_gt (by omega)).trans (need_bind_of_gt (by omega)).symm
      · exact (need_bind_of_gt (by omega)).trans (need_bind_of_gt (by omega)).symm

/-- Past a head, the decoders agree or come to a string that wraps. -/
theorem decodeCounted_narrow (hd : d ≤ MAX_NESTING_DEPTH) (hone : Follows 64 buf (d + 1) one)
    (hnarrow : Narrow bits buf (d + 1) one one') {needCanon : Bool} {pos n : Nat} {major : UInt8}
    {h s : Bytes} (hpos : pos ≤ buf.length) (hh : Head major n h) (hs : buf.drop pos = h ++ s) :
    decodeCounted bits buf one' major n (pos + h.length) needCanon =
      decodeCounted 64 buf one major n (pos + h.length) needCanon ∨
    MeetsWrap bits d (h ++ s) := by
  have hd' : d + 1 ≤ MAX_NESTING_DEPTH + 1 := by omega
  obtain ⟨hend, -, rfl⟩ := drop_append hpos hs
  have hmid : pos + h.length ≤ buf.length := by omega
  by_cases hstring : major = 2 ∨ major = 3
  · rcases @decodeString_narrow bits buf one one' needCanon _ _ _ _ _ hstring hpos hh hs
      with heq | hwraps
    · exact .inl heq
    · exact .inr (.here hd hwraps)
  · rw [not_or] at hstring
    rw [decodeCounted, decodeCounted, if_neg hstring.1, if_neg hstring.1, if_neg hstring.2,
      if_neg hstring.2]
    split
    · exact .inl rfl
    · split
      · exact .inl rfl
      · split
        · next hlist =>
            subst hlist
            rcases @decodeListLoop_narrow _ _ _ _ _ hd' hone hnarrow needCanon n _ []
              (if needCanon then encodeHead 4 n else []) hmid with heq | ⟨k, t, hk, hmany, hmeets⟩
            · left
              rw [decodeList, decodeList, heq]
            · exact .inr (.inside hd (.list hh) hk hmany hmeets)
        · split
          · next hmap =>
              subst hmap
              rcases @decodeMapLoop_narrow _ _ _ _ _ hd' hone hnarrow needCanon n _ ⟨[], [], []⟩
                hmid with heq | ⟨k, t, hk, hmany, hmeets⟩
              · left
                rw [decodeMap, decodeMap, heq]
              · exact .inr (.inside hd (.map hh) hk hmany hmeets)
          · exact .inl rfl

/-- **One level.** -/
theorem decodeItem_narrow (hd : d ≤ MAX_NESTING_DEPTH) (hone : Follows 64 buf (d + 1) one)
    (hnarrow : Narrow bits buf (d + 1) one one') :
    Narrow bits buf d (decodeItem 64 buf one) (decodeItem bits buf one') := by
  intro pos needCanon hpos
  by_cases hlt : pos < buf.length
  · rw [decodeItem_of_lt hlt, decodeItem_of_lt hlt]
    split
    · exact .inl rfl
    · cases hcount : decodeCount buf (pos + 1) (buf[pos] &&& 0x1F) with
      | ok r =>
          obtain ⟨n, mid⟩ := r
          obtain ⟨hle, hmid, hh⟩ := head_of_decodeCount hlt hcount
          have hs : buf.drop pos = seg buf pos mid ++ buf.drop mid := by
            have h := @drop_eq_seg_append buf pos (mid - pos) (by omega)
            rwa [Nat.add_sub_cancel' (by omega)] at h
          have hend : pos + (seg buf pos mid).length = mid := by
            rw [length_seg hmid]
            omega
          have hcounted := @decodeCounted_narrow _ _ _ _ _ hd hone hnarrow needCanon _ _ _ _ _
            hpos hh hs
          rw [hend, ← hs] at hcounted
          exact hcounted
      | err e => exact .inl rfl
      | panicked => exact .inl rfl
  · left
    have hneed : need buf pos 1 = .err .truncated := if_neg hlt
    rw [decodeItem, decodeItem, hneed]
    rfl

theorem decodeLevels_narrow : ∀ {levels d : Nat}, levels + d = MAX_NESTING_DEPTH + 1 →
    Narrow bits buf d (decodeLevels 64 buf levels) (decodeLevels bits buf levels) := by
  intro levels
  induction levels with
  | zero =>
      intro d _ pos needCanon _
      exact .inl rfl
  | succ levels ih =>
      intro d hd
      have hbelow : levels + (d + 1) = MAX_NESTING_DEPTH + 1 := by omega
      exact decodeItem_narrow (by omega) (decodeLevels_follows hbelow) (ih hbelow)

/-! ## The whole buffer -/

/-- Without a string that wraps the word size does not matter. -/
theorem decode_narrow_of_not_meetsWrap (h : ¬ MeetsWrap bits 0 buf) :
    decode bits buf = decode 64 buf := by
  have hlevels : MAX_NESTING_DEPTH + 1 - 0 + 0 = MAX_NESTING_DEPTH + 1 := rfl
  rcases @decodeLevels_narrow bits buf _ _ hlevels 0 false (Nat.zero_le _) with heq | hmeets
  · rw [decode, decode, decodeOne, heq]
    rfl
  · exact absurd hmeets h

/-- **The word size matters** to a buffer exactly when a string in it wraps and the bytes after
it, read on with lengths modulo `2 ^ bits`, do not run out. -/
theorem decode_narrow_eq_iff (hbuf : buf.length < 2 ^ bits) :
    decode bits buf = decode 64 buf ↔ (MeetsWrap bits 0 buf → Stops bits 0 buf .truncated) := by
  constructor
  · intro heq hmeets
    rw [decode_of_stops (hmeets.stops hbuf)] at heq
    rcases decode_eq_err.mp heq with hstops | ⟨he, -⟩
    · exact hstops
    · cases he
  · intro himp
    by_cases hmeets : MeetsWrap bits 0 buf
    · rw [decode_of_stops (himp hmeets), decode_of_stops (hmeets.stops hbuf)]
    · exact decode_narrow_of_not_meetsWrap hmeets

end Macula.Cbor
