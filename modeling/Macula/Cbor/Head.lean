import Macula.Cbor.Encode

/-!
# Item heads

Every item starts with a head: a byte with the major type in its top three bits and
the additional info in the other five, then zero, one, two, four or eight bytes of
argument.  `Head major n h` says that `h` is a head of that major type with argument
`n`, of any width.  `encodeHead` writes the shortest one (`head_encodeHead`).

Heads are self-delimiting: a byte string starts with at most one head, and that head
determines its major type and argument (`Head.unique`).
-/

namespace Macula.Cbor

/-! ## The first byte -/

theorem toNat_headByte {major ai : UInt8} (hm : major < 8) (ha : ai < 32) :
    (headByte major ai).toNat = 32 * major.toNat + ai.toNat := by
  have hm' : major.toNat < 8 := hm
  have ha' : ai.toNat < 2 ^ 5 := ha
  have hshift : (major <<< 5).toNat = major.toNat <<< 5 := by
    simp only [UInt8.toNat_shiftLeft, Nat.shiftLeft_eq]
    exact Nat.mod_eq_of_lt (by change major.toNat * 2 ^ 5 < 2 ^ 8; omega)
  rw [headByte, UInt8.toNat_or, hshift, ← Nat.shiftLeft_add_eq_or_of_lt ha', Nat.shiftLeft_eq]
  omega

theorem toNat_shiftRight_five (b : UInt8) : (b >>> 5).toNat = b.toNat / 32 := by
  simp only [UInt8.toNat_shiftRight, Nat.shiftRight_eq_div_pow]
  rfl

theorem toNat_and_mask (b : UInt8) : (b &&& 0x1F).toNat = b.toNat % 32 := by
  rw [UInt8.toNat_and]
  exact Nat.and_two_pow_sub_one_eq_mod b.toNat 5

theorem major_lt (b : UInt8) : b >>> 5 < 8 := by
  have h := toNat_shiftRight_five b
  have hb : b.toNat < 256 := b.toNat_lt
  change (b >>> 5).toNat < 8
  omega

theorem ai_lt (b : UInt8) : b &&& 0x1F < 32 := by
  have h := toNat_and_mask b
  change (b &&& 0x1F).toNat < 32
  omega

@[simp] theorem headByte_major {major ai : UInt8} (hm : major < 8) (ha : ai < 32) :
    headByte major ai >>> 5 = major := by
  have ha' : ai.toNat < 32 := ha
  apply UInt8.toNat_inj.mp
  rw [toNat_shiftRight_five, toNat_headByte hm ha]
  omega

@[simp] theorem headByte_ai {major ai : UInt8} (hm : major < 8) (ha : ai < 32) :
    headByte major ai &&& 0x1F = ai := by
  have ha' : ai.toNat < 32 := ha
  apply UInt8.toNat_inj.mp
  rw [toNat_and_mask, toNat_headByte hm ha]
  omega

/-- Every byte is the head byte of its own two parts. -/
theorem headByte_parts (b : UInt8) : headByte (b >>> 5) (b &&& 0x1F) = b := by
  apply UInt8.toNat_inj.mp
  rw [toNat_headByte (major_lt b) (ai_lt b), toNat_shiftRight_five, toNat_and_mask]
  omega

/-! ## Heads of any width -/

/-- How many bytes of argument follow a head byte with additional info `ai`. -/
def argWidth (ai : UInt8) : Option Nat :=
  if ai ≤ 23 then some 0
  else if ai = 24 then some 1
  else if ai = 25 then some 2
  else if ai = 26 then some 4
  else if ai = 27 then some 8
  else none

/-- The argument of a head: the additional info itself, or the bytes after it. -/
def argValue (ai : UInt8) (tail : Bytes) : Nat := if ai ≤ 23 then ai.toNat else ofBe tail

/-- `h` is a head of type `major` with argument `n`. -/
inductive Head (major : UInt8) : Nat → Bytes → Prop where
  | mk {ai : UInt8} {tail : Bytes} : argWidth ai = some tail.length →
      Head major (argValue ai tail) (headByte major ai :: tail)

theorem ai_lt_of_argWidth {ai : UInt8} {k : Nat} (h : argWidth ai = some k) : ai < 32 := by
  change ai.toNat < 32
  unfold argWidth at h
  split at h
  · rename_i hai
    have : ai.toNat ≤ 23 := hai
    omega
  · repeat' (split at h; · rename_i hai; rw [hai]; decide)
    cases h

theorem argWidth_le {ai : UInt8} {k : Nat} (h : argWidth ai = some k) : k ≤ 8 := by
  unfold argWidth at h
  repeat' (split at h; · cases h; decide)
  cases h

/-- An argument is below `2^64`. -/
theorem argValue_lt {ai : UInt8} {tail : Bytes} (h : argWidth ai = some tail.length) :
    argValue ai tail < 2 ^ 64 := by
  unfold argValue
  split
  · have := ai.toNat_lt
    omega
  · calc ofBe tail < 256 ^ tail.length := ofBe_lt tail
      _ ≤ 256 ^ 8 := Nat.pow_le_pow_right (by decide) (argWidth_le h)
      _ = 2 ^ 64 := by decide

theorem Head.lt {major : UInt8} {n : Nat} {h : Bytes} (hh : Head major n h) : n < 2 ^ 64 := by
  cases hh with
  | mk hw => exact argValue_lt hw

theorem Head.ne_nil {major : UInt8} {n : Nat} {h : Bytes} (hh : Head major n h) : h ≠ [] := by
  cases hh
  exact List.cons_ne_nil _ _

/-- A byte string starts with at most one head. -/
theorem Head.unique {major major' : UInt8} {n n' : Nat} {h h' r r' : Bytes} (hm : major < 8)
    (hm' : major' < 8) (hh : Head major n h) (hh' : Head major' n' h') (heq : h ++ r = h' ++ r') :
    major = major' ∧ n = n' ∧ h = h' ∧ r = r' := by
  cases hh with
  | mk hw =>
    rename_i ai tail
    cases hh' with
    | mk hw' =>
      rename_i ai' tail'
      simp only [List.cons_append, List.cons.injEq] at heq
      obtain ⟨hbyte, htail⟩ := heq
      have hmajor := congrArg (fun b : UInt8 => b >>> 5) hbyte
      have hai := congrArg (fun b : UInt8 => b &&& 0x1F) hbyte
      simp only [headByte_major hm (ai_lt_of_argWidth hw),
        headByte_major hm' (ai_lt_of_argWidth hw')] at hmajor
      simp only [headByte_ai hm (ai_lt_of_argWidth hw),
        headByte_ai hm' (ai_lt_of_argWidth hw')] at hai
      subst hmajor
      subst hai
      have hlen : tail.length = tail'.length := Option.some.inj (hw.symm.trans hw')
      obtain ⟨rfl, rfl⟩ := List.append_inj htail hlen
      exact ⟨rfl, rfl, rfl, rfl⟩

/-- A head of an explicit width. -/
theorem head_wide {major ai : UInt8} {k n : Nat} (hw : argWidth ai = some k) (hai : ¬ ai ≤ 23)
    (hn : n < 256 ^ k) : Head major n (headByte major ai :: beBytes k n) := by
  have hval : argValue ai (beBytes k n) = n := by
    rw [argValue, if_neg hai, ofBe_beBytes hn]
  have h : Head major (argValue ai (beBytes k n)) (headByte major ai :: beBytes k n) :=
    .mk (by rw [hw, length_beBytes])
  rwa [hval] at h

/-- The encoder writes a head. -/
theorem head_encodeHead (major : UInt8) {n : Nat} (hn : n < 2 ^ 64) :
    Head major n (encodeHead major n) := by
  unfold encodeHead
  split
  · rename_i h
    have hlt : n < 2 ^ 8 := by omega
    have hle : UInt8.ofNat n ≤ 23 := by
      change (UInt8.ofNat n).toNat ≤ 23
      rw [UInt8.toNat_ofNat_of_lt' hlt]
      exact h
    have hval : argValue (.ofNat n) [] = n := by
      rw [argValue, if_pos hle, UInt8.toNat_ofNat_of_lt' hlt]
    have hhead : Head major (argValue (.ofNat n) []) (headByte major (.ofNat n) :: []) :=
      .mk (by rw [argWidth, if_pos hle]; rfl)
    rwa [hval] at hhead
  · split
    · exact head_wide rfl (by decide) (by omega)
    · split
      · exact head_wide rfl (by decide) (by omega)
      · split
        · exact head_wide rfl (by decide) (by omega)
        · exact head_wide rfl (by decide) (by omega)

end Macula.Cbor
