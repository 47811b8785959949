import Macula.Lib.Binary
import Macula.Lib.Outcome

/-!
# Floats on the wire

The decoder accepts three float widths and keeps a binary64 pattern of each.

The source computes a half float as `sign * 2^-14 * (frac / 1024)` or
`sign * 2^(exp - 15) * (1 + frac / 1024)` in `f64` arithmetic, where every step is
exact, and widens a binary32 with `as f64`.  Both are `BinFormat.widen` here, and
`halfToF64_value` and `f32ToF64_value` say that the pattern denotes the number the
source's formula gives.
-/

namespace Macula.Cbor

/-- The fields of an unsigned integer read as a binary16. -/
abbrev halfFields (half : Nat) : BinFields := BinFormat.half.split half

/-- binary16 to binary64.  `none` is exponent 31, for which there is no `f64` value. -/
def halfToF64 (half : Nat) : Option UInt64 :=
  if (halfFields half).exp = 31 then none
  else some (.ofNat (BinFormat.double.join (BinFormat.half.widen .double (halfFields half))))

/-- `f32::from_be_bytes(b) as f64`; a NaN keeps its payload and becomes quiet. -/
def f32ToF64 (bits : Nat) : UInt64 :=
  .ofNat (BinFormat.double.join (BinFormat.single.widen .double (BinFormat.single.split bits)))

/-! ## What the patterns denote -/

/-- A finite number survives widening to binary64. -/
theorem value_widened {f : BinFormat} (h : BinFormat.double.Holds f) {x : BinFields}
    (hx : x.exp ≠ f.maxExp) (hf : f.Fits x) :
    BinFormat.double.value (BinFormat.double.split
      (UInt64.ofNat (BinFormat.double.join (f.widen .double x))).toNat) = f.value x := by
  have hfits := BinFormat.fits_widen h hx hf
  have hlt : BinFormat.double.join (f.widen .double x) < 2 ^ 64 := by
    obtain ⟨hexp, hfrac⟩ := hfits
    have hsign : (f.widen .double x).sign.toNat ≤ 1 := Bool.toNat_le _
    simp only [BinFormat.join, BinFormat.double] at hexp hfrac hsign ⊢
    omega
  rw [UInt64.toNat_ofNat_of_lt' hlt, BinFormat.split_join hfits,
    BinFormat.value_widen h hx hf.frac]

/-- The pattern of a half float denotes the number of the source's formula. -/
theorem halfToF64_value {half : Nat} {bits : UInt64} (h : halfToF64 half = some bits) :
    BinFormat.double.value (BinFormat.double.split bits.toNat) =
      BinFormat.half.value (halfFields half) := by
  unfold halfToF64 at h
  split at h
  · cases h
  · rename_i hexp
    obtain rfl := Option.some.inj h
    exact value_widened BinFormat.double_holds_half hexp (BinFormat.fits_split _ _)

/-- The pattern of a finite binary32 denotes the same number. -/
theorem f32ToF64_value {bits : Nat} (h : (BinFormat.single.split bits).exp ≠ 255) :
    BinFormat.double.value (BinFormat.double.split (f32ToF64 bits).toNat) =
      BinFormat.single.value (BinFormat.single.split bits) :=
  value_widened BinFormat.double_holds_single h (BinFormat.fits_split _ _)

-- The smallest subnormal half float is `2^-24`, exponent 999 in binary64.
example : halfToF64 0x0001 = some 0x3E70000000000000 := by decide

end Macula.Cbor
