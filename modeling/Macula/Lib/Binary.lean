import Mathlib.Algebra.Order.Field.Power
import Mathlib.Data.Rat.Defs
import Mathlib.Tactic.NormNum
import Mathlib.Tactic.Ring

/-!
# Binary interchange formats

A floating-point bit pattern is three fields: a sign, a biased exponent and a
fraction.  `BinFormat` gives the widths of the last two, and `BinFormat.value` is the
rational a finite pattern denotes.

`BinFormat.widen` moves a pattern to a wider format on the fields alone, without
computing with the number: a normal number gets its exponent rebased and its fraction
shifted, a subnormal one is normalised, and an infinity or a NaN keeps its all-ones
exponent, a NaN with the quiet bit set.  `BinFormat.value_widen` says that every
finite number keeps its value.
-/

/-- The widths of the exponent and fraction fields of a format. -/
structure BinFormat where
  expBits : Nat
  fracBits : Nat

/-- The fields of a bit pattern. -/
structure BinFields where
  sign : Bool
  exp : Nat
  frac : Nat

namespace BinFormat

/-- binary16. -/
def half : BinFormat := ⟨5, 10⟩

/-- binary32. -/
def single : BinFormat := ⟨8, 23⟩

/-- binary64. -/
def double : BinFormat := ⟨11, 52⟩

/-- The exponent field of infinities and NaNs. -/
def maxExp (f : BinFormat) : Nat := 2 ^ f.expBits - 1

def bias (f : BinFormat) : Nat := 2 ^ (f.expBits - 1) - 1

/-- The fields of a bit pattern. -/
def split (f : BinFormat) (bits : Nat) : BinFields where
  sign := bits / 2 ^ (f.expBits + f.fracBits) % 2 == 1
  exp := bits / 2 ^ f.fracBits % 2 ^ f.expBits
  frac := bits % 2 ^ f.fracBits

/-- The bit pattern with the given fields. -/
def join (f : BinFormat) (x : BinFields) : Nat :=
  (x.sign.toNat * 2 ^ f.expBits + x.exp) * 2 ^ f.fracBits + x.frac

/-- The significand of a finite pattern, scaled to an integer. -/
def significand (f : BinFormat) (x : BinFields) : Nat :=
  if x.exp = 0 then x.frac else 2 ^ f.fracBits + x.frac

/-- The rational a finite pattern denotes. -/
def value (f : BinFormat) (x : BinFields) : ℚ :=
  (if x.sign then -1 else 1) * f.significand x *
    2 ^ ((max x.exp 1 : ℤ) - f.bias - f.fracBits)

/-- The same number in a wider format. -/
def widen (f g : BinFormat) (x : BinFields) : BinFields :=
  if x.exp = f.maxExp then
    ⟨x.sign, g.maxExp,
      if x.frac = 0 then 0 else x.frac * 2 ^ (g.fracBits - f.fracBits) ||| 2 ^ (g.fracBits - 1)⟩
  else if x.exp = 0 then
    if x.frac = 0 then ⟨x.sign, 0, 0⟩
    else
      ⟨x.sign, g.bias + 1 + x.frac.log2 - f.bias - f.fracBits,
        (x.frac - 2 ^ x.frac.log2) * 2 ^ (g.fracBits - x.frac.log2)⟩
  else ⟨x.sign, x.exp + g.bias - f.bias, x.frac * 2 ^ (g.fracBits - f.fracBits)⟩

/-- `g` holds every finite number of `f`, the subnormal ones as normal numbers. -/
structure Holds (g f : BinFormat) : Prop where
  frac : f.fracBits ≤ g.fracBits
  exp : f.bias + f.fracBits ≤ g.bias
  bias : g.bias < g.maxExp
  top : f.maxExp + g.bias ≤ g.maxExp + f.bias

theorem double_holds_half : double.Holds half :=
  ⟨by decide, by decide, by decide, by decide⟩

theorem double_holds_single : double.Holds single :=
  ⟨by decide, by decide, by decide, by decide⟩

/-- The fields fit their widths. -/
structure Fits (f : BinFormat) (x : BinFields) : Prop where
  exp : x.exp < 2 ^ f.expBits
  frac : x.frac < 2 ^ f.fracBits

theorem fits_split (f : BinFormat) (bits : Nat) : f.Fits (f.split bits) :=
  ⟨Nat.mod_lt _ (Nat.two_pow_pos _), Nat.mod_lt _ (Nat.two_pow_pos _)⟩

/-- The fields of a pattern are the ones it was joined from. -/
theorem split_join {f : BinFormat} {x : BinFields} (h : f.Fits x) : f.split (f.join x) = x := by
  obtain ⟨sign, exp, frac⟩ := x
  obtain ⟨hexp, hfrac⟩ := h
  simp only at hexp hfrac
  have hdiv : ((sign.toNat * 2 ^ f.expBits + exp) * 2 ^ f.fracBits + frac) / 2 ^ f.fracBits =
      sign.toNat * 2 ^ f.expBits + exp := by
    rw [Nat.mul_comm, Nat.mul_add_div (Nat.two_pow_pos _), Nat.div_eq_of_lt hfrac, Nat.add_zero]
  have htop : (sign.toNat * 2 ^ f.expBits + exp) / 2 ^ f.expBits = sign.toNat := by
    rw [Nat.mul_comm, Nat.mul_add_div (Nat.two_pow_pos _), Nat.div_eq_of_lt hexp, Nat.add_zero]
  simp only [split, join, BinFields.mk.injEq]
  refine ⟨?_, ?_, ?_⟩
  · rw [Nat.add_comm f.expBits, pow_add, ← Nat.div_div_eq_div_mul, hdiv, htop]
    cases sign <;> rfl
  · rw [hdiv, Nat.mul_add_mod_of_lt hexp]
  · rw [Nat.mul_add_mod_of_lt hfrac]

/-- A widened finite number fits the wider format. -/
theorem fits_widen {f g : BinFormat} (h : g.Holds f) {x : BinFields} (hx : x.exp ≠ f.maxExp)
    (hf : f.Fits x) : g.Fits (f.widen g x) := by
  obtain ⟨hexp, hfrac⟩ := hf
  have hmax : g.maxExp < 2 ^ g.expBits := Nat.sub_lt (Nat.two_pow_pos _) (by omega)
  have hmaxf : x.exp < f.maxExp := by
    have : f.maxExp = 2 ^ f.expBits - 1 := rfl
    omega
  have hbias := h.bias
  have htop := h.top
  have hle := h.exp
  unfold widen
  rw [if_neg hx]
  split
  · split
    · exact ⟨Nat.two_pow_pos _, Nat.two_pow_pos _⟩
    · rename_i hz
      have hlog : x.frac.log2 < f.fracBits := (Nat.log2_lt hz).mpr hfrac
      have hlt : x.frac - 2 ^ x.frac.log2 < 2 ^ x.frac.log2 := by
        have h1 := Nat.log2_self_le hz
        have h2 : x.frac < 2 ^ (x.frac.log2 + 1) := Nat.lt_log2_self
        rw [pow_succ] at h2
        omega
      refine ⟨by simp only; omega, ?_⟩
      calc (x.frac - 2 ^ x.frac.log2) * 2 ^ (g.fracBits - x.frac.log2)
          < 2 ^ x.frac.log2 * 2 ^ (g.fracBits - x.frac.log2) :=
            Nat.mul_lt_mul_of_pos_right hlt (Nat.two_pow_pos _)
        _ = 2 ^ g.fracBits := by
            rw [← pow_add, Nat.add_sub_cancel' (by have := h.frac; omega)]
  · refine ⟨by simp only; omega, ?_⟩
    calc x.frac * 2 ^ (g.fracBits - f.fracBits)
        < 2 ^ f.fracBits * 2 ^ (g.fracBits - f.fracBits) :=
          Nat.mul_lt_mul_of_pos_right hfrac (Nat.two_pow_pos _)
      _ = 2 ^ g.fracBits := by rw [← pow_add, Nat.add_sub_cancel' h.frac]

/-- Shifting the significand and lowering the exponent by as much. -/
theorem scale_eq {m m' k : Nat} {e e' : ℤ} (hm : m' = m * 2 ^ k) (he : e = e' + k) :
    (m' : ℚ) * 2 ^ e' = m * 2 ^ e := by
  rw [hm, he, zpow_add₀ (by norm_num), zpow_natCast]
  push_cast
  ring

/-- **Widening keeps the value** of every finite number. -/
theorem value_widen {f g : BinFormat} (h : g.Holds f) {x : BinFields} (hx : x.exp ≠ f.maxExp)
    (hf : x.frac < 2 ^ f.fracBits) : g.value (f.widen g x) = f.value x := by
  obtain ⟨sign, exp, frac⟩ := x
  obtain ⟨hfrac, hexp⟩ := h
  simp only at hx hf
  simp only [widen, value, hx, if_false, mul_assoc]
  by_cases h0 : exp = 0
  · by_cases hz : frac = 0
    · simp [h0, hz, significand]
    · -- a subnormal number: its highest set bit becomes the implicit one
      have hlog : frac.log2 < f.fracBits := (Nat.log2_lt hz).mpr hf
      have hself : 2 ^ frac.log2 ≤ frac := Nat.log2_self_le hz
      have hpos : g.bias + 1 + frac.log2 - f.bias - f.fracBits ≠ 0 := by omega
      have hsig : 2 ^ g.fracBits + (frac - 2 ^ frac.log2) * 2 ^ (g.fracBits - frac.log2) =
          frac * 2 ^ (g.fracBits - frac.log2) := by
        have hsplit : 2 ^ g.fracBits = 2 ^ frac.log2 * 2 ^ (g.fracBits - frac.log2) := by
          rw [← pow_add, Nat.add_sub_cancel' (by omega)]
        rw [hsplit, ← Nat.add_mul, Nat.add_sub_cancel' hself]
      simp only [h0, hz, if_true, if_false, significand, hpos]
      congr 1
      exact scale_eq hsig (by push_cast; omega)
  · -- a normal number
    have hpos : exp + g.bias - f.bias ≠ 0 := by omega
    have hsig : 2 ^ g.fracBits + frac * 2 ^ (g.fracBits - f.fracBits) =
        (2 ^ f.fracBits + frac) * 2 ^ (g.fracBits - f.fracBits) := by
      rw [Nat.add_mul, ← pow_add, Nat.add_sub_cancel' hfrac]
    simp only [h0, if_false, significand, hpos]
    congr 1
    exact scale_eq hsig (by omega)

end BinFormat
