import Mathlib.Algebra.Group.Int.Defs
import Mathlib.Algebra.Group.Nat.Defs
import Mathlib.Order.Basic

/-!
# Durations and times

A `Duration` is up to `u64::MAX` seconds and a fraction of one, in nanoseconds.  In whole
milliseconds it is far inside an `i128`, and far outside a 64-bit integer.

A time is the reading of a system clock, in milliseconds since 1970.
-/

/-- A `std::time::Duration`. -/
structure Duration where
  nanos : Nat
  lt : nanos < 2 ^ 64 * 10 ^ 9
deriving DecidableEq

namespace Duration

/-- `as_millis`, rounded down. -/
def asMillis (d : Duration) : Nat := d.nanos / 10 ^ 6

def isZero (d : Duration) : Bool := d.nanos = 0

/-- `from_secs`. -/
def ofSecs (secs : UInt64) : Duration where
  nanos := secs.toNat * 10 ^ 9
  lt := Nat.mul_lt_mul_of_pos_right secs.toNat_lt (by decide)

/-- `from_millis`. -/
def ofMillis (ms : UInt64) : Duration where
  nanos := ms.toNat * 10 ^ 6
  lt := by
    have h := ms.toNat_lt
    omega

@[simp] theorem asMillis_ofMillis (ms : UInt64) : (ofMillis ms).asMillis = ms.toNat :=
  Nat.mul_div_cancel _ (by decide)

theorem asMillis_of_isZero {d : Duration} (h : d.isZero) : d.asMillis = 0 := by
  rw [isZero, decide_eq_true_eq] at h
  rw [asMillis, h, Nat.zero_div]

theorem asMillis_lt (d : Duration) : d.asMillis < 2 ^ 64 * 10 ^ 3 := by
  have h := d.lt
  rw [asMillis]
  omega

end Duration

/-- A system clock that is set to a year after 1970 and before 290 million. -/
structure UnixMillis where
  ms : Nat
  lt : ms < 2 ^ 63
deriving DecidableEq

namespace UnixMillis

/-- `now_ms() + timeout.as_millis()`, on `i128`. -/
def plus (now : UnixMillis) (d : Duration) : Int := now.ms + d.asMillis

/-- The `i128` has room for the sum. -/
theorem plus_lt (now : UnixMillis) (d : Duration) : now.plus d < 2 ^ 127 := by
  have hnow := now.lt
  have hd := d.asMillis_lt
  rw [plus]
  omega

end UnixMillis
