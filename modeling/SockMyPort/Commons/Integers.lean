/-
# Conversions between integer types

A `size_t` has 64 bits, and an `int` that is converted to one wraps when it is negative.
-/

import Mathlib.Algebra.Group.Int.Defs
import Mathlib.Algebra.Group.Nat.Defs

namespace SockMyPort.Commons

/-- Conversion of a signed value to `size_t`, which wraps a negative one. -/
def toSizeT (value : ℤ) : ℕ := (value % 2 ^ 64).toNat

theorem toSizeT_lt (value : ℤ) : toSizeT value < 2 ^ 64 := by
  rw [toSizeT]
  omega

theorem toSizeT_of_small (value : ℤ) (hnonneg : 0 ≤ value) (hsmall : value < 2 ^ 64) :
    (toSizeT value : ℤ) = value := by
  rw [toSizeT, Int.toNat_of_nonneg (Int.emod_nonneg _ (by decide)),
    Int.emod_eq_of_lt hnonneg hsmall]

/-- Below a small bound, the conversion of a value that is not too large. -/
theorem toSizeT_lt_iff (value : ℤ) (bound : ℕ) (hlow : -2 ^ 63 ≤ value) (hhigh : value < 2 ^ 63)
    (hbound : bound < 2 ^ 63) : toSizeT value < bound ↔ 0 ≤ value ∧ value < bound := by
  rw [toSizeT]
  omega

end SockMyPort.Commons
