import Mathlib.Tactic

/-!
# Machine integers

The integers of C are integers that every computation brings back into the
range of their type.
-/

namespace SeekOs.Lib

/-- The value an `int` holds after a computation with the given result. -/
def toInt32 (value : Int) : Int :=
  (value + 2 ^ 31) % 2 ^ 32 - 2 ^ 31

theorem toInt32_toInt32 (value : Int) : toInt32 (toInt32 value) = toInt32 value := by
  simp only [toInt32]
  omega

variable {value : Int}

theorem toInt32_of_range (nonneg : 0 ≤ value) (small : value < 2 ^ 31) : toInt32 value = value := by
  simp only [toInt32]
  omega

/-- The conversion of an integer to `size_t`. -/
def toSizeT (value : Int) : Nat :=
  (value % 2 ^ 64).toNat

theorem toSizeT_of_range (nonneg : 0 ≤ value) (small : value < 2 ^ 64) :
    toSizeT value = value.toNat := by
  simp only [toSizeT]
  omega

end SeekOs.Lib
