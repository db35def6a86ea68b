import Mathlib.Algebra.Group.Int.Defs
import Mathlib.Algebra.GroupWithZero.Nat
import Mathlib.Data.Int.Notation
import Mathlib.Data.Nat.Notation

/-!
# Numbers of the type `int`
-/

namespace CInt

variable {a b : ℤ}

/-- The value of an `int`, which has 32 bits -/
def toInt32 (x : ℤ) : ℤ := Int.bmod x (2 ^ 32)

theorem toInt32_add : toInt32 (toInt32 a + b) = toInt32 (a + b) := by
  unfold toInt32
  exact Int.bmod_add_bmod

theorem toInt32_sub : toInt32 (toInt32 a - b) = toInt32 (a - b) := by
  unfold toInt32
  exact Int.bmod_sub_bmod

/-- A number is kept if it fits. -/
theorem toInt32_of_fits (hge : -2 ^ 31 ≤ a) (hlt : a < 2 ^ 31) : toInt32 a = a := by
  have hsize : ((2 ^ 32 : ℕ) : ℤ) = 4294967296 := rfl
  unfold toInt32
  rw [Int.bmod_def, hsize]
  split
  · omega
  · omega

theorem toInt32_eq (hge : 0 ≤ a) : toInt32 a = a ↔ a < 2 ^ 31 := by
  have hsize : ((2 ^ 32 : ℕ) : ℤ) = 4294967296 := rfl
  constructor
  · intro h
    rw [← h]
    unfold toInt32
    rw [Int.bmod_def, hsize]
    split
    · omega
    · omega
  · intro hlt
    exact toInt32_of_fits (by omega) hlt

end CInt
