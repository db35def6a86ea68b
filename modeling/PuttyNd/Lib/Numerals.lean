import Mathlib.Data.Nat.Notation
import Mathlib.Data.Nat.Digits.Defs

/-!
# Numbers that are written with leading zeros

A function gives the digits of a number from the least significant one on; written down, the most significant
one comes first. Without its leading zeros, that is what `Nat.toDigits` gives.
-/

namespace Numerals

variable {α : Type} {digit digit' : ℕ → α} {zero : α} {b n v : ℕ}

/-- The first `n` digits, written from the last one on -/
def numeral (digit : ℕ → α) : ℕ → List α
  | 0 => []
  | n + 1 => digit n :: numeral digit n

@[simp] theorem length_numeral : (numeral digit n).length = n := by
  induction n with
  | zero => rfl
  | succ n ih =>
    rw [numeral, List.length_cons, ih]

theorem numeral_congr (h : ∀ j < n, digit j = digit' j) : numeral digit n = numeral digit' n := by
  induction n with
  | zero => rfl
  | succ n ih =>
    rw [numeral, numeral, h n (Nat.lt_succ_self n), ih fun j hj => h j (Nat.lt_succ_of_lt hj)]

/-- The last digit that is written is the first one. -/
theorem numeral_succ : numeral digit (n + 1) = numeral (fun j => digit (j + 1)) n ++ [digit 0] := by
  induction n with
  | zero => rfl
  | succ n ih =>
    rw [numeral, ih, numeral, List.cons_append]

section

variable [DecidableEq α] (digit) (zero)

/-- The digits that are left without leading zeros, of which one is kept -/
def significant : ℕ → ℕ
  | n + 2 => if digit (n + 1) = zero then significant (n + 1) else n + 2
  | n => n

theorem significant_le : significant digit zero n ≤ n := by
  induction n with
  | zero => exact Nat.le_refl 0
  | succ n ih =>
    cases n with
    | zero => exact Nat.le_refl 1
    | succ n =>
      unfold significant
      split
      · exact Nat.le_succ_of_le ih
      · exact Nat.le_refl _

theorem significant_congr (h : ∀ j < n, digit j = digit' j) : significant digit zero n = significant digit' zero n := by
  induction n with
  | zero => rfl
  | succ n ih =>
    cases n with
    | zero => rfl
    | succ n =>
      unfold significant
      rw [h (n + 1) (Nat.lt_succ_self _), ih fun j hj => h j (Nat.lt_succ_of_lt hj)]

end

/-! ## Natural numbers -/

/-- The digits of `v` in base `b` -/
def digitOf (b v : ℕ) (j : ℕ) : Char := (v / b ^ j % b).digitChar

theorem digitOf_succ (j : ℕ) : digitOf b v (j + 1) = digitOf b (v / b) j := by
  unfold digitOf
  rw [Nat.pow_succ', ← Nat.div_div_eq_div_mul]

/-- The digits of the remainder by a power of the base are the first ones. -/
theorem digitOf_add_mul {m w j : ℕ} (hb : 0 < b) (hj : j < m) :
    digitOf b (w + b ^ m * v) j = digitOf b w j := by
  have hpow : b ^ m = b ^ j * (b * b ^ (m - j - 1)) := by
    rw [← Nat.pow_succ', ← Nat.pow_add]
    congr 1
    omega
  unfold digitOf
  rw [hpow, Nat.mul_assoc, Nat.add_mul_div_left _ _ (Nat.pow_pos hb), Nat.mul_assoc, Nat.add_mul_mod_self_left]

/-- The digits of the quotient by a power of the base are the other ones. -/
theorem digitOf_add_mul_pow {m w j : ℕ} (hb : 0 < b) (hw : w < b ^ m) :
    digitOf b (w + b ^ m * v) (m + j) = digitOf b v j := by
  unfold digitOf
  rw [Nat.pow_add, ← Nat.div_div_eq_div_mul, Nat.add_mul_div_left _ _ (Nat.pow_pos hb), Nat.div_eq_of_lt hw,
    Nat.zero_add]

/-- A number with exactly `n + 1` digits -/
theorem numeral_digitOf (hb : 1 < b) (hge : b ^ n ≤ v ∨ n = 0) (hlt : v < b ^ (n + 1)) :
    numeral (digitOf b v) (n + 1) = Nat.toDigits b v := by
  induction n generalizing v with
  | zero =>
    rw [Nat.zero_add, Nat.pow_one] at hlt
    rw [Nat.toDigits_of_lt_base hlt]
    show [digitOf b v 0] = _
    unfold digitOf
    rw [Nat.pow_zero, Nat.div_one, Nat.mod_eq_of_lt hlt]
  | succ n ih =>
    have hge : b ^ (n + 1) ≤ v := hge.resolve_right (Nat.succ_ne_zero n)
    have hbase : b ≤ v := by
      have hpow : b ^ 1 ≤ b ^ (n + 1) := Nat.pow_le_pow_right (by omega) (by omega)
      rw [Nat.pow_one] at hpow
      exact Nat.le_trans hpow hge
    have hdiv : v / b < b ^ (n + 1) := Nat.div_lt_of_lt_mul (by rw [← Nat.pow_succ']; exact hlt)
    have hdiv' : b ^ n ≤ v / b := (Nat.le_div_iff_mul_le (by omega)).mpr (by rw [← Nat.pow_succ]; exact hge)
    rw [numeral_succ, Nat.toDigits_of_base_le hb hbase, ← ih (.inl hdiv') hdiv]
    congr 1
    · exact numeral_congr fun j _ => digitOf_succ j
    · unfold digitOf
      rw [Nat.pow_zero, Nat.div_one]

/-- Without leading zeros, the digits are those of `Nat.toDigits`. -/
theorem numeral_significant (hb : 1 < b) (hb' : b ≤ 16) (hpos : 0 < n) (hlt : v < b ^ n) :
    numeral (digitOf b v) (significant (digitOf b v) '0' n) = Nat.toDigits b v := by
  have hzero : ∀ d < 16, (d.digitChar = '0' ↔ d = 0) := by decide
  induction n with
  | zero => exact absurd hpos (Nat.lt_irrefl 0)
  | succ n ih =>
    cases n with
    | zero => exact numeral_digitOf hb (.inr rfl) hlt
    | succ n =>
      have htop : v / b ^ (n + 1) < b := Nat.div_lt_of_lt_mul (by rw [← Nat.pow_succ]; exact hlt)
      have hdigit : digitOf b v (n + 1) = '0' ↔ v < b ^ (n + 1) := by
        unfold digitOf
        rw [Nat.mod_eq_of_lt htop, hzero _ (by omega), Nat.div_eq_zero_iff_lt (Nat.pow_pos (by omega))]
      unfold significant
      by_cases h : digitOf b v (n + 1) = '0'
      · rw [if_pos h]
        exact ih (Nat.succ_pos n) (hdigit.mp h)
      · rw [if_neg h]
        exact numeral_digitOf hb (.inl (Nat.le_of_not_lt fun hv => h (hdigit.mpr hv))) hlt

end Numerals
