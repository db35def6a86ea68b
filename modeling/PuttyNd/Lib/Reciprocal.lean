import Mathlib.Tactic.Ring
import Mathlib.Tactic.Linarith
import Mathlib.Tactic.LinearCombination
import Mathlib.Tactic.Positivity
import Mathlib.Algebra.Order.Ring.Abs

/-!
# Division by a reciprocal

`r` approximates `R / d`, and `A` says how well: the relative error is at most `1 / A`, but for two
units in the last place.
-/

namespace Reciprocal

variable {R d r A : ℤ}

/-- `r` is `R / d`, up to a relative error of `1 / A` and a rounding error. -/
def Approx (R d A r : ℤ) : Prop := A * |R - d * r| ≤ R + 2 * d * A

/-- One step of the Newton iteration. -/
def newton (R d r : ℤ) : ℤ := r * (2 * R - d * r) / R

/-- The error after a step, with the remainder of the division by `R`. -/
theorem newton_error (R d r : ℤ) :
    R * (R - d * newton R d r) = (R - d * r) ^ 2 + d * (r * (2 * R - d * r) % R) := by
  have h : r * (2 * R - d * r) % R + R * newton R d r = r * (2 * R - d * r) := Int.emod_add_mul_ediv _ _
  linear_combination (-d) * h

/-- The result is never more than `R / d`. -/
theorem newton_le (hR : 0 < R) (hd : 0 < d) : 0 ≤ R - d * newton R d r := by
  have h := newton_error R d r
  have hmod : 0 ≤ r * (2 * R - d * r) % R := Int.emod_nonneg _ hR.ne'
  have hpos : 0 ≤ R * (R - d * newton R d r) := by
    rw [h]
    positivity
  exact nonneg_of_mul_nonneg_right hpos hR

/-- A step squares the relative error. -/
theorem newton_approx (hR : 0 < R) (hd : 0 < d) (hA : 8 ≤ A) (hdR : 8 * d ≤ R)
    (h : Approx R d A r) : Approx R d (A * A) (newton R d r) := by
  have herror := newton_error R d r
  have hle := newton_le (r := r) hR hd
  have hmod : r * (2 * R - d * r) % R < R := Int.emod_lt_of_pos _ hR
  have hsq : (A * |R - d * r|) ^ 2 ≤ (R + 2 * d * A) ^ 2 :=
    pow_le_pow_left₀ (by positivity) h 2
  rw [mul_pow, sq_abs] at hsq
  rw [Approx, abs_of_nonneg hle]
  -- everything times `R`
  apply le_of_mul_le_mul_left _ hR
  have hround : d * (r * (2 * R - d * r) % R) ≤ d * R := mul_le_mul_of_nonneg_left hmod.le hd.le
  have hsmall : 4 * (A * R) + 4 * (d * (A * A)) ≤ A * A * R := by
    have h1 : 8 * (A * R) ≤ A * (A * R) := mul_le_mul_of_nonneg_right hA (by positivity)
    have h2 : A * A * (8 * d) ≤ A * A * R := mul_le_mul_of_nonneg_left hdR (by positivity)
    linarith
  calc R * (A * A * (R - d * newton R d r))
      = A ^ 2 * (R - d * r) ^ 2 + A * A * (d * (r * (2 * R - d * r) % R)) := by
        linear_combination A * A * herror
    _ ≤ (R + 2 * d * A) ^ 2 + A * A * (d * R) :=
        add_le_add hsq (mul_le_mul_of_nonneg_left hround (by positivity))
    _ = R * R + d * (4 * (A * R) + 4 * (d * (A * A))) + A * A * (d * R) := by ring
    _ ≤ R * R + d * (A * A * R) + A * A * (d * R) := by
        have := mul_le_mul_of_nonneg_left hsmall hd.le
        linarith
    _ = R * (R + 2 * d * (A * A)) := by ring

/-- The product with `d` is close enough to `R` to stay in the range of the next step. -/
theorem Approx.range (hR : 0 < R) (hd : 0 < d) (hA : 8 ≤ A) (hdR : 8 * d ≤ R) (h : Approx R d A r) :
    0 < d * r ∧ d * r < 2 * R := by
  have habs : |R - d * r| < R := by
    apply lt_of_mul_lt_mul_left _ (by omega : 0 ≤ A)
    have h1 : A * (8 * d) ≤ A * R := mul_le_mul_of_nonneg_left hdR (by omega)
    have h2 : 8 * R ≤ A * R := mul_le_mul_of_nonneg_right hA hR.le
    have h3 : A * |R - d * r| ≤ R + 2 * d * A := h
    linarith
  have h1 := abs_lt.mp habs
  constructor <;> linarith

/-- The quotient by a reciprocal that is not too large is right, or one less if nothing remains: the
remainder that belongs to it is at most `d`. -/
theorem remainder_le {n : ℤ} (hR : 0 < R) (hd : 0 < d) (hA : 0 < A) (hn : 0 ≤ n)
    (hle : 0 ≤ R - d * r) (h : Approx R d A r) (hprecision : n * (R + 2 * d * A) ≤ A * R) :
    0 ≤ n - n * r / R * d ∧ n - n * r / R * d ≤ d := by
  have hdiv := Int.emod_add_mul_ediv (n * r) R
  have hmod0 := Int.emod_nonneg (n * r) hR.ne'
  have hmod := Int.emod_lt_of_pos (n * r) hR
  generalize n * r / R = q at hdiv ⊢
  generalize n * r % R = t at hdiv hmod0 hmod
  have herror : n * (R - d * r) ≤ R := by
    apply le_of_mul_le_mul_left _ hA
    have h1 : n * (A * |R - d * r|) ≤ n * (R + 2 * d * A) := mul_le_mul_of_nonneg_left h hn
    rw [abs_of_nonneg hle] at h1
    linarith
  have hkey : R * (n - q * d) = n * (R - d * r) + d * t := by linear_combination (-d) * hdiv
  constructor
  · have hpos : 0 ≤ R * (n - q * d) := by
      rw [hkey]
      positivity
    exact nonneg_of_mul_nonneg_right hpos hR
  · have h1 : d * t ≤ d * (R - 1) := mul_le_mul_of_nonneg_left (by omega) hd.le
    have h2 : R * (n - q * d) < R * (d + 1) := by
      rw [hkey]
      nlinarith
    have h3 := lt_of_mul_lt_mul_left h2 hR.le
    omega

end Reciprocal
