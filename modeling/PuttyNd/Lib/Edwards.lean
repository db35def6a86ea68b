import Mathlib.Algebra.Field.Basic
import Mathlib.Algebra.Ring.Parity
import Mathlib.Tactic.FieldSimp
import Mathlib.Tactic.LinearCombination
import Mathlib.Tactic.Ring

/-!
# Twisted Edwards curves

The points of `a x^2 + y^2 = 1 + d x^2 y^2` are a group under a single addition formula, if `a` is a square and `d` is
not: then no denominator of the formula is zero.
-/

namespace Lib.Edwards

/-- The parameters of a curve on which the addition formula is complete -/
structure Curve (K : Type) [Field K] where
  a : K
  d : K
  two_ne_zero : (2 : K) ≠ 0
  a_ne_zero : a ≠ 0
  square : IsSquare a
  nonsquare : ¬ IsSquare d

variable {K : Type} [Field K]

def Curve.Equation (E : Curve K) (x y : K) : Prop := E.a * x ^ 2 + y ^ 2 = 1 + E.d * x ^ 2 * y ^ 2

@[ext]
structure Point (E : Curve K) where
  x : K
  y : K
  equation : E.Equation x y

variable {E : Curve K} {x1 y1 x2 y2 x3 y3 : K}

/-! ## Completeness -/

theorem square_of_mul {z w : K} (hw : w ≠ 0) (h : z ^ 2 = E.d * w ^ 2) : IsSquare E.d := by
  refine ⟨z / w, ?_⟩
  rw [div_mul_div_comm, ← sq, ← sq, h, mul_div_cancel_right₀ _ (pow_ne_zero 2 hw)]

/-- If a denominator were zero, `d` would be a quotient of these two squares. -/
theorem squares_of_exception {s e : K} (hs : E.a = s * s) (he : e ^ 2 = 1) (h1 : E.Equation x1 y1)
    (h2 : E.Equation x2 y2) (hexception : E.d * x1 * x2 * y1 * y2 = e) :
    (s * x1 + e * y1) ^ 2 = E.d * (x1 * y1 * (s * x2 + y2)) ^ 2 := by
  unfold Curve.Equation at h1 h2
  linear_combination h1 - E.d * x1 ^ 2 * y1 ^ 2 * h2 - (x1 ^ 2 - E.d * x1 ^ 2 * y1 ^ 2 * x2 ^ 2) * hs +
    (y1 ^ 2 - 1) * he - (E.d * x1 * x2 * y1 * y2 + e + 2 * s * x1 * y1) * hexception

/-- The product in the denominators is neither 1 nor -1. -/
theorem product_ne {e : K} (he : e ^ 2 = 1) (h1 : E.Equation x1 y1) (h2 : E.Equation x2 y2) :
    E.d * x1 * x2 * y1 * y2 ≠ e := by
  intro hexception
  have hne : E.d * x1 * x2 * y1 * y2 ≠ 0 := by
    rw [hexception]
    rintro rfl
    exact zero_ne_one ((zero_pow two_ne_zero).symm.trans he)
  obtain ⟨⟨⟨⟨-, hx1⟩, hx2⟩, hy1⟩, hy2⟩ : (((E.d ≠ 0 ∧ x1 ≠ 0) ∧ x2 ≠ 0) ∧ y1 ≠ 0) ∧ y2 ≠ 0 := by
    simpa only [mul_ne_zero_iff] using hne
  obtain ⟨s, hs⟩ := E.square
  have hs' : E.a = -s * -s := by rw [neg_mul_neg, hs]
  have hplus : s * x2 + y2 = 0 := by
    by_contra hw
    exact E.nonsquare (square_of_mul (mul_ne_zero (mul_ne_zero hx1 hy1) hw) (squares_of_exception hs he h1 h2 hexception))
  have hminus : -s * x2 + y2 = 0 := by
    by_contra hw
    exact E.nonsquare (square_of_mul (mul_ne_zero (mul_ne_zero hx1 hy1) hw) (squares_of_exception hs' he h1 h2 hexception))
  have hzero : 2 * y2 = 0 := by linear_combination hplus + hminus
  exact mul_ne_zero E.two_ne_zero hy2 hzero

theorem denominator_x (h1 : E.Equation x1 y1) (h2 : E.Equation x2 y2) : 1 + E.d * x1 * x2 * y1 * y2 ≠ 0 := by
  intro hzero
  exact product_ne neg_one_sq h1 h2 (eq_neg_of_add_eq_zero_right hzero)

theorem denominator_y (h1 : E.Equation x1 y1) (h2 : E.Equation x2 y2) : 1 - E.d * x1 * x2 * y1 * y2 ≠ 0 := by
  intro hzero
  exact product_ne (one_pow 2) h1 h2 (sub_eq_zero.mp hzero).symm

/-! ## Addition -/

/-- The first coordinate of the sum -/
def Curve.addX (E : Curve K) (x1 y1 x2 y2 : K) : K := (x1 * y2 + y1 * x2) / (1 + E.d * x1 * x2 * y1 * y2)

/-- The second coordinate of the sum -/
def Curve.addY (E : Curve K) (x1 y1 x2 y2 : K) : K := (y1 * y2 - E.a * x1 * x2) / (1 - E.d * x1 * x2 * y1 * y2)

/-- The sum is on the curve; the factors are what is left of the equation when one point is put in after the other. -/
theorem sum_equation (h1 : E.Equation x1 y1) (h2 : E.Equation x2 y2) :
    E.a * (x1 * y2 + y1 * x2) ^ 2 * (1 - E.d * x1 * x2 * y1 * y2) ^ 2 +
        (y1 * y2 - E.a * x1 * x2) ^ 2 * (1 + E.d * x1 * x2 * y1 * y2) ^ 2 =
      (1 + E.d * x1 * x2 * y1 * y2) ^ 2 * (1 - E.d * x1 * x2 * y1 * y2) ^ 2 +
        E.d * (x1 * y2 + y1 * x2) ^ 2 * (y1 * y2 - E.a * x1 * x2) ^ 2 := by
  unfold Curve.Equation at h1 h2
  linear_combination
    ((E.a * x2 ^ 2 + y2 ^ 2) * (1 + E.d * x1 ^ 2 * y1 ^ 2 * (E.d * x2 ^ 2 * y2 ^ 2)) -
      E.d * x2 ^ 2 * y2 ^ 2 * (E.a * x1 ^ 2 + y1 ^ 2 + 1 + E.d * x1 ^ 2 * y1 ^ 2)) * h1 +
    ((1 + E.d * x1 ^ 2 * y1 ^ 2) * (1 + E.d * x1 ^ 2 * y1 ^ 2 * (E.d * x2 ^ 2 * y2 ^ 2)) -
      E.d * x1 ^ 2 * y1 ^ 2 * (E.a * x2 ^ 2 + y2 ^ 2 + 1 + E.d * x2 ^ 2 * y2 ^ 2)) * h2

theorem equation_add (h1 : E.Equation x1 y1) (h2 : E.Equation x2 y2) :
    E.Equation (E.addX x1 y1 x2 y2) (E.addY x1 y1 x2 y2) := by
  have hB := denominator_x h1 h2
  have hD := denominator_y h1 h2
  have hsum := sum_equation h1 h2
  unfold Curve.Equation Curve.addX Curve.addY
  generalize 1 + E.d * x1 * x2 * y1 * y2 = B at hB hsum ⊢
  generalize 1 - E.d * x1 * x2 * y1 * y2 = D at hD hsum ⊢
  generalize x1 * y2 + y1 * x2 = A at hsum ⊢
  generalize y1 * y2 - E.a * x1 * x2 = C at hsum ⊢
  field_simp
  linear_combination hsum

instance : Add (Point E) where
  add P Q := ⟨E.addX P.x P.y Q.x Q.y, E.addY P.x P.y Q.x Q.y, equation_add P.equation Q.equation⟩

instance : Zero (Point E) where
  zero := ⟨0, 1, by unfold Curve.Equation; ring⟩

instance : Neg (Point E) where
  neg P := ⟨-P.x, P.y, by
    have h := P.equation
    unfold Curve.Equation at h ⊢
    linear_combination h⟩

@[simp] theorem add_x (P Q : Point E) : (P + Q).x = E.addX P.x P.y Q.x Q.y := rfl

@[simp] theorem add_y (P Q : Point E) : (P + Q).y = E.addY P.x P.y Q.x Q.y := rfl

@[simp] theorem zero_x : (0 : Point E).x = 0 := rfl

@[simp] theorem zero_y : (0 : Point E).y = 1 := rfl

@[simp] theorem neg_x (P : Point E) : (-P).x = -P.x := rfl

@[simp] theorem neg_y (P : Point E) : (-P).y = P.y := rfl

/-! ## Associativity -/

section Associativity

variable (h1 : E.Equation x1 y1) (h2 : E.Equation x2 y2) (h3 : E.Equation x3 y3)
include h1 h2 h3

/-- The first coordinates of the two sums of three points, without denominators -/
theorem assoc_numerators_x :
    ((x1 * y2 + y1 * x2) * (1 - E.d * x1 * x2 * y1 * y2) * y3 +
        (y1 * y2 - E.a * x1 * x2) * (1 + E.d * x1 * x2 * y1 * y2) * x3) *
      ((1 + E.d * x2 * x3 * y2 * y3) * (1 - E.d * x2 * x3 * y2 * y3) +
        E.d * x1 * y1 * (x2 * y3 + y2 * x3) * (y2 * y3 - E.a * x2 * x3)) =
    (x1 * (y2 * y3 - E.a * x2 * x3) * (1 + E.d * x2 * x3 * y2 * y3) +
        y1 * (x2 * y3 + y2 * x3) * (1 - E.d * x2 * x3 * y2 * y3)) *
      ((1 + E.d * x1 * x2 * y1 * y2) * (1 - E.d * x1 * x2 * y1 * y2) +
        E.d * (x1 * y2 + y1 * x2) * (y1 * y2 - E.a * x1 * x2) * x3 * y3) := by
  unfold Curve.Equation at h1 h2 h3
  linear_combination E.d * x2 * y2 *
    ((x2 * y2 * (E.a * x3 ^ 2 + y3 ^ 2 - 1) * (x1 * y2 * y3 + y1 * x2 * y3 + y1 * y2 * x3 - E.a * x1 * x2 * x3) +
        x3 * y3 * (x1 * y2 * y3 - E.a * x1 * x2 * x3 - y1 * x2 * y3 - y1 * y2 * x3)) * h1 +
      E.d * (x1 * y1) * (x3 * y3) *
        (x3 * y3 * (y1 * y2 * x3 - E.a * x1 * x2 * x3 - x1 * y2 * y3 - y1 * x2 * y3) -
          x1 * y1 * (x1 * y2 * y3 - E.a * x1 * x2 * x3 - y1 * x2 * y3 - y1 * y2 * x3)) * h2 -
      (x2 * y2 * (E.a * x1 ^ 2 + y1 ^ 2 - 1) * (x1 * y2 * y3 + y1 * x2 * y3 + y1 * y2 * x3 - E.a * x1 * x2 * x3) +
        x1 * y1 * (y1 * y2 * x3 - E.a * x1 * x2 * x3 - x1 * y2 * y3 - y1 * x2 * y3)) * h3)

/-- The second coordinates -/
theorem assoc_numerators_y :
    ((y1 * y2 - E.a * x1 * x2) * (1 + E.d * x1 * x2 * y1 * y2) * y3 -
        E.a * (x1 * y2 + y1 * x2) * (1 - E.d * x1 * x2 * y1 * y2) * x3) *
      ((1 + E.d * x2 * x3 * y2 * y3) * (1 - E.d * x2 * x3 * y2 * y3) -
        E.d * x1 * y1 * (x2 * y3 + y2 * x3) * (y2 * y3 - E.a * x2 * x3)) =
    (y1 * (y2 * y3 - E.a * x2 * x3) * (1 + E.d * x2 * x3 * y2 * y3) -
        E.a * x1 * (x2 * y3 + y2 * x3) * (1 - E.d * x2 * x3 * y2 * y3)) *
      ((1 + E.d * x1 * x2 * y1 * y2) * (1 - E.d * x1 * x2 * y1 * y2) -
        E.d * (x1 * y2 + y1 * x2) * (y1 * y2 - E.a * x1 * x2) * x3 * y3) := by
  unfold Curve.Equation at h1 h2 h3
  linear_combination E.d * x2 * y2 *
    ((x2 * y2 * (E.a * x3 ^ 2 + y3 ^ 2 - 1) *
          (y1 * y2 * y3 - E.a * x1 * x2 * y3 - E.a * x1 * y2 * x3 - E.a * y1 * x2 * x3) +
        x3 * y3 * (y1 * y2 * y3 + E.a * x1 * x2 * y3 + E.a * x1 * y2 * x3 - E.a * y1 * x2 * x3)) * h1 +
      E.d * (x1 * y1) * (x3 * y3) *
        (x3 * y3 * (y1 * y2 * y3 - E.a * x1 * x2 * y3 + E.a * x1 * y2 * x3 + E.a * y1 * x2 * x3) -
          x1 * y1 * (y1 * y2 * y3 + E.a * x1 * x2 * y3 + E.a * x1 * y2 * x3 - E.a * y1 * x2 * x3)) * h2 -
      (x2 * y2 * (E.a * x1 ^ 2 + y1 ^ 2 - 1) *
          (y1 * y2 * y3 - E.a * x1 * x2 * y3 - E.a * x1 * y2 * x3 - E.a * y1 * x2 * x3) +
        x1 * y1 * (y1 * y2 * y3 - E.a * x1 * x2 * y3 + E.a * x1 * y2 * x3 + E.a * y1 * x2 * x3)) * h3)

theorem addX_assoc : E.addX (E.addX x1 y1 x2 y2) (E.addY x1 y1 x2 y2) x3 y3 =
    E.addX x1 y1 (E.addX x2 y2 x3 y3) (E.addY x2 y2 x3 y3) := by
  have hB := denominator_x h1 h2
  have hD := denominator_y h1 h2
  have hB' := denominator_x h2 h3
  have hD' := denominator_y h2 h3
  have hleft := denominator_x (equation_add h1 h2) h3
  have hright := denominator_x h1 (equation_add h2 h3)
  have hnumerators := assoc_numerators_x h1 h2 h3
  refine (div_eq_div_iff hleft hright).mpr ?_
  unfold Curve.addX Curve.addY
  generalize 1 + E.d * x1 * x2 * y1 * y2 = B at hB hnumerators ⊢
  generalize 1 - E.d * x1 * x2 * y1 * y2 = D at hD hnumerators ⊢
  generalize 1 + E.d * x2 * x3 * y2 * y3 = B' at hB' hnumerators ⊢
  generalize 1 - E.d * x2 * x3 * y2 * y3 = D' at hD' hnumerators ⊢
  field_simp
  linear_combination hnumerators

theorem addY_assoc : E.addY (E.addX x1 y1 x2 y2) (E.addY x1 y1 x2 y2) x3 y3 =
    E.addY x1 y1 (E.addX x2 y2 x3 y3) (E.addY x2 y2 x3 y3) := by
  have hB := denominator_x h1 h2
  have hD := denominator_y h1 h2
  have hB' := denominator_x h2 h3
  have hD' := denominator_y h2 h3
  have hleft := denominator_y (equation_add h1 h2) h3
  have hright := denominator_y h1 (equation_add h2 h3)
  have hnumerators := assoc_numerators_y h1 h2 h3
  refine (div_eq_div_iff hleft hright).mpr ?_
  unfold Curve.addX Curve.addY
  generalize 1 + E.d * x1 * x2 * y1 * y2 = B at hB hnumerators ⊢
  generalize 1 - E.d * x1 * x2 * y1 * y2 = D at hD hnumerators ⊢
  generalize 1 + E.d * x2 * x3 * y2 * y3 = B' at hB' hnumerators ⊢
  generalize 1 - E.d * x2 * x3 * y2 * y3 = D' at hD' hnumerators ⊢
  field_simp
  linear_combination hnumerators

end Associativity

/-! ## The group -/

theorem addX_comm : E.addX x1 y1 x2 y2 = E.addX x2 y2 x1 y1 := by
  unfold Curve.addX
  congr 1 <;> ring

theorem addY_comm : E.addY x1 y1 x2 y2 = E.addY x2 y2 x1 y1 := by
  unfold Curve.addY
  congr 1 <;> ring

theorem zero_add_point (P : Point E) : 0 + P = P := by
  ext
  · simp [Curve.addX]
  · simp [Curve.addY]

theorem neg_add_point (P : Point E) : -P + P = 0 := by
  have hD := denominator_y (-P).equation P.equation
  ext
  · rw [add_x, neg_x, neg_y, zero_x, Curve.addX]
    have hzero : -P.x * P.y + P.y * P.x = 0 := by ring
    rw [hzero, zero_div]
  · rw [add_y, neg_x, neg_y, zero_y, Curve.addY]
    rw [neg_x, neg_y] at hD
    rw [div_eq_one_iff_eq hD]
    have h := P.equation
    unfold Curve.Equation at h
    linear_combination h

instance : AddCommGroup (Point E) where
  add_assoc P Q R := Point.ext (addX_assoc P.equation Q.equation R.equation)
    (addY_assoc P.equation Q.equation R.equation)
  zero_add := zero_add_point
  add_zero P := (Point.ext addX_comm addY_comm : P + 0 = 0 + P).trans (zero_add_point P)
  add_comm P Q := Point.ext addX_comm addY_comm
  neg_add_cancel := neg_add_point
  nsmul := nsmulRec
  zsmul := zsmulRec

end Lib.Edwards
