import PuttyNd.Ecc.Curves
import PuttyNd.Ecc.Proofs.ExponentProofs
import Mathlib.AlgebraicGeometry.EllipticCurve.Affine.Point
import Mathlib.Tactic.LinearCombination

/-!
# Proofs: the arithmetic on Montgomery curves

The group is that of the Weierstrass curve with the points `(bx, b^2 y)`. The first coordinate of a sum is found
from those of the points and of their difference.
-/

namespace PuttyNd.Ecc

open WeierstrassCurve.Affine

variable {F : Type} [Field F] {a b : F}

/-- The curve `by^2 = x^3 + ax^2 + x`, with the coordinates `bx` and `b^2 y` -/
def montgomeryCurve (a b : F) : WeierstrassCurve.Affine F where
  a₁ := 0
  a₂ := a * b
  a₃ := 0
  a₄ := b ^ 2
  a₆ := 0

theorem montgomeryCurve_equation (hb : b ≠ 0) (x y : F) :
    (montgomeryCurve a b).Equation (b * x) (b ^ 2 * y) ↔ b * y ^ 2 = x ^ 3 + a * x ^ 2 + x := by
  rw [equation_iff]
  simp only [montgomeryCurve]
  constructor
  · intro h
    apply mul_left_cancel₀ (pow_ne_zero 3 hb)
    linear_combination h
  · intro h
    linear_combination b ^ 3 * h

/-- The coordinates stand for the first coordinate of the point. -/
def RepresentsX (P : MontgomeryPoint F) : (montgomeryCurve a b).Point → Prop
  | .zero => P.Z = 0 ∧ P.X ≠ 0
  | .some x _ _ => P.Z ≠ 0 ∧ b * P.X = x * P.Z

variable {P Q R : MontgomeryPoint F} {A B C : (montgomeryCurve a b).Point} {x y x1 y1 x2 y2 : F}

theorem negY_montgomery : (montgomeryCurve a b).negY x y = -y := by
  simp [montgomeryCurve]

theorem addX_montgomery (ℓ : F) : (montgomeryCurve a b).addX x1 x2 ℓ = ℓ ^ 2 - a * b - x1 - x2 := by
  simp [montgomeryCurve]

theorem equation_montgomery (h : (montgomeryCurve a b).Nonsingular x y) :
    y ^ 2 = x ^ 3 + a * b * x ^ 2 + b ^ 2 * x := by
  have heq := (equation_iff x y).mp h.1
  simp only [montgomeryCurve] at heq
  linear_combination heq

/-! ## Coordinates without denominators -/

theorem four_ne_zero_of_two (htwo : (2 : F) ≠ 0) : (4 : F) ≠ 0 := by
  have hne := mul_ne_zero htwo htwo
  norm_num at hne
  exact hne

theorem double_eq (htwo : (2 : F) ≠ 0) : eccMontgomeryDouble (eccMontgomeryCurve a b) P =
    ⟨(P.X ^ 2 - P.Z ^ 2) ^ 2, 4 * P.X * P.Z * (P.X ^ 2 + a * P.X * P.Z + P.Z ^ 2)⟩ := by
  have hfour : (4 : F) * 4⁻¹ = 1 := mul_inv_cancel₀ (four_ne_zero_of_two htwo)
  unfold eccMontgomeryDouble eccMontgomeryCurve
  simp only [MontgomeryPoint.mk.injEq]
  constructor
  · ring
  · linear_combination 4 * P.X * P.Z * (P.X * P.Z * (a + 2)) * hfour

theorem diffAdd_eq : eccMontgomeryDiffAdd P Q R =
    ⟨4 * (P.X * Q.X - P.Z * Q.Z) ^ 2 * R.Z, 4 * (P.X * Q.Z - P.Z * Q.X) ^ 2 * R.X⟩ := by
  unfold eccMontgomeryDiffAdd
  simp only [MontgomeryPoint.mk.injEq]
  constructor
  · ring
  · ring

/-! ## Doubling -/

variable [DecidableEq F]

/-- The first coordinate of the double is the square of `x ^ 2 - b ^ 2`, over `4 y ^ 2`. -/
theorem double_x {h : (montgomeryCurve a b).Nonsingular x y} (hy : y ≠ -y) :
    ∃ x' y' h', (Point.some x y h + Point.some x y h : (montgomeryCurve a b).Point) = .some x' y' h' ∧
      x' * (4 * y ^ 2) = (x ^ 2 - b ^ 2) ^ 2 := by
  have hY : y ≠ (montgomeryCurve a b).negY x y := by rwa [negY_montgomery]
  have heq := equation_montgomery h
  have hne : 2 * y ≠ 0 := fun hzero => hy (by linear_combination hzero)
  have hslope : (montgomeryCurve a b).slope x x y y * (2 * y) = 3 * x ^ 2 + 2 * (a * b) * x + b ^ 2 := by
    rw [slope_of_Y_ne rfl hY, negY_montgomery, sub_neg_eq_add, ← two_mul, div_mul_cancel₀ _ hne]
    simp [montgomeryCurve]
  refine ⟨_, _, _, Point.add_some fun hxy => hY hxy.2, ?_⟩
  rw [addX_montgomery]
  linear_combination ((montgomeryCurve a b).slope x x y y * (2 * y) + (3 * x ^ 2 + 2 * (a * b) * x + b ^ 2)) * hslope -
    4 * (a * b + 2 * x) * heq

omit [DecidableEq F] in
/-- A point with the second coordinate zero is not one whose double has the first coordinate zero. -/
theorem square_ne (hb : b ≠ 0) (h : (montgomeryCurve a b).Nonsingular x 0) : x ^ 2 - b ^ 2 ≠ 0 := by
  intro hsquare
  have heq := equation_montgomery h
  have hx : x ≠ 0 := by
    rintro rfl
    have hzero : b ^ 2 = 0 := by linear_combination -hsquare
    exact hb ((pow_eq_zero_iff two_ne_zero).mp hzero)
  have hfactor : x * (x ^ 2 + a * b * x + b ^ 2) = 0 := by linear_combination -heq
  have hzero := (mul_eq_zero.mp hfactor).resolve_left hx
  rcases ((nonsingular_iff _ _).mp h).2 with hne | hne
  · simp only [montgomeryCurve] at hne
    exact hne (by linear_combination -hsquare - 2 * hzero)
  · simp only [montgomeryCurve] at hne
    exact hne (by ring)

section Double

variable (htwo : (2 : F) ≠ 0) (hb : b ≠ 0)
include htwo hb

theorem montgomeryDouble_spec (hP : RepresentsX P A) :
    RepresentsX (eccMontgomeryDouble (eccMontgomeryCurve a b) P) (A + A) := by
  rw [double_eq htwo]
  cases A with
  | zero =>
    obtain ⟨hZ, hX⟩ := hP
    constructor
    · show 4 * P.X * P.Z * _ = 0
      rw [hZ, mul_zero, zero_mul]
    · show (P.X ^ 2 - P.Z ^ 2) ^ 2 ≠ 0
      rw [hZ, zero_pow two_ne_zero, sub_zero]
      exact pow_ne_zero 2 (pow_ne_zero 2 hX)
  | some x y h =>
    obtain ⟨hZ, hX⟩ := hP
    have heq := equation_montgomery h
    have hDZ : b ^ 3 * (4 * P.X * P.Z * (P.X ^ 2 + a * P.X * P.Z + P.Z ^ 2)) = 4 * y ^ 2 * P.Z ^ 4 := by
      calc b ^ 3 * (4 * P.X * P.Z * (P.X ^ 2 + a * P.X * P.Z + P.Z ^ 2))
          = 4 * P.Z * (b * P.X) * ((b * P.X) ^ 2 + a * b * (b * P.X) * P.Z + b ^ 2 * P.Z ^ 2) := by ring
        _ = 4 * y ^ 2 * P.Z ^ 4 := by
          rw [hX]
          linear_combination -4 * P.Z ^ 4 * heq
    have hDX : b ^ 4 * (P.X ^ 2 - P.Z ^ 2) ^ 2 = (x ^ 2 - b ^ 2) ^ 2 * P.Z ^ 4 := by
      calc b ^ 4 * (P.X ^ 2 - P.Z ^ 2) ^ 2 = ((b * P.X) ^ 2 - b ^ 2 * P.Z ^ 2) ^ 2 := by ring
        _ = (x ^ 2 - b ^ 2) ^ 2 * P.Z ^ 4 := by
          rw [hX]
          ring
    have hZ4 : P.Z ^ 4 ≠ 0 := pow_ne_zero 4 hZ
    by_cases hy : y = -y
    · have hy0 : y = 0 := by
        have hzero : 2 * y = 0 := by linear_combination hy
        exact (mul_eq_zero.mp hzero).resolve_left htwo
      subst hy0
      have hsum : (Point.some x 0 h + Point.some x 0 h : (montgomeryCurve a b).Point) = 0 :=
        Point.add_of_Y_eq rfl (by rw [negY_montgomery]; exact hy)
      rw [hsum]
      constructor
      · rw [zero_pow two_ne_zero, mul_zero, zero_mul] at hDZ
        exact (mul_eq_zero.mp hDZ).resolve_left (pow_ne_zero 3 hb)
      · have hne := mul_ne_zero (pow_ne_zero 2 (square_ne hb h)) hZ4
        rw [← hDX] at hne
        exact right_ne_zero_of_mul hne
    · obtain ⟨x', y', h', hsum, hx'⟩ := double_x (h := h) hy
      have hy2 : 4 * y ^ 2 ≠ 0 := by
        have hne : 2 * y ≠ 0 := fun hzero => hy (by linear_combination hzero)
        have hsquare := pow_ne_zero 2 hne
        intro hzero
        exact hsquare (by linear_combination hzero)
      rw [hsum]
      constructor
      · have hne := mul_ne_zero hy2 hZ4
        rw [← hDZ] at hne
        exact right_ne_zero_of_mul hne
      · apply mul_left_cancel₀ (pow_ne_zero 3 hb)
        dsimp only
        linear_combination hDX - P.Z ^ 4 * hx' - x' * hDZ

end Double

/-! ## Addition -/

/-- The product of the first coordinates of the sum and of the difference of two points -/
theorem sum_difference_x (h1 : (montgomeryCurve a b).Nonsingular x1 y1) (h2 : (montgomeryCurve a b).Nonsingular x2 y2)
    (hx : x1 ≠ x2) : ∃ x y h x' y' h',
      (Point.some x1 y1 h1 + Point.some x2 y2 h2 : (montgomeryCurve a b).Point) = .some x y h ∧
      (Point.some x2 y2 h2 - Point.some x1 y1 h1 : (montgomeryCurve a b).Point) = .some x' y' h' ∧
      x * x' * (x1 - x2) ^ 2 = (x1 * x2 - b ^ 2) ^ 2 := by
  have heq1 := equation_montgomery h1
  have heq2 := equation_montgomery h2
  have hd : x1 - x2 ≠ 0 := sub_ne_zero.mpr hx
  have hd' : x2 - x1 ≠ 0 := sub_ne_zero.mpr (Ne.symm hx)
  have hneg : (Point.some x2 y2 h2 - Point.some x1 y1 h1 : (montgomeryCurve a b).Point) =
      Point.some x2 y2 h2 + Point.some x1 _ ((nonsingular_neg ..).mpr h1) := by
    rw [sub_eq_add_neg, Point.neg_some]
  refine ⟨_, _, _, _, _, _, Point.add_some fun hxy => hx hxy.1, hneg.trans (Point.add_some fun hxy => hx hxy.1.symm), ?_⟩
  rw [addX_montgomery, addX_montgomery, negY_montgomery, slope_of_X_ne hx, slope_of_X_ne (Ne.symm hx)]
  have hsum : ((y1 - y2) / (x1 - x2)) ^ 2 * (x1 - x2) ^ 2 = (y1 - y2) ^ 2 := by
    rw [← mul_pow, div_mul_cancel₀ _ hd]
  have hdifference : ((y2 - -y1) / (x2 - x1)) ^ 2 * (x1 - x2) ^ 2 = (y2 - -y1) ^ 2 := by
    rw [sub_sq_comm x1, ← mul_pow, div_mul_cancel₀ _ hd']
  generalize ((y1 - y2) / (x1 - x2)) ^ 2 = s at hsum ⊢
  generalize ((y2 - -y1) / (x2 - x1)) ^ 2 = t at hdifference ⊢
  apply mul_right_cancel₀ (pow_ne_zero 2 hd)
  calc (s - a * b - x1 - x2) * (t - a * b - x2 - x1) * (x1 - x2) ^ 2 * (x1 - x2) ^ 2
      = (s * (x1 - x2) ^ 2 - (a * b + x1 + x2) * (x1 - x2) ^ 2) *
          (t * (x1 - x2) ^ 2 - (a * b + x1 + x2) * (x1 - x2) ^ 2) := by ring
    _ = (y1 ^ 2 + y2 ^ 2 - (a * b + x1 + x2) * (x1 - x2) ^ 2) ^ 2 - 4 * y1 ^ 2 * y2 ^ 2 := by
      rw [hsum, hdifference]
      ring
    _ = (x1 * x2 - b ^ 2) ^ 2 * (x1 - x2) ^ 2 := by
      rw [heq1, heq2]
      ring

omit [DecidableEq F] in
theorem diffAdd_comm : eccMontgomeryDiffAdd P Q R = eccMontgomeryDiffAdd Q P R := by
  rw [diffAdd_eq, diffAdd_eq, MontgomeryPoint.mk.injEq]
  constructor
  · ring
  · ring

omit [DecidableEq F] in
/-- The coordinates of the difference are not zero. -/
theorem difference_ne_zero {h : (montgomeryCurve a b).Nonsingular x y} (hR : RepresentsX R (.some x y h)) (hx : x ≠ 0) :
    R.X ≠ 0 := by
  obtain ⟨hZ, hX⟩ := hR
  have hne := mul_ne_zero hx hZ
  rw [← hX] at hne
  exact right_ne_zero_of_mul hne

section DiffAdd

variable (htwo : (2 : F) ≠ 0) (hb : b ≠ 0) {h : (montgomeryCurve a b).Nonsingular x y} (hx : x ≠ 0)
  (hR : RepresentsX R (.some x y h))
include htwo hb hx hR

omit [DecidableEq F] in
/-- One of the points is the identity, and the difference has the first coordinate of the other one. -/
theorem diffAdd_identity {h1 : (montgomeryCurve a b).Nonsingular x y1} (hP : RepresentsX P (0 : (montgomeryCurve a b).Point))
    (hQ : RepresentsX Q (.some x y1 h1)) : RepresentsX (eccMontgomeryDiffAdd P Q R) (.some x y1 h1) := by
  obtain ⟨hPZ, hPX⟩ := hP
  have hRX := difference_ne_zero hR hx
  obtain ⟨hQZ, hQX⟩ := hQ
  obtain ⟨hRZ, hRX'⟩ := hR
  have hfour := four_ne_zero_of_two htwo
  rw [diffAdd_eq, hPZ, zero_mul, zero_mul, sub_zero, sub_zero]
  constructor
  · exact mul_ne_zero (mul_ne_zero hfour (pow_ne_zero 2 (mul_ne_zero hPX hQZ))) hRX
  · apply mul_left_cancel₀ hb
    dsimp only
    calc b * (b * (4 * (P.X * Q.X) ^ 2 * R.Z)) = 4 * (P.X * (b * Q.X)) ^ 2 * R.Z := by ring
      _ = x * (4 * (P.X * Q.Z) ^ 2) * (x * R.Z) := by
        rw [hQX]
        ring
      _ = b * (x * (4 * (P.X * Q.Z) ^ 2 * R.X)) := by
        rw [← hRX']
        ring

/-- The points are opposite to each other, and the difference is the double of one of them. -/
theorem diffAdd_opposite {h1 : (montgomeryCurve a b).Nonsingular x1 y1} {h2 : (montgomeryCurve a b).Nonsingular x1 y2}
    (hP : RepresentsX P (.some x1 y1 h1)) (hQ : RepresentsX Q (.some x1 y2 h2)) (hy : y2 ≠ -y2)
    (hdouble : (Point.some x1 y2 h2 + Point.some x1 y2 h2 : (montgomeryCurve a b).Point) = .some x y h) :
    RepresentsX (eccMontgomeryDiffAdd P Q R) (0 : (montgomeryCurve a b).Point) := by
  obtain ⟨hPZ, hPX⟩ := hP
  obtain ⟨hQZ, hQX⟩ := hQ
  have hfour := four_ne_zero_of_two htwo
  obtain ⟨x', y', h', hsum, hx'⟩ := double_x (h := h2) hy
  rw [hdouble, Point.some.injEq] at hsum
  rw [← hsum.1] at hx'
  have hy2 : y2 ≠ 0 := by
    rintro rfl
    exact hy neg_zero.symm
  have hsquare : x1 ^ 2 - b ^ 2 ≠ 0 := by
    intro hzero
    rw [hzero, zero_pow two_ne_zero] at hx'
    exact mul_ne_zero hx (mul_ne_zero hfour (pow_ne_zero 2 hy2)) hx'
  rw [diffAdd_eq]
  constructor
  · have hzero : P.X * Q.Z - P.Z * Q.X = 0 := by
      apply mul_left_cancel₀ hb
      linear_combination Q.Z * hPX - P.Z * hQX
    show 4 * (P.X * Q.Z - P.Z * Q.X) ^ 2 * R.X = 0
    rw [hzero, zero_pow two_ne_zero, mul_zero, zero_mul]
  · have hne : P.X * Q.X - P.Z * Q.Z ≠ 0 := by
      intro hzero
      refine mul_ne_zero hsquare (mul_ne_zero hPZ hQZ) ?_
      calc (x1 ^ 2 - b ^ 2) * (P.Z * Q.Z) = x1 * P.Z * (x1 * Q.Z) - b ^ 2 * (P.Z * Q.Z) := by ring
        _ = b ^ 2 * (P.X * Q.X - P.Z * Q.Z) := by
          rw [← hPX, ← hQX]
          ring
        _ = 0 := by rw [hzero, mul_zero]
    exact mul_ne_zero (mul_ne_zero hfour (pow_ne_zero 2 hne)) hR.1

/-- The points have different first coordinates. -/
theorem diffAdd_distinct {h1 : (montgomeryCurve a b).Nonsingular x1 y1} {h2 : (montgomeryCurve a b).Nonsingular x2 y2}
    (hP : RepresentsX P (.some x1 y1 h1)) (hQ : RepresentsX Q (.some x2 y2 h2)) (hne : x1 ≠ x2)
    (hdifference : (Point.some x2 y2 h2 - Point.some x1 y1 h1 : (montgomeryCurve a b).Point) = .some x y h) :
    RepresentsX (eccMontgomeryDiffAdd P Q R)
      (Point.some x1 y1 h1 + Point.some x2 y2 h2 : (montgomeryCurve a b).Point) := by
  have hRX := difference_ne_zero hR hx
  obtain ⟨hPZ, hPX⟩ := hP
  obtain ⟨hQZ, hQX⟩ := hQ
  obtain ⟨hRZ, hRX'⟩ := hR
  have hfour := four_ne_zero_of_two htwo
  obtain ⟨x', y', h', x'', y'', h'', hsum, hdifference', hproduct⟩ := sum_difference_x h1 h2 hne
  rw [hdifference, Point.some.injEq] at hdifference'
  rw [← hdifference'.1] at hproduct
  have hX : b ^ 2 * (P.X * Q.X - P.Z * Q.Z) = (x1 * x2 - b ^ 2) * (P.Z * Q.Z) := by
    linear_combination b * Q.X * hPX + x1 * P.Z * hQX
  have hZ : b * (P.X * Q.Z - P.Z * Q.X) = (x1 - x2) * (P.Z * Q.Z) := by
    linear_combination Q.Z * hPX - P.Z * hQX
  have hZne : P.X * Q.Z - P.Z * Q.X ≠ 0 := by
    have hprod := mul_ne_zero (sub_ne_zero.mpr hne) (mul_ne_zero hPZ hQZ)
    rw [← hZ] at hprod
    exact right_ne_zero_of_mul hprod
  rw [hsum, diffAdd_eq]
  constructor
  · exact mul_ne_zero (mul_ne_zero hfour (pow_ne_zero 2 hZne)) hRX
  · apply mul_left_cancel₀ (pow_ne_zero 3 hb)
    dsimp only
    calc b ^ 3 * (b * (4 * (P.X * Q.X - P.Z * Q.Z) ^ 2 * R.Z))
        = 4 * (b ^ 2 * (P.X * Q.X - P.Z * Q.Z)) ^ 2 * R.Z := by ring
      _ = 4 * (x1 * x2 - b ^ 2) ^ 2 * (P.Z * Q.Z) ^ 2 * R.Z := by
        rw [hX]
        ring
      _ = x' * (4 * ((x1 - x2) * (P.Z * Q.Z)) ^ 2 * (x * R.Z)) := by
        rw [← hproduct]
        ring
      _ = b ^ 3 * (x' * (4 * (P.X * Q.Z - P.Z * Q.X) ^ 2 * R.X)) := by
        rw [← hZ, ← hRX']
        ring

theorem diffAdd_spec (hP : RepresentsX P A) (hQ : RepresentsX Q C) (hdifference : C - A = .some x y h) :
    RepresentsX (eccMontgomeryDiffAdd P Q R) (A + C) := by
  cases A with
  | zero =>
    have hC : C = .some x y h := by
      rw [← hdifference]
      exact (sub_zero C).symm
    subst hC
    have hsum : (Point.zero + Point.some x y h : (montgomeryCurve a b).Point) = .some x y h := zero_add _
    rw [hsum]
    exact diffAdd_identity htwo hb hx hR hP hQ
  | some x1 y1 h1 =>
    cases C with
    | zero =>
      have hneg : (Point.zero - Point.some x1 y1 h1 : (montgomeryCurve a b).Point) = -Point.some x1 y1 h1 := zero_sub _
      rw [hneg, Point.neg_some, Point.some.injEq] at hdifference
      obtain ⟨rfl, -⟩ := hdifference
      have hsum : (Point.some x1 y1 h1 + Point.zero : (montgomeryCurve a b).Point) = .some x1 y1 h1 := add_zero _
      rw [hsum, diffAdd_comm]
      exact diffAdd_identity htwo hb hx hR hQ hP
    | some x2 y2 h2 =>
      by_cases hne : x1 = x2
      · subst hne
        have hy : y1 ≠ y2 := by
          rintro rfl
          rw [sub_self] at hdifference
          exact Point.some_ne_zero h hdifference.symm
        have hneg : y1 = (montgomeryCurve a b).negY x1 y2 := (Y_eq_of_X_eq h1.1 h2.1 rfl).resolve_left hy
        have hopposite : (-Point.some x1 y1 h1 : (montgomeryCurve a b).Point) = .some x1 y2 h2 := by
          rw [Point.neg_some, Point.some.injEq, hneg, negY_negY]
          exact ⟨rfl, rfl⟩
        have hsum : (Point.some x1 y1 h1 + Point.some x1 y2 h2 : (montgomeryCurve a b).Point) = 0 :=
          Point.add_of_Y_eq rfl hneg
        rw [sub_eq_add_neg, hopposite] at hdifference
        rw [hsum]
        refine diffAdd_opposite htwo hb hx hR hP hQ (fun hself => hy ?_) hdifference
        rw [hneg, negY_montgomery, ← hself]
      · exact diffAdd_distinct htwo hb hx hR hP hQ hne hdifference

end DiffAdd

/-! ## Multiplication -/

open Lib.Ladder Mpint Words

variable {u : ℕ} {n : MpInt u}

theorem montgomeryMultiply_spec (htwo : (2 : F) ≠ 0) (hb : b ≠ 0) {h : (montgomeryCurve a b).Nonsingular x y}
    (hP : RepresentsX P (.some x y h)) (hx : x ≠ 0) (hpos : 0 < val n) :
    ∃ S, eccMontgomeryMultiply (eccMontgomeryCurve a b) P n = some S ∧
      RepresentsX S (val n • (.some x y h : (montgomeryCurve a b).Point)) := by
  have hone : RepresentsX P (1 • (.some x y h : (montgomeryCurve a b).Point)) := by
    rw [one_nsmul]
    exact hP
  have htwoB : RepresentsX (eccMontgomeryDouble (eccMontgomeryCurve a b) P)
      (2 • (.some x y h : (montgomeryCurve a b).Point)) := by
    rw [two_nsmul]
    exact montgomeryDouble_spec htwo hb hP
  refine @multiply_spec _ n _ _ _ _ _ (fun k Q => RepresentsX Q (k • (.some x y h : (montgomeryCurve a b).Point)))
    (fun _ => True) hone htwoB (fun j Q R _ hQ hR => ?_) (fun k Q hQ => ?_) hpos fun _ _ => trivial
  · refine ⟨_, rfl, ?_⟩
    rw [two_mul, add_assoc, add_nsmul]
    refine diffAdd_spec htwo hb hx hP hQ hR ?_
    -- the points that are added differ by the base point
    rw [succ_nsmul, add_sub_cancel_left]
  · rw [two_mul, add_nsmul]
    exact montgomeryDouble_spec htwo hb hQ

end PuttyNd.Ecc
