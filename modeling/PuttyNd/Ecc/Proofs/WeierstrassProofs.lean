import Mathlib.Algebra.Field.ZMod
import Mathlib.AlgebraicGeometry.EllipticCurve.Affine.Point
import Mathlib.Tactic.LinearCombination
import PuttyNd.Ecc.Curves
import PuttyNd.Ecc.Proofs.ExponentProofs

/-!
# Proofs: the arithmetic on Weierstrass curves

The points are those of the group of the curve. Each function is first related to the affine formulae: the
epilogue is right whenever the slope is, in the common denominator.
-/

namespace PuttyNd.Ecc

open WeierstrassCurve.Affine

variable {F : Type} [Field F] {wc : CurveParams F}

/-- The curve `y^2 = x^3 + ax + b` -/
def curve (wc : CurveParams F) : WeierstrassCurve.Affine F where
  a₁ := 0
  a₂ := 0
  a₃ := 0
  a₄ := wc.a
  a₆ := wc.b

/-- The coordinates stand for the point. -/
def Represents (P : WeierstrassPoint F) : (curve wc).Point → Prop
  | .zero => P.Z = 0
  | .some x y _ => P.Z ≠ 0 ∧ P.X = x * P.Z ^ 2 ∧ P.Y = y * P.Z ^ 3

variable {P Q : WeierstrassPoint F} {A B : (curve wc).Point} {x y x1 y1 x2 y2 : F}

theorem represents_zero : Represents P (0 : (curve wc).Point) ↔ P.Z = 0 := Iff.rfl

theorem represents_some {h : (curve wc).Nonsingular x y} :
    Represents P (.some x y h) ↔ P.Z ≠ 0 ∧ P.X = x * P.Z ^ 2 ∧ P.Y = y * P.Z ^ 3 := Iff.rfl

theorem represents_iff_zero (h : Represents P A) : P.Z = 0 ↔ A = 0 := by
  cases A with
  | zero => exact iff_of_true h rfl
  | some x y hxy => exact iff_of_false h.1 (Point.some_ne_zero hxy)

theorem negY_eq : (curve wc).negY x y = -y := by
  simp [curve]

theorem addX_eq (ℓ : F) : (curve wc).addX x1 x2 ℓ = ℓ ^ 2 - x1 - x2 := by
  simp [curve]

theorem addY_eq (ℓ : F) : (curve wc).addY x1 x2 y1 ℓ = ℓ * (x1 - (ℓ ^ 2 - x1 - x2)) - y1 := by
  unfold addY negAddY
  rw [negY_eq, addX_eq]
  ring

/-- The epilogue computes the third point of the line with the slope `ℓ`, where `D` is the common
denominator. -/
theorem epilogue_eq {ℓ D lambdaN lambdaD : F} (hslope : lambdaN = ℓ * D * lambdaD) :
    eccWeierstrassEpilogue (x1 * D ^ 2) (x2 * D ^ 2) (y1 * D ^ 3) D lambdaN lambdaD =
      ⟨(curve wc).addX x1 x2 ℓ * (D * lambdaD) ^ 2, (curve wc).addY x1 x2 y1 ℓ * (D * lambdaD) ^ 3,
        D * lambdaD⟩ := by
  unfold eccWeierstrassEpilogue
  rw [addX_eq, addY_eq, hslope]
  simp only [WeierstrassPoint.mk.injEq, and_true]
  constructor
  · ring
  · ring

/-- The prologue puts the points over a common denominator. -/
theorem prologue_eq (hPX : P.X = x1 * P.Z ^ 2) (hPY : P.Y = y1 * P.Z ^ 3) (hQX : Q.X = x2 * Q.Z ^ 2)
    (hQY : Q.Y = y2 * Q.Z ^ 3) :
    let D := P.Z * Q.Z
    eccWeierstrassAddPrologue P Q =
      ⟨x1 * D ^ 2, y1 * D ^ 3, x2 * D ^ 2, D, (y2 - y1) * D ^ 3, (x2 - x1) * D ^ 2⟩ := by
  unfold eccWeierstrassAddPrologue
  rw [hPX, hPY, hQX, hQY]
  simp only [Prologue.mk.injEq, true_and]
  refine ⟨?_, ?_, ?_, ?_, ?_⟩ <;> ring

/-! ## Doubling -/

theorem tangentSlope_eq (hPX : P.X = x * P.Z ^ 2) (hPY : P.Y = y * P.Z ^ 3) :
    eccWeierstrassTangentSlope wc P = ((3 * x ^ 2 + wc.a) * P.Z ^ 4, 2 * y * P.Z ^ 3) := by
  unfold eccWeierstrassTangentSlope
  rw [hPX, hPY]
  exact Prod.ext (by ring) (by ring)

variable [DecidableEq F]

/-- The slope of the tangent -/
theorem slope_self (hy : y ≠ -y) : (curve wc).slope x x y y * (2 * y) = 3 * x ^ 2 + wc.a := by
  have htwo : y - -y = 2 * y := by ring
  have hne : 2 * y ≠ 0 := htwo ▸ sub_ne_zero.mpr hy
  rw [slope_of_Y_ne rfl (by rw [negY_eq]; exact hy), negY_eq, htwo, div_mul_cancel₀ _ hne]
  simp [curve]

/-- The slope of the line through two points -/
theorem slope_of_ne (hx : x1 ≠ x2) : (curve wc).slope x1 x2 y1 y2 * (x2 - x1) = y2 - y1 := by
  rw [slope_of_X_ne hx, ← neg_sub x1 x2, mul_neg, div_mul_cancel₀ _ (sub_ne_zero.mpr hx), neg_sub]

/-- A sum that is not the identity -/
theorem add_eq_some (h1 : (curve wc).Nonsingular x1 y1) (h2 : (curve wc).Nonsingular x2 y2)
    (hxy : ¬ (x1 = x2 ∧ y1 = -y2)) : ∃ h, (Point.some x1 y1 h1 + Point.some x2 y2 h2 : (curve wc).Point) =
      .some ((curve wc).addX x1 x2 ((curve wc).slope x1 x2 y1 y2))
        ((curve wc).addY x1 x2 y1 ((curve wc).slope x1 x2 y1 y2)) h := by
  rw [← @negY_eq F _ wc x2] at hxy
  exact ⟨_, Point.add_some hxy⟩

theorem add_eq_zero {h1 : (curve wc).Nonsingular x1 y1} {h2 : (curve wc).Nonsingular x2 y2} (hx : x1 = x2)
    (hy : y1 = -y2) : (Point.some x1 y1 h1 + Point.some x2 y2 h2 : (curve wc).Point) = 0 :=
  Point.add_of_Y_eq hx (by rw [negY_eq]; exact hy)

/-- The epilogue represents the sum if it gets the slope of the line. -/
theorem epilogue_spec {h1 : (curve wc).Nonsingular x1 y1} {h2 : (curve wc).Nonsingular x2 y2}
    (hxy : ¬ (x1 = x2 ∧ y1 = -y2)) {D lambdaN lambdaD : F} (hD : D ≠ 0) (hlambdaD : lambdaD ≠ 0)
    (hslope : lambdaN = (curve wc).slope x1 x2 y1 y2 * D * lambdaD) :
    Represents (eccWeierstrassEpilogue (x1 * D ^ 2) (x2 * D ^ 2) (y1 * D ^ 3) D lambdaN lambdaD)
      (Point.some x1 y1 h1 + Point.some x2 y2 h2 : (curve wc).Point) := by
  obtain ⟨h, hsum⟩ := add_eq_some h1 h2 hxy
  rw [hsum, epilogue_eq hslope]
  exact ⟨mul_ne_zero hD hlambdaD, rfl, rfl⟩

theorem double_spec (hP : Represents P A) : Represents (eccWeierstrassDouble wc P) (A + A) := by
  cases A with
  | zero =>
    have hZ : P.Z = 0 := hP
    show P.Z * (P.Y + P.Y) = 0
    rw [hZ, zero_mul]
  | some x y h =>
    obtain ⟨hZ, hX, hY⟩ := hP
    unfold eccWeierstrassDouble
    rw [tangentSlope_eq hX hY]
    dsimp only
    by_cases hy : y = -y
    · have hzero : 2 * y = 0 := by linear_combination hy
      rw [add_eq_zero rfl hy, represents_zero]
      show P.Z * (2 * y * P.Z ^ 3) = 0
      rw [hzero, zero_mul, mul_zero]
    · have htwo : 2 * y ≠ 0 := fun hzero => hy (by linear_combination hzero)
      rw [hX, hY]
      refine epilogue_spec (fun hxy => hy hxy.2) hZ (mul_ne_zero htwo (pow_ne_zero 3 hZ)) ?_
      rw [← slope_self hy]
      ring

/-! ## Addition -/

/-- The second coordinates of two points are the same. -/
def SameY : (curve wc).Point → (curve wc).Point → Prop
  | .some _ y1 _, .some _ y2 _ => y1 = y2
  | _, _ => False

/-- The first coordinates of two points are the same. -/
def SameX : (curve wc).Point → (curve wc).Point → Prop
  | .some x1 _ _, .some x2 _ _ => x1 = x2
  | _, _ => False

/-- The epilogue represents the sum if it gets the line through two different points. -/
theorem line_spec {h1 : (curve wc).Nonsingular x1 y1} {h2 : (curve wc).Nonsingular x2 y2} {D : F} (hD : D ≠ 0)
    (hne : ¬ (x1 = x2 ∧ y1 = y2)) :
    Represents (eccWeierstrassEpilogue (x1 * D ^ 2) (x2 * D ^ 2) (y1 * D ^ 3) D ((y2 - y1) * D ^ 3)
      ((x2 - x1) * D ^ 2)) (Point.some x1 y1 h1 + Point.some x2 y2 h2 : (curve wc).Point) := by
  by_cases hx : x1 = x2
  · have hneg : y1 = -y2 := by
      rcases Y_eq_of_X_eq h1.1 h2.1 hx with heq | hneg
      · exact absurd ⟨hx, heq⟩ hne
      · rwa [negY_eq] at hneg
    rw [add_eq_zero hx hneg, represents_zero]
    show D * ((x2 - x1) * D ^ 2) = 0
    rw [hx, sub_self, zero_mul, mul_zero]
  · have hxd : x2 - x1 ≠ 0 := sub_ne_zero.mpr (Ne.symm hx)
    refine epilogue_spec (fun hxy => hx hxy.1) hD (mul_ne_zero hxd (pow_ne_zero 2 hD)) ?_
    rw [← slope_of_ne hx]
    ring

theorem add_sameY (hP : Represents P A) (hQ : Represents Q B) (hAB : SameY A B) : eccWeierstrassAdd P Q = none := by
  cases A with
  | zero => exact hAB.elim
  | some x1 y1 h1 =>
    cases B with
    | zero => exact hAB.elim
    | some x2 y2 h2 =>
      have hy : y1 = y2 := hAB
      unfold eccWeierstrassAdd
      rw [prologue_eq hP.2.1 hP.2.2 hQ.2.1 hQ.2.2]
      exact if_pos (by rw [hy, sub_self, zero_mul])

/-- Where the second coordinates differ, the sum is right. -/
theorem add_spec (hP : Represents P A) (hQ : Represents Q B) (hA : A ≠ 0) (hB : B ≠ 0) (hAB : ¬ SameY A B) :
    ∃ S, eccWeierstrassAdd P Q = some S ∧ Represents S (A + B) := by
  cases A with
  | zero => exact absurd rfl hA
  | some x1 y1 h1 =>
    cases B with
    | zero => exact absurd rfl hB
    | some x2 y2 h2 =>
      have hy : y1 ≠ y2 := hAB
      have hD : P.Z * Q.Z ≠ 0 := mul_ne_zero hP.1 hQ.1
      have hne : (y2 - y1) * (P.Z * Q.Z) ^ 3 ≠ 0 := mul_ne_zero (sub_ne_zero.mpr hy.symm) (pow_ne_zero 3 hD)
      unfold eccWeierstrassAdd
      rw [prologue_eq hP.2.1 hP.2.2 hQ.2.1 hQ.2.2]
      exact ⟨_, if_neg hne, line_spec hD fun hxy => hy hxy.2⟩

/-! ## Multiplication -/

open Lib.Ladder Mpint Words

variable {u : ℕ} {n : MpInt u} {q : ℕ}

/-- The additions that are made for the exponent `n` are of points with different second coordinates. -/
def Distinguished (A : (curve wc).Point) (n : MpInt u) : Prop :=
  ∀ i < mpMaxBits n, ¬ SameY (kept (val n) (i + 1) • A) ((kept (val n) (i + 1) + 1) • A)

section Multiply

variable (hlarge : 3 < q) (horder : addOrderOf A = q) (hle : val n ≤ q)
include hlarge horder hle

/-- No multiple that is added is the identity. -/
theorem kept_ne_zero (j : ℕ) : kept (val n) (j + 1) • A ≠ 0 ∧ (kept (val n) (j + 1) + 1) • A ≠ 0 := by
  have hdiv : val n / 2 ^ (j + 1) ≤ val n / 2 := Nat.div_le_div_left (Nat.le_self_pow (by omega) 2) (by omega)
  have hkept : kept (val n) (j + 1) + 1 < q := by
    unfold kept
    omega
  have hkept0 := kept_pos (val n) (j + 1)
  have hne : ∀ k, 0 < k → k < q → k • A ≠ 0 := fun k hk hlt hzero => by
    have hdvd := addOrderOf_dvd_of_nsmul_eq_zero hzero
    rw [horder] at hdvd
    exact absurd (Nat.le_of_dvd hk hdvd) (by omega)
  exact ⟨hne _ hkept0 (by omega), hne _ (by omega) hkept⟩

theorem eccWeierstrassMultiply_iff (hP : Represents P A) (hpos : 0 < val n) :
    (∃ S, eccWeierstrassMultiply wc P n = some S ∧ Represents S (val n • A)) ↔ Distinguished A n := by
  have hone : Represents P (1 • A) := by
    rw [one_nsmul]
    exact hP
  have htwo : Represents (eccWeierstrassDouble wc P) (2 • A) := by
    rw [two_nsmul]
    exact double_spec hP
  have hdouble : ∀ k (Q : WeierstrassPoint F), Represents Q (k • A) →
      Represents (eccWeierstrassDouble wc Q) ((2 * k) • A) := fun k Q hQ => by
    rw [two_mul, add_nsmul]
    exact double_spec hQ
  have hadd : ∀ j (Q R : WeierstrassPoint F), ¬ SameY (kept (val n) (j + 1) • A) ((kept (val n) (j + 1) + 1) • A) →
      Represents Q (kept (val n) (j + 1) • A) → Represents R ((kept (val n) (j + 1) + 1) • A) →
      ∃ S, eccWeierstrassAdd Q R = some S ∧ Represents S ((2 * kept (val n) (j + 1) + 1) • A) := by
    intro j Q R hne hQ hR
    obtain ⟨hk, hkplus1⟩ := kept_ne_zero hlarge horder hle j
    obtain ⟨S, hS, hsum⟩ := add_spec hQ hR hk hkplus1 hne
    refine ⟨S, hS, ?_⟩
    rw [two_mul, add_assoc, add_nsmul]
    exact hsum
  constructor
  · rintro ⟨S, hS, -⟩
    by_contra hne
    have hnone := @multiply_none _ n _ _ _ _ _ (fun k Q => Represents Q (k • A)) _ hone htwo hadd hdouble
      (fun j Q R hsame hQ hR => add_sameY hQ hR (not_not.mp hsame)) hne
    rw [eccWeierstrassMultiply, hnone] at hS
    cases hS
  · intro hne
    exact multiply_spec hone htwo hadd hdouble hpos hne

end Multiply

/-- An addition of points with different first coordinates is right exactly if the second coordinates differ, too,
as it is these that the assertion compares. A multiplication is right exactly if this is so for all
additions that it makes. -/
theorem weierstrass_iff {F : Type} [Field F] [DecidableEq F] (wc : CurveParams F) :
    (∀ (P Q : WeierstrassPoint F) (A B : (curve wc).Point), Represents P A → Represents Q B → A ≠ 0 → B ≠ 0 →
      ¬ SameX A B →
      ((∃ S, eccWeierstrassAdd P Q = some S ∧ Represents S (A + B)) ↔ ¬ SameY A B)) ∧
    ∀ {u : ℕ} (B : WeierstrassPoint F) (A : (curve wc).Point) (q : ℕ) (n : MpInt u), Represents B A → q.Prime →
      3 < q → addOrderOf A = q → 1 ≤ val n → val n ≤ q →
      ((∃ S, eccWeierstrassMultiply wc B n = some S ∧ Represents S (val n • A) ∧
        (eccWeierstrassIsIdentity S = true ↔ val n = q)) ↔ Distinguished A n) := by
  constructor
  · intro P Q A B hP hQ hA hB _
    constructor
    · rintro ⟨S, hS, -⟩ hsame
      rw [add_sameY hP hQ hsame] at hS
      cases hS
    · exact add_spec hP hQ hA hB
  · intro u B A q n hB _ hlarge horder hpos hle
    rw [← eccWeierstrassMultiply_iff hlarge horder hle hB hpos]
    refine exists_congr fun S => and_congr_right fun _ => and_iff_left_of_imp fun hS => ?_
    have hzero : val n • A = 0 ↔ val n = q := by
      rw [← addOrderOf_dvd_iff_nsmul_eq_zero, horder]
      exact ⟨fun hdvd => Nat.le_antisymm hle (Nat.le_of_dvd hpos hdvd), fun heq => heq ▸ Nat.dvd_refl _⟩
    rw [← hzero, ← represents_iff_zero hS]
    exact decide_eq_true_iff

/-- `y^2 = x^3 + 3` modulo 7 -/
def curveSeven : CurveParams (ZMod 7) := ⟨0, 3⟩

instance fact_prime_seven : Fact (Nat.Prime 7) := ⟨by decide⟩

theorem nonsingular_seven {x y : ZMod 7} (h : y ^ 2 = x ^ 3 + 3) : (curve curveSeven).Nonsingular x y := by
  have hdisc : (curve curveSeven).Δ ≠ 0 := by decide
  refine (equation_iff_nonsingular_of_Δ_ne_zero hdisc).mp ((equation_iff x y).mpr ?_)
  simp only [curve, curveSeven]
  linear_combination h

/-- The points (1, 2) and (3, 3) are added; (1, 2) and (2, 2) are not. -/
theorem weierstrass_iff_seven : ∃ S : WeierstrassPoint (ZMod 7), eccWeierstrassAdd ⟨1, 2, 1⟩ ⟨3, 3, 1⟩ = some S ∧
    Represents S (Point.some 1 2 (nonsingular_seven rfl) + Point.some 3 3 (nonsingular_seven rfl)) := by
  refine ((weierstrass_iff curveSeven).1 _ _ _ _ ?_ ?_ (Point.some_ne_zero _) (Point.some_ne_zero _) ?_).mpr ?_
  · exact ⟨one_ne_zero, rfl, rfl⟩
  · exact ⟨one_ne_zero, rfl, rfl⟩
  · show ¬ (1 : ZMod 7) = 3
    decide
  · show ¬ (2 : ZMod 7) = 3
    decide

theorem add_fails : ¬ (∃ S : WeierstrassPoint (ZMod 7), eccWeierstrassAdd ⟨1, 2, 1⟩ ⟨2, 2, 1⟩ = some S) ∧
    Represents ⟨1, 2, 1⟩ (Point.some 1 2 (nonsingular_seven rfl) : (curve curveSeven).Point) ∧
    Represents ⟨2, 2, 1⟩ (Point.some 2 2 (nonsingular_seven rfl) : (curve curveSeven).Point) ∧
    ¬ SameX (Point.some 1 2 (nonsingular_seven rfl) : (curve curveSeven).Point)
      (Point.some 2 2 (nonsingular_seven rfl)) := by
  refine ⟨?_, ⟨one_ne_zero, rfl, rfl⟩, ⟨one_ne_zero, rfl, rfl⟩, ?_⟩
  · rintro ⟨S, hS⟩
    have hnone : eccWeierstrassAdd (⟨1, 2, 1⟩ : WeierstrassPoint (ZMod 7)) ⟨2, 2, 1⟩ = none := rfl
    rw [hnone] at hS
    cases hS
  · show ¬ (1 : ZMod 7) = 2
    decide

end PuttyNd.Ecc

/-!
## Proofs: the general addition on Weierstrass curves

The function finds the slope of the line for each pair of points. For two equal points it takes the tangent in
the coordinates of the first one, although the epilogue expects a slope over the common denominator.
-/

namespace PuttyNd.Ecc

open WeierstrassCurve.Affine

variable {F : Type} [Field F] {wc : CurveParams F} {P Q S : WeierstrassPoint F} {A B C : (curve wc).Point}
  {x y x1 y1 x2 y2 ℓ ℓ' : F}

/-! ## The end of the function -/

theorem represents_of_zero (hZ : P.Z = 0) : Represents P A ↔ A = 0 := by
  cases A with
  | zero => exact iff_of_true hZ rfl
  | some x y h => exact iff_of_false (fun hP => hP.1 hZ) (Point.some_ne_zero h)

variable [DecidableEq F]

/-- The coordinates of the identity are cleared. -/
def cleared (S : WeierstrassPoint F) : WeierstrassPoint F where
  X := if decide (S.Z = 0) then 0 else S.X
  Y := if decide (S.Z = 0) then 0 else S.Y
  Z := S.Z

theorem represents_cleared : Represents (cleared S) A ↔ Represents S A := by
  by_cases hZ : S.Z = 0
  · rw [represents_of_zero hZ, represents_of_zero (P := cleared S) hZ]
  · have hsame : cleared S = S := by
      unfold cleared
      rw [decide_eq_false hZ]
      rfl
    rw [hsame]

theorem cleared_zero : (cleared S).X = 0 ∧ (cleared S).Y = 0 ∧ (cleared S).Z = 0 ↔ S.Z = 0 := by
  constructor
  · rintro ⟨-, -, hZ⟩
    exact hZ
  · intro hZ
    have hdecide : decide (S.Z = 0) = true := decide_eq_true hZ
    exact ⟨if_pos hdecide, if_pos hdecide, hZ⟩

/-- What the epilogue computes, for points that are not the identity -/
def generalSum (wc : CurveParams F) (P Q : WeierstrassPoint F) : WeierstrassPoint F :=
  let pro := eccWeierstrassAddPrologue P Q
  let tangent := eccWeierstrassTangentSlope wc P
  let equality := decide (pro.lambdaD = 0) && decide (pro.lambdaN = 0)
  eccWeierstrassEpilogue pro.Px pro.Qx pro.Py pro.denom (selectInto pro.lambdaN tangent.1 equality)
    (selectInto pro.lambdaD tangent.2 equality)

theorem addGeneral_eq (wc : CurveParams F) (P Q : WeierstrassPoint F) : eccWeierstrassAddGeneral wc P Q =
    cleared (if Q.Z = 0 then P else if P.Z = 0 then Q else generalSum wc P Q) := by
  have heq : eccWeierstrassAddGeneral wc P Q = cleared (eccWeierstrassSelectInto
      (eccWeierstrassSelectInto (generalSum wc P Q) Q (decide (P.Z = 0))) P (decide (Q.Z = 0))) := rfl
  rw [heq]
  by_cases hQ : Q.Z = 0
  · rw [decide_eq_true hQ, if_pos hQ]
    rfl
  · rw [decide_eq_false hQ, if_neg hQ]
    by_cases hP : P.Z = 0
    · rw [decide_eq_true hP, if_pos hP]
      rfl
    · rw [decide_eq_false hP, if_neg hP]
      rfl

/-! ## Two different points -/

theorem generalSum_of_ne {h1 : (curve wc).Nonsingular x1 y1} {h2 : (curve wc).Nonsingular x2 y2}
    (hP : Represents P (.some x1 y1 h1 : (curve wc).Point)) (hQ : Represents Q (.some x2 y2 h2 : (curve wc).Point))
    (hne : ¬ (x1 = x2 ∧ y1 = y2)) :
    Represents (generalSum wc P Q) (Point.some x1 y1 h1 + Point.some x2 y2 h2 : (curve wc).Point) := by
  obtain ⟨hPZ, hPX, hPY⟩ := hP
  obtain ⟨hQZ, hQX, hQY⟩ := hQ
  have hD : P.Z * Q.Z ≠ 0 := mul_ne_zero hPZ hQZ
  have hequality : (decide ((x2 - x1) * (P.Z * Q.Z) ^ 2 = 0) && decide ((y2 - y1) * (P.Z * Q.Z) ^ 3 = 0)) = false := by
    rw [← Bool.decide_and]
    refine decide_eq_false ?_
    rintro ⟨hx, hy⟩
    have hxd := (mul_eq_zero_iff_right (pow_ne_zero 2 hD)).mp hx
    have hyd := (mul_eq_zero_iff_right (pow_ne_zero 3 hD)).mp hy
    exact hne ⟨(sub_eq_zero.mp hxd).symm, (sub_eq_zero.mp hyd).symm⟩
  unfold generalSum
  rw [prologue_eq hPX hPY hQX hQY]
  dsimp only
  rw [hequality]
  exact line_spec hD hne

/-! ## Equal points -/

/-- The coordinates of the sum, with the slope `ℓ'` instead of that of the tangent -/
theorem generalSum_self {h : (curve wc).Nonsingular x y} (hP : Represents P (.some x y h : (curve wc).Point))
    (hQ : Represents Q (.some x y h : (curve wc).Point)) (hslope : ℓ' * Q.Z * (2 * y) = 3 * x ^ 2 + wc.a) :
    let D := P.Z * Q.Z * (2 * y * P.Z ^ 3)
    generalSum wc P Q = ⟨(curve wc).addX x x ℓ' * D ^ 2, (curve wc).addY x x y ℓ' * D ^ 3, D⟩ := by
  obtain ⟨hPZ, hPX, hPY⟩ := hP
  obtain ⟨hQZ, hQX, hQY⟩ := hQ
  unfold generalSum
  rw [prologue_eq hPX hPY hQX hQY, tangentSlope_eq hPX hPY]
  simp only [sub_self, zero_mul, decide_true, Bool.and_self]
  refine epilogue_eq ?_
  show (3 * x ^ 2 + wc.a) * P.Z ^ 4 = ℓ' * (P.Z * Q.Z) * (2 * y * P.Z ^ 3)
  rw [← hslope]
  ring

/-- The sum is the identity if the point has order 2. -/
theorem generalSum_order_two {h : (curve wc).Nonsingular x y} (hP : Represents P (.some x y h : (curve wc).Point))
    (hQ : Represents Q (.some x y h : (curve wc).Point)) (hy : y = -y) :
    Represents (generalSum wc P Q) (Point.some x y h + Point.some x y h : (curve wc).Point) := by
  obtain ⟨hPZ, hPX, hPY⟩ := hP
  obtain ⟨hQZ, hQX, hQY⟩ := hQ
  have hzero : 2 * y = 0 := by linear_combination hy
  rw [add_eq_zero rfl hy, represents_zero]
  unfold generalSum
  rw [prologue_eq hPX hPY hQX hQY, tangentSlope_eq hPX hPY]
  simp only [sub_self, zero_mul, decide_true, Bool.and_self]
  show P.Z * Q.Z * (2 * y * P.Z ^ 3) = 0
  rw [hzero, zero_mul, mul_zero]

omit [DecidableEq F] in
/-- A slope that is too small by the factor `z` gives the same point only in a few cases. -/
theorem slope_scaled_iff {z : F} (htwo : (2 : F) ≠ 0) (hz : z ≠ 0) (hslope : ℓ' * z = ℓ) :
    (ℓ' ^ 2 - x - x = ℓ ^ 2 - x - x ∧ ℓ' * (x - (ℓ' ^ 2 - x - x)) - y = ℓ * (x - (ℓ ^ 2 - x - x)) - y) ↔
      ℓ = 0 ∨ z = 1 ∨ (z = -1 ∧ ℓ ^ 2 - x - x = x) := by
  constructor
  · rintro ⟨hX, hY⟩
    have hsquare : ℓ' ^ 2 = ℓ ^ 2 := by linear_combination hX
    by_cases hzero : ℓ = 0
    · exact Or.inl hzero
    · right
      rcases sq_eq_sq_iff_eq_or_eq_neg.mp hsquare with heq | hneg
      · left
        have hmul : ℓ * (z - 1) = 0 := by
          rw [← heq] at hslope ⊢
          linear_combination hslope
        exact sub_eq_zero.mp ((mul_eq_zero.mp hmul).resolve_left hzero)
      · right
        rw [hneg] at hslope hY
        have hmul : ℓ * (z + 1) = 0 := by linear_combination -hslope
        have hdiff : 2 * ℓ * (x - (ℓ ^ 2 - x - x)) = 0 := by linear_combination -hY
        have hx := (mul_eq_zero.mp hdiff).resolve_left (mul_ne_zero htwo hzero)
        exact ⟨eq_neg_of_add_eq_zero_left ((mul_eq_zero.mp hmul).resolve_left hzero), (sub_eq_zero.mp hx).symm⟩
  · rintro (hzero | hone | ⟨hneg, hx⟩)
    · rw [hzero] at hslope ⊢
      have hzero' : ℓ' = 0 := (mul_eq_zero.mp hslope).resolve_right hz
      rw [hzero']
      exact ⟨rfl, rfl⟩
    · rw [hone, mul_one] at hslope
      rw [hslope]
      exact ⟨rfl, rfl⟩
    · have hneg' : ℓ' = -ℓ := by
        rw [hneg] at hslope
        linear_combination -hslope
      rw [hneg', neg_sq, hx]
      refine ⟨rfl, ?_⟩
      rw [sub_self, mul_zero, mul_zero]

/-- The double of a point has the first coordinate of the point exactly if the point has order 3. -/
theorem three_nsmul_iff (h : (curve wc).Nonsingular x y) (hy : y ≠ -y) :
    (curve wc).addX x x ((curve wc).slope x x y y) = x ↔ 3 • (Point.some x y h : (curve wc).Point) = 0 := by
  obtain ⟨hsum, hdouble⟩ := add_eq_some h h fun hxy => hy hxy.2
  have hthree : 3 • (Point.some x y h : (curve wc).Point) = 0 ↔
      (Point.some x y h + Point.some x y h : (curve wc).Point) = -Point.some x y h := by
    rw [succ_nsmul, two_nsmul, add_eq_zero_iff_eq_neg]
  rw [hthree, hdouble, Point.X_eq_iff]
  constructor
  · rintro (hsame | hneg)
    · have hzero : (Point.some x y h : (curve wc).Point) = 0 := by
        rw [← hdouble] at hsame
        exact add_eq_left.mp hsame
      exact absurd hzero (Point.some_ne_zero h)
    · exact hneg
  · exact Or.inr

/-- The sum of a point and itself is taken with a wrong slope. -/
def TangentMissed (Q : WeierstrassPoint F) : (curve wc).Point → Prop
  | .zero => False
  | .some x y h => y ≠ -y ∧ 3 * x ^ 2 + wc.a ≠ 0 ∧ Q.Z ≠ 1 ∧
      ¬ (Q.Z = -1 ∧ 3 • (Point.some x y h : (curve wc).Point) = 0)

theorem generalSum_self_iff {h : (curve wc).Nonsingular x y} (hP : Represents P (.some x y h : (curve wc).Point))
    (hQ : Represents Q (.some x y h : (curve wc).Point)) :
    Represents (generalSum wc P Q) (Point.some x y h + Point.some x y h : (curve wc).Point) ↔
      ¬ TangentMissed Q (.some x y h : (curve wc).Point) := by
  by_cases hy : y = -y
  · exact iff_of_true (generalSum_order_two hP hQ hy) fun hmissed => hmissed.1 hy
  · have htwo : (2 : F) ≠ 0 := fun hzero => hy (by linear_combination y * hzero)
    have hy2 : 2 * y ≠ 0 := fun hzero => hy (by linear_combination hzero)
    have hslope : (curve wc).slope x x y y / Q.Z * Q.Z = (curve wc).slope x x y y := div_mul_cancel₀ _ hQ.1
    have htangent : (curve wc).slope x x y y / Q.Z * Q.Z * (2 * y) = 3 * x ^ 2 + wc.a := by
      rw [hslope, slope_self hy]
    have hsum := generalSum_self hP hQ htangent
    have hD : P.Z * Q.Z * (2 * y * P.Z ^ 3) ≠ 0 :=
      mul_ne_zero (mul_ne_zero hP.1 hQ.1) (mul_ne_zero hy2 (pow_ne_zero 3 hP.1))
    obtain ⟨hxy, hdouble⟩ := add_eq_some h h fun hxy => hy hxy.2
    have hzero : (curve wc).slope x x y y = 0 ↔ 3 * x ^ 2 + wc.a = 0 := by
      rw [← slope_self hy, mul_eq_zero_iff_right hy2]
    rw [hsum, hdouble, represents_some]
    simp only [addX_eq, addY_eq, mul_left_inj' (pow_ne_zero 2 hD), mul_left_inj' (pow_ne_zero 3 hD)]
    rw [and_iff_right hD, slope_scaled_iff htwo hQ.1 hslope, ← @addX_eq F _ wc, three_nsmul_iff h hy, hzero]
    show _ ↔ ¬ (y ≠ -y ∧ 3 * x ^ 2 + wc.a ≠ 0 ∧ Q.Z ≠ 1 ∧ ¬ (Q.Z = -1 ∧ _))
    tauto

/-! ## The function -/

/-- A sum that represents a point represents the identity exactly if it has only zero coordinates. -/
theorem cleared_iff_zero (hS : Represents (cleared S) A) :
    (cleared S).X = 0 ∧ (cleared S).Y = 0 ∧ (cleared S).Z = 0 ↔ A = 0 := by
  rw [cleared_zero]
  exact represents_iff_zero (represents_cleared.mp hS)

theorem generalSum_iff (hP : Represents P A) (hQ : Represents Q B) (hPZ : P.Z ≠ 0) (hQZ : Q.Z ≠ 0) :
    Represents (generalSum wc P Q) (A + B) ↔ ¬ (A = B ∧ TangentMissed Q A) := by
  cases A with
  | zero => exact absurd hP hPZ
  | some x1 y1 h1 =>
    cases B with
    | zero => exact absurd hQ hQZ
    | some x2 y2 h2 =>
      by_cases heq : x1 = x2 ∧ y1 = y2
      · obtain ⟨rfl, rfl⟩ := heq
        rw [generalSum_self_iff hP hQ, and_iff_right rfl]
      · refine iff_of_true (generalSum_of_ne hP hQ heq) ?_
        rintro ⟨hpoint, -⟩
        exact heq ((Point.some.injEq _ _ _ _ _ _).mp hpoint)

/-- The sum is right unless the points are equal and the tangent is not over the common denominator. -/
theorem addGeneral_iff {F : Type} [Field F] [DecidableEq F] (wc : CurveParams F) (P Q : WeierstrassPoint F)
    (A B : (curve wc).Point) (hP : Represents P A) (hQ : Represents Q B) :
    (Represents (eccWeierstrassAddGeneral wc P Q) (A + B) ∧
      ((eccWeierstrassAddGeneral wc P Q).X = 0 ∧ (eccWeierstrassAddGeneral wc P Q).Y = 0 ∧
        (eccWeierstrassAddGeneral wc P Q).Z = 0 ↔ A + B = 0)) ↔
      ¬ (A = B ∧ TangentMissed Q A) := by
  have hzero : Represents (eccWeierstrassAddGeneral wc P Q) (A + B) →
      ((eccWeierstrassAddGeneral wc P Q).X = 0 ∧ (eccWeierstrassAddGeneral wc P Q).Y = 0 ∧
        (eccWeierstrassAddGeneral wc P Q).Z = 0 ↔ A + B = 0) := by
    intro hS
    rw [addGeneral_eq] at hS ⊢
    exact cleared_iff_zero hS
  rw [and_iff_left_of_imp hzero, addGeneral_eq, represents_cleared]
  by_cases hQZ : Q.Z = 0
  · have hB := (represents_iff_zero hQ).mp hQZ
    rw [if_pos hQZ, hB, add_zero]
    refine iff_of_true hP ?_
    rintro ⟨hA, hmissed⟩
    rw [hA] at hmissed
    exact hmissed.elim
  · rw [if_neg hQZ]
    by_cases hPZ : P.Z = 0
    · have hA := (represents_iff_zero hP).mp hPZ
      rw [if_pos hPZ, hA, zero_add]
      refine iff_of_true hQ ?_
      rintro ⟨-, hmissed⟩
      exact hmissed.elim
    · rw [if_neg hPZ]
      exact generalSum_iff hP hQ hPZ hQZ

/-- A point and the same point, both with the denominator 1 -/
theorem addGeneral_iff_double :
    Represents (eccWeierstrassAddGeneral curveSeven ⟨1, 2, 1⟩ ⟨1, 2, 1⟩)
      (Point.some 1 2 (nonsingular_seven rfl) + Point.some 1 2 (nonsingular_seven rfl) :
        (curve curveSeven).Point) := by
  have hP : Represents (⟨1, 2, 1⟩ : WeierstrassPoint (ZMod 7))
      (Point.some 1 2 (nonsingular_seven rfl) : (curve curveSeven).Point) := ⟨one_ne_zero, rfl, rfl⟩
  refine ((addGeneral_iff curveSeven _ _ _ _ hP hP).mpr ?_).1
  rintro ⟨-, -, -, hone, -⟩
  exact hone rfl

/-- The second representation of the point has the denominator 2. -/
theorem addGeneral_wrong :
    Represents ⟨1, 2, 1⟩ (Point.some 1 2 (nonsingular_seven rfl) : (curve curveSeven).Point) ∧
    Represents ⟨4, 2, 2⟩ (Point.some 1 2 (nonsingular_seven rfl) : (curve curveSeven).Point) ∧
    ¬ Represents (eccWeierstrassAddGeneral curveSeven ⟨1, 2, 1⟩ ⟨4, 2, 2⟩)
      (Point.some 1 2 (nonsingular_seven rfl) + Point.some 1 2 (nonsingular_seven rfl) :
        (curve curveSeven).Point) := by
  have hP : Represents (⟨1, 2, 1⟩ : WeierstrassPoint (ZMod 7))
      (Point.some 1 2 (nonsingular_seven rfl) : (curve curveSeven).Point) := ⟨one_ne_zero, rfl, rfl⟩
  have hQ : Represents (⟨4, 2, 2⟩ : WeierstrassPoint (ZMod 7))
      (Point.some 1 2 (nonsingular_seven rfl) : (curve curveSeven).Point) := ⟨by decide, rfl, rfl⟩
  refine ⟨hP, hQ, ?_⟩
  have hPZ : (1 : ZMod 7) ≠ 0 := one_ne_zero
  have hQZ : (2 : ZMod 7) ≠ 0 := by decide
  rw [addGeneral_eq, if_neg hQZ, if_neg hPZ, represents_cleared, generalSum_iff hP hQ hPZ hQZ, not_not]
  refine ⟨rfl, ?_, ?_, ?_, ?_⟩
  · show (2 : ZMod 7) ≠ -2
    decide
  · show 3 * (1 : ZMod 7) ^ 2 + 0 ≠ 0
    decide
  · show (2 : ZMod 7) ≠ 1
    decide
  · rintro ⟨hneg, -⟩
    exact absurd hneg (by decide)

end PuttyNd.Ecc
