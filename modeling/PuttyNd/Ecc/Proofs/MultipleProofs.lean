import PuttyNd.Ecc.Curves
import PuttyNd.Ecc.Proofs.ExponentProofs
import PuttyNd.Ecc.Proofs.MontgomeryProofs
import PuttyNd.Ecc.Proofs.WeierstrassProofs
import PuttyNd.Lib.Edwards

/-!
# Proofs: the arithmetic on twisted Edwards curves

The addition has no exceptions on a curve that is complete, so the ladder needs no conditions either.
-/

namespace PuttyNd.Ecc

open Lib.Edwards Lib.Ladder Mpint Words

variable {F : Type} [Field F] {E : Curve F} {P Q : EdwardsPoint F} {A B : Point E}

/-- The parameters of the curve, as the code stores them -/
def edwardsParams (E : Curve F) : EdwardsCurve F := ⟨E.d, E.a⟩

/-- The coordinates stand for the point, and `T` for the product of the coordinates. -/
structure RepresentsEdwards (P : EdwardsPoint F) (A : Point E) : Prop where
  nonzero : P.Z ≠ 0
  x : P.X = A.x * P.Z
  y : P.Y = A.y * P.Z
  product : P.T * P.Z = P.X * P.Y

theorem RepresentsEdwards.t (hP : RepresentsEdwards P A) : P.T = A.x * A.y * P.Z := by
  have hproduct := hP.product
  rw [hP.x, hP.y] at hproduct
  apply mul_right_cancel₀ hP.nonzero
  linear_combination hproduct

theorem edwardsAdd_spec (hP : RepresentsEdwards P A) (hQ : RepresentsEdwards Q B) :
    RepresentsEdwards (eccEdwardsAdd (edwardsParams E) P Q) (A + B) := by
  have hB := denominator_x A.equation B.equation
  have hD := denominator_y A.equation B.equation
  have hZ : P.Z * Q.Z ≠ 0 := mul_ne_zero hP.nonzero hQ.nonzero
  have hF : P.Z * Q.Z - E.d * (P.T * Q.T) = P.Z * Q.Z * (1 - E.d * A.x * B.x * A.y * B.y) := by
    rw [hP.t, hQ.t]
    ring
  have hG : P.Z * Q.Z + E.d * (P.T * Q.T) = P.Z * Q.Z * (1 + E.d * A.x * B.x * A.y * B.y) := by
    rw [hP.t, hQ.t]
    ring
  have hE : (P.X + P.Y) * (Q.X + Q.Y) - (P.X * Q.X + P.Y * Q.Y) =
      P.Z * Q.Z * ((A + B).x * (1 + E.d * A.x * B.x * A.y * B.y)) := by
    rw [add_x, Curve.addX, div_mul_cancel₀ _ hB, hP.x, hP.y, hQ.x, hQ.y]
    ring
  have hH : P.Y * Q.Y - E.a * (P.X * Q.X) =
      P.Z * Q.Z * ((A + B).y * (1 - E.d * A.x * B.x * A.y * B.y)) := by
    rw [add_y, Curve.addY, div_mul_cancel₀ _ hD, hP.x, hP.y, hQ.x, hQ.y]
    ring
  unfold eccEdwardsAdd edwardsParams
  dsimp only
  rw [hE, hF, hG, hH]
  constructor
  · exact mul_ne_zero (mul_ne_zero hZ hD) (mul_ne_zero hZ hB)
  · dsimp only
    ring
  · dsimp only
    ring
  · dsimp only
    ring

variable {u : ℕ} {n : MpInt u}

theorem edwardsMultiply_spec (hP : RepresentsEdwards P A) (hpos : 0 < val n) :
    ∃ S, eccEdwardsMultiply (edwardsParams E) P n = some S ∧ RepresentsEdwards S (val n • A) := by
  have hone : RepresentsEdwards P (1 • A) := by
    rw [one_nsmul]
    exact hP
  have htwo : RepresentsEdwards (eccEdwardsAdd (edwardsParams E) P P) (2 • A) := by
    rw [two_nsmul]
    exact edwardsAdd_spec hP hP
  refine @multiply_spec _ n _ _ _ _ _ (fun k Q => RepresentsEdwards Q (k • A)) (fun _ => True) hone htwo
    (fun j Q R _ hQ hR => ?_) (fun k Q hQ => ?_) hpos fun _ _ => trivial
  · refine ⟨_, rfl, ?_⟩
    rw [two_mul, add_assoc, add_nsmul]
    exact edwardsAdd_spec hQ hR
  · rw [two_mul, add_nsmul]
    exact edwardsAdd_spec hQ hQ

end PuttyNd.Ecc

/-!
## Proofs: multiples on Edwards and Montgomery curves

Neither kind of curve has exceptions for which the ladder could fail.
-/

namespace PuttyNd.Ecc

open Lib.Edwards Mpint Words

/-- On an Edwards curve all sums and multiples are right. On a Montgomery curve the first coordinates of all multiples
are right that are not the identity, for points whose first coordinate is not zero. -/
theorem multiples_exact {F : Type} [Field F] [DecidableEq F] (htwo : (2 : F) ≠ 0) :
    (∀ E : Curve F,
      (∀ (P Q : EdwardsPoint F) (A B : Point E), RepresentsEdwards P A → RepresentsEdwards Q B →
        RepresentsEdwards (eccEdwardsAdd (edwardsParams E) P Q) (A + B)) ∧
      ∀ {u : ℕ} (P : EdwardsPoint F) (A : Point E) (n : MpInt u), RepresentsEdwards P A → 1 ≤ val n →
        ∃ S, eccEdwardsMultiply (edwardsParams E) P n = some S ∧ RepresentsEdwards S (val n • A)) ∧
    ∀ (a b : F), b ≠ 0 → ∀ {u : ℕ} (P : MontgomeryPoint F) (x y : F) (h : (montgomeryCurve a b).Nonsingular x y)
      (n : MpInt u), RepresentsX P (.some x y h) → x ≠ 0 → 1 ≤ val n →
      ∃ S, eccMontgomeryMultiply (eccMontgomeryCurve a b) P n = some S ∧
        ∀ x' y' h', val n • (.some x y h : (montgomeryCurve a b).Point) = .some x' y' h' →
          S.Z ≠ 0 ∧ S.X / S.Z = x' / b := by
  constructor
  · intro E
    exact ⟨fun P Q A B hP hQ => edwardsAdd_spec hP hQ, fun P A n hP hpos => edwardsMultiply_spec hP hpos⟩
  · intro a b hb u P x y h n hP hx hpos
    obtain ⟨S, hmultiply, hS⟩ := montgomeryMultiply_spec htwo hb hP hx hpos
    refine ⟨S, hmultiply, fun x' y' h' hmultiple => ?_⟩
    rw [hmultiple] at hS
    obtain ⟨hZ, hX⟩ := hS
    refine ⟨hZ, ?_⟩
    rw [div_eq_div_iff hZ hb, mul_comm, hX]

theorem two_ne_zero_seven : (2 : ZMod 7) ≠ 0 := by decide

theorem one_ne_zero_seven : (1 : ZMod 7) ≠ 0 := by decide

theorem isSquare_one_seven : IsSquare (1 : ZMod 7) := ⟨1, rfl⟩

theorem not_isSquare_five_seven : ¬IsSquare (5 : ZMod 7) := by
  rintro ⟨r, hr⟩
  have hnone : ∀ r : ZMod 7, 5 ≠ r * r := by decide
  exact hnone r hr

/-- `x^2 + y^2 = 1 + 5 x^2 y^2` modulo 7 -/
def edwardsSeven : Curve (ZMod 7) where
  a := 1
  d := 5
  two_ne_zero := two_ne_zero_seven
  a_ne_zero := one_ne_zero_seven
  square := isSquare_one_seven
  nonsquare := not_isSquare_five_seven

theorem equation_seven : edwardsSeven.Equation 2 3 := by
  unfold Curve.Equation
  decide

/-- `y^2 = x^3 + x` modulo 7 -/
theorem montgomery_seven : (montgomeryCurve (0 : ZMod 7) 1).Nonsingular 1 3 := by
  rw [WeierstrassCurve.Affine.nonsingular_iff, WeierstrassCurve.Affine.equation_iff]
  simp only [montgomeryCurve]
  decide

theorem multiples_exact_seven :
    (∃ S, eccEdwardsMultiply (edwardsParams edwardsSeven) ⟨2, 3, 1, 6⟩ ([5#16] : MpInt 4) = some S ∧
      RepresentsEdwards S (5 • (⟨2, 3, equation_seven⟩ : Point edwardsSeven))) ∧
    ∃ S, eccMontgomeryMultiply (eccMontgomeryCurve (0 : ZMod 7) 1) ⟨1, 1⟩ ([3#16] : MpInt 4) = some S ∧
      ∀ x y h, 3 • (.some 1 3 montgomery_seven : (montgomeryCurve (0 : ZMod 7) 1).Point) = .some x y h →
        S.Z ≠ 0 ∧ S.X / S.Z = x / 1 := by
  obtain ⟨hedwards, hmontgomery⟩ := multiples_exact (F := ZMod 7) (by decide)
  constructor
  · exact (hedwards edwardsSeven).2 _ _ ([5#16] : MpInt 4) ⟨by decide, rfl, rfl, rfl⟩ (by decide)
  · exact hmontgomery 0 1 one_ne_zero _ 1 3 montgomery_seven ([3#16] : MpInt 4) ⟨one_ne_zero, rfl⟩ one_ne_zero (by decide)

end PuttyNd.Ecc
