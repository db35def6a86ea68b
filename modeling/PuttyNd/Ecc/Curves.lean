import Mathlib.Algebra.Field.Defs
import PuttyNd.Lib.Ladder
import PuttyNd.Mpint.Mpint

/-!
# The exponents of the ladders (`psftp/ecc.c`)

The three kinds of curves have the same routine for multiplication, with their own additions.
-/

namespace PuttyNd.Ecc

open Mpint

/-- `mp_select_into` -/
def selectInto {α : Type} (src0 src1 : α) (which : Bool) : α := if which then src1 else src0

variable {u : ℕ}

/-- `mp_max_bits` -/
def mpMaxBits (n : MpInt u) : ℕ := n.length * BIGNUM_INT_BITS u

/-- The bit of the exponent at `bitindex` -/
def exponentBit (n : MpInt u) (bitindex : ℕ) : Bool := mpGetBit n bitindex = 1

/-- The multiplication by `n`, from the bit with the index `mp_max_bits(n) - 1` down -/
def multiply {α : Type} (add : α → α → Option α) (double : α → α) (B twoB : α) (n : MpInt u) : Option α :=
  Lib.Ladder.ladder add double B twoB (exponentBit n) (mpMaxBits n)

end PuttyNd.Ecc

/-!
## Arithmetic on Weierstrass curves (`psftp/ecc.c`)

The coordinates are elements of the field, whose operations are those that `monty_add`, `monty_sub` and
`monty_mul` compute. A result `none` is a failed assertion.
-/

namespace PuttyNd.Ecc

open Mpint

variable {F : Type} [Field F] [DecidableEq F]

/-- What the arithmetic uses of the parameters of the curve `y^2 = x^3 + ax + b` -/
structure CurveParams (F : Type) where
  a : F
  b : F
deriving DecidableEq, Repr

/-- `WeierstrassPoint`: `x = X / Z^2` and `y = Y / Z^3` -/
structure WeierstrassPoint (F : Type) where
  X : F
  Y : F
  Z : F
deriving DecidableEq, Repr

def eccWeierstrassEpilogue (Px Qx Py commonZ lambdaN lambdaD : F) : WeierstrassPoint F :=
  let lambdaN2 := lambdaN * lambdaN
  let lambdaD2 := lambdaD * lambdaD
  let lambdaD3 := lambdaD * lambdaD2
  let xsum := Px + Qx
  let lambdaD2Xsum := lambdaD2 * xsum
  let X := lambdaN2 - lambdaD2Xsum
  let lambdaD2Px := lambdaD2 * Px
  let xdiff := lambdaD2Px - X
  let lambdaNXdiff := lambdaN * xdiff
  let lambdaD3Py := lambdaD3 * Py
  { X := X, Y := lambdaNXdiff - lambdaD3Py, Z := commonZ * lambdaD }

/-- What `ecc_weierstrass_add_prologue` computes -/
structure Prologue (F : Type) where
  Px : F
  Py : F
  Qx : F
  denom : F
  lambdaN : F
  lambdaD : F

def eccWeierstrassAddPrologue (P Q : WeierstrassPoint F) : Prologue F :=
  let Pz2 := P.Z * P.Z
  let Pz3 := Pz2 * P.Z
  let Qz2 := Q.Z * Q.Z
  let Qz3 := Qz2 * Q.Z
  let Px := P.X * Qz2
  let Py := P.Y * Qz3
  let Qx := Q.X * Pz2
  let Qy := Q.Y * Pz3
  { Px := Px, Py := Py, Qx := Qx, denom := P.Z * Q.Z, lambdaN := Qy - Py, lambdaD := Qx - Px }

def eccWeierstrassAdd (P Q : WeierstrassPoint F) : Option (WeierstrassPoint F) :=
  let pro := eccWeierstrassAddPrologue P Q
  if pro.lambdaN = 0 then none
  else some (eccWeierstrassEpilogue pro.Px pro.Qx pro.Py pro.denom pro.lambdaN pro.lambdaD)

/-- `ecc_weierstrass_tangent_slope`: the numerator and the denominator -/
def eccWeierstrassTangentSlope (wc : CurveParams F) (P : WeierstrassPoint F) : F × F :=
  let X2 := P.X * P.X
  let twoX2 := X2 + X2
  let threeX2 := twoX2 + X2
  let Z2 := P.Z * P.Z
  let Z4 := Z2 * Z2
  let aZ4 := wc.a * Z4
  (threeX2 + aZ4, P.Y + P.Y)

def eccWeierstrassDouble (wc : CurveParams F) (P : WeierstrassPoint F) : WeierstrassPoint F :=
  let lambda := eccWeierstrassTangentSlope wc P
  eccWeierstrassEpilogue P.X P.X P.Y P.Z lambda.1 lambda.2

def eccWeierstrassSelectInto (P Q : WeierstrassPoint F) (chooseQ : Bool) : WeierstrassPoint F where
  X := selectInto P.X Q.X chooseQ
  Y := selectInto P.Y Q.Y chooseQ
  Z := selectInto P.Z Q.Z chooseQ

def eccWeierstrassAddGeneral (wc : CurveParams F) (P Q : WeierstrassPoint F) : WeierstrassPoint F :=
  let pro := eccWeierstrassAddPrologue P Q
  let tangent := eccWeierstrassTangentSlope wc P
  let sameXCoord := decide (pro.lambdaD = 0)
  let sameYCoord := decide (pro.lambdaN = 0)
  let equality := sameXCoord && sameYCoord
  let lambdaN := selectInto pro.lambdaN tangent.1 equality
  let lambdaD := selectInto pro.lambdaD tangent.2 equality
  let S := eccWeierstrassEpilogue pro.Px pro.Qx pro.Py pro.denom lambdaN lambdaD
  let S := eccWeierstrassSelectInto S Q (decide (P.Z = 0))
  let S := eccWeierstrassSelectInto S P (decide (Q.Z = 0))
  let outputId := decide (S.Z = 0)
  -- `mp_cond_clear`
  { X := if outputId then 0 else S.X, Y := if outputId then 0 else S.Y, Z := S.Z }

variable {u : ℕ}

def eccWeierstrassMultiply (wc : CurveParams F) (B : WeierstrassPoint F) (n : MpInt u) :
    Option (WeierstrassPoint F) :=
  multiply eccWeierstrassAdd (eccWeierstrassDouble wc) B (eccWeierstrassDouble wc B) n

def eccWeierstrassIsIdentity (wp : WeierstrassPoint F) : Bool := wp.Z = 0

end PuttyNd.Ecc

/-!
## Arithmetic on Montgomery curves (`psftp/ecc.c`)

Only the first coordinates of points are kept, as quotients of elements of the field.
-/

namespace PuttyNd.Ecc

open Mpint

variable {F : Type} [Field F]

/-- The parameters of the curve `by^2 = x^3 + ax^2 + x` -/
structure MontgomeryCurve (F : Type) where
  a : F
  b : F
  aplus2over4 : F
deriving DecidableEq, Repr

/-- `ecc_montgomery_curve` -/
def eccMontgomeryCurve (a b : F) : MontgomeryCurve F where
  a := a
  b := b
  aplus2over4 := (a + 2) * 4⁻¹

/-- `MontgomeryPoint`: `x = X / Z` -/
structure MontgomeryPoint (F : Type) where
  X : F
  Z : F
deriving DecidableEq, Repr

def eccMontgomeryDiffAdd (P Q PminusQ : MontgomeryPoint F) : MontgomeryPoint F :=
  let PxMPz := P.X - P.Z
  let PxPPz := P.X + P.Z
  let QxMQz := Q.X - Q.Z
  let QxPQz := Q.X + Q.Z
  let PmQp := PxMPz * QxPQz
  let PpQm := PxPPz * QxMQz
  let Xpre := PmQp + PpQm
  let Zpre := PmQp - PpQm
  let Xpre2 := Xpre * Xpre
  let Zpre2 := Zpre * Zpre
  { X := Xpre2 * PminusQ.Z, Z := Zpre2 * PminusQ.X }

def eccMontgomeryDouble (mc : MontgomeryCurve F) (P : MontgomeryPoint F) : MontgomeryPoint F :=
  let PxMPz := P.X - P.Z
  let PxPPz := P.X + P.Z
  let PxMPz2 := PxMPz * PxMPz
  let PxPPz2 := PxPPz * PxPPz
  let XZ := P.X * P.Z
  let twoXZ := XZ + XZ
  let fourXZ := twoXZ + twoXZ
  let fourXZScaled := fourXZ * mc.aplus2over4
  let Zpre := PxMPz2 + fourXZScaled
  { X := PxMPz2 * PxPPz2, Z := fourXZ * Zpre }

variable {u : ℕ}

def eccMontgomeryMultiply (mc : MontgomeryCurve F) (B : MontgomeryPoint F) (n : MpInt u) :
    Option (MontgomeryPoint F) :=
  multiply (fun P Q => some (eccMontgomeryDiffAdd P Q B)) (eccMontgomeryDouble mc) B (eccMontgomeryDouble mc B) n

end PuttyNd.Ecc

/-!
## Arithmetic on twisted Edwards curves (`psftp/ecc.c`)

The coordinates are elements of the field, as for Weierstrass curves.
-/

namespace PuttyNd.Ecc

open Mpint

variable {F : Type} [Field F]

/-- What the arithmetic uses of the parameters of the curve `ax^2 + y^2 = 1 + dx^2y^2` -/
structure EdwardsCurve (F : Type) where
  d : F
  a : F
deriving DecidableEq, Repr

/-- `EdwardsPoint`: `x = X / Z` and `y = Y / Z`, and `T = XY / Z` -/
structure EdwardsPoint (F : Type) where
  X : F
  Y : F
  Z : F
  T : F
deriving DecidableEq, Repr

def eccEdwardsAdd (ec : EdwardsCurve F) (P Q : EdwardsPoint F) : EdwardsPoint F :=
  let PxQx := P.X * Q.X
  let PyQy := P.Y * Q.Y
  let PtQt := P.T * Q.T
  let PzQz := P.Z * Q.Z
  let Psum := P.X + P.Y
  let Qsum := Q.X + Q.Y
  let aPxQx := ec.a * PxQx
  let dPtQt := ec.d * PtQt
  let sumprod := Psum * Qsum
  let xxPyy := PxQx + PyQy
  let E := sumprod - xxPyy
  let F := PzQz - dPtQt
  let G := PzQz + dPtQt
  let H := PyQy - aPxQx
  { X := E * F, Y := G * H, Z := F * G, T := H * E }

variable {u : ℕ}

def eccEdwardsMultiply (ec : EdwardsCurve F) (B : EdwardsPoint F) (n : MpInt u) : Option (EdwardsPoint F) :=
  multiply (fun P Q => some (eccEdwardsAdd ec P Q)) (fun P => eccEdwardsAdd ec P P) B (eccEdwardsAdd ec B B) n

end PuttyNd.Ecc
