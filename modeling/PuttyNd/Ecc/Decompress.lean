import PuttyNd.Mpint.Modular

/-!
# Points from one coordinate (`psftp/ecc.c`)

The coordinates are numbers in Montgomery form here. A function that finds a square root returns the curve, too,
as the context for square roots may be filled in. A result `none` is `NULL`.
-/

namespace PuttyNd.Ecc

open Mpint

variable {u : ℕ}

/-- The choice of `x` or `p - x`. Only the lowest bit of `parity` counts. -/
def chooseParity (mc : MontyContext u) (p x : MpInt u) (parity : ℕ) : Except Fault (MpInt u) := do
  let tmp ← montyExport mc x
  let flip := (mpGetBit tmp 0 ^^^ parity) &&& 1
  let tmp := mpSubInto tmp.length p x
  return mpSelectInto x.length x tmp flip

section Weierstrass

/-- `struct WeierstrassCurve` -/
structure StoredWeierstrass (u : ℕ) where
  p : MpInt u
  mc : MontyContext u
  sc : Option (ModsqrtContext u)
  a : MpInt u
  b : MpInt u

/-- `struct WeierstrassPoint` without its curve -/
structure StoredWeierstrassPoint (u : ℕ) where
  X : MpInt u
  Y : MpInt u
  Z : MpInt u

variable (divmodInto : DivmodInto u)

def eccWeierstrassCurve (p a b : MpInt u) (nonsquareModP : Option (MpInt u)) :
    Except Fault (StoredWeierstrass u) := do
  let pCopy ← mpCopy p
  let mc ← montyNew divmodInto p
  let a ← montyImport divmodInto mc a
  let b ← montyImport divmodInto mc b
  let sc ← match nonsquareModP with
    | none => pure none
    | some z => do
      let sc ← modsqrtNew divmodInto p z
      pure (some sc)
  return ⟨pCopy, mc, sc, a, b⟩

def eccWeierstrassPointNewImported (wc : StoredWeierstrass u) (montyX montyY : MpInt u) :
    Except Fault (StoredWeierstrassPoint u) := do
  let Z ← mpCopy (montyIdentity wc.mc)
  return ⟨montyX, montyY, Z⟩

def eccWeierstrassPointNewFromX (wc : StoredWeierstrass u) (xorig : MpInt u) (desiredYParity : ℕ) :
    Except Fault (StoredWeierstrass u × Option (StoredWeierstrassPoint u)) :=
  match wc.sc with
  | none => .error .assertion
  | some sc => do
    let x ← montyImport divmodInto wc.mc xorig
    let x2 ← montyMul wc.mc x x
    let x2PlusA ← montyAdd wc.mc x2 wc.a
    let x3PlusAx ← montyMul wc.mc x2PlusA x
    let rhs ← montyAdd wc.mc x3PlusAx wc.b
    let (sc, y, success) ← montyModsqrt sc rhs 0
    let wc := { wc with sc := some sc }
    if success = 0 then return (wc, none)
    else do
      let y ← chooseParity wc.mc wc.p y desiredYParity
      let point ← eccWeierstrassPointNewImported wc x y
      return (wc, some point)

end Weierstrass

section Edwards

/-- `struct EdwardsCurve` -/
structure StoredEdwards (u : ℕ) where
  p : MpInt u
  mc : MontyContext u
  sc : Option (ModsqrtContext u)
  d : MpInt u
  a : MpInt u

/-- `struct EdwardsPoint` without its curve -/
structure StoredEdwardsPoint (u : ℕ) where
  X : MpInt u
  Y : MpInt u
  Z : MpInt u
  T : MpInt u

variable (divmodInto : DivmodInto u)

def eccEdwardsCurve (p d a : MpInt u) (nonsquareModP : Option (MpInt u)) : Except Fault (StoredEdwards u) := do
  let pCopy ← mpCopy p
  let mc ← montyNew divmodInto p
  let d ← montyImport divmodInto mc d
  let a ← montyImport divmodInto mc a
  let sc ← match nonsquareModP with
    | none => pure none
    | some z => do
      let sc ← modsqrtNew divmodInto p z
      pure (some sc)
  return ⟨pCopy, mc, sc, d, a⟩

def eccEdwardsPointNewImported (ec : StoredEdwards u) (montyX montyY : MpInt u) :
    Except Fault (StoredEdwardsPoint u) := do
  let T ← montyMul ec.mc montyX montyY
  let Z ← mpCopy (montyIdentity ec.mc)
  return ⟨montyX, montyY, Z, T⟩

def eccEdwardsPointNewFromY (ec : StoredEdwards u) (yorig : MpInt u) (desiredXParity : ℕ) :
    Except Fault (StoredEdwards u × Option (StoredEdwardsPoint u)) :=
  match ec.sc with
  | none => .error .assertion
  | some sc => do
    let y ← montyImport divmodInto ec.mc yorig
    let y2 ← montyMul ec.mc y y
    let dy2 ← montyMul ec.mc ec.d y2
    let dy2ma ← montySub ec.mc dy2 ec.a
    let y2m1 ← montySub ec.mc y2 (montyIdentity ec.mc)
    let recipDenominator ← montyInvert ec.mc dy2ma
    let radicand ← montyMul ec.mc y2m1 recipDenominator
    let (sc, x, success) ← montyModsqrt sc radicand 0
    let ec := { ec with sc := some sc }
    if success = 0 then return (ec, none)
    else do
      let x ← chooseParity ec.mc ec.p x desiredXParity
      let point ← eccEdwardsPointNewImported ec x y
      return (ec, some point)

end Edwards

end PuttyNd.Ecc
