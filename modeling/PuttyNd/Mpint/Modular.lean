import PuttyNd.Mpint.Bezout
import PuttyNd.Mpint.Monty

/-!
# Modular arithmetic in Montgomery form (`psftp/mpint.c`)
-/

namespace PuttyNd.Mpint

open Words

variable {u : ℕ}

/-- `mp_modadd_in_range` -/
def mpModaddInRange (x y modulus : MpInt u) : Except Fault (MpInt u) := do
  let sum ← mpMakeSized (u := u) modulus.length
  let (sum, carry) := mpAddMaskedInto sum.length x y (~~~0) 0 0
  return mpCondSubInto sum.length sum modulus (carry.toNat ||| mpCmpHs sum modulus)

/-- `mp_modsub_in_range` -/
def mpModsubInRange (x y modulus : MpInt u) : Except Fault (MpInt u) := do
  let diff ← mpMakeSized (u := u) modulus.length
  let diff := mpSubInto diff.length x y
  return mpCondAddInto diff.length diff modulus (1 ^^^ mpCmpHs x y)

def montyAdd (mc : MontyContext u) (x y : MpInt u) : Except Fault (MpInt u) := mpModaddInRange x y mc.m

def montySub (mc : MontyContext u) (x y : MpInt u) : Except Fault (MpInt u) := mpModsubInRange x y mc.m

def montyMul (mc : MontyContext u) (x y : MpInt u) : Except Fault (MpInt u) := do
  let toret ← mpMakeSized (u := u) mc.rw
  montyMulInto mc toret.length x y

def montyIdentity (mc : MontyContext u) : MpInt u := mc.powersOfRModM 0

def montyInvert (mc : MontyContext u) (x : MpInt u) : Except Fault (MpInt u) := do
  let tmp ← mpInvert x mc.m
  montyMul mc tmp (mc.powersOfRModM 2)

end PuttyNd.Mpint

/-!
## Modular square roots (`psftp/mpint.c`)

`success` is what `*success` holds. The context is returned, since a call may fill in `zk`.
-/

namespace PuttyNd.Mpint

open Words

variable {u : ℕ}

def mpRshiftFixed (x : MpInt u) (bits : ℕ) : Except Fault (MpInt u) := do
  let words := bits / BIGNUM_INT_BITS u
  let nw := x.length - min x.length words
  let r ← mpMakeSized (u := u) (max nw 1)
  return mpRshiftFixedInto r.length x bits

/-- `zk` is `NULL` until it is needed. -/
structure ModsqrtContext (u : ℕ) where
  p : MpInt u
  mc : MontyContext u
  e : ℕ
  k : MpInt u
  km1o2 : MpInt u
  z : MpInt u
  zk : Option (MpInt u)

/-- The search for the lowest bit that is set, from bit `e` on -/
def lowestSetBit (p : MpInt u) (e : ℕ) : ℕ :=
  if _h : e < BIGNUM_INT_BITS u * p.length then
    if mpGetBit p e ≠ 0 then e else lowestSetBit p (e + 1)
  else e
termination_by BIGNUM_INT_BITS u * p.length - e

section Modsqrt

variable (divmodInto : DivmodInto u)

def modsqrtNew (p anyNonsquareModP : MpInt u) : Except Fault (ModsqrtContext u) := do
  let pCopy ← mpCopy p
  let mc ← montyNew divmodInto pCopy
  let z ← montyImport divmodInto mc anyNonsquareModP
  let e := lowestSetBit p 1
  let k ← mpRshiftFixed p e
  let km1o2 ← mpRshiftFixed k 1
  return { p := pCopy, mc := mc, e := e, k := k, km1o2 := km1o2, z := z, zk := none }

/-- `modsqrt_lazy_setup`: the context, and its `zk`. -/
def modsqrtLazySetup (sc : ModsqrtContext u) : Except Fault (ModsqrtContext u × MpInt u) :=
  match sc.zk with
  | some zk => .ok (sc, zk)
  | none => do
    let zk ← montyPow sc.mc sc.z sc.k
    return ({ sc with zk := some zk }, zk)

/-- The inner loop: `tmp` is squared that often. -/
def squareTimes (mc : MontyContext u) : ℕ → MpInt u → Except Fault (MpInt u)
  | 0, tmp => .ok tmp
  | n + 1, tmp => do
    let tmp ← montyMulInto mc tmp.length tmp tmp
    squareTimes mc n tmp

/-- The variables of the loop -/
structure RootState (u : ℕ) where
  toret : MpInt u
  xk : MpInt u
  powerOfZk : MpInt u
  success : ℕ

/-- The loop body of `monty_modsqrt` -/
def modsqrtRound (sc : ModsqrtContext u) (x : MpInt u) (s : RootState u) (i : ℕ) :
    Except Fault (RootState u) := do
  let tmp ← squareTimes sc.mc (sc.e - (i + 1)) (mpCopyInto sc.mc.rw s.xk)
  let eq1 := mpCmpEq tmp (sc.mc.powersOfRModM 0)
  if i = 0 then return { s with success := eq1 ||| mpEqInteger x 0 }
  else do
    let tmp ← montyMulInto sc.mc sc.mc.rw s.toret s.powerOfZk
    let toret := mpSelectInto s.toret.length tmp s.toret eq1
    let powerOfZk ← montyMulInto sc.mc s.powerOfZk.length s.powerOfZk s.powerOfZk
    let tmp ← montyMulInto sc.mc sc.mc.rw s.xk powerOfZk
    let xk := mpSelectInto s.xk.length tmp s.xk eq1
    return { toret := toret, xk := xk, powerOfZk := powerOfZk, success := s.success }

/-- `monty_modsqrt`: the context, the root, and `*success`. -/
def montyModsqrt (sc : ModsqrtContext u) (x : MpInt u) (success : ℕ) :
    Except Fault (ModsqrtContext u × MpInt u × ℕ) := do
  let (sc, zk) ← modsqrtLazySetup sc
  let scratch ← mpMakeSized (u := u) (3 * sc.mc.rw)
  let toret ← montyPow sc.mc x sc.km1o2
  let scratch ← mpAllocFromScratch scratch.length sc.mc.rw
  let xk := mpCopyInto sc.mc.rw toret
  let toret ← montyMulInto sc.mc toret.length toret x
  let xk ← montyMulInto sc.mc xk.length toret xk
  let scratch ← mpAllocFromScratch scratch sc.mc.rw
  let _ ← mpAllocFromScratch scratch sc.mc.rw
  let powerOfZk := mpCopyInto sc.mc.rw zk
  let s ← (List.range sc.e).foldlM (modsqrtRound sc x) ⟨toret, xk, powerOfZk, success⟩
  return (sc, s.toret, s.success)

/-- `mp_modsqrt` -/
def mpModsqrt (sc : ModsqrtContext u) (x : MpInt u) (success : ℕ) :
    Except Fault (ModsqrtContext u × MpInt u × ℕ) := do
  let mx ← montyImport divmodInto sc.mc x
  let (sc, mroot, success) ← montyModsqrt sc mx success
  let root ← montyExport sc.mc mroot
  return (sc, root, success)

end Modsqrt

end PuttyNd.Mpint
