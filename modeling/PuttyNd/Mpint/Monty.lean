import Mathlib.Data.Fin.VecNotation
import PuttyNd.Mpint.Mpint

/-!
# Multiplication (`psftp/mpint.c`)

Pointers that run through the words of a number are the words that are left. Scratch space is given by
its size: it is never read before it is written.
-/

namespace PuttyNd.Mpint

open Words

variable {u : ℕ}

/-- The two inner loops of `mp_mul_add_simple`, from `bp` and `rq` on. -/
def mulAddRow (adata : BignumInt u) : MpInt u → MpInt u → BignumInt u → MpInt u
  | _, [], _ => []
  | bdata :: bp, q :: rq, carry =>
    (bignumMULADD2 adata bdata q carry).1 ::
      mulAddRow adata bp rq (bignumMULADD2 adata bdata q carry).2
  | [], q :: rq, carry =>
    (bignumADC carry q 0).1 :: mulAddRow adata [] rq (bignumADC carry q 0).2

/-- `mp_mul_add_simple`, from `rp` and `ap` on. -/
def mpMulAddSimple (b : MpInt u) : MpInt u → MpInt u → MpInt u
  | rp, [] => rp
  | rp, adata :: ap =>
    match mulAddRow adata b rp 0 with
    | [] => []
    | q :: rp => q :: mpMulAddSimple b rp ap

def KARATSUBA_THRESHOLD : ℕ := 24

def mpMulScratchspaceUnary (n : ℕ) : ℕ := n * 6

def mpMulScratchspace (rw aw bw : ℕ) : ℕ := mpMulScratchspaceUnary (min rw (max aw bw))

/-- `mp_mul_internal`: the lowest `nw` words of the product. -/
def mpMulInternal (nw : ℕ) (a b : MpInt u) (scratch : ℕ) : Except Fault (MpInt u) := do
  let inlen := min nw (max a.length b.length)
  check (scratch ≥ mpMulScratchspaceUnary inlen)
  let r : MpInt u := List.replicate nw 0
  if _h : inlen < KARATSUBA_THRESHOLD ∨ a.length = 0 ∨ b.length = 0 then
    return mpMulAddSimple b r a
  else
    let toplen := inlen / 2
    let botlen := inlen - toplen
    let a0 := mpMakeAlias a 0 botlen
    let b0 := mpMakeAlias b 0 botlen
    let a1 := mpMakeAlias a botlen toplen
    let b1 := mpMakeAlias b botlen toplen
    let r0 ← mpMulInternal (mpMakeAlias r 0 (botlen * 2)).length a0 b0 scratch
    let r2 ← mpMulInternal (mpMakeAlias r (botlen * 2) nw).length a1 b1 scratch
    -- what is below `botlen` is not written any more
    let low := mpMakeAlias (r0 ++ r2) 0 botlen
    let r1 := mpMakeAlias (r0 ++ r2) botlen nw
    if nw < inlen * 2 then
      let slen := min (botlen + toplen) r1.length
      let scratch ← mpAllocFromScratch scratch slen
      let s ← mpMulInternal slen a0 b1 scratch
      let r1 := mpAddInto r1.length r1 s
      let s ← mpMulInternal slen a1 b0 scratch
      let r1 := mpAddInto r1.length r1 s
      return low ++ r1
    else
      let scratch ← mpAllocFromScratch scratch (botlen + 1)
      let scratch ← mpAllocFromScratch scratch (botlen + 1)
      let asum := mpAddInto (botlen + 1) a0 a1
      let bsum := mpAddInto (botlen + 1) b0 b1
      let scratch ← mpAllocFromScratch scratch (botlen * 2 + 1)
      let product ← mpMulInternal (botlen * 2 + 1) asum bsum scratch
      let product := mpSubInto (botlen * 2 + 1) product r0
      let product := mpSubInto (botlen * 2 + 1) product r2
      let r1 := mpAddInto r1.length r1 product
      return low ++ r1
termination_by max a.length b.length
decreasing_by
  all_goals
    have hlarge : 24 ≤ min nw (max a.length b.length) := by
      simp only [KARATSUBA_THRESHOLD, not_or, not_lt] at _h
      exact _h.1
    simp only [mpMakeAlias_eq, length_mpAddInto, List.length_take, List.length_drop]
    omega

/-- `mp_mul_into` -/
def mpMulInto (nw : ℕ) (a b : MpInt u) : Except Fault (MpInt u) := do
  let scratch ← mpMakeSized (u := u) (mpMulScratchspace nw a.length b.length)
  mpMulInternal nw a b scratch.length

/-- `mp_mul` -/
def mpMul (x y : MpInt u) : Except Fault (MpInt u) := do
  let r ← mpMakeSized (u := u) (x.length + y.length)
  mpMulInto r.length x y

end PuttyNd.Mpint

/-!
## Modular exponentiation (`psftp/mpint.c`)

Division is a parameter here: `divmodInto n d qNw rNw` stands for `mp_divmod_into` with outputs of these
sizes, and an output that is `NULL` is one of no words.
-/

namespace PuttyNd.Mpint

open Words

variable {u : ℕ}

def mpCopy (x : MpInt u) : Except Fault (MpInt u) := do
  let r ← mpMakeSized (u := u) x.length
  return mpCopyInto r.length x

/-! ## Inverses modulo powers of two -/

/-- The loop body of `mp_invert_mod_2to`. `r1_position` lies in `r`. -/
def invertStep (x : MpInt u) (scratchPerIter mulScratch b : ℕ) (r : MpInt u) :
    Except Fault (MpInt u) := do
  let bw := (b + BIGNUM_INT_BITS u - 1) / BIGNUM_INT_BITS u
  let b2w := (2 * b + BIGNUM_INT_BITS u - 1) / BIGNUM_INT_BITS u
  let scratch ← mpAllocFromScratch scratchPerIter bw
  let x0 := mpReduceMod2to (mpCopyInto bw x) b
  let r0 := mpMakeAlias r 0 bw
  let scratch ← mpAllocFromScratch scratch b2w
  let kshift ← mpMulInternal b2w x0 r0 mulScratch
  let scratch ← mpAllocFromScratch scratch bw
  let k := mpRshiftFixedInto bw kshift b
  let scratch ← mpAllocFromScratch scratch bw
  let x1 := mpReduceMod2to (mpRshiftFixedInto bw x b) b
  -- the words of `kshift` are used again
  let r0x1 ← mpMulInternal (mpMakeAlias kshift 0 bw).length r0 x1 mulScratch
  let r0x1 := mpAddInto r0x1.length r0x1 k
  let r0x1 := mpNegInto r0x1.length r0x1
  let _ ← mpAllocFromScratch scratch bw
  let r1 ← mpMulInternal bw r0 r0x1 mulScratch
  let r1 := mpReduceMod2to r1 b
  let k := mpLshiftFixedInto bw r1 (b % BIGNUM_INT_BITS u)
  let bpos := b / BIGNUM_INT_BITS u
  let r1Position := mpMakeAlias r bpos (b2w - bpos)
  return r.take bpos ++ mpAddInto r1Position.length r1Position k ++ r.drop (bpos + r1Position.length)

/-- The loop of `mp_invert_mod_2to` from `b = 2 ^ i` on. -/
def invertLoop (x : MpInt u) (scratchPerIter mulScratch p i : ℕ) (r : MpInt u) :
    Except Fault (MpInt u) :=
  if _h : 2 ^ i < p then do
    let r ← invertStep x scratchPerIter mulScratch (2 ^ i) r
    invertLoop x scratchPerIter mulScratch p (i + 1) r
  else .ok r
termination_by p - i
decreasing_by
  have := i.lt_two_pow_self
  omega

/-- `mp_invert_mod_2to` -/
def mpInvertMod2to (x : MpInt u) (p : ℕ) : Except Fault (MpInt u) := do
  check (x.length > 0)
  check ((mpWord x 0 &&& 1) ≠ 0)
  check (p > 0)
  let nw := max ((p + BIGNUM_INT_BITS u - 1) / BIGNUM_INT_BITS u) 1
  let r ← mpMakeSized (u := u) nw
  let mulScratchsize := mpMulScratchspace (2 * nw) nw nw
  let scratchOrig ← mpMakeSized (u := u) (6 * nw + mulScratchsize)
  let scratchPerIter ← mpAllocFromScratch scratchOrig.length mulScratchsize
  let r ← invertLoop x scratchPerIter mulScratchsize p 0 (r.set 0 1)
  return mpReduceMod2to r p

/-! ## Montgomery multiplication -/

abbrev DivmodInto (u : ℕ) := MpInt u → MpInt u → ℕ → ℕ → Except Fault (MpInt u × MpInt u)

section Monty

variable (divmodInto : DivmodInto u)

def mpMod (n d : MpInt u) : Except Fault (MpInt u) := do
  let r ← mpMakeSized (u := u) d.length
  let (_, r) ← divmodInto n d 0 r.length
  return r

def mpModmul (x y modulus : MpInt u) : Except Fault (MpInt u) := do
  let product ← mpMul x y
  mpMod divmodInto product modulus

/-- The scratch space is given by its size. -/
structure MontyContext (u : ℕ) where
  rw : ℕ
  rbits : ℕ
  pw : ℕ
  m : MpInt u
  minusMinvModR : MpInt u
  powersOfRModM : Fin 3 → MpInt u
  scratch : ℕ

instance neZero_three : NeZero 3 := inferInstance

def montyScratchSize (nw pw : ℕ) : ℕ := 3 * nw + pw + mpMulScratchspace pw nw nw

def montyNew (modulus : MpInt u) : Except Fault (MontyContext u) := do
  let nw := modulus.length
  let rbits := nw * BIGNUM_INT_BITS u
  let pw := nw * 2 + 1
  let m ← mpCopy modulus
  let minv ← mpInvertMod2to m rbits
  let minusMinvModR := mpNegInto minv.length minv
  let r ← mpMakeSized (u := u) (nw + 1)
  let r := r.set nw 1
  let power0 ← mpMod divmodInto r m
  let power1 ← mpModmul divmodInto power0 power0 m
  let power2 ← mpModmul divmodInto power0 power1 m
  let scratch ← mpMakeSized (u := u) (montyScratchSize nw pw)
  return {
    rw := nw
    rbits := rbits
    pw := pw
    m := m
    minusMinvModR := minusMinvModR
    powersOfRModM := ![power0, power1, power2]
    scratch := scratch.length }

def montyReduceInternal (mc : MontyContext u) (x : MpInt u) (scratch : ℕ) :
    Except Fault (MpInt u) := do
  let xLo := mpMakeAlias x 0 mc.rbits
  let scratch ← mpAllocFromScratch scratch mc.rw
  let k ← mpMulInternal mc.rw xLo mc.minusMinvModR scratch
  let scratch ← mpAllocFromScratch scratch mc.pw
  let mk ← mpMulInternal mc.pw mc.m k scratch
  let mk := mpAddInto mk.length x mk
  let toret := mpMakeAlias mk mc.rw (mk.length - mc.rw)
  return mpCondSubInto toret.length toret mc.m (mpCmpHs toret mc.m)

def montyMulInto (mc : MontyContext u) (nw : ℕ) (x y : MpInt u) : Except Fault (MpInt u) := do
  check (x.length ≤ mc.rw)
  check (y.length ≤ mc.rw)
  let scratch ← mpAllocFromScratch mc.scratch (2 * mc.rw)
  let tmp ← mpMulInto (2 * mc.rw) x y
  let reduced ← montyReduceInternal mc tmp scratch
  return mpCopyInto nw reduced

/-- `monty_import` -/
def montyImport (mc : MontyContext u) (x : MpInt u) : Except Fault (MpInt u) :=
  mpModmul divmodInto x (mc.powersOfRModM 0) mc.m

def montyExportInto (mc : MontyContext u) (nw : ℕ) (x : MpInt u) : Except Fault (MpInt u) := do
  check (x.length ≤ 2 * mc.rw)
  let reduced ← montyReduceInternal mc x mc.scratch
  return mpCopyInto nw reduced

def montyExport (mc : MontyContext u) (x : MpInt u) : Except Fault (MpInt u) := do
  let toret ← mpMakeSized (u := u) mc.rw
  montyExportInto mc toret.length x

def montyReduce (mc : MontyContext u) (x : MpInt u) : Except Fault (MpInt u) := do
  let reduced ← montyReduceInternal mc x mc.scratch
  return mpCopyInto x.length reduced

/-- The loop of `monty_pow` -/
def montyPowLoop (mc : MontyContext u) (exponent : MpInt u) (tmpNw i : ℕ) (out square : MpInt u) :
    Except Fault (MpInt u) := do
  let tmp ← mpMulInto tmpNw out square
  let tmp ← montyReduce mc tmp
  let out := mpSelectInto out.length out tmp (mpGetBit exponent i)
  if _h : i + 1 ≥ exponent.length * BIGNUM_INT_BITS u then return out
  else
    let tmp ← mpMulInto tmpNw square square
    let tmp ← montyReduce mc tmp
    montyPowLoop mc exponent tmpNw (i + 1) out (mpCopyInto square.length tmp)
termination_by exponent.length * BIGNUM_INT_BITS u - i

def montyPow (mc : MontyContext u) (base exponent : MpInt u) : Except Fault (MpInt u) := do
  let square ← mpCopy base
  let out ← mpCopy (mc.powersOfRModM 0)
  let tmp ← mpMakeSized (u := u) (mc.rw * 2)
  montyPowLoop mc exponent tmp.length 0 out square

def mpModpow (base exponent modulus : MpInt u) : Except Fault (MpInt u) := do
  check (modulus.length > 0)
  check ((mpWord modulus 0 &&& 1) ≠ 0)
  let mc ← montyNew divmodInto modulus
  let mBase ← montyImport divmodInto mc base
  let mOut ← montyPow mc mBase exponent
  montyExport mc mOut

end Monty

end PuttyNd.Mpint
