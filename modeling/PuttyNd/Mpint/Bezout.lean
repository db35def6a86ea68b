import PuttyNd.Mpint.Mpint

/-!
# Multiprecision integers and C integers (`psftp/mpint.c`)

A `uintmax_t` has 64 bits, whatever the size of a word is.
-/

namespace PuttyNd.Mpint

variable {u : ℕ}

/-- `mp_from_integer` -/
def mpFromInteger (n : UInt64) : MpInt u :=
  (List.range ((8 + BIGNUM_INT_BYTES u - 1) / BIGNUM_INT_BYTES u)).map fun i =>
    (n.toBitVec >>> (i * BIGNUM_INT_BITS u)).setWidth _

/-- `mp_add_masked_integer_into` -/
def mpAddMaskedIntegerInto (rw : ℕ) (a : MpInt u) (b : UInt64) (bAnd bXor carry : BignumInt u) :
    MpInt u × BignumInt u :=
  addWords rw (mpWord a)
    (fun i =>
      let shift := i * BIGNUM_INT_BITS u
      let bword := if shift < BIGNUM_INT_BYTES u then (b.toBitVec >>> shift).setWidth _ else 0
      (bword ^^^ bXor) &&& bAnd)
    carry

/-- `mp_sub_integer_into` -/
def mpSubIntegerInto (nw : ℕ) (a : MpInt u) (n : UInt64) : MpInt u :=
  (mpAddMaskedIntegerInto nw a n (~~~0) (~~~0) 1).1

@[simp] theorem length_mpSubIntegerInto {nw : ℕ} {a : MpInt u} {n : UInt64} :
    (mpSubIntegerInto nw a n).length = nw := length_addWords

/-- `mp_hs_integer`: 1 if `x` is at least `n`, else 0. -/
def mpHsInteger (x : MpInt u) (n : UInt64) : ℕ :=
  (addWords x.length (mpWord x) (fun i => ~~~integerWord n i) 1).2.toNat

def mpCmpEq (a b : MpInt u) : ℕ :=
  1 ^^^ normaliseTo1 ((List.range (max a.length b.length)).foldl
    (fun diff i => diff ||| (mpWord a i ^^^ mpWord b i)) (0 : BignumInt u))

end PuttyNd.Mpint

/-!
## Modular inverses (`psftp/mpint.c`)

An output that is `NULL` is one of no words.
-/

namespace PuttyNd.Mpint

open Words

variable {u : ℕ}

/-- `mp_cond_swap` -/
def mpCondSwap (x0 x1 : MpInt u) (swap : ℕ) : Except Fault (MpInt u × MpInt u) := do
  check (x0.length = x1.length)
  let mask := -BitVec.ofNat (BIGNUM_INT_BITS u) (1 &&& swap)
  return (x0.zipWith (fun w0 w1 => w0 ^^^ ((w0 ^^^ w1) &&& mask)) x1,
    x0.zipWith (fun w0 w1 => w1 ^^^ ((w0 ^^^ w1) &&& mask)) x1)

def mpCondAddInto (nw : ℕ) (a b : MpInt u) (yes : ℕ) : MpInt u :=
  (mpAddMaskedInto nw a b (-BitVec.ofNat _ (yes &&& 1)) 0 0).1

def mpSetBit (x : MpInt u) (bit val : ℕ) : Except Fault (MpInt u) := do
  let word := bit / BIGNUM_INT_BITS u
  check (word < x.length)
  let shift := bit % BIGNUM_INT_BITS u
  return x.modify word fun w => (w &&& ~~~((1 : BignumInt u) <<< shift)) ||| BitVec.ofNat _ (val &&& 1) <<< shift

/-- The numbers while they are reduced, and the record of the steps -/
structure ReduceState (u : ℕ) where
  a : MpInt u
  b : MpInt u
  record : MpInt u

/-- The body of the first loop of `mp_bezout_into` -/
def bezoutReduce (s : ReduceState u) (step : ℕ) : Except Fault (ReduceState u) := do
  let swapIfBothOdd := mpCmpHs s.b s.a
  let swapIfOneEven := (mpWord s.a 0 &&& 1).toNat
  let bothOdd := (mpWord s.a 0 &&& mpWord s.b 0 &&& 1).toNat
  let swap := swapIfOneEven ^^^ ((swapIfBothOdd ^^^ swapIfOneEven) &&& bothOdd)
  let (a, b) ← mpCondSwap s.a s.b swap
  let a := mpCondSubInto a.length a b bothOdd
  let a := mpRshiftFixedInto a.length a 1
  let record ← mpSetBit s.record (step * 2) bothOdd
  let record ← mpSetBit record (step * 2 + 1) swap
  return ⟨a, b, record⟩

/-- The numbers and their coefficients while the steps are undone -/
structure UnwindState (u : ℕ) where
  a : MpInt u
  b : MpInt u
  ac : MpInt u
  bc : MpInt u
  minusOne : ℕ

/-- The body of the second loop of `mp_bezout_into` -/
def bezoutUnwind (record : MpInt u) (s : UnwindState u) (step : ℕ) : Except Fault (UnwindState u) := do
  let bothOdd := mpGetBit record (step * 2)
  let swap := mpGetBit record (step * 2 + 1)
  let adjust := (mpWord s.ac 0 &&& 1).toNat
  let ac := mpCondAddInto s.ac.length s.ac s.b adjust
  let bc := mpCondAddInto s.bc.length s.bc s.a adjust
  let ac := mpRshiftFixedInto ac.length ac 1
  let bc := mpCondAddInto bc.length bc ac bothOdd
  let a := mpLshiftFixedInto s.a.length s.a 1
  let a := mpCondAddInto a.length a s.b bothOdd
  let (a, b) ← mpCondSwap a s.b swap
  let (ac, bc) ← mpCondSwap ac bc swap
  return ⟨a, b, ac, bc, s.minusOne ^^^ swap⟩

/-- The second loop, from `step` down -/
def bezoutUnwindLoop (record : MpInt u) : ℕ → UnwindState u → Except Fault (UnwindState u)
  | 0, s => .ok s
  | step + 1, s => do
    let s ← bezoutUnwind record s step
    bezoutUnwindLoop record step s

/-- `mp_bezout_into`, with outputs of these sizes. An `unsigned` has 32 bits. -/
def mpBezoutInto (aNw bNw : ℕ) (aIn bIn : MpInt u) : Except Fault (MpInt u × MpInt u) := do
  let nw := max 1 (max aIn.length bIn.length)
  let a ← mpMakeSized (u := u) nw
  let b ← mpMakeSized (u := u) nw
  let a := mpCopyInto a.length aIn
  let b := mpCopyInto b.length bIn
  let ac ← mpMakeSized (u := u) (nw + 1)
  let bc ← mpMakeSized (u := u) (nw + 1)
  let tmp ← mpMakeSized (u := u) nw
  let steps := 2 * nw * BIGNUM_INT_BITS u
  let record ← mpMakeSized (u := u) ((steps * 2 + BIGNUM_INT_BITS u - 1) / BIGNUM_INT_BITS u)
  let s ← (List.range steps).foldlM bezoutReduce ⟨a, b, record⟩
  let ac := mpCopyInto ac.length s.a
  let bc := mpCopyInto bc.length s.b
  let minusOne := (mpWord s.b 0).toNat % 2 ^ 32
  let s ← bezoutUnwindLoop s.record steps ⟨s.a, s.b, ac, bc, minusOne⟩
  check ((mpCmpEq s.a aIn &&& mpCmpEq s.b bIn) ≠ 0)
  let acNegated := mpSubInto tmp.length s.b s.ac
  let ac := mpSelectInto s.ac.length s.ac acNegated s.minusOne
  let bcNegated := mpSubInto tmp.length s.a s.bc
  let bc := mpSelectInto s.bc.length s.bc bcNegated s.minusOne
  return (mpCopyInto aNw ac, mpCopyInto bNw bc)

def mpInvert (x m : MpInt u) : Except Fault (MpInt u) := do
  let result ← mpMakeSized (u := u) m.length
  let (result, _) ← mpBezoutInto result.length 0 x m
  return result

end PuttyNd.Mpint
