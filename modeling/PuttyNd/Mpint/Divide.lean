import PuttyNd.Mpint.Marshal
import PuttyNd.Mpint.Monty

/-!
# Division (`psftp/mpint.c`)

A `uint64_t` pair `hibits:lobits` is kept as two words of 64 bits, as in the code. The bit indices, which
the code computes modulo the range of `size_t`, are integers.
-/

namespace PuttyNd.Mpint

open Words

variable {u : ℕ}

/-- `recip_approx_32` -/
def recipApprox32 (x : BitVec 32) : BitVec 32 :=
  let x : BitVec 64 := x.setWidth 64
  let r : BitVec 64 := 0x92db03d6
  let r := 0xf63e71ea - ((r * x) >>> 34)
  let r := 0xb63721e8 - ((r * x) >>> 34)
  let r := 0x9c2da00e - ((r * x) >>> 33)
  let r := 0xaada0bb8 - ((r * x) >>> 32)
  let r := 0xf75cd403 - ((r * x) >>> 31)
  let r := 0xecf97a41 - ((r * x) >>> 31)
  let r := 0x90d876cd - ((r * x) >>> 31)
  let r := 0x6682799a0 - ((r * x) >>> 26)
  r.setWidth 32

/-- Both loops shift `hibits:lobits` up by `sl` bits, if the indicator is 1. -/
def shiftPair (sl : ℕ) (hibits lobits : BitVec 64) (indicator : ℕ) : BitVec 64 × BitVec 64 :=
  let sr := 64 - sl
  let newHibits := hibits <<< sl ||| lobits >>> sr
  let newLobits := lobits <<< sl
  (select hibits newHibits indicator, select lobits newLobits indicator)

/-- The loop that moves the topmost bit to bit 63 of `hibits`, with `i` rounds to go. -/
def normaliseUp : ℕ → BitVec 64 → BitVec 64 → ℕ → BitVec 64 × BitVec 64 × ℕ
  | 0, hibits, lobits, shiftUp => (hibits, lobits, shiftUp)
  | i + 1, hibits, lobits, shiftUp =>
    let sl := 1 <<< i
    let sr := 64 - sl
    let indicator := 1 ^^^ normaliseTo1 (hibits >>> sr)
    let (newHibits, newLobits) := shiftPair sl hibits lobits indicator
    normaliseUp i newHibits newLobits (if indicator = 1 then shiftUp + sl else shiftUp)

/-- The loop that shifts the reciprocal up, with `i` rounds to go. -/
def shiftUpBy (shiftUp : ℕ) : ℕ → BitVec 64 → BitVec 64 → BitVec 64 × BitVec 64
  | 0, hibits, lobits => (hibits, lobits)
  | i + 1, hibits, lobits =>
    let indicator := 1 &&& (shiftUp >>> i)
    let (newHibits, newLobits) := shiftPair (1 <<< i) hibits lobits indicator
    shiftUpBy shiftUp i newHibits newLobits

/-- The indicator and what is left of `n` before word `i`, in `mp_add_integer_into_shifted_by_words`. -/
def shiftedState (u : ℕ) (n : BitVec 64) (wordIndex : ℕ) : ℕ → ℕ × BitVec 64
  | 0 => (0, n)
  | i + 1 =>
    let (indicator, n) := shiftedState u n wordIndex i
    let indicator := indicator ||| (1 ^^^ if i ^^^ wordIndex = 0 then 0 else 1)
    let newN := if BIGNUM_INT_BITS u < 64 then n >>> BIGNUM_INT_BITS u else 0
    (indicator, select n newN indicator)

/-- `mp_add_integer_into_shifted_by_words`. A number has fewer than `2 ^ BIGNUM_INT_BITS` words, so
`i ^ word_index` is not cut off where it is made a word. -/
def mpAddIntegerIntoShiftedByWords (nw : ℕ) (a : MpInt u) (n : BitVec 64) (wordIndex : ℕ) : MpInt u :=
  (addWords nw (mpWord a)
    (fun i => (shiftedState u n wordIndex i).2.setWidth _ &&&
      -BitVec.ofNat _ (shiftedState u n wordIndex (i + 1)).1)
    0).1

/-- `good_bits` after `i` rounds of the loop -/
def goodBits : ℕ → ℕ
  | 0 => 31 - 11
  | i + 1 => goodBits i * 2 - 1

theorem lt_goodBits (i : ℕ) : i + 1 < goodBits i := by
  induction i with
  | zero => decide
  | succ i ih =>
    rw [goodBits]
    omega

/-- The Newton-Raphson iterations, after `i` of them. -/
def newtonLoop (d twoR : MpInt u) (log2R nw scratch goodBitsNeeded i : ℕ) (rApprox : MpInt u) :
    Except Fault (MpInt u) :=
  if _h : goodBits i < goodBitsNeeded then do
    let drNw := nw + d.length
    let diffNw := max nw drNw
    let productNw := nw + diffNw
    let dr ← mpMulInternal drNw rApprox d scratch
    let diff := mpSubInto diffNw twoR dr
    let product ← mpMulInternal productNw rApprox diff scratch
    let productShifted := mpMakeAlias product (log2R / BIGNUM_INT_BITS u) product.length
    newtonLoop d twoR log2R nw scratch goodBitsNeeded (i + 1)
      (mpRshiftFixedInto nw productShifted (log2R % BIGNUM_INT_BITS u))
  else .ok rApprox
termination_by goodBitsNeeded - i
decreasing_by
  have := lt_goodBits i
  omega

/-- The final corrections, `iter` of them: the remainder, and `q_correction`. -/
def correct (d : MpInt u) : ℕ → MpInt u → ℕ → MpInt u × ℕ
  | 0, remainder, qCorrection => (remainder, qCorrection)
  | iter + 1, remainder, qCorrection =>
    let needCorrection := mpCmpHs remainder d
    correct d iter (mpCondSubInto remainder.length remainder d needCorrection)
      (qCorrection + needCorrection)

/-- The topmost 128 bits of `d` as they stand in the number, and how far they are shifted up. -/
def topBits (d : MpInt u) : Highest × BitVec 64 × BitVec 64 × ℕ :=
  let highest := mpFindHighestNonzeroWordPair d (64 - BIGNUM_INT_BITS u) 0 0 0
  (highest, normaliseUp u highest.hi highest.lo 0)

/-- `log2_R` -/
def log2R (u nNw dNw : ℕ) : ℕ :=
  let maxLog2N := (nNw + dNw) * BIGNUM_INT_BITS u
  let log2R := maxLog2N + 3
  let log2R := log2R - min 191 log2R
  let log2R := (log2R + BIGNUM_INT_BITS u - 1) / BIGNUM_INT_BITS u * BIGNUM_INT_BITS u
  log2R + 191

/-- `mp_divmod_into` -/
def mpDivmodInto : DivmodInto u := fun n d qNw rNw => do
  check (¬ mpEqInteger d 0 = 1)
  let (highest, hibits, _, shiftUp) := topBits d
  let lobits := (recipApprox32 ((hibits >>> 32).setWidth 32)).setWidth 64 <<< 32
  let (hibits, lobits) := shiftUpBy shiftUp u 0 lobits
  let log2R := log2R u n.length d.length
  let nw := (log2R + 2 + BIGNUM_INT_BITS u - 1) / BIGNUM_INT_BITS u
  let rApprox ← mpMakeSized (u := u) nw
  let inputBitIndex : ℤ := highest.index * BIGNUM_INT_BITS u - (128 - BIGNUM_INT_BITS u)
  let outputBitIndex : ℤ := log2R - 191 - inputBitIndex
  check (outputBitIndex % BIGNUM_INT_BITS u = 0)
  let outputWordIndex := (outputBitIndex / BIGNUM_INT_BITS u).toNat
  let rApprox := mpAddIntegerIntoShiftedByWords nw rApprox lobits outputWordIndex
  let rApprox := mpAddIntegerIntoShiftedByWords nw rApprox hibits
    (outputWordIndex + 64 / BIGNUM_INT_BITS u)
  let twoR ← mpMakeSized (u := u) nw
  let twoR := mpAddIntegerIntoShiftedByWords nw twoR
    (((1 : BignumInt u) <<< ((log2R + 1) % BIGNUM_INT_BITS u)).setWidth 64)
    ((log2R + 1) / BIGNUM_INT_BITS u)
  let dr ← mpMakeSized (u := u) (nw + d.length)
  let diff ← mpMakeSized (u := u) (max nw dr.length)
  let product ← mpMakeSized (u := u) (nw + diff.length)
  let scratchsize := max (mpMulScratchspace dr.length nw d.length)
    (mpMulScratchspace product.length nw diff.length)
  let scratch ← mpMakeSized (u := u) scratchsize
  let goodBitsNeeded := BIGNUM_INT_BITS u * n.length + 4
  let rApprox ← newtonLoop d twoR log2R nw scratch.length goodBitsNeeded 0 rApprox
  let quotientFull ← mpMul rApprox n
  let quotientAlias := mpMakeAlias quotientFull (log2R / BIGNUM_INT_BITS u) quotientFull.length
  let quotient ← mpMakeSized (u := u) n.length
  let quotient := mpRshiftFixedInto quotient.length quotientAlias (log2R % BIGNUM_INT_BITS u)
  let remainder ← mpMakeSized (u := u) d.length
  let remainder ← mpMulInto remainder.length quotient d
  let remainder := mpSubInto remainder.length n remainder
  let (remainder, qCorrection) := correct d 2 remainder 0
  let quotient := mpAddIntegerInto quotient.length quotient (UInt64.ofNat qCorrection)
  check (¬ mpCmpHs remainder d = 1)
  return (mpCopyInto qNw quotient, mpCopyInto rNw remainder)

end PuttyNd.Mpint
