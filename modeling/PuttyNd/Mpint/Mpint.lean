import PuttyNd.Lib.Words
import PuttyNd.Lib.Outcome

/-!
# Multiprecision integers (`psftp/mpint.c`)

An `mp_int` is the list of its words, the lowest first, and `nw` is the length of the list. `u` is
`BIGNUM_INT_BITS_BITS`. A function that writes to an `mp_int` returns the words that it writes; where
it reads nothing of it but its size, it takes the size. All of them read a word of an operand before
they write the word of the result with the same index, so an operand may be the result. A `size_t` is
a natural number.
-/

namespace PuttyNd.Mpint

open Words

variable {u : ℕ}

/-- `BIGNUM_INT_BITS` -/
abbrev BIGNUM_INT_BITS (u : ℕ) : ℕ := 2 ^ u

/-- `BIGNUM_INT_BYTES` -/
abbrev BIGNUM_INT_BYTES (u : ℕ) : ℕ := BIGNUM_INT_BITS u / 8

abbrev BignumInt (u : ℕ) := BitVec (BIGNUM_INT_BITS u)

abbrev BignumDblInt (u : ℕ) := BitVec (2 * BIGNUM_INT_BITS u)

abbrev MpInt (u : ℕ) := List (BignumInt u)

/-- An `mp_int` that owns its words. Only an alias may be without words. -/
structure OwnMpInt (u : ℕ) where
  words : MpInt u
  outlawed : words ≠ []

/-- An `assert` that fails. -/
inductive Fault where
  | assertion
deriving DecidableEq, Repr

/-- `assert(p)` -/
def check (p : Prop) [Decidable p] : Except Fault Unit :=
  if p then .ok () else .error .assertion

/-! ## Words -/

def dbl (a : BignumInt u) : BignumDblInt u := a.setWidth _

/-- The lower half of a double word, and the upper half. -/
def halves (t : BignumDblInt u) : BignumInt u × BignumInt u :=
  (t.setWidth _, (t >>> BIGNUM_INT_BITS u).setWidth _)

/-- `BignumADC`: the sum, and the carry. -/
def bignumADC (a b c : BignumInt u) : BignumInt u × BignumInt u := halves (dbl a + dbl b + dbl c)

/-- `BignumMULADD2`: the lower half of the result, and the upper half. -/
def bignumMULADD2 (a b addend1 addend2 : BignumInt u) : BignumInt u × BignumInt u :=
  halves (dbl a * dbl b + dbl addend1 + dbl addend2)

/-- The selection between `a` and `b` that is made with a mask. -/
def select {w : ℕ} (a b : BitVec w) (which : ℕ) : BitVec w :=
  a ^^^ ((b ^^^ a) &&& -BitVec.ofNat w (1 &&& which))

/-- `normalise_to_1`, `normalise_to_1_u64` -/
def normaliseTo1 {w : ℕ} (n : BitVec w) : ℕ :=
  let n := (n >>> 1) ||| (n &&& 1)
  ((-n) >>> (w - 1)).toNat

/-! ## Numbers as a whole -/

abbrev mpWord (x : MpInt u) (i : ℕ) : BignumInt u := word x i

def mpMakeSized (nw : ℕ) : Except Fault (MpInt u) := do
  check (nw ≠ 0)
  return List.replicate nw 0

def mpCopyInto (nw : ℕ) (src : MpInt u) : MpInt u :=
  let copyNw := min nw src.length
  src.take copyNw ++ List.replicate (nw - copyNw) 0

def mpSelectInto (nw : ℕ) (src0 src1 : MpInt u) (which : ℕ) : MpInt u :=
  (List.range nw).map fun i => select (mpWord src0 i) (mpWord src1 i) which

def mpMakeAlias (x : MpInt u) (offset len : ℕ) : MpInt u :=
  let offset := if offset > x.length then x.length else offset
  let len := if len > x.length - offset then x.length - offset else len
  (x.drop offset).take len

@[simp] theorem mpMakeAlias_eq (x : MpInt u) (offset len : ℕ) :
    mpMakeAlias x offset len = (x.drop offset).take len := by
  simp only [mpMakeAlias]
  by_cases h : offset > x.length
  · simp [h, List.drop_of_length_le (Nat.le_of_lt h)]
  · rw [if_neg h]
    by_cases h' : len > x.length - offset
    · rw [if_pos h', List.take_of_length_le (by simp), List.take_of_length_le (by simp; omega)]
    · rw [if_neg h']

/-- `mp_alloc_from_scratch`: the number of words that are left in the pool. What is allocated is not
read before it is written. -/
def mpAllocFromScratch (pool len : ℕ) : Except Fault ℕ := do
  check (len ≤ pool)
  return pool - len

theorem mpAllocFromScratch_of_le {pool len : ℕ} (h : len ≤ pool) :
    mpAllocFromScratch pool len = .ok (pool - len) := by
  simp [mpAllocFromScratch, check, h]

def mpGetByte (x : MpInt u) (byte : ℕ) : UInt8 :=
  ⟨(mpWord x (byte / BIGNUM_INT_BYTES u) >>> (8 * (byte % BIGNUM_INT_BYTES u))).setWidth 8⟩

def mpGetBit (x : MpInt u) (bit : ℕ) : ℕ :=
  (1 &&& (mpWord x (bit / BIGNUM_INT_BITS u) >>> (bit % BIGNUM_INT_BITS u))).toNat

/-- `mp_from_bytes_be` -/
def mpFromBytesBe (bytes : List UInt8) : MpInt u :=
  let nw := max ((bytes.length + BIGNUM_INT_BYTES u - 1) / BIGNUM_INT_BYTES u) 1
  (List.range bytes.length).foldl
    (fun n i => n.modify (i / BIGNUM_INT_BYTES u) fun word =>
      word ||| (bytes.getD (bytes.length - 1 - i) 0).toBitVec.setWidth _ <<<
        (8 * (i % BIGNUM_INT_BYTES u)))
    (List.replicate nw 0)

/-! ## Addition and subtraction -/

/-- The carry into word `i`. -/
def carryInto (a b : ℕ → BignumInt u) (carry : BignumInt u) : ℕ → BignumInt u
  | 0 => carry
  | i + 1 => (bignumADC (a i) (b i) (carryInto a b carry i)).2

/-- The loop that adds word by word: the words that are written, and the output carry. -/
def addWords (rw : ℕ) (a b : ℕ → BignumInt u) (carry : BignumInt u) : MpInt u × BignumInt u :=
  ((List.range rw).map fun i => (bignumADC (a i) (b i) (carryInto a b carry i)).1,
    carryInto a b carry rw)

def mpAddMaskedInto (rw : ℕ) (a b : MpInt u) (bAnd bXor carry : BignumInt u) :
    MpInt u × BignumInt u :=
  addWords rw (mpWord a) (fun i => (mpWord b i &&& bAnd) ^^^ bXor) carry

def mpAddInto (nw : ℕ) (a b : MpInt u) : MpInt u := (mpAddMaskedInto nw a b (~~~0) 0 0).1

def mpSubInto (nw : ℕ) (a b : MpInt u) : MpInt u := (mpAddMaskedInto nw a b (~~~0) (~~~0) 1).1

def mpNegInto (nw : ℕ) (a : MpInt u) : MpInt u := mpSubInto nw [] a

def mpCondSubInto (nw : ℕ) (a b : MpInt u) (yes : ℕ) : MpInt u :=
  let mask := -BitVec.ofNat _ (yes &&& 1)
  (mpAddMaskedInto nw a b mask mask (1 &&& mask)).1

/-- `mp_cmp_hs`: 1 if `a` is at least `b`, else 0. -/
def mpCmpHs (a b : MpInt u) : ℕ :=
  (mpAddMaskedInto (max a.length b.length) a b (~~~0) (~~~0) 1).2.toNat

/-- `mp_add_integer_into` -/
def mpAddIntegerInto (nw : ℕ) (a : MpInt u) (n : UInt64) : MpInt u :=
  (addWords nw (mpWord a)
    (fun i =>
      let shift := i * BIGNUM_INT_BITS u
      if shift < BIGNUM_INT_BYTES u then (n.toBitVec >>> shift).setWidth _ else 0)
    0).1

section Length

variable {nw : ℕ} {a b : MpInt u}

@[simp] theorem length_addWords {f g : ℕ → BignumInt u} {carry : BignumInt u} :
    (addWords nw f g carry).1.length = nw := by simp [addWords]

@[simp] theorem length_mpAddInto : (mpAddInto nw a b).length = nw := length_addWords

@[simp] theorem length_mpSubInto : (mpSubInto nw a b).length = nw := length_addWords

@[simp] theorem length_mpNegInto : (mpNegInto nw a).length = nw := length_addWords

@[simp] theorem length_mpCondSubInto {yes : ℕ} : (mpCondSubInto nw a b yes).length = nw :=
  length_addWords

@[simp] theorem length_mpAddIntegerInto {n : UInt64} : (mpAddIntegerInto nw a n).length = nw :=
  length_addWords

end Length

/-- The words of `n` as `mp_eq_integer` reads them. -/
def integerWord (n : UInt64) (i : ℕ) : BignumInt u :=
  let shift := i * BIGNUM_INT_BITS u
  if shift < 64 then (n.toBitVec >>> shift).setWidth _ else 0

/-- `mp_eq_integer` -/
def mpEqInteger (x : MpInt u) (n : UInt64) : ℕ :=
  1 ^^^ normaliseTo1 ((List.range x.length).foldl
    (fun diff i => diff ||| (mpWord x i ^^^ integerWord n i)) (0 : BignumInt u))

/-! ## Shifts -/

def mpLshiftFixedInto (nw : ℕ) (a : MpInt u) (bits : ℕ) : MpInt u :=
  let words := bits / BIGNUM_INT_BITS u
  let bitoff := bits % BIGNUM_INT_BITS u
  (List.range nw).map fun i =>
    if i < words then 0
    else if bitoff ≠ 0 then
      if i > words then
        mpWord a (i - words) <<< bitoff ||| mpWord a (i - words - 1) >>> (BIGNUM_INT_BITS u - bitoff)
      else mpWord a (i - words) <<< bitoff
    else mpWord a (i - words)

def mpRshiftFixedInto (nw : ℕ) (a : MpInt u) (bits : ℕ) : MpInt u :=
  let words := bits / BIGNUM_INT_BITS u
  let bitoff := bits % BIGNUM_INT_BITS u
  (List.range nw).map fun i =>
    if bitoff ≠ 0 then
      mpWord a (i + words) >>> bitoff ||| mpWord a (i + words + 1) <<< (BIGNUM_INT_BITS u - bitoff)
    else mpWord a (i + words)

def mpReduceMod2to (x : MpInt u) (p : ℕ) : MpInt u :=
  let word := p / BIGNUM_INT_BITS u
  let mask := (1 : BignumInt u) <<< (p % BIGNUM_INT_BITS u) - 1
  (List.range x.length).map fun i =>
    if i < word then mpWord x i else if i = word then mpWord x i &&& mask else mpWord x i &&& 0

end PuttyNd.Mpint
