import PuttyNd.Mpint.Bezout
import PuttyNd.Mpint.Monty
import Mathlib.Data.Nat.Size

/-!
# Decimal conversion (`psftp/mpint.c`)

A character is its byte. In the assertions on sizes, a `size_t` has 64 bits. Masks that select between two
values are conditions.
-/

namespace PuttyNd.Mpint

open Words

variable {u : ℕ}

/-! ## From decimal -/

/-- `BignumMULADD`: the lower half of the result, and the upper half. -/
def bignumMULADD (a b addend : BignumInt u) : BignumInt u × BignumInt u :=
  halves (dbl a * dbl b + dbl addend)

/-- The carry into word `i`. -/
def mulCarry (a : MpInt u) (mult : BignumInt u) : ℕ → BignumInt u
  | 0 => 0
  | i + 1 => (bignumMULADD (mpWord a i) mult (mulCarry a mult i)).2

/-- The loop of `mp_mul_integer_into`: the words that are written, and the output carry. -/
def mulWords (nw : ℕ) (a : MpInt u) (mult : BignumInt u) : MpInt u × BignumInt u :=
  ((List.range nw).map fun i => (bignumMULADD (mpWord a i) mult (mulCarry a mult i)).1,
    mulCarry a mult nw)

/-- `mp_mul_integer_into` -/
def mpMulIntegerInto (nw : ℕ) (a : MpInt u) (n : UInt16) : Except Fault (MpInt u) := do
  let (r, carry) := mulWords nw a (n.toBitVec.setWidth _)
  check (carry = 0)
  return r

/-- The loop over the digits -/
def fromDecimalLoop (words : ℕ) : MpInt u → List UInt8 → Except Fault (MpInt u)
  | x, [] => .ok x
  | x, c :: decimal => do
    let x := mpAddIntegerInto words x (c - 48).toUInt64
    if decimal = [] then return x
    else do
      let x ← mpMulIntegerInto words x 10
      fromDecimalLoop words x decimal

/-- `mp_from_decimal_pl` -/
def mpFromDecimalPl (decimal : List UInt8) : Except Fault (MpInt u) := do
  check (decimal.length < (2 ^ 64 - 1) / 196)
  let bits := 196 * decimal.length / 59
  let words := bits / BIGNUM_INT_BITS u + 1
  let x ← mpMakeSized words
  fromDecimalLoop words x decimal

/-! ## Leading zeroes -/

/-- The search for the first character that is not `0`, from `pos` down. -/
def trimCount (buf : List UInt8) : ℕ → ℕ → ℕ
  | 0, trim => trim
  | pos + 1, trim => trimCount buf pos (if buf.getD pos 0 ≠ 48 then pos else trim)

/-- The conditional exchange of two characters -/
def swapMasked (mask : UInt8) (d : ℕ) (buf : List UInt8) (i : ℕ) : List UInt8 :=
  let diff := mask &&& (buf.getD i 0 ^^^ buf.getD (i + d) 0)
  (buf.set i (buf.getD i 0 ^^^ diff)).set (i + d) (buf.getD (i + d) 0 ^^^ diff)

/-- One pass of the shift, by `d` characters if the mask is set. -/
def shiftPass (mask : UInt8) (d : ℕ) (buf : List UInt8) : List UInt8 :=
  (List.range (buf.length - d)).foldl (swapMasked mask d) buf

/-- `trim_leading_zeroes`. There is a pass for each `logd` for which `bufsize >> logd` is not 0. -/
def trimLeadingZeroes (buf : List UInt8) (maxtrim : ℕ) : List UInt8 :=
  let trim := trimCount buf maxtrim maxtrim
  (List.range (Nat.size buf.length)).foldl
    (fun buf logd => shiftPass (-UInt8.ofNat ((trim >>> logd) &&& 1)) (1 <<< logd) buf) buf

/-! ## To decimal -/

/-- The sum of the bytes: `low_digit`, its bound `maxval`, and the weight `mult` of the next byte. -/
structure ByteSum where
  lowDigit : UInt32
  maxval : UInt32
  mult : UInt32
deriving DecidableEq, Repr

def ByteSum.init : ByteSum := ⟨0, 0, 1⟩

/-- The byte `j` of a word -/
def wordByte (w : BignumInt u) (j : ℕ) : UInt32 := ⟨((w >>> (8 * j)) &&& 0xFF).setWidth 32⟩

def ByteSum.byte (s : ByteSum) (b : UInt32) : ByteSum :=
  ⟨s.lowDigit + s.mult * b, s.maxval + s.mult * 0xFF, 6⟩

/-- The first `n` bytes of a word are added. -/
def ByteSum.bytes (s : ByteSum) (w : BignumInt u) (n : ℕ) : ByteSum :=
  (List.range n).foldl (fun s j => s.byte (wordByte w j)) s

/-- The top half is folded into the bottom half, if the next word might be too much. -/
def ByteSum.fold (u : ℕ) (s : ByteSum) : ByteSum :=
  if s.maxval > 0xFFFFFFFF - UInt32.ofNat (6 * 0xFF * BIGNUM_INT_BYTES u) then
    { s with
      lowDigit := (s.lowDigit &&& (0xFFFF : UInt32)) + (6 : UInt32) * (s.lowDigit >>> (16 : UInt32))
      maxval := (s.maxval &&& (0xFFFF : UInt32)) + (6 : UInt32) * (s.maxval >>> (16 : UInt32)) }
  else s

def ByteSum.word (s : ByteSum) (w : BignumInt u) : ByteSum := (s.bytes w (BIGNUM_INT_BYTES u)).fold u

/-- The final reduction -/
def reduceDigit (lowDigit : UInt32) : UInt32 :=
  let quotient := ((0x19999999 * lowDigit.toUInt64) >>> (32 : UInt64)).toUInt32
  let lowDigit := lowDigit - 10 * quotient
  lowDigit - 10 * ((lowDigit + 6) >>> (4 : UInt32))

def lowDigit (x : MpInt u) : UInt32 := reduceDigit (x.foldl ByteSum.word .init).lowDigit

/-- The inverse of 5 -/
def inv5 (nw : ℕ) : MpInt u :=
  (List.replicate nw (BitVec.ofNat _ ((2 ^ BIGNUM_INT_BITS u - 1) / 5 * 4))).modify 0 (· + 1)

/-- A digit is subtracted, and the number is divided by 2 and by 5. -/
def divideOut (x : MpInt u) (digit : UInt32) : Except Fault (MpInt u) :=
  let x := mpSubIntegerInto x.length x digit.toUInt64
  let y := mpRshiftFixedInto x.length x 1
  mpMulInto x.length y (inv5 x.length)

/-- The loop that writes the digits, from the place `pos` down to the left of those in `outbuf` -/
def decimalLoop : ℕ → MpInt u → List UInt8 → Except Fault (List UInt8)
  | 0, _, outbuf => .ok outbuf
  | pos + 1, x, outbuf => do
    check (lowDigit x < 10)
    let x' ← divideOut x (lowDigit x)
    decimalLoop pos x' ((48 + (lowDigit x).toUInt8) :: outbuf)

/-- The size of the buffer for the digits -/
def decimalBufsize (u nw : ℕ) : ℕ := max (nw * (146 * BIGNUM_INT_BITS u) / 485) 1 + 2

/-- `mp_get_decimal`: the buffer that is returned. -/
def mpGetDecimal (xOrig : MpInt u) : Except Fault (List UInt8) := do
  let _ ← mpMakeSized (u := u) xOrig.length
  check (BIGNUM_INT_BITS u % 8 = 0)
  check (xOrig.length < (2 ^ 64 - 2) / (146 * BIGNUM_INT_BITS u))
  let bufsize := decimalBufsize u xOrig.length
  let outbuf ← decimalLoop (bufsize - 1) xOrig [0]
  return trimLeadingZeroes outbuf (bufsize - 2)

end PuttyNd.Mpint
