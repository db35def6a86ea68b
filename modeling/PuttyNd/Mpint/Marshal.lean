import PuttyNd.Mpint.Mpint
import PuttyNd.Psftp.Marshal

/-!
# Multiprecision integers on the wire (`psftp/mpint.c`)

A `size_t` that may be `-1` is an integer.
-/

namespace PuttyNd.Mpint

open Words Psftp

variable {u : ℕ}

/-! ## The highest word -/

/-- The variables of `mp_find_highest_nonzero_word_pair`. -/
structure Highest where
  currHi : BitVec 64
  currLo : BitVec 64
  index : ℤ
  hi : BitVec 64
  lo : BitVec 64
deriving DecidableEq, Repr

/-- One round of the loop. -/
def Highest.round (x : MpInt u) (shiftWanted : ℕ) (s : Highest) (currIndex : ℕ) : Highest :=
  let currWord := mpWord x currIndex
  let indicator := normaliseTo1 currWord
  let currLo := (if BIGNUM_INT_BITS u < 64 then s.currLo >>> BIGNUM_INT_BITS u else 0) |||
    s.currHi <<< (64 - BIGNUM_INT_BITS u)
  let currHi := (if BIGNUM_INT_BITS u < 64 then s.currHi >>> BIGNUM_INT_BITS u else 0) |||
    currWord.setWidth 64 <<< shiftWanted
  { currHi := currHi
    currLo := currLo
    index := if indicator = 1 then currIndex else s.index
    hi := select s.hi currHi indicator
    lo := select s.lo currLo indicator }

def mpFindHighestNonzeroWordPair (x : MpInt u) (shiftWanted : ℕ) (index : ℤ) (hi lo : BitVec 64) :
    Highest :=
  (List.range x.length).foldl (Highest.round x shiftWanted) ⟨0, 0, index, hi, lo⟩

/-- The loop that finds the highest bit of `hiword`, with `e` rounds to go. -/
def hibitIndex : ℕ → BignumInt u → ℕ → ℕ
  | 0, _, hibit => hibit
  | e + 1, hiword, hibit =>
    let i := 1 <<< e
    let shiftedWord := hiword >>> i
    let indicator := ((-shiftedWord) >>> (BIGNUM_INT_BITS u - 1)).toNat
    hibitIndex e (select hiword shiftedWord indicator) (hibit + if indicator = 1 then i else 0)

def mpGetNbits (x : MpInt u) : ℕ :=
  let hiword64 : BitVec 64 := (~~~0 : BignumInt u).setWidth 64
  let highest := mpFindHighestNonzeroWordPair x 0 (-1) hiword64 0
  let hiword : BignumInt u := highest.hi.setWidth _
  (highest.index * BIGNUM_INT_BITS u + hibitIndex u hiword 0 + 1).toNat

/-! ## The wire format -/

/-- `mp_from_integer(0)` -/
def mpFromZero : MpInt u := List.replicate ((8 + BIGNUM_INT_BYTES u - 1) / BIGNUM_INT_BYTES u) 0

/-- `BinarySink_put_mp_ssh2` -/
def putMpSsh2 (x : MpInt u) : List UInt8 :=
  let bytes := (mpGetNbits x + 8) / 8
  putUint32 (UInt32.ofNat bytes) ++ (List.range bytes).reverse.map (mpGetByte x)

/-- `BinarySource_get_mp_ssh2` -/
def getMpSsh2 (src : BinarySource) : MpInt u × BinarySource :=
  match getString src with
  | (bytes, src) =>
    if src.err then (mpFromZero, src)
    else
      let p := fun i => bytes.getD i 0
      if bytes.length > 0 ∧ (p 0 &&& 0x80 ≠ 0 ∨
          (p 0 = 0 ∧ (bytes.length ≤ 1 ∨ ¬ p 1 &&& 0x80 ≠ 0))) then
        (mpFromZero, { src with err := true })
      else (mpFromBytesBe bytes, src)

example : putMpSsh2 (u := 5) [0x80] = [0, 0, 0, 2, 0, 0x80] := by decide

example : getMpSsh2 (u := 5) ⟨[0, 0, 0, 2, 0, 0x80, 7], false⟩ = ([0x80], ⟨[7], false⟩) := by decide

end PuttyNd.Mpint
