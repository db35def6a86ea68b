import Mathlib.Data.Nat.Notation
import Mathlib.Data.List.TakeWhile
import Mathlib.Data.UInt

/-!
# Limits on the data under one key (`psftp/sshbpp.h`, `psftp/utils.c`)

An `unsigned long` has `w` bits.
-/

namespace PuttyNd.Transport

variable {w : ℕ}

/-! ## `DataTransferStats` -/

/-- The direction of a packet, as this side sees it -/
inductive Direction where
  | «in» | out
deriving DecidableEq

structure DataTransferStatsDirection (w : ℕ) where
  running : Bool := false
  expired : Bool := false
  remaining : BitVec w := 0

def dtsConsume (s : DataTransferStatsDirection w) (sizeConsumed : BitVec w) :
    DataTransferStatsDirection w :=
  if s.running then
    if s.remaining ≤ sizeConsumed then { s with running := false, expired := true }
    else { s with remaining := s.remaining - sizeConsumed }
  else s

/-- `dts_reset`. A starting size of zero disables the limit. -/
def dtsReset (startingSize : BitVec w) : DataTransferStatsDirection w :=
  { expired := false, remaining := startingSize, running := startingSize ≠ 0 }

/-! ## `parse_blocksize` -/

def isspace (c : UInt8) : Bool := c = 32 || 9 ≤ c && c ≤ 13

def isdigit (c : UInt8) : Bool := 48 ≤ c && c ≤ 57

/-- The number that a text of decimal digits stands for -/
def decimal (digits : List UInt8) : ℕ := digits.foldl (fun n c => 10 * n + (c.toNat - 48)) 0

/-- `strtoul` in base ten: the value, and what is left of the text. A number that does not fit gives
`ULONG_MAX`. -/
def strtoul (w : ℕ) (s : List UInt8) : BitVec w × List UInt8 :=
  let t := s.dropWhile isspace
  let negative := t.head? = some 45
  let t := if t.head? = some 43 ∨ t.head? = some 45 then t.tail else t
  let digits := t.takeWhile isdigit
  if digits = [] then (0, s)
  else
    let value :=
      if 2 ^ w ≤ decimal digits then BitVec.allOnes w
      else if negative then -BitVec.ofNat w (decimal digits) else BitVec.ofNat w (decimal digits)
    (value, t.dropWhile isdigit)

def parseBlocksize (w : ℕ) (bs : List UInt8) : BitVec w :=
  let (r, suf) := strtoul w bs
  match (suf.dropWhile isspace).head? with
  | some 107 | some 75 => r * 1024
  | some 109 | some 77 => r * (1024 * 1024)
  | some 103 | some 71 => r * (1024 * 1024 * 1024)
  | _ => r

end PuttyNd.Transport
