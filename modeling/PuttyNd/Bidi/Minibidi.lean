import PuttyNd.Lib.Memory
import Mathlib.Data.List.Basic

/-!
# The reversal of levels (`putty/minibidi.c`)

The loops that look for a level, or for the end of a run, are given by the entries they pass. The outer loop of
`flipThisRun` goes on for as many rounds as there are entries at most.
-/

namespace PuttyNd.Bidi

open Memory

structure BidiChar where
  origwc : UInt32
  wc : UInt32
  index : UInt16
deriving DecidableEq, Repr, Inhabited

/-- The index of the next entry of the level, or the number of entries -/
def findIndexOfRun (level : List UInt8) (start tlevel : ℕ) : ℕ :=
  start + ((level.drop start).takeWhile fun l => tlevel != l.toNat).length

/-- `while (i < count && tlevel <= level[i]) i++` -/
def endOfRun (level : List UInt8) (i tlevel : ℕ) : ℕ :=
  i + ((level.drop i).takeWhile fun l => decide (tlevel ≤ l.toNat)).length

/-- `for (k = i - 1; k > j; k--, j++)`, with the `j` it ends with -/
def swapEnds (line : List BidiChar) (j k : ℕ) : List BidiChar × ℕ :=
  if j < k then
    swapEnds ((line.set k (line.getD j default)).set j (line.getD k default)) (j + 1) (k - 1)
  else (line, j)
termination_by k - j

/-- The loop of `flipThisRun` -/
def flipLoop (level : List UInt8) (max : ℕ) : ℕ → List BidiChar → ℕ → ℕ → Except Fault (List BidiChar)
  | 0, _, _, _ => .error .endlessLoop
  | rounds + 1, line, i, j =>
    if i < level.length ∧ j < level.length then
      let start := findIndexOfRun level i max
      let i := endOfRun level start max
      let swapped := swapEnds line start (i - 1)
      flipLoop level max rounds swapped.1 i swapped.2
    else .ok line

def flipThisRun (line : List BidiChar) (level : List UInt8) (max : ℕ) : Except Fault (List BidiChar) :=
  flipLoop level max (level.length + 1) line 0 0

/-! ## Rule L2 in `do_bidi` -/

/-- The maximum level -/
def tempType (levels : List UInt8) : ℕ :=
  levels.foldl (fun temp l => if l.toNat > temp then l.toNat else temp) (levels.headD 0).toNat

/-- `while (tempType > 0)` -/
def flipDown (levels : List UInt8) : ℕ → List BidiChar → Except Fault (List BidiChar)
  | 0, line => .ok line
  | t + 1, line => do
    let line ← flipThisRun line levels (t + 1)
    flipDown levels t line

def reverseLevels (levels : List UInt8) (line : List BidiChar) : Except Fault (List BidiChar) :=
  flipDown levels (tempType levels) line

end PuttyNd.Bidi
