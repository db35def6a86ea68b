import Mathlib.Data.List.Flatten
import Mathlib.Data.Nat.Notation

/-!
# A list that is read in blocks of one size
-/

namespace Blocks

variable {α : Type} {l p : List α} {n i : ℕ}

/-- The `i`-th block -/
def block (n : ℕ) (l : List α) (i : ℕ) : List α := (l.drop (n * i)).take n

/-- The first blocks are together the beginning of the list. -/
theorem flatMap_block {count : ℕ} : (List.range count).flatMap (block n l) = l.take (n * count) := by
  induction count with
  | zero => rfl
  | succ count ih =>
    rw [List.range_succ, List.flatMap_append, ih, Nat.mul_succ, List.take_add]
    show _ ++ (block n l count ++ []) = _
    rw [List.append_nil]
    rfl

/-- A part of a block that is full, or that reaches the end of the list, is all of it. -/
theorem eq_block (h : p <+: block n l i) (hlen : p.length = n ∨ l.length ≤ n * i + p.length) :
    p = block n l i := by
  refine h.eq_of_length (Nat.le_antisymm h.length_le ?_)
  unfold block
  rw [List.length_take, List.length_drop]
  rcases hlen with hlen | hlen
  · rw [hlen]
    exact Nat.min_le_left _ _
  · omega

/-- What is read is the list, if there is no hole and if the end is reached. -/
theorem flatMap_eq {read : ℕ → List α} {count : ℕ} (h : ∀ j < count, read j <+: block n l j)
    (hfull : ∀ j < count, (read j).length = n ∨ l.length ≤ n * j + (read j).length)
    (hend : l.length ≤ n * count) : (List.range count).flatMap read = l := by
  have hread : (List.range count).flatMap read = (List.range count).flatMap (block n l) := by
    unfold List.flatMap
    refine congrArg List.flatten (List.map_congr_left ?_)
    intro j hj
    have hj := List.mem_range.mp hj
    exact eq_block (h j hj) (hfull j hj)
  rw [hread, flatMap_block, List.take_of_length_le hend]

end Blocks
