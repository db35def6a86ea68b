import Mathlib.Algebra.Ring.Parity
import Mathlib.Algebra.Ring.Commute
import Mathlib.Tactic.LinearCombination
import Mathlib.Tactic.Ring

/-!
# Square roots in a cyclic group

The order of the group is `2 ^ e * k` with an odd `k`. A candidate for the root of `x` is kept together with
the factor by which its square is off. The order of that factor is a power of 2, and each step at least
halves it, by a multiplication with a power of an element that is not a square.
-/

namespace SquareRoots

variable {F : Type*} [CommRing F]

/-- A candidate for the root, the factor by which its square is off, and what corrects the candidate. -/
structure State (F : Type*) where
  root : F
  rest : F
  power : F

/-- Step `i`. The factor is corrected if its order does not divide `2 ^ (e - 1 - i)`. -/
def step [DecidableEq F] (e i : ℕ) (s : State F) : State F :=
  if s.rest ^ 2 ^ (e - 1 - i) = 1 then ⟨s.root, s.rest, s.power ^ 2⟩
  else ⟨s.root * s.power, s.rest * s.power ^ 2, s.power ^ 2⟩

/-- The square of the candidate, before and after each step. -/
def IsCandidate (x : F) (s : State F) : Prop := s.root ^ 2 = x * s.rest

/-- The orders of the factor and of what corrects the candidate, before step `i`. -/
structure Halved (e i : ℕ) (s : State F) : Prop where
  rest : s.rest ^ 2 ^ (e - i) = 1
  power : s.power ^ 2 ^ (e - i) = -1

variable {e i : ℕ} {x : F} {s : State F}

theorem IsCandidate.step [DecidableEq F] (h : IsCandidate x s) : IsCandidate x (step e i s) := by
  unfold IsCandidate at h ⊢
  unfold SquareRoots.step
  split_ifs with hone
  · exact h
  · show (s.root * s.power) ^ 2 = x * (s.rest * s.power ^ 2)
    rw [mul_pow, h, mul_assoc]

theorem pow_sub_succ (a : F) (hi : i < e) : a ^ 2 ^ (e - i) = (a ^ 2) ^ 2 ^ (e - (i + 1)) := by
  rw [← pow_mul, ← pow_succ']
  congr 2
  omega

theorem Halved.step [IsDomain F] [DecidableEq F] (h : Halved e i s) (hi : i < e) : Halved e (i + 1) (step e i s) := by
  have hexp : e - 1 - i = e - (i + 1) := by omega
  have hpower : (s.power ^ 2) ^ 2 ^ (e - (i + 1)) = -1 := by rw [← pow_sub_succ _ hi, h.power]
  have hrest : (s.rest ^ 2 ^ (e - (i + 1))) ^ 2 = 1 := by
    rw [← pow_mul, mul_comm, pow_mul, ← pow_sub_succ _ hi, h.rest]
  unfold SquareRoots.step
  rw [hexp]
  split_ifs with hone
  · exact ⟨hone, hpower⟩
  · refine ⟨?_, hpower⟩
    have hneg := (sq_eq_one_iff.mp hrest).resolve_left hone
    show (s.rest * s.power ^ 2) ^ 2 ^ (e - (i + 1)) = 1
    rw [mul_pow, hneg, hpower, neg_mul_neg, one_mul]

/-- Once the order of the factor is 1, the candidate is a root. -/
theorem root_of_halved (hx : IsCandidate x s) (h : Halved e e s) : s.root ^ 2 = x := by
  have hrest := h.rest
  rw [Nat.sub_self, pow_zero, pow_one] at hrest
  rw [hx, hrest, mul_one]

end SquareRoots
