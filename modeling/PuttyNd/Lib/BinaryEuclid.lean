import Mathlib.Data.Nat.GCD.Basic
import Mathlib.Data.Int.GCD
import Mathlib.Logic.Function.Iterate
import Mathlib.Tactic.LinearCombination
import Mathlib.Tactic.Ring

/-!
# Euclid's algorithm with subtractions and halvings

Two coprime numbers are reduced to 0 and 1. What each step did is recorded; undoing the steps, the last
first, gives the coefficients of a linear combination of the two numbers that is 1. The coefficients are
kept as natural numbers, with opposite signs.
-/

namespace BinaryEuclid

/-- What a step does before it halves: a subtraction, and an exchange. -/
structure Move where
  bothOdd : Bool
  swap : Bool
deriving DecidableEq

/-- The move of a step: the larger of two odd numbers comes first, or else the even one. -/
def choose (p : ℕ × ℕ) : Move :=
  if p.1 % 2 = 1 ∧ p.2 % 2 = 1 then ⟨true, decide (p.1 ≤ p.2)⟩ else ⟨false, decide (p.1 % 2 = 1)⟩

def Move.sort (m : Move) (p : ℕ × ℕ) : ℕ × ℕ := if m.swap then p.swap else p

def reduceBy (m : Move) (p : ℕ × ℕ) : ℕ × ℕ :=
  ((if m.bothOdd then (m.sort p).1 - (m.sort p).2 else (m.sort p).1) / 2, (m.sort p).2)

/-- One step -/
def reduce (p : ℕ × ℕ) : ℕ × ℕ := reduceBy (choose p) p

/-- The numbers before a step -/
def Move.undo (m : Move) (p : ℕ × ℕ) : ℕ × ℕ := m.sort (2 * p.1 + (if m.bothOdd then p.2 else 0), p.2)

variable {p q : ℕ × ℕ} {m : Move} {n : ℕ}

@[simp] theorem sort_sort : m.sort (m.sort p) = p := by
  unfold Move.sort
  split <;> rfl

theorem sort_mul : (m.sort p).1 * (m.sort p).2 = p.1 * p.2 := by
  unfold Move.sort
  split
  · exact Nat.mul_comm _ _
  · rfl

theorem sort_coprime (h : p.1.Coprime p.2) : (m.sort p).1.Coprime (m.sort p).2 := by
  unfold Move.sort
  split
  · exact h.symm
  · exact h

theorem sort_le {k : ℕ} (h : p.1 ≤ k ∧ p.2 ≤ k) : (m.sort p).1 ≤ k ∧ (m.sort p).2 ≤ k := by
  unfold Move.sort
  split
  · exact h.symm
  · exact h

/-- The larger number before a step, before the numbers were sorted -/
theorem undo_le {k : ℕ} (h : (m.undo p).1 ≤ k ∧ (m.undo p).2 ≤ k) :
    2 * p.1 + (if m.bothOdd then p.2 else 0) ≤ k := by
  have hle := sort_le (m := m) h
  rw [Move.undo, sort_sort] at hle
  exact hle.1

/-- Two coprime numbers that have been sorted for a step -/
theorem sort_choose (h : p.1.Coprime p.2) : ((choose p).sort p).2 % 2 = 1 ∧
    (if (choose p).bothOdd then ((choose p).sort p).1 % 2 = 1 ∧ ((choose p).sort p).2 ≤ ((choose p).sort p).1
      else ((choose p).sort p).1 % 2 = 0) := by
  have hodd : p.1 % 2 = 1 ∨ p.2 % 2 = 1 := by
    by_contra hno
    have hdvd : 2 ∣ Nat.gcd p.1 p.2 := Nat.dvd_gcd (by omega) (by omega)
    rw [h] at hdvd
    omega
  unfold choose
  by_cases hboth : p.1 % 2 = 1 ∧ p.2 % 2 = 1
  · rw [if_pos hboth]
    by_cases hle : p.1 ≤ p.2
    · simp only [Move.sort, hle, decide_true, if_true]
      exact ⟨hboth.1, hboth.2, hle⟩
    · simp only [Move.sort, hle, decide_false, if_true]
      exact ⟨hboth.2, hboth.1, Nat.le_of_not_le hle⟩
  · rw [if_neg hboth]
    by_cases hfirst : p.1 % 2 = 1
    · simp only [Move.sort, hfirst, decide_true, if_true]
      refine ⟨hfirst, ?_⟩
      show p.2 % 2 = 0
      omega
    · simp only [Move.sort, hfirst, decide_false]
      show p.2 % 2 = 1 ∧ p.1 % 2 = 0
      omega

/-- Two numbers that have been sorted for a step, with or without a common factor -/
theorem sort_choose_even (p : ℕ × ℕ) : if (choose p).bothOdd then
    (((choose p).sort p).1 - ((choose p).sort p).2) % 2 = 0 ∧ ((choose p).sort p).2 ≤ ((choose p).sort p).1
      else ((choose p).sort p).1 % 2 = 0 := by
  unfold choose
  by_cases hboth : p.1 % 2 = 1 ∧ p.2 % 2 = 1
  · rw [if_pos hboth]
    by_cases hle : p.1 ≤ p.2
    · simp only [Move.sort, hle, decide_true, if_true]
      show (p.2 - p.1) % 2 = 0 ∧ p.1 ≤ p.2
      omega
    · simp only [Move.sort, hle, decide_false, if_true]
      show (p.1 - p.2) % 2 = 0 ∧ p.2 ≤ p.1
      omega
  · rw [if_neg hboth]
    by_cases hfirst : p.1 % 2 = 1
    · simp only [Move.sort, hfirst, decide_true, if_true]
      show p.2 % 2 = 0
      omega
    · simp only [Move.sort, hfirst, decide_false]
      show p.1 % 2 = 0
      omega

/-- Undoing a step -/
theorem undo_reduce (p : ℕ × ℕ) : (choose p).undo (reduce p) = p := by
  have hcases := sort_choose_even p
  have hback : (2 * (reduce p).1 + (if (choose p).bothOdd then (reduce p).2 else 0), (reduce p).2) =
      (choose p).sort p := by
    refine Prod.ext ?_ rfl
    unfold reduce reduceBy
    split_ifs at hcases ⊢ with hboth <;> dsimp only <;> omega
  rw [Move.undo, hback, sort_sort]

theorem reduce_odd (h : p.1.Coprime p.2) : (reduce p).2 % 2 = 1 := (sort_choose h).1

theorem reduce_coprime (h : p.1.Coprime p.2) : (reduce p).1.Coprime (reduce p).2 := by
  have hsorted := sort_coprime (m := choose p) h
  obtain ⟨hodd, hcases⟩ := sort_choose h
  unfold reduce reduceBy
  generalize (choose p).sort p = q at *
  dsimp only
  split_ifs at hcases ⊢ with hboth
  · have hsub : (q.1 - q.2).Coprime q.2 := (Nat.coprime_sub_self_left hcases.2).mpr hsorted
    exact hsub.coprime_dvd_left (Nat.div_dvd_of_dvd (by omega))
  · exact hsorted.coprime_dvd_left (Nat.div_dvd_of_dvd (by omega))

/-- Each step halves the product. -/
theorem reduce_mul : 2 * ((reduce p).1 * (reduce p).2) ≤ p.1 * p.2 := by
  rw [← sort_mul (m := choose p) (p := p)]
  unfold reduce reduceBy
  generalize (choose p).sort p = q
  dsimp only
  have hle : 2 * ((if (choose p).bothOdd then q.1 - q.2 else q.1) / 2) ≤ q.1 := by
    split <;> omega
  rw [← Nat.mul_assoc]
  exact Nat.mul_le_mul_right _ hle

theorem reduce_le {k : ℕ} (h : p.1 ≤ k ∧ p.2 ≤ k) : (reduce p).1 ≤ k ∧ (reduce p).2 ≤ k := by
  have hsorted := sort_le (m := choose p) h
  unfold reduce reduceBy
  generalize (choose p).sort p = q at *
  dsimp only
  refine ⟨?_, hsorted.2⟩
  split <;> omega

/-! ## Enough steps -/

theorem iterate_coprime (h : p.1.Coprime p.2) : (reduce^[n] p).1.Coprime (reduce^[n] p).2 := by
  induction n with
  | zero => exact h
  | succ n ih =>
    rw [Function.iterate_succ_apply']
    exact reduce_coprime ih

theorem iterate_le {k : ℕ} (h : p.1 ≤ k ∧ p.2 ≤ k) : (reduce^[n] p).1 ≤ k ∧ (reduce^[n] p).2 ≤ k := by
  induction n with
  | zero => exact h
  | succ n ih =>
    rw [Function.iterate_succ_apply']
    exact reduce_le ih

theorem iterate_pos (h : p.1.Coprime p.2) (hp : 0 < p.2) : 0 < (reduce^[n] p).2 := by
  cases n with
  | zero => exact hp
  | succ n =>
    rw [Function.iterate_succ_apply']
    have hodd := reduce_odd (iterate_coprime (n := n) h)
    omega

theorem iterate_mul : 2 ^ n * ((reduce^[n] p).1 * (reduce^[n] p).2) ≤ p.1 * p.2 := by
  induction n with
  | zero => rw [pow_zero, Nat.one_mul, Function.iterate_zero_apply]
  | succ n ih =>
    rw [Function.iterate_succ_apply', pow_succ, Nat.mul_assoc]
    exact (Nat.mul_le_mul_left _ reduce_mul).trans ih

/-- The numbers end up as 0 and 1. -/
theorem iterate_end (h : p.1.Coprime p.2) (hp : 0 < p.2) (hn : p.1 * p.2 < 2 ^ n) :
    reduce^[n] p = (0, 1) := by
  have hmul := iterate_mul (p := p) (n := n)
  have hpos := iterate_pos (n := n) h hp
  have hcop := iterate_coprime (n := n) h
  have hzero : (reduce^[n] p).1 * (reduce^[n] p).2 = 0 := by
    by_contra hne
    have hle := Nat.le_mul_of_pos_right (2 ^ n) (Nat.pos_of_ne_zero hne)
    omega
  have hfirst : (reduce^[n] p).1 = 0 := (Nat.mul_eq_zero.mp hzero).resolve_right hpos.ne'
  rw [hfirst, Nat.coprime_zero_left] at hcop
  exact Prod.ext hfirst hcop

/-! ## Coefficients -/

/-- The absolute values of the coefficients; the first is the positive one unless `minusOne` is set. -/
structure Coeffs where
  ac : ℕ
  bc : ℕ
  minusOne : Bool

/-- The coefficients for the numbers before a step; `p` are the numbers after it. -/
def Coeffs.undo (m : Move) (p : ℕ × ℕ) (c : Coeffs) : Coeffs :=
  let adjusted := if c.ac % 2 = 1 then (c.ac + p.2, c.bc + p.1) else (c.ac, c.bc)
  let ac := adjusted.1 / 2
  let bc := if m.bothOdd then adjusted.2 + ac else adjusted.2
  if m.swap then ⟨bc, ac, !c.minusOne⟩ else ⟨ac, bc, c.minusOne⟩

/-- The linear combination is 1, or -1 if `minusOne` is set. -/
def IsBezout (p : ℕ × ℕ) (c : Coeffs) : Prop :=
  (c.ac * p.1 : ℤ) - c.bc * p.2 = if c.minusOne then -1 else 1

/-- Neither coefficient exceeds the other number, but for the numbers 0 and 1 at the end. -/
structure Bounded (p : ℕ × ℕ) (c : Coeffs) : Prop where
  ac_le : c.ac ≤ p.2
  bc_le : c.bc ≤ max p.1 1
  zero : p.1 = 0 → c.ac = 0

variable {c : Coeffs}

theorem undo_isBezout (hodd : p.2 % 2 = 1) (h : IsBezout p c) : IsBezout (m.undo p) (c.undo m p) := by
  obtain ⟨a, b⟩ := p
  obtain ⟨bothOdd, swap⟩ := m
  obtain ⟨ac, bc, minusOne⟩ := c
  unfold IsBezout at *
  dsimp only at h hodd
  -- the adjusted coefficients are those of the same combination, and the first is even
  obtain ⟨ac', bc', hadjusted, hsame⟩ : ∃ ac' bc' : ℕ,
      (if ac % 2 = 1 then (ac + b, bc + a) else (ac, bc)) = (2 * ac', bc') ∧
        (2 * ac' * a : ℤ) - bc' * b = ac * a - bc * b := by
    split_ifs with hac
    · refine ⟨(ac + b) / 2, bc + a, by rw [Nat.mul_div_cancel' (by omega)], ?_⟩
      have heven : (2 * ((ac + b) / 2 : ℕ) : ℤ) = ac + b := by omega
      rw [heven]
      push_cast
      ring
    · refine ⟨ac / 2, bc, by rw [Nat.mul_div_cancel' (by omega)], ?_⟩
      have heven : (2 * (ac / 2 : ℕ) : ℤ) = ac := by omega
      rw [heven]
  have hhalf : 2 * ac' / 2 = ac' := by omega
  unfold Coeffs.undo Move.undo Move.sort
  simp only [hadjusted, hhalf]
  have hgoal : ∀ s : Bool, (if (!s) = true then (-1 : ℤ) else 1) = -(if s = true then -1 else 1) := by decide
  rw [← hsame] at h
  cases bothOdd <;> cases swap <;> simp only [Bool.false_eq_true, if_false, if_true, Prod.swap_prod_mk, hgoal, ← h] <;>
    push_cast <;> ring

theorem undo_bounded (hodd : p.2 % 2 = 1) (h : Bounded p c) (hpos : m.swap = true → 0 < (m.undo p).2) :
    Bounded (m.undo p) (c.undo m p) := by
  obtain ⟨a, b⟩ := p
  obtain ⟨bothOdd, swap⟩ := m
  obtain ⟨ac, bc, minusOne⟩ := c
  obtain ⟨hac, hbc, hzero⟩ := h
  dsimp only at hac hbc hzero hodd
  obtain ⟨x, bc', hadjusted, hhalf, hkeep, hsum, hzero'⟩ : ∃ x bc' : ℕ,
      (if ac % 2 = 1 then (ac + b, bc + a) else (ac, bc)) = (x, bc') ∧ x / 2 ≤ b ∧
        bc' ≤ max (2 * a) 1 ∧ bc' + x / 2 ≤ max (2 * a + b) 1 ∧ (a = 0 → x / 2 = 0) := by
    split_ifs with hodd'
    · exact ⟨ac + b, bc + a, rfl, by omega, by omega, by omega, by omega⟩
    · exact ⟨ac, bc, rfl, by omega, by omega, by omega, by omega⟩
  unfold Coeffs.undo Move.undo Move.sort at *
  simp only [hadjusted]
  cases bothOdd <;> cases swap <;>
    simp only [Bool.false_eq_true, if_false, if_true, Prod.swap_prod_mk, Nat.add_zero, true_implies] at hpos ⊢
  · exact ⟨hhalf, hkeep, fun h => hzero' (by omega)⟩
  · exact ⟨show bc' ≤ 2 * a by omega, show x / 2 ≤ max b 1 by omega, fun h => absurd h (by omega)⟩
  · exact ⟨hhalf, hsum, fun h => absurd h (by omega)⟩
  · exact ⟨show bc' + x / 2 ≤ 2 * a + b by omega, show x / 2 ≤ max b 1 by omega, fun h => absurd h (by omega)⟩

/-! ## Undoing all steps -/

/-- The coefficients are right for the numbers after `n` steps. -/
def IsUnwound (p : ℕ × ℕ) (n : ℕ) (c : Coeffs) : Prop :=
  IsBezout (reduce^[n] p) c ∧ Bounded (reduce^[n] p) c

theorem isUnwound_end (hend : reduce^[n] p = (0, 1)) : IsUnwound p n ⟨0, 1, true⟩ := by
  rw [IsUnwound, hend]
  exact ⟨rfl, by decide, by decide, fun _ => rfl⟩

theorem IsUnwound.undo (hcop : p.1.Coprime p.2) (hp : 0 < p.2) (h : IsUnwound p (n + 1) c) :
    IsUnwound p n (c.undo (choose (reduce^[n] p)) (reduce^[n + 1] p)) := by
  have hcop' := iterate_coprime (n := n) hcop
  have hback := undo_reduce (reduce^[n] p)
  obtain ⟨hbezout, hbounded⟩ := h
  rw [Function.iterate_succ_apply'] at hbezout hbounded ⊢
  have hodd := reduce_odd hcop'
  constructor
  · have hundo := undo_isBezout (m := choose (reduce^[n] p)) hodd hbezout
    rwa [hback] at hundo
  · have hundo := undo_bounded (m := choose (reduce^[n] p)) hodd hbounded fun _ => by
      rw [hback]
      exact iterate_pos hcop hp
    rwa [hback] at hundo

/-- The coefficients, with the first made positive -/
def Coeffs.positive (p : ℕ × ℕ) (c : Coeffs) : ℕ × ℕ :=
  if c.minusOne then (p.2 - c.ac, p.1 - c.bc) else (c.ac, c.bc)

/-- The coefficients are the least ones. -/
theorem positive_spec (ha : 1 ≤ p.1) (hb : 2 ≤ p.2) (h : IsUnwound p 0 c) :
    (c.positive p).1 * p.1 = (c.positive p).2 * p.2 + 1 ∧ (c.positive p).1 < p.2 ∧ (c.positive p).2 < p.1 := by
  obtain ⟨hbezout, hac, hbc, -⟩ := h
  rw [Function.iterate_zero_apply] at hbezout hac hbc
  obtain ⟨a, b⟩ := p
  obtain ⟨ac, bc, minusOne⟩ := c
  unfold IsBezout at hbezout
  unfold Coeffs.positive
  dsimp only at *
  rw [Nat.max_eq_left ha] at hbc
  cases minusOne <;> simp only [Bool.false_eq_true, if_false, if_true] at hbezout ⊢
  · have heq : ac * a = bc * b + 1 := by
      have hint : (ac * a : ℤ) = bc * b + 1 := by omega
      exact_mod_cast hint
    refine ⟨heq, lt_of_le_of_ne hac fun hne => ?_, lt_of_le_of_ne hbc fun hne => ?_⟩
    · rw [hne] at heq
      have hdvd : b ∣ 1 := (Nat.dvd_add_right (Nat.dvd_mul_left b bc)).mp (heq ▸ Nat.dvd_mul_right b a)
      exact absurd (Nat.le_of_dvd Nat.one_pos hdvd) (by omega)
    · have hle : ac * a ≤ b * a := Nat.mul_le_mul_right a hac
      rw [heq, hne, Nat.mul_comm] at hle
      omega
  · have heq : ac * a + 1 = bc * b := by
      have hint : (ac * a + 1 : ℤ) = bc * b := by omega
      exact_mod_cast hint
    obtain ⟨k, rfl⟩ := Nat.exists_eq_add_of_le hac
    obtain ⟨l, rfl⟩ := Nat.exists_eq_add_of_le hbc
    have hacpos : ac ≠ 0 := by
      rintro rfl
      have hdvd : 0 + k ∣ 1 := ⟨bc, by rw [Nat.mul_comm, ← heq]; omega⟩
      exact absurd (Nat.le_of_dvd Nat.one_pos hdvd) (by omega)
    have hbcpos : bc ≠ 0 := by
      rintro rfl
      omega
    rw [Nat.add_sub_cancel_left, Nat.add_sub_cancel_left]
    refine ⟨?_, by omega, by omega⟩
    rw [Nat.mul_add, Nat.mul_add] at heq ⊢
    rw [Nat.mul_comm k bc, Nat.mul_comm l ac, Nat.mul_comm l k]
    rw [Nat.mul_comm bc ac] at heq
    omega

end BinaryEuclid
