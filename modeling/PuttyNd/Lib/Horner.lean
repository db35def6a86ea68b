import Mathlib.Algebra.Order.Ring.Int
import Mathlib.Tactic.Linarith
import Mathlib.Tactic.Ring

/-!
# Horner's rule in fixed point

A polynomial is the list of its coefficients, the lowest first. `positiveOn` applies Horner's rule to a lower bound,
and cuts the interval into halves where that bound is not good enough. An `Enclosure` is a pair of polynomials between which a
value stays that is computed with truncating shifts.
-/

namespace Horner

/-! ## Polynomials -/

/-- The value at `x` -/
def eval (x : ℤ) : List ℤ → ℤ
  | [] => 0
  | c :: cs => c + x * eval x cs

def addConst (c : ℤ) : List ℤ → List ℤ
  | [] => [c]
  | d :: ds => (c + d) :: ds

def neg (cs : List ℤ) : List ℤ := cs.map (- ·)

/-- `c + (a + x) * p`, where `p` has the coefficients that are given -/
def mulAdd (a c : ℤ) : List ℤ → List ℤ
  | [] => [c]
  | d :: ds => (c + a * d) :: mulAdd a d ds

/-- The polynomial at `a + x` -/
def shift (a : ℤ) : List ℤ → List ℤ
  | [] => []
  | c :: cs => mulAdd a c (shift a cs)

variable {x : ℤ}

@[simp] theorem eval_addConst (c : ℤ) (cs : List ℤ) : eval x (addConst c cs) = c + eval x cs := by
  cases cs with
  | nil => simp [addConst, eval]
  | cons d ds => simp only [addConst, eval, add_assoc]

@[simp] theorem eval_neg (cs : List ℤ) : eval x (neg cs) = -eval x cs := by
  induction cs with
  | nil => rfl
  | cons c cs ih =>
    calc eval x (neg (c :: cs)) = -c + x * eval x (neg cs) := rfl
      _ = -(c + x * eval x cs) := by rw [ih]; ring

theorem eval_mulAdd (a c : ℤ) (cs : List ℤ) : eval x (mulAdd a c cs) = c + (a + x) * eval x cs := by
  induction cs generalizing c with
  | nil => simp [mulAdd, eval]
  | cons d ds ih =>
    rw [mulAdd, eval, ih, eval]
    ring

theorem eval_shift (a : ℤ) (cs : List ℤ) : eval x (shift a cs) = eval (a + x) cs := by
  induction cs with
  | nil => rfl
  | cons c cs ih => rw [shift, eval_mulAdd, ih, eval]

/-! ## Positive polynomials -/

/-- A lower bound for the values from 0 to `h` -/
def lower (h : ℤ) : List ℤ → ℤ
  | [] => 0
  | c :: cs => c + min 0 (h * lower h cs)

theorem lower_le {h : ℤ} (hx : 0 ≤ x) (hxh : x ≤ h) (cs : List ℤ) : lower h cs ≤ eval x cs := by
  induction cs with
  | nil => exact le_refl 0
  | cons c cs ih =>
    have hmul : min 0 (h * lower h cs) ≤ x * eval x cs := by
      rcases le_total 0 (lower h cs) with hl | hl
      · exact min_le_of_left_le (mul_nonneg hx (hl.trans ih))
      · refine min_le_of_right_le ?_
        calc h * lower h cs ≤ x * lower h cs := mul_le_mul_of_nonpos_right hxh hl
          _ ≤ x * eval x cs := mul_le_mul_of_nonneg_left ih hx
    exact Int.add_le_add_left hmul c

/-- The polynomial is found positive from 0 to `2 ^ n`, at once or in the two halves. -/
def positiveOn : ℕ → List ℤ → Bool
  | 0, cs => 0 < lower 1 cs
  | n + 1, cs =>
    0 < lower (2 ^ (n + 1) : ℕ) cs || positiveOn n cs && positiveOn n (shift (2 ^ n : ℕ) cs)

theorem positiveOn_sound {n : ℕ} {cs : List ℤ} (hcs : positiveOn n cs = true) (hx : 0 ≤ x) (hxn : x ≤ (2 ^ n : ℕ)) :
    0 < eval x cs := by
  induction n generalizing x cs with
  | zero => exact lt_of_lt_of_le (of_decide_eq_true hcs) (lower_le hx hxn cs)
  | succ n ih =>
    rcases Bool.or_eq_true_iff.mp hcs with hwhole | hhalves
    · exact lt_of_lt_of_le (of_decide_eq_true hwhole) (lower_le hx hxn cs)
    · obtain ⟨hleft, hright⟩ := Bool.and_eq_true_iff.mp hhalves
      rcases le_total x (2 ^ n : ℕ) with hle | hle
      · exact ih hleft hx hle
      · have hpos := ih (x := x - (2 ^ n : ℕ)) hright (by omega) (by rw [pow_succ] at hxn; omega)
        rwa [eval_shift, add_sub_cancel] at hpos

/-! ## Truncated values -/

/-- Polynomials between which `r * 2 ^ scale` lies -/
structure Enclosure where
  lo : List ℤ
  hi : List ℤ
  scale : ℕ

namespace Enclosure

def Contains (b : Enclosure) (x r : ℕ) : Prop :=
  eval x b.lo ≤ r * 2 ^ b.scale ∧ r * 2 ^ b.scale ≤ eval x b.hi

/-- What becomes of the bounds when `r` becomes `c - r * x / 2 ^ s` -/
def step (b : Enclosure) (c s : ℕ) : Enclosure where
  lo := (c * 2 ^ (b.scale + s) : ℕ) :: neg b.hi
  hi := ((c + 1) * 2 ^ (b.scale + s) : ℕ) :: neg b.lo
  scale := b.scale + s

theorem Contains.step {b : Enclosure} {x r c s : ℕ} (h : b.Contains x r) (hpos : 0 < eval x (b.step c s).lo) :
    r * x / 2 ^ s ≤ c ∧ (b.step c s).Contains x (c - r * x / 2 ^ s) := by
  obtain ⟨q, hq⟩ : ∃ q, q = r * x / 2 ^ s := ⟨_, rfl⟩
  have hS : (0 : ℤ) < 2 ^ b.scale := by positivity
  have hs : (0 : ℤ) < 2 ^ s := by positivity
  have hqle : (q * 2 ^ s : ℤ) ≤ r * x := by
    exact_mod_cast hq ▸ Nat.div_mul_le_self (r * x) (2 ^ s)
  have hqlt : (r * x : ℤ) < (q + 1) * 2 ^ s := by
    have hlt : r * x < 2 ^ s * (q + 1) := hq ▸ Nat.lt_mul_div_succ (r * x) (Nat.two_pow_pos s)
    rw [mul_comm (q + 1 : ℤ)]
    exact_mod_cast hlt
  have hlow : x * (r * 2 ^ b.scale : ℤ) ≤ x * eval x b.hi := Int.mul_le_mul_of_nonneg_left h.2 (by omega)
  have hhigh : x * eval x b.lo ≤ x * (r * 2 ^ b.scale : ℤ) := Int.mul_le_mul_of_nonneg_left h.1 (by omega)
  have hqleS := Int.mul_le_mul_of_nonneg_right hqle hS.le
  have hqltS := Int.mul_lt_mul_of_pos_right hqlt hS
  have hlo : eval x (b.step c s).lo ≤ (c - q) * 2 ^ (b.scale + s) := by
    rw [Enclosure.step, eval, eval_neg]
    push_cast
    rw [pow_add]
    linarith
  have hqc : q ≤ c := by
    have hlt : (0 : ℤ) < (c - q) * 2 ^ (b.scale + s) := lt_of_lt_of_le hpos hlo
    have hcq : (0 : ℤ) < c - q := pos_of_mul_pos_left hlt (by positivity)
    omega
  rw [← hq]
  refine ⟨hqc, ?_, ?_⟩
  · rwa [Nat.cast_sub hqc]
  · rw [Nat.cast_sub hqc, Enclosure.step, eval, eval_neg]
    push_cast
    rw [pow_add]
    linarith

end Enclosure

end Horner
