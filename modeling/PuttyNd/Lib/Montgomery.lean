import Mathlib.Data.Int.ModEq
import Mathlib.Data.Nat.ModEq
import Mathlib.Data.Nat.GCD.Basic
import Mathlib.Tactic.LinearCombination
import Mathlib.Tactic.Ring
import Mathlib.Tactic.Linarith

/-!
# Montgomery arithmetic

Inverses modulo a power that doubles at each step, the reduction that divides by `R`, and numbers that
are kept multiplied by `R`.
-/

namespace Montgomery

/-! ## Inverses -/

/-- From an inverse of `x` modulo `B` to one modulo `B ^ 2`. -/
theorem inverse_double {B x r r1 : ℤ} (hinv : x * r ≡ 1 [ZMOD B])
    (hr1 : r1 ≡ -(r * (r * (x / B % B) + x % B * r / B)) [ZMOD B]) (hB : 1 < B) :
    x * (r + B * r1) ≡ 1 [ZMOD B * B] := by
  have hx : x = x % B + B * (x / B % B) + B * B * (x / B / B) := by
    have h1 := Int.emod_add_mul_ediv x B
    have h2 := Int.emod_add_mul_ediv (x / B) B
    linear_combination -h1 - B * h2
  have hlow : x % B * r = x % B * r / B * B + 1 := by
    have h1 : (x % B * r) % B = 1 := by
      rw [(((Int.mod_modEq x B).mul_right r).trans hinv).eq, Int.emod_eq_of_lt (by omega) hB]
    have h2 := Int.emod_add_mul_ediv (x % B * r) B
    linear_combination -h2 + h1
  obtain ⟨t, ht⟩ := hr1.dvd
  generalize x % B = x0 at *
  generalize x / B % B = x1 at *
  generalize x / B / B = x2 at *
  generalize x0 * r / B = K at *
  apply Int.ModEq.symm
  rw [Int.modEq_iff_dvd]
  refine ⟨x2 * (r + B * r1) + x1 * r1 - K * (r * x1 + K) - t * x0, ?_⟩
  linear_combination (r + B * r1) * hx + (1 - B * (r * x1 + K)) * hlow - B * x0 * ht

/-! ## Reduction -/

section Reduce

variable {R m minv x : ℕ}

/-- What is added to clear the lowest digits of `x`. -/
def adjust (R m minv x : ℕ) : ℕ := m * (x * minv % R)

/-- The reduced number, up to one subtraction of `m`. -/
def reduce (R m minv x : ℕ) : ℕ := (x + adjust R m minv x) / R

theorem adjust_lt (hR : 0 < R) (hm : 0 < m) : adjust R m minv x < m * R :=
  Nat.mul_lt_mul_of_pos_left (Nat.mod_lt _ hR) hm

theorem dvd_adjust (hminv : R ∣ m * minv + 1) : R ∣ x + adjust R m minv x := by
  have h1 : x + m * (x * minv % R) ≡ x + m * (x * minv) [MOD R] :=
    Nat.ModEq.add_left _ (Nat.ModEq.mul_left _ (Nat.mod_modEq _ _))
  have h2 : x + m * (x * minv) = x * (m * minv + 1) := by ring
  rw [h2] at h1
  exact (Nat.modEq_zero_iff_dvd.mp (h1.trans (Nat.modEq_zero_iff_dvd.mpr (hminv.mul_left x))))

theorem reduce_mul (hminv : R ∣ m * minv + 1) : reduce R m minv x * R = x + adjust R m minv x :=
  Nat.div_mul_cancel (dvd_adjust hminv)

theorem reduce_modEq (hminv : R ∣ m * minv + 1) : reduce R m minv x * R ≡ x [MOD m] := by
  rw [reduce_mul hminv]
  exact (Nat.ModEq.add_left x (Nat.modEq_zero_iff_dvd.mpr (Nat.dvd_mul_right m _))).trans (by rfl)

theorem reduce_lt (hR : 0 < R) (hm : 0 < m) (hx : x < m * R) : reduce R m minv x < 2 * m := by
  have h : adjust R m minv x < m * R := adjust_lt hR hm
  rw [reduce, Nat.div_lt_iff_lt_mul hR, Nat.mul_assoc]
  omega

/-- One conditional subtraction finishes the reduction. -/
theorem reduce_sub (hR : 0 < R) (hm : 0 < m) (hx : x < m * R) (hminv : R ∣ m * minv + 1) :
    (if m ≤ reduce R m minv x then reduce R m minv x - m else reduce R m minv x) < m ∧
    (if m ≤ reduce R m minv x then reduce R m minv x - m else reduce R m minv x) * R ≡ x [MOD m] := by
  have hlt : reduce R m minv x < 2 * m := reduce_lt hR hm hx
  have hmod := reduce_modEq (x := x) hminv
  split
  · rename_i hle
    constructor
    · omega
    · refine Nat.ModEq.trans ?_ hmod
      have h1 : reduce R m minv x * R = (reduce R m minv x - m) * R + m * R := by
        rw [← Nat.add_mul, Nat.sub_add_cancel hle]
      rw [h1]
      exact (Nat.ModEq.add_left _ (Nat.modEq_zero_iff_dvd.mpr (Nat.dvd_mul_right m R))).symm
  · exact ⟨by omega, hmod⟩

end Reduce

/-! ## Montgomery form -/

section Form

variable {R m a b x y q : ℕ}

/-- `x` stands for `a` modulo `m`. -/
def IsForm (R m a x : ℕ) : Prop := x = a * R % m

theorem IsForm.lt (h : IsForm R m a x) (hm : 0 < m) : x < m := by
  rw [h]
  exact Nat.mod_lt _ hm

theorem IsForm.modEq (h : IsForm R m a x) : x ≡ a * R [MOD m] := by
  rw [h]
  exact Nat.mod_modEq _ _

theorem isForm_of_modEq (hq : q < m) (h : q ≡ a * R [MOD m]) : IsForm R m a q := by
  rw [IsForm, ← Nat.mod_eq_of_lt hq]
  exact h

/-- The reduced product stands for the product. -/
theorem IsForm.mul (ha : IsForm R m a x) (hb : IsForm R m b y) (hcop : m.Coprime R) (hq : q < m)
    (h : q * R ≡ x * y [MOD m]) : IsForm R m (a * b) q := by
  apply isForm_of_modEq hq
  apply Nat.ModEq.cancel_right_of_coprime hcop
  have h1 : a * b * R * R = a * R * (b * R) := by ring
  rw [h1]
  exact h.trans (ha.modEq.mul hb.modEq)

/-- What the reduction gives back. -/
theorem IsForm.reduced (ha : IsForm R m a x) (hcop : m.Coprime R) (hq : q < m)
    (h : q * R ≡ x [MOD m]) : q = a % m := by
  rw [← Nat.mod_eq_of_lt hq]
  exact Nat.ModEq.cancel_right_of_coprime hcop (h.trans ha.modEq)

end Form

end Montgomery
