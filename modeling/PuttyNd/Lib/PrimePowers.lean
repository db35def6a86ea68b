import Mathlib.FieldTheory.Finite.Basic
import Mathlib.Data.Nat.ChineseRemainder
import Mathlib.Tactic.Ring

/-!
# Powers modulo two primes

Exponents modulo a prime `p` may be reduced modulo `p - 1`, but for one case: where `p` divides the base, no power of
it but the one with the exponent 0 is coprime to `p`. Residues modulo two coprime numbers are put together by Garner's
formula.
-/

namespace PrimePowers

variable {p q b k e d : ℕ}

/-- The reduction of the exponent changes the power. -/
def Spoils (p b k : ℕ) : Prop := p ∣ b ∧ k ≠ 0 ∧ p - 1 ∣ k

theorem pow_mod_pred (hp : p.Prime) (hb : ¬ p ∣ b) (k : ℕ) : b ^ (k % (p - 1)) ≡ b ^ k [MOD p] := by
  have hcop : b.Coprime p := ((Nat.Prime.coprime_iff_not_dvd hp).mpr hb).symm
  have hone : b ^ (p - 1) ≡ 1 [MOD p] := Nat.totient_prime hp ▸ Nat.ModEq.pow_totient hcop
  calc b ^ (k % (p - 1)) = 1 ^ (k / (p - 1)) * b ^ (k % (p - 1)) := by rw [one_pow, one_mul]
    _ ≡ (b ^ (p - 1)) ^ (k / (p - 1)) * b ^ (k % (p - 1)) [MOD p] := ((hone.pow _).mul_right _).symm
    _ = b ^ k := by rw [← pow_mul, ← pow_add, Nat.div_add_mod]

theorem pow_modEq_zero (hb : p ∣ b) (hk : k ≠ 0) : b ^ k ≡ 0 [MOD p] :=
  (Nat.modEq_zero_iff_dvd).mpr (hb.trans (dvd_pow_self b hk))

/-- When the exponent may be reduced -/
theorem pow_mod_pred_iff (hp : p.Prime) : b ^ (k % (p - 1)) ≡ b ^ k [MOD p] ↔ ¬Spoils p b k := by
  by_cases hb : p ∣ b
  · by_cases hk : k = 0
    · subst hk
      exact iff_of_true (by rw [Nat.zero_mod]) fun h => h.2.1 rfl
    · have hzero : b ^ k ≡ 0 [MOD p] := pow_modEq_zero hb hk
      by_cases hdvd : p - 1 ∣ k
      · refine iff_of_false (fun h => ?_) (not_not.mpr ⟨hb, hk, hdvd⟩)
        rw [Nat.mod_eq_zero_of_dvd hdvd, pow_zero] at h
        have hone : p ∣ 1 := Nat.modEq_zero_iff_dvd.mp (h.trans hzero)
        exact hp.one_lt.ne' (Nat.dvd_one.mp hone)
      · refine iff_of_true ?_ fun h => hdvd h.2.2
        exact (pow_modEq_zero hb fun h => hdvd (Nat.dvd_of_mod_eq_zero h)).trans hzero.symm
  · exact iff_of_true (pow_mod_pred hp hb k) fun h => hb h.1

theorem not_dvd_of_mod (h : k % e = 1) : ¬ e ∣ k := fun hdvd =>
  Nat.zero_ne_one ((Nat.mod_eq_zero_of_dvd hdvd).symm.trans h)

/-- Exponents that are inverse to each other modulo `p - 1` undo each other. -/
theorem pow_inverse (hp : p.Prime) (h : e * d % (p - 1) = 1) (b : ℕ) : b ^ (e * d) ≡ b [MOD p] := by
  have hreduced := (pow_mod_pred_iff hp (b := b)).mpr fun hs : Spoils p b (e * d) => not_dvd_of_mod h hs.2.2
  rw [h, pow_one] at hreduced
  exact hreduced.symm

/-- The same modulo two primes -/
theorem pow_inverse_mul (hp : p.Prime) (hq : q.Prime) (hne : p ≠ q) (h : e * d % (p - 1) = 1)
    (h' : e * d % (q - 1) = 1) (b : ℕ) : b ^ (e * d) ≡ b [MOD p * q] :=
  (Nat.modEq_and_modEq_iff_modEq_mul ((Nat.coprime_primes hp hq).mpr hne)).mp
    ⟨pow_inverse hp h b, pow_inverse hq h' b⟩

/-- An exponent that has an inverse may be reduced. -/
theorem not_spoils (h : e * d % (p - 1) = 1) : ¬Spoils p b d := by
  rintro ⟨-, -, hdvd⟩
  exact not_dvd_of_mod h (hdvd.mul_left e)

/-- Residues of two coprime numbers determine that of the product. -/
theorem eq_mod_mul_iff {r x : ℕ} (hcop : p.Coprime q) (hr : r < p * q) :
    r = x % (p * q) ↔ r ≡ x [MOD p] ∧ r ≡ x [MOD q] := by
  rw [Nat.modEq_and_modEq_iff_modEq_mul hcop, Nat.ModEq, Nat.mod_eq_of_lt hr]

/-- Garner's formula: `x` modulo `p` and `y` modulo `q`, where `i` is the inverse of `q` modulo `p` -/
theorem garner {x y i diff : ℕ} (hi : i * q % p = 1 % p) (hdiff : diff + y ≡ x [MOD p]) :
    i * q * diff + y ≡ x [MOD p] ∧ i * q * diff + y ≡ y [MOD q] := by
  constructor
  · calc i * q * diff + y ≡ 1 * diff + y [MOD p] := (Nat.ModEq.mul_right diff hi).add_right y
      _ = diff + y := by rw [one_mul]
      _ ≡ x [MOD p] := hdiff
  · have hzero : i * q * diff ≡ 0 [MOD q] :=
      Nat.modEq_zero_iff_dvd.mpr ⟨i * diff, by ring⟩
    calc i * q * diff + y ≡ 0 + y [MOD q] := hzero.add_right y
      _ = y := Nat.zero_add y

end PrimePowers
