import PuttyNd.Mpint.Mpint
import Mathlib.Tactic.Ring
import Mathlib.Tactic.Linarith
import Mathlib.Tactic.IntervalCases
import Mathlib.Data.Nat.Bitwise

/-!
# Proofs: the elementary operations

What each operation does to the values of its operands.
-/

namespace PuttyNd.Mpint

open Words Outcome

variable {u : ℕ}

/-! ## Words -/

theorem bits_pos : 0 < BIGNUM_INT_BITS u := Nat.two_pow_pos u

theorem toNat_zero {w : ℕ} : (0 : BitVec w).toNat = 0 := by simp

theorem toNat_one {w : ℕ} (hw : 0 < w) : (1 : BitVec w).toNat = 1 := BitVec.toNat_one hw

theorem complement_zero {w : ℕ} : ~~~(0 : BitVec w) = BitVec.allOnes w := BitVec.not_zero

@[simp] theorem toNat_dbl (a : BignumInt u) : (dbl a).toNat = a.toNat := by
  have h := a.isLt
  have h1 : 2 ^ BIGNUM_INT_BITS u ≤ 2 ^ (2 * BIGNUM_INT_BITS u) :=
    Nat.pow_le_pow_right (by omega) (by omega)
  rw [dbl, BitVec.toNat_setWidth, Nat.mod_eq_of_lt (by omega)]

theorem halves_spec (t : BignumDblInt u) :
    (halves t).1.toNat + 2 ^ BIGNUM_INT_BITS u * (halves t).2.toNat = t.toNat := by
  have h := t.isLt
  have hhi : t.toNat / 2 ^ BIGNUM_INT_BITS u < 2 ^ BIGNUM_INT_BITS u := by
    rw [Nat.div_lt_iff_lt_mul (Nat.two_pow_pos _), ← pow_add]
    rwa [← Nat.two_mul]
  simp only [halves, BitVec.toNat_setWidth, BitVec.toNat_ushiftRight, Nat.shiftRight_eq_div_pow]
  rw [Nat.mod_eq_of_lt hhi]
  exact Nat.mod_add_div _ _

theorem two_pow_two_mul (n : ℕ) : 2 ^ (2 * n) = 2 ^ n * 2 ^ n := by
  rw [← pow_add, Nat.two_mul]

theorem bignumADC_spec (a b c : BignumInt u) :
    (bignumADC a b c).1.toNat + 2 ^ BIGNUM_INT_BITS u * (bignumADC a b c).2.toNat =
      a.toNat + b.toNat + c.toNat := by
  have ha := a.isLt
  have hb := b.isLt
  have hc := c.isLt
  have hfits : a.toNat + b.toNat + c.toNat < 2 ^ (2 * BIGNUM_INT_BITS u) := by
    rw [two_pow_two_mul]
    generalize 2 ^ BIGNUM_INT_BITS u = B at ha hb hc
    rcases Nat.lt_or_ge B 3 with h | h
    · interval_cases B <;> omega
    · nlinarith
  rw [bignumADC, halves_spec, BitVec.toNat_add, BitVec.toNat_add, toNat_dbl, toNat_dbl, toNat_dbl,
    Nat.mod_add_mod, Nat.mod_eq_of_lt hfits]

theorem bignumMULADD2_spec (a b c d : BignumInt u) :
    (bignumMULADD2 a b c d).1.toNat + 2 ^ BIGNUM_INT_BITS u * (bignumMULADD2 a b c d).2.toNat =
      a.toNat * b.toNat + c.toNat + d.toNat := by
  have ha := a.isLt
  have hb := b.isLt
  have hc := c.isLt
  have hd := d.isLt
  have hfits : a.toNat * b.toNat + c.toNat + d.toNat < 2 ^ (2 * BIGNUM_INT_BITS u) := by
    rw [two_pow_two_mul]
    nlinarith
  rw [bignumMULADD2, halves_spec, BitVec.toNat_add, BitVec.toNat_add, BitVec.toNat_mul, toNat_dbl,
    toNat_dbl, toNat_dbl, toNat_dbl, Nat.mod_add_mod, Nat.add_assoc (_ % _),
    Nat.mod_add_mod, ← Nat.add_assoc, Nat.mod_eq_of_lt hfits]

theorem select_spec {w : ℕ} (a b : BitVec w) (which : ℕ) :
    select a b which = if which % 2 = 1 then b else a := by
  have hand : 1 &&& which = which % 2 := by rw [Nat.and_comm, Nat.and_one_is_mod]
  unfold select
  rw [hand]
  rcases Nat.mod_two_eq_zero_or_one which with h | h
  · simp [h]
  · have hmask : -BitVec.ofNat w 1 = BitVec.allOnes w := BitVec.neg_one_eq_allOnes
    rw [h, hmask, BitVec.and_allOnes, if_pos rfl, BitVec.xor_comm b a, ← BitVec.xor_assoc,
      BitVec.xor_self, BitVec.zero_xor]

/-- Dropping the lowest bit of a word, but for the question whether there is one. -/
theorem normalised_lt {w : ℕ} (hw : 2 ≤ w) (n : BitVec w) :
    ((n >>> 1) ||| (n &&& 1)).toNat < 2 ^ (w - 1) := by
  have hpow : 2 ^ w = 2 * 2 ^ (w - 1) := by rw [← pow_succ']; congr 1; omega
  have hn := n.isLt
  have hone : (1 : BitVec w).toNat = 1 := toNat_one (by omega)
  rw [BitVec.toNat_or, BitVec.toNat_ushiftRight, BitVec.toNat_and, hone]
  apply Nat.or_lt_two_pow
  · rw [Nat.shiftRight_eq_div_pow]
    omega
  · rw [Nat.and_one_is_mod]
    have h2 : 2 ^ 1 ≤ 2 ^ (w - 1) := Nat.pow_le_pow_right (by omega) (by omega)
    omega

theorem normalised_eq_zero {w : ℕ} (hw : 2 ≤ w) (n : BitVec w) :
    (n >>> 1) ||| (n &&& 1) = 0 ↔ n = 0 := by
  constructor
  · intro h
    have h1 := BitVec.or_eq_zero_iff.mp h
    apply BitVec.eq_of_toNat_eq
    have h2 := congrArg BitVec.toNat h1.1
    have h3 := congrArg BitVec.toNat h1.2
    have hone : (1 : BitVec w).toNat = 1 := toNat_one (by omega)
    rw [BitVec.toNat_ushiftRight, Nat.shiftRight_eq_div_pow, BitVec.toNat_zero] at h2
    rw [BitVec.toNat_and, hone, Nat.and_one_is_mod, BitVec.toNat_zero] at h3
    rw [toNat_zero]
    omega
  · rintro rfl
    simp

/-- The top bit of the negation of a word without it. -/
theorem toNat_neg_top {w : ℕ} (hw : 1 ≤ w) {m : BitVec w} (hlt : m.toNat < 2 ^ (w - 1)) :
    ((-m) >>> (w - 1)).toNat = if m = 0 then 0 else 1 := by
  have hpow : 2 ^ w = 2 * 2 ^ (w - 1) := by rw [← pow_succ']; congr 1; omega
  by_cases h : m = 0
  · rw [if_pos h, h]
    simp
  · have hm : m.toNat ≠ 0 := fun hm => h (BitVec.eq_of_toNat_eq (by simpa using hm))
    rw [if_neg h, BitVec.toNat_ushiftRight, BitVec.toNat_neg, Nat.shiftRight_eq_div_pow,
      Nat.mod_eq_of_lt (by omega)]
    exact Nat.div_eq_of_lt_le (by omega) (by omega)

theorem normaliseTo1_spec {w : ℕ} (hw : 2 ≤ w) (n : BitVec w) :
    normaliseTo1 n = if n = 0 then 0 else 1 := by
  have h := toNat_neg_top (by omega) (normalised_lt hw n)
  simp only [normalised_eq_zero hw n] at h
  exact h

/-! ## Numbers as a whole -/

section Values

variable {a b x : MpInt u} {n nw : ℕ}

@[simp] theorem length_mpCopyInto : (mpCopyInto nw a).length = nw := by
  simp [mpCopyInto]

theorem val_mpCopyInto : val (mpCopyInto nw a) = val a % 2 ^ (BIGNUM_INT_BITS u * nw) := by
  rw [mpCopyInto, val_append, val_replicate, Nat.mul_zero, Nat.add_zero]
  by_cases h : nw ≤ a.length
  · rw [Nat.min_eq_left h, val_take]
  · rw [Nat.min_eq_right (by omega), List.take_length, Nat.mod_eq_of_lt]
    exact lt_of_lt_of_le val_lt (Nat.pow_le_pow_right (by omega)
      (Nat.mul_le_mul_left _ (by omega)))

@[simp] theorem length_mpSelectInto (which : ℕ) : (mpSelectInto nw a b which).length = nw := by
  simp [mpSelectInto]

theorem val_mpSelectInto (which : ℕ) : val (mpSelectInto nw a b which) =
    (if which % 2 = 1 then val b else val a) % 2 ^ (BIGNUM_INT_BITS u * nw) := by
  rw [mpSelectInto, val_map_range]
  simp only [select_spec]
  split <;> exact num_word

end Values

/-! ## Addition and subtraction -/

section Add

variable {a b : MpInt u} {f g : ℕ → BignumInt u} {c : BignumInt u} {n : ℕ}

/-- The loop adds. -/
theorem addWords_spec :
    val (addWords n f g c).1 + 2 ^ (BIGNUM_INT_BITS u * n) * (addWords n f g c).2.toNat =
      num (2 ^ BIGNUM_INT_BITS u) (fun i => (f i).toNat) n +
        num (2 ^ BIGNUM_INT_BITS u) (fun i => (g i).toNat) n + c.toNat := by
  have h := num_chain (B := 2 ^ BIGNUM_INT_BITS u) (n := n) (f := fun i => (f i).toNat + (g i).toNat)
    (g := fun i => (bignumADC (f i) (g i) (carryInto f g c i)).1.toNat)
    (c := fun i => (carryInto f g c i).toNat)
    (fun i _ => bignumADC_spec (f i) (g i) (carryInto f g c i))
  rw [num_add_fun] at h
  rw [addWords, val_map_range, pow_mul]
  exact h

/-- What is written is the sum, as far as it fits. -/
theorem val_addWords : val (addWords n f g c).1 =
    (num (2 ^ BIGNUM_INT_BITS u) (fun i => (f i).toNat) n +
      num (2 ^ BIGNUM_INT_BITS u) (fun i => (g i).toNat) n + c.toNat) %
        2 ^ (BIGNUM_INT_BITS u * n) := by
  have h := val_lt (l := (addWords n f g c).1)
  rw [length_addWords] at h
  rw [← addWords_spec, Nat.add_mul_mod_self_left, Nat.mod_eq_of_lt h]

theorem val_mpAddInto : val (mpAddInto n a b) = (val a + val b) % 2 ^ (BIGNUM_INT_BITS u * n) := by
  have hmask : ∀ i, (mpWord b i &&& ~~~0) ^^^ 0 = word b i := by
    intro i
    rw [complement_zero, BitVec.and_allOnes]
    exact BitVec.xor_zero
  rw [mpAddInto, mpAddMaskedInto, val_addWords]
  simp only [hmask, num_word, toNat_zero, Nat.add_zero]
  exact (Nat.add_mod _ _ _).symm

/-- The complement of each word. -/
theorem num_complement :
    num (2 ^ BIGNUM_INT_BITS u) (fun i => ((mpWord b i &&& ~~~0) ^^^ ~~~0).toNat) n +
      val b % 2 ^ (BIGNUM_INT_BITS u * n) + 1 = 2 ^ (BIGNUM_INT_BITS u * n) := by
  have hmask : ∀ i, ((mpWord b i &&& ~~~0) ^^^ ~~~0).toNat =
      2 ^ BIGNUM_INT_BITS u - 1 - (word b i).toNat := by
    intro i
    rw [complement_zero, BitVec.and_allOnes, BitVec.xor_allOnes, BitVec.toNat_not]
  simp only [hmask]
  rw [← num_word, pow_mul]
  exact num_compl fun _ _ => word_lt

theorem mpSubInto_spec : val (mpSubInto n a b) +
    2 ^ (BIGNUM_INT_BITS u * n) * (mpAddMaskedInto n a b (~~~0) (~~~0) 1).2.toNat +
      val b % 2 ^ (BIGNUM_INT_BITS u * n) =
    val a % 2 ^ (BIGNUM_INT_BITS u * n) + 2 ^ (BIGNUM_INT_BITS u * n) := by
  have h := addWords_spec (n := n) (f := mpWord a)
    (g := fun i => (mpWord b i &&& ~~~0) ^^^ ~~~0) (c := 1)
  have hc := num_complement (b := b) (n := n)
  rw [num_word, toNat_one bits_pos] at h
  have h1 : val (mpSubInto n a b) +
      2 ^ (BIGNUM_INT_BITS u * n) * (mpAddMaskedInto n a b (~~~0) (~~~0) 1).2.toNat =
      val a % 2 ^ (BIGNUM_INT_BITS u * n) +
        num (2 ^ BIGNUM_INT_BITS u) (fun i => ((mpWord b i &&& ~~~0) ^^^ ~~~0).toNat) n + 1 := h
  omega

/-- The difference, as far as it fits. -/
theorem val_mpSubInto : (val (mpSubInto n a b) : ℤ) =
    ((val a : ℤ) - val b) % (2 ^ (BIGNUM_INT_BITS u * n) : ℕ) := by
  have h := mpSubInto_spec (n := n) (a := a) (b := b)
  have hlt := val_lt (l := mpSubInto n a b)
  rw [length_mpSubInto] at hlt
  generalize 2 ^ (BIGNUM_INT_BITS u * n) = M at h hlt
  have ha := Nat.mod_add_div (val a) M
  have hb := Nat.mod_add_div (val b) M
  generalize val (mpSubInto n a b) = r at h hlt
  generalize (mpAddMaskedInto n a b (~~~0) (~~~0) 1).2.toNat = k at h
  zify at h ha hb
  have hr : (val a : ℤ) - val b = r + M * (val a / M - val b / M + k - 1) := by linarith
  rw [hr, Int.add_mul_emod_self_left, Int.emod_eq_of_lt (by omega) (by omega)]

/-- The difference, if it is not negative. -/
theorem val_mpSubInto_of_le (hle : val b ≤ val a) (ha : val a < 2 ^ (BIGNUM_INT_BITS u * n)) :
    val (mpSubInto n a b) = val a - val b := by
  have h := val_mpSubInto (n := n) (a := a) (b := b)
  rw [← Int.natCast_sub hle, ← Int.natCast_mod, Nat.mod_eq_of_lt (by omega)] at h
  exact_mod_cast h

theorem val_mpNegInto : (val (mpNegInto n a) : ℤ) =
    (-(val a : ℤ)) % (2 ^ (BIGNUM_INT_BITS u * n) : ℕ) := by
  rw [mpNegInto, val_mpSubInto, val_nil, Int.natCast_zero, Int.zero_sub]

/-- The comparison is the carry of a subtraction. -/
theorem mpCmpHs_spec : mpCmpHs a b = if val b ≤ val a then 1 else 0 := by
  have h := mpSubInto_spec (n := max a.length b.length) (a := a) (b := b)
  have hlt := val_lt (l := mpSubInto (max a.length b.length) a b)
  have ha : val a < 2 ^ (BIGNUM_INT_BITS u * max a.length b.length) :=
    lt_of_lt_of_le val_lt (Nat.pow_le_pow_right (by omega) (Nat.mul_le_mul_left _ (by omega)))
  have hb : val b < 2 ^ (BIGNUM_INT_BITS u * max a.length b.length) :=
    lt_of_lt_of_le val_lt (Nat.pow_le_pow_right (by omega) (Nat.mul_le_mul_left _ (by omega)))
  rw [Nat.mod_eq_of_lt ha, Nat.mod_eq_of_lt hb] at h
  rw [length_mpSubInto] at hlt
  unfold mpCmpHs
  generalize (mpAddMaskedInto (max a.length b.length) a b (~~~0) (~~~0) 1).2.toNat = carry at h ⊢
  generalize 2 ^ (BIGNUM_INT_BITS u * max a.length b.length) = M at h hlt ha hb
  rcases carry with _ | _ | carry
  · rw [if_neg (by omega)]
  · rw [if_pos (by omega)]
  · have : M * (carry + 1 + 1) = M * carry + M + M := by ring
    omega

theorem mpCondSubInto_one : mpCondSubInto n a b 1 = mpSubInto n a b := by
  have hmask : -BitVec.ofNat (BIGNUM_INT_BITS u) (1 &&& 1) = ~~~0 := by
    rw [complement_zero]
    exact BitVec.neg_one_eq_allOnes
  have hone : (1 : BignumInt u) &&& ~~~0 = 1 := by rw [complement_zero, BitVec.and_allOnes]
  simp only [mpCondSubInto, hmask, hone, mpSubInto]

theorem val_mpCondSubInto_zero :
    val (mpCondSubInto n a b 0) = val a % 2 ^ (BIGNUM_INT_BITS u * n) := by
  have hzero : ∀ i, ((mpWord b i &&& -BitVec.ofNat _ (0 &&& 1)) ^^^ -BitVec.ofNat _ (0 &&& 1)) = 0 := by
    intro i
    simp
  rw [mpCondSubInto, mpAddMaskedInto, val_addWords]
  simp only [hzero, num_word]
  rw [num_eq_zero fun i _ => toNat_zero]
  simp

/-- Subtracting `b` if it is not more than `a`. -/
theorem val_mpCondSubInto (ha : val a < 2 ^ (BIGNUM_INT_BITS u * n)) :
    val (mpCondSubInto n a b (mpCmpHs a b)) = if val b ≤ val a then val a - val b else val a := by
  rw [mpCmpHs_spec]
  split
  · rename_i hle
    rw [mpCondSubInto_one, val_mpSubInto_of_le hle ha]
  · rw [val_mpCondSubInto_zero, Nat.mod_eq_of_lt ha]

end Add

/-! ## Shifts -/

section Shift

variable {a x : MpInt u} {nw bits p : ℕ}

@[simp] theorem length_mpRshiftFixedInto : (mpRshiftFixedInto nw a bits).length = nw := by
  simp [mpRshiftFixedInto]

@[simp] theorem length_mpLshiftFixedInto : (mpLshiftFixedInto nw a bits).length = nw := by
  simp [mpLshiftFixedInto]

@[simp] theorem length_mpReduceMod2to : (mpReduceMod2to x p).length = x.length := by
  simp [mpReduceMod2to]

theorem val_mpRshiftFixedInto : val (mpRshiftFixedInto nw a bits) =
    val a / 2 ^ bits % 2 ^ (BIGNUM_INT_BITS u * nw) := by
  apply val_eq_of_bits
  · rw [length_mpRshiftFixedInto]
    exact Nat.mod_lt _ (Nat.two_pow_pos _)
  · intro i hi j hj
    rw [length_mpRshiftFixedInto] at hi
    have hbits := Nat.div_add_mod bits (BIGNUM_INT_BITS u)
    have hmod : bits % BIGNUM_INT_BITS u < BIGNUM_INT_BITS u := Nat.mod_lt _ bits_pos
    have hin : BIGNUM_INT_BITS u * i + j < BIGNUM_INT_BITS u * nw := by
      have h1 : BIGNUM_INT_BITS u * (i + 1) ≤ BIGNUM_INT_BITS u * nw := Nat.mul_le_mul_left _ hi
      rw [Nat.mul_add] at h1
      omega
    rw [mpRshiftFixedInto, word_map_range, if_pos hi, Nat.testBit_mod_two_pow, decide_eq_true hin,
      Bool.true_and, Nat.testBit_div_two_pow]
    generalize bits / BIGNUM_INT_BITS u = q at hbits ⊢
    generalize bits % BIGNUM_INT_BITS u = r at hbits hmod ⊢
    have hindex : BIGNUM_INT_BITS u * (i + q) + (r + j) = BIGNUM_INT_BITS u * i + j + bits := by
      rw [Nat.mul_add]
      omega
    by_cases hr : r = 0
    · rw [if_neg (by simpa using hr), getLsbD_word, decide_eq_true hj, Bool.true_and, ← hindex, hr,
        Nat.zero_add]
    · rw [if_pos hr, BitVec.getLsbD_or, BitVec.getLsbD_ushiftRight, BitVec.getLsbD_shiftLeft,
        getLsbD_word, getLsbD_word, hindex]
      by_cases hlow : r + j < BIGNUM_INT_BITS u
      · simp [hlow, hj, show j < BIGNUM_INT_BITS u - r by omega]
      · have hindex' : BIGNUM_INT_BITS u * (i + q + 1) + (j - (BIGNUM_INT_BITS u - r)) =
            BIGNUM_INT_BITS u * i + j + bits := by
          rw [Nat.mul_add, Nat.mul_one]
          omega
        rw [hindex']
        simp [hlow, hj, show ¬ j < BIGNUM_INT_BITS u - r by omega,
          show j - (BIGNUM_INT_BITS u - r) < BIGNUM_INT_BITS u by omega]

theorem val_mpLshiftFixedInto : val (mpLshiftFixedInto nw a bits) =
    val a * 2 ^ bits % 2 ^ (BIGNUM_INT_BITS u * nw) := by
  apply val_eq_of_bits
  · rw [length_mpLshiftFixedInto]
    exact Nat.mod_lt _ (Nat.two_pow_pos _)
  · intro i hi j hj
    rw [length_mpLshiftFixedInto] at hi
    have hbits := Nat.div_add_mod bits (BIGNUM_INT_BITS u)
    have hmod : bits % BIGNUM_INT_BITS u < BIGNUM_INT_BITS u := Nat.mod_lt _ bits_pos
    have hin : BIGNUM_INT_BITS u * i + j < BIGNUM_INT_BITS u * nw := by
      have h1 : BIGNUM_INT_BITS u * (i + 1) ≤ BIGNUM_INT_BITS u * nw := Nat.mul_le_mul_left _ hi
      rw [Nat.mul_add] at h1
      omega
    rw [mpLshiftFixedInto, word_map_range, if_pos hi, Nat.testBit_mod_two_pow, decide_eq_true hin,
      Bool.true_and, Nat.testBit_mul_two_pow]
    generalize bits / BIGNUM_INT_BITS u = q at hbits ⊢
    generalize bits % BIGNUM_INT_BITS u = r at hbits hmod ⊢
    by_cases hiq : i < q
    · have h1 : BIGNUM_INT_BITS u * (i + 1) ≤ BIGNUM_INT_BITS u * q := Nat.mul_le_mul_left _ hiq
      rw [Nat.mul_add] at h1
      rw [if_pos hiq]
      simp
      omega
    · obtain ⟨k, rfl⟩ := Nat.exists_eq_add_of_le (Nat.le_of_not_lt hiq)
      rw [Nat.mul_add, if_neg hiq, Nat.add_sub_cancel_left]
      by_cases hlow : j < r
      · rw [if_pos (by omega)]
        rcases k with _ | k
        · rw [if_neg (by omega)]
          simp [hlow]
          omega
        · have hindex : BIGNUM_INT_BITS u * q + BIGNUM_INT_BITS u * (k + 1) + j - bits =
              BIGNUM_INT_BITS u * k + (BIGNUM_INT_BITS u - r + j) := by
            rw [Nat.mul_add]
            omega
          have hge : bits ≤ BIGNUM_INT_BITS u * q + BIGNUM_INT_BITS u * (k + 1) + j := by
            rw [Nat.mul_add]
            omega
          rw [if_pos (by omega), Nat.add_sub_cancel, BitVec.getLsbD_or, BitVec.getLsbD_ushiftRight,
            getLsbD_word, BitVec.getLsbD_shiftLeft, hindex]
          simp [hlow, hge, show BIGNUM_INT_BITS u - r + j < BIGNUM_INT_BITS u by omega]
      · have hindex : BIGNUM_INT_BITS u * q + BIGNUM_INT_BITS u * k + j - bits =
            BIGNUM_INT_BITS u * k + (j - r) := by omega
        have hshift : ((mpWord a k) <<< r).getLsbD j =
            (val a).testBit (BIGNUM_INT_BITS u * k + (j - r)) := by
          rw [BitVec.getLsbD_shiftLeft, getLsbD_word]
          simp [hj, hlow, show j - r < BIGNUM_INT_BITS u by omega]
        rw [hindex, decide_eq_true (by omega), Bool.true_and]
        by_cases hr : r = 0
        · rw [if_neg (by simpa using hr), ← hshift, hr]
          simp
        · rw [if_pos hr]
          split
          · rw [BitVec.getLsbD_or, hshift, BitVec.getLsbD_ushiftRight, getLsbD_word]
            simp [show ¬ BIGNUM_INT_BITS u - r + j < BIGNUM_INT_BITS u by omega]
          · exact hshift

theorem getLsbD_mask {w r j : ℕ} (hr : r < w) :
    ((1 : BitVec w) <<< r - 1).getLsbD j = decide (j < r) := by
  have hlt : 2 ^ r < 2 ^ w := Nat.pow_lt_pow_right (by omega) hr
  have hone : (1 : BitVec w).toNat = 1 := toNat_one (by omega)
  have hshift : ((1 : BitVec w) <<< r).toNat = 2 ^ r := by
    rw [BitVec.toNat_shiftLeft, hone, Nat.shiftLeft_eq, Nat.one_mul, Nat.mod_eq_of_lt hlt]
  have hsub : ((1 : BitVec w) <<< r - 1).toNat = 2 ^ r - 1 := by
    rw [BitVec.toNat_sub_of_le, hshift, hone]
    rw [BitVec.le_def, hshift, hone]
    exact Nat.one_le_two_pow
  show ((1 : BitVec w) <<< r - 1).toNat.testBit j = _
  rw [hsub, Nat.testBit_two_pow_sub_one]

theorem val_mpReduceMod2to : val (mpReduceMod2to x p) = val x % 2 ^ p := by
  apply val_eq_of_bits
  · rw [length_mpReduceMod2to]
    exact lt_of_le_of_lt (Nat.mod_le _ _) val_lt
  · intro i hi j hj
    rw [length_mpReduceMod2to] at hi
    have hp := Nat.div_add_mod p (BIGNUM_INT_BITS u)
    have hmod : p % BIGNUM_INT_BITS u < BIGNUM_INT_BITS u := Nat.mod_lt _ bits_pos
    rw [mpReduceMod2to, word_map_range, if_pos hi, Nat.testBit_mod_two_pow]
    generalize p / BIGNUM_INT_BITS u = q at hp ⊢
    generalize p % BIGNUM_INT_BITS u = r at hp hmod ⊢
    have hword : (mpWord x i).getLsbD j = (val x).testBit (BIGNUM_INT_BITS u * i + j) := by
      rw [getLsbD_word, decide_eq_true hj, Bool.true_and]
    rcases Nat.lt_trichotomy i q with h | h | h
    · have h1 : BIGNUM_INT_BITS u * (i + 1) ≤ BIGNUM_INT_BITS u * q := Nat.mul_le_mul_left _ h
      rw [Nat.mul_add] at h1
      rw [if_pos h, hword, decide_eq_true (by omega), Bool.true_and]
    · subst h
      rw [if_neg (by omega), if_pos rfl, BitVec.getLsbD_and, getLsbD_mask hmod, hword, Bool.and_comm]
      congr 1
      simp
      omega
    · have h1 : BIGNUM_INT_BITS u * (q + 1) ≤ BIGNUM_INT_BITS u * i := Nat.mul_le_mul_left _ h
      rw [Nat.mul_add] at h1
      rw [if_neg (by omega), if_neg (by omega)]
      simp
      omega

end Shift

end PuttyNd.Mpint
