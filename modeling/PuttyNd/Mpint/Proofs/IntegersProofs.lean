import PuttyNd.Mpint.Bezout
import PuttyNd.Mpint.Proofs.TopBitsProofs
import Mathlib.Data.Int.ModEq

/-!
# Proofs: multiprecision integers and C integers

The words of a C integer are read from it by shifts. Where the test of a shift is against the number of
bytes of a word, only the lowest word is ever read.
-/

namespace PuttyNd.Mpint

open Words

variable {u nw : ℕ} {a x : MpInt u} {n : UInt64}

/-! ## The words of a C integer -/

theorem toNat_shifted (i : ℕ) :
    ((n.toBitVec >>> (i * BIGNUM_INT_BITS u)).setWidth (BIGNUM_INT_BITS u)).toNat =
      n.toNat / (2 ^ BIGNUM_INT_BITS u) ^ i % 2 ^ BIGNUM_INT_BITS u := by
  rw [BitVec.toNat_setWidth, BitVec.toNat_ushiftRight, Nat.shiftRight_eq_div_pow, ← pow_mul,
    Nat.mul_comm i]
  rfl

theorem toNat_integerWord (i : ℕ) : (integerWord n i : BignumInt u).toNat =
    n.toNat / (2 ^ BIGNUM_INT_BITS u) ^ i % 2 ^ BIGNUM_INT_BITS u := by
  unfold integerWord
  dsimp only
  by_cases h : i * BIGNUM_INT_BITS u < 64
  · rw [if_pos h, toNat_shifted]
  · have hlt : n.toNat < 2 ^ (BIGNUM_INT_BITS u * i) :=
      lt_of_lt_of_le n.toNat_lt (Nat.pow_le_pow_right (by omega) (by rw [Nat.mul_comm]; omega))
    rw [if_neg h, ← pow_mul, Nat.div_eq_of_lt hlt, Nat.zero_mod, toNat_zero]

theorem num_integerWord : num (2 ^ BIGNUM_INT_BITS u) (fun i => (integerWord n i : BignumInt u).toNat) nw =
    n.toNat % 2 ^ (BIGNUM_INT_BITS u * nw) := by
  simp only [toNat_integerWord]
  rw [num_digits, pow_mul]

/-- `mp_from_integer` has all words of the integer. -/
theorem val_mpFromInteger (hW : 8 ≤ BIGNUM_INT_BITS u) (hdvd : 8 ∣ BIGNUM_INT_BITS u) :
    val (mpFromInteger n : MpInt u) = n.toNat := by
  rw [mpFromInteger, val_map_range]
  simp only [toNat_shifted]
  rw [num_digits, ← pow_mul]
  refine Nat.mod_eq_of_lt (lt_of_lt_of_le n.toNat_lt (Nat.pow_le_pow_right (by omega) ?_))
  obtain ⟨bytes, hbytes⟩ := hdvd
  have hdiv : BIGNUM_INT_BYTES u = bytes := by
    rw [BIGNUM_INT_BYTES, hbytes, Nat.mul_div_cancel_left _ (by omega)]
  have hround := Nat.div_add_mod (8 + bytes - 1) bytes
  have hmod := Nat.mod_lt (8 + bytes - 1) (show 0 < bytes by omega)
  rw [hdiv, hbytes, Nat.mul_assoc]
  omega

/-- The words that `mp_add_masked_integer_into` reads -/
def addedWord (n : UInt64) (i : ℕ) : BignumInt u :=
  if i * BIGNUM_INT_BITS u < BIGNUM_INT_BYTES u then
    (n.toBitVec >>> (i * BIGNUM_INT_BITS u)).setWidth _
  else 0

/-- Only the lowest word of the integer is read. -/
theorem num_addedWord (hW : 8 ≤ BIGNUM_INT_BITS u) :
    num (2 ^ BIGNUM_INT_BITS u) (fun i => (addedWord n i : BignumInt u).toNat) nw =
      n.toNat % 2 ^ BIGNUM_INT_BITS u % 2 ^ (BIGNUM_INT_BITS u * nw) := by
  unfold addedWord
  have hbytes : 0 < BIGNUM_INT_BYTES u ∧ BIGNUM_INT_BYTES u ≤ BIGNUM_INT_BITS u :=
    ⟨Nat.div_pos hW (by omega), Nat.div_le_self _ _⟩
  have habove : ∀ i, ¬ (i + 1) * BIGNUM_INT_BITS u < BIGNUM_INT_BYTES u := by
    intro i
    have h := Nat.le_mul_of_pos_left (BIGNUM_INT_BITS u) (by omega : 0 < i + 1)
    omega
  cases nw with
  | zero => rw [num_zero, Nat.mul_zero, pow_zero, Nat.mod_one]
  | succ nw =>
    have hlow := toNat_shifted (u := u) (n := n) 0
    rw [num_succ', Nat.zero_mul, if_pos hbytes.1, num_eq_zero, Nat.mul_zero, Nat.add_zero]
    · rw [Nat.zero_mul, pow_zero, Nat.div_one] at hlow
      rw [hlow, Nat.mod_eq_of_lt (a := n.toNat % _)]
      refine lt_of_lt_of_le (Nat.mod_lt _ (Nat.two_pow_pos _)) (Nat.pow_le_pow_right (by omega) ?_)
      exact Nat.le_mul_of_pos_right _ (Nat.succ_pos nw)
    · intro i _
      rw [if_neg (habove i), toNat_zero]

/-! ## Adding and subtracting -/

/-- `mp_add_integer_into` is the case without a mask. -/
theorem mpAddIntegerInto_eq :
    mpAddIntegerInto nw a n = (mpAddMaskedIntegerInto nw a n (~~~0) 0 0).1 := by
  have hmask : ∀ x : BignumInt u, (x ^^^ 0) &&& ~~~0 = x := fun x => by
    rw [complement_zero, BitVec.and_allOnes]
    exact BitVec.xor_zero
  simp only [mpAddIntegerInto, mpAddMaskedIntegerInto, hmask]

/-- What is added is the lowest word of the integer. -/
theorem val_mpAddIntegerInto (hW : 8 ≤ BIGNUM_INT_BITS u) : val (mpAddIntegerInto nw a n) =
    (val a + n.toNat % 2 ^ BIGNUM_INT_BITS u) % 2 ^ (BIGNUM_INT_BITS u * nw) := by
  show val (addWords nw (mpWord a) (addedWord n) 0).1 = _
  rw [val_addWords, num_word, num_addedWord hW, toNat_zero, Nat.add_zero, ← Nat.add_mod]

theorem carryInto_congr {f g g' : ℕ → BignumInt u} {c : BignumInt u} {i : ℕ}
    (h : ∀ j < i, g j = g' j) : carryInto f g c i = carryInto f g' c i := by
  induction i with
  | zero => rfl
  | succ i ih =>
    unfold carryInto
    rw [ih fun j hj => h j (by omega), h i (Nat.lt_succ_self i)]

theorem addWords_congr {f g g' : ℕ → BignumInt u} {c : BignumInt u} (h : ∀ i < nw, g i = g' i) :
    addWords nw f g c = addWords nw f g' c := by
  unfold addWords
  refine Prod.ext (List.map_congr_left fun i hi => ?_) (carryInto_congr h)
  have hi := List.mem_range.mp hi
  rw [h i hi, carryInto_congr fun j hj => h j (by omega)]

/-- Adding complements of words is subtracting the number with these words. -/
theorem addWords_complement (g : ℕ → BignumInt u) : addWords nw (mpWord a) (fun i => ~~~g i) 1 =
    mpAddMaskedInto nw a ((List.range nw).map g) (~~~0) (~~~0) 1 := by
  refine addWords_congr fun i hi => ?_
  rw [mpWord, word_map_range, if_pos hi, complement_zero, BitVec.and_allOnes, BitVec.xor_allOnes]

/-- What is subtracted is the lowest word of the integer. -/
theorem val_mpSubIntegerInto (hW : 8 ≤ BIGNUM_INT_BITS u) : (val (mpSubIntegerInto nw a n) : ℤ) =
    ((val a : ℤ) - (n.toNat % 2 ^ BIGNUM_INT_BITS u : ℕ)) % (2 ^ (BIGNUM_INT_BITS u * nw) : ℕ) := by
  have hcomplement : ∀ x : BignumInt u, (x ^^^ ~~~0) &&& ~~~0 = ~~~x := fun x => by
    rw [complement_zero, BitVec.and_allOnes, BitVec.xor_allOnes]
  have hsub : mpSubIntegerInto nw a n = mpSubInto nw a ((List.range nw).map (addedWord n)) := by
    show (addWords nw (mpWord a) (fun i => (addedWord n i ^^^ ~~~0) &&& ~~~0) 1).1 = _
    simp only [hcomplement]
    rw [addWords_complement]
    rfl
  rw [hsub, val_mpSubInto, val_map_range, num_addedWord hW]
  push_cast
  rw [Int.sub_emod, Int.emod_emod_of_dvd _ (dvd_refl _), ← Int.sub_emod]

/-! ## Comparing -/

theorem mpHsInteger_spec : mpHsInteger x n =
    if n.toNat % 2 ^ (BIGNUM_INT_BITS u * x.length) ≤ val x then 1 else 0 := by
  have hcmp : mpHsInteger x n = mpCmpHs x ((List.range x.length).map (integerWord n)) := by
    rw [mpHsInteger, addWords_complement, mpCmpHs, List.length_map, List.length_range, Nat.max_self]
  rw [hcmp, mpCmpHs_spec, val_map_range, num_integerWord]

theorem mpEqInteger_spec (hu : 1 ≤ u ∧ u ≤ 6) : mpEqInteger x n =
    if n.toNat % 2 ^ (BIGNUM_INT_BITS u * x.length) = val x then 1 else 0 := by
  have hspec := normaliseTo1_spec (two_bits_le hu).1
    ((List.range x.length).foldl (fun diff i => diff ||| (mpWord x i ^^^ integerWord n i))
      (0 : BignumInt u))
  have hsame : (∀ i < x.length, mpWord x i ^^^ integerWord n i = 0) ↔
      n.toNat % 2 ^ (BIGNUM_INT_BITS u * x.length) = val x := by
    rw [← num_integerWord, ← num_word_of_le (le_refl x.length)]
    constructor
    · intro h
      refine num_congr fun i hi => ?_
      exact congrArg BitVec.toNat (BitVec.xor_eq_zero_iff.mp (h i hi)).symm
    · intro h i hi
      refine BitVec.xor_eq_zero_iff.mpr (BitVec.eq_of_toNat_eq ?_)
      exact (num_inj (fun _ _ => BitVec.isLt _) (fun _ _ => word_lt) h i hi).symm
  simp only [foldl_or_eq_zero, hsame] at hspec
  simp only [mpEqInteger, hspec]
  split <;> rfl

theorem mpCmpEq_spec (hu : 1 ≤ u ∧ u ≤ 6) (a b : MpInt u) :
    mpCmpEq a b = if val a = val b then 1 else 0 := by
  have hspec := normaliseTo1_spec (two_bits_le hu).1
    ((List.range (max a.length b.length)).foldl (fun diff i => diff ||| (mpWord a i ^^^ mpWord b i))
      (0 : BignumInt u))
  have hsame : (∀ i < max a.length b.length, mpWord a i ^^^ mpWord b i = 0) ↔ val a = val b := by
    rw [← num_word_of_le (le_max_left a.length b.length), ← num_word_of_le (le_max_right a.length b.length)]
    constructor
    · intro h
      refine num_congr fun i hi => ?_
      exact congrArg BitVec.toNat (BitVec.xor_eq_zero_iff.mp (h i hi))
    · intro h i hi
      refine BitVec.xor_eq_zero_iff.mpr (BitVec.eq_of_toNat_eq ?_)
      exact num_inj (fun _ _ => word_lt) (fun _ _ => word_lt) h i hi
  simp only [foldl_or_eq_zero, hsame] at hspec
  simp only [mpCmpEq, hspec]
  split <;> rfl

/-! ## Exactness -/

/-- `mp_add_integer_into` gives the sum, as far as it fits, as `mp_add_into` does. -/
def AddsExactly (nw : ℕ) (a : MpInt u) (n : UInt64) : Prop :=
  val (mpAddIntegerInto nw a n) = (val a + n.toNat) % 2 ^ (BIGNUM_INT_BITS u * nw) ∧
    mpAddIntegerInto nw a n = mpAddInto nw a (mpFromInteger n)

/-- `mp_sub_integer_into` gives the difference, as far as it fits, as `mp_sub_into` does. -/
def SubtractsExactly (nw : ℕ) (a : MpInt u) (n : UInt64) : Prop :=
  (val (mpSubIntegerInto nw a n) : ℤ) =
      ((val a : ℤ) - n.toNat) % (2 ^ (BIGNUM_INT_BITS u * nw) : ℕ) ∧
    mpSubIntegerInto nw a n = mpSubInto nw a (mpFromInteger n)

/-- All words of the integer that count are in its lowest one. -/
theorem low_word_iff (hu : u = 5 ∨ u = 6) :
    n.toNat % 2 ^ BIGNUM_INT_BITS u ≡ n.toNat [MOD 2 ^ (BIGNUM_INT_BITS u * nw)] ↔
      nw ≤ 1 ∨ n.toNat < 2 ^ BIGNUM_INT_BITS u := by
  have hn := n.toNat_lt
  constructor
  · intro hmod
    by_contra hnot
    obtain ⟨hnw, hlarge⟩ := not_or.mp hnot
    have h32 : u = 5 := by
      rcases hu with hu | hu
      · exact hu
      · rw [hu] at hlarge
        exact absurd hn hlarge
    have hbits : BIGNUM_INT_BITS u = 32 := h32 ▸ rfl
    rw [hbits] at hmod hlarge
    have hpow : 2 ^ 64 ≤ 2 ^ (32 * nw) := Nat.pow_le_pow_right (by omega) (by omega)
    have hlow : n.toNat % 2 ^ 32 < 2 ^ 32 := Nat.mod_lt _ (by omega)
    unfold Nat.ModEq at hmod
    rw [Nat.mod_eq_of_lt (show n.toNat < 2 ^ (32 * nw) by omega),
      Nat.mod_eq_of_lt (show n.toNat % 2 ^ 32 < 2 ^ (32 * nw) by omega)] at hmod
    omega
  · rintro (hnw | hsmall)
    · refine Nat.ModEq.of_dvd ?_ (Nat.mod_modEq n.toNat (2 ^ BIGNUM_INT_BITS u))
      refine pow_dvd_pow 2 ?_
      calc BIGNUM_INT_BITS u * nw ≤ BIGNUM_INT_BITS u * 1 := Nat.mul_le_mul_left _ hnw
        _ = BIGNUM_INT_BITS u := Nat.mul_one _
    · rw [Nat.mod_eq_of_lt hsmall]

theorem integer_bits (hu : u = 5 ∨ u = 6) : 8 ≤ BIGNUM_INT_BITS u ∧ 8 ∣ BIGNUM_INT_BITS u := by
  rcases hu with rfl | rfl <;> decide

theorem addsExactly_iff (hu : u = 5 ∨ u = 6) :
    AddsExactly nw a n ↔ nw ≤ 1 ∨ n.toNat < 2 ^ BIGNUM_INT_BITS u := by
  obtain ⟨hW, hdvd⟩ := integer_bits hu
  have hexact : AddsExactly nw a n ↔
      val (mpAddIntegerInto nw a n) = (val a + n.toNat) % 2 ^ (BIGNUM_INT_BITS u * nw) := by
    refine ⟨And.left, fun h => ⟨h, val_inj (by simp) ?_⟩⟩
    rw [h, val_mpAddInto, val_mpFromInteger hW hdvd]
  rw [hexact, val_mpAddIntegerInto hW, ← low_word_iff hu]
  exact Nat.ModEq.add_iff_left (Nat.ModEq.refl (val a))

theorem subtractsExactly_iff (hu : u = 5 ∨ u = 6) :
    SubtractsExactly nw a n ↔ nw ≤ 1 ∨ n.toNat < 2 ^ BIGNUM_INT_BITS u := by
  obtain ⟨hW, hdvd⟩ := integer_bits hu
  have hexact : SubtractsExactly nw a n ↔ (val (mpSubIntegerInto nw a n) : ℤ) =
      ((val a : ℤ) - n.toNat) % (2 ^ (BIGNUM_INT_BITS u * nw) : ℕ) := by
    refine ⟨And.left, fun h => ⟨h, val_inj (by simp) ?_⟩⟩
    have hinto := val_mpSubInto (n := nw) (a := a) (b := mpFromInteger n)
    rw [val_mpFromInteger hW hdvd, ← h] at hinto
    exact_mod_cast hinto.symm
  rw [hexact, val_mpSubIntegerInto hW, ← low_word_iff hu, ← Int.natCast_modEq_iff]
  constructor
  · intro h
    have h := Int.ModEq.sub_left (val a : ℤ) h
    rwa [sub_sub_cancel, sub_sub_cancel] at h
  · exact fun h => h.sub_left (val a)

/-- With words of 32 and of 64 bits, sums and differences are exact unless the integer has a second word
that would count; and the comparisons agree with those of the numbers unless the integer has words that
the number has not, and its other words decide otherwise. -/
theorem integers_iff (hu : u = 5 ∨ u = 6) (nw : ℕ) (a : MpInt u) (n : UInt64) :
    (AddsExactly nw a n ↔ nw ≤ 1 ∨ n.toNat < 2 ^ BIGNUM_INT_BITS u) ∧
    (SubtractsExactly nw a n ↔ nw ≤ 1 ∨ n.toNat < 2 ^ BIGNUM_INT_BITS u) ∧
    (mpHsInteger a n = (if n.toNat ≤ val a then 1 else 0) ↔
      n.toNat < 2 ^ (BIGNUM_INT_BITS u * a.length) ∨
        val a < n.toNat % 2 ^ (BIGNUM_INT_BITS u * a.length)) ∧
    (mpEqInteger a n = (if n.toNat = val a then 1 else 0) ↔
      n.toNat < 2 ^ (BIGNUM_INT_BITS u * a.length) ∨
        val a ≠ n.toNat % 2 ^ (BIGNUM_INT_BITS u * a.length)) := by
  have hlt := val_lt (l := a)
  refine ⟨addsExactly_iff hu, subtractsExactly_iff hu, ?_, ?_⟩
  · rw [mpHsInteger_spec]
    by_cases hn : n.toNat < 2 ^ (BIGNUM_INT_BITS u * a.length)
    · rw [Nat.mod_eq_of_lt hn]
      exact iff_of_true rfl (Or.inl hn)
    · rw [if_neg (show ¬ n.toNat ≤ val a by omega), or_iff_right hn]
      split_ifs with hle
      · exact iff_of_false (by decide) (by omega)
      · exact iff_of_true rfl (by omega)
  · rw [mpEqInteger_spec (by omega)]
    by_cases hn : n.toNat < 2 ^ (BIGNUM_INT_BITS u * a.length)
    · rw [Nat.mod_eq_of_lt hn]
      exact iff_of_true rfl (Or.inl hn)
    · rw [if_neg (show ¬ n.toNat = val a by omega), or_iff_right hn]
      split_ifs with heq
      · exact iff_of_false (by decide) (not_not.mpr heq.symm)
      · exact iff_of_true rfl (Ne.symm heq)

/-- Two words of 64 bits -/
theorem integers_iff_64 : AddsExactly 2 ([1, 2] : MpInt 6) (2 ^ 40) :=
  (integers_iff (Or.inr rfl) 2 [1, 2] (2 ^ 40)).1.mpr (Or.inr (by decide))

/-- With words of 32 bits, nothing is added when the low word of the integer is zero, and the number 0 is
found to be at least this integer and to be equal to it. -/
theorem second_word_lost : ¬ AddsExactly 2 ([0, 0] : MpInt 5) (2 ^ 32) ∧
    ¬ SubtractsExactly 2 ([0, 0] : MpInt 5) (2 ^ 32) ∧
    mpHsInteger ([0] : MpInt 5) (2 ^ 32) = 1 ∧ mpEqInteger ([0] : MpInt 5) (2 ^ 32) = 1 := by
  refine ⟨?_, ?_, ?_, ?_⟩
  · rw [addsExactly_iff (Or.inl rfl)]
    decide
  · rw [subtractsExactly_iff (Or.inl rfl)]
    decide
  · rw [mpHsInteger_spec]
    decide
  · rw [mpEqInteger_spec (by decide)]
    decide

end PuttyNd.Mpint
