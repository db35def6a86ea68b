import PuttyNd.Mpint.Divide
import PuttyNd.Mpint.Proofs.MarshalProofs

/-!
# Proofs: the topmost bits of the denominator

`hibits:lobits` as one number of 128 bits, through the loops that fetch it and shift it.
-/

namespace PuttyNd.Mpint

open Words

variable {u : ℕ}

/-- `hibits:lobits` -/
def pairVal (hibits lobits : BitVec 64) : ℕ := hibits.toNat * 2 ^ 64 + lobits.toNat

theorem two_bits_le (hu : 1 ≤ u ∧ u ≤ 6) : 2 ≤ BIGNUM_INT_BITS u ∧ BIGNUM_INT_BITS u ≤ 64 := by
  constructor
  · calc 2 = 2 ^ 1 := rfl
      _ ≤ 2 ^ u := Nat.pow_le_pow_right (by omega) hu.1
  · calc 2 ^ u ≤ 2 ^ 6 := Nat.pow_le_pow_right (by omega) hu.2
      _ = 64 := rfl

/-! ## The comparison with zero -/

theorem foldl_or_eq_zero {w : ℕ} (f : ℕ → BitVec w) (n : ℕ) :
    (List.range n).foldl (fun diff i => diff ||| f i) 0 = 0 ↔ ∀ i < n, f i = 0 := by
  induction n with
  | zero => simp
  | succ n ih =>
    rw [List.range_succ, List.foldl_append, List.foldl_cons, List.foldl_nil]
    constructor
    · intro h i hi
      have h1 := BitVec.or_eq_zero_iff.mp h
      rcases Nat.lt_succ_iff_lt_or_eq.mp hi with hlt | rfl
      · exact ih.mp h1.1 i hlt
      · exact h1.2
    · intro h
      rw [ih.mpr fun i hi => h i (by omega), h n (by omega)]
      simp

theorem mpEqInteger_zero (hu : 1 ≤ u ∧ u ≤ 6) (x : MpInt u) :
    mpEqInteger x 0 = if val x = 0 then 1 else 0 := by
  have hword : ∀ i, (integerWord 0 i : BignumInt u) = 0 := by
    intro i
    simp [integerWord]
  have hxor : ∀ i, (mpWord x i ^^^ 0 : BignumInt u) = mpWord x i := fun i => BitVec.xor_zero
  have hzero : (∀ i < x.length, mpWord x i = 0) ↔ val x = 0 := by
    rw [val_eq_zero]
    constructor
    · intro h i
      rcases Nat.lt_or_ge i x.length with hi | hi
      · exact h i hi
      · exact word_of_le hi
    · intro h i _
      exact h i
  have hspec := normaliseTo1_spec (two_bits_le hu).1
    ((List.range x.length).foldl (fun diff i => diff ||| mpWord x i) (0 : BignumInt u))
  simp only [foldl_or_eq_zero, hzero] at hspec
  simp only [mpEqInteger, hword, hxor, hspec]
  split <;> rfl

/-! ## Shifts of the pair -/

theorem shiftPair_zero (sl : ℕ) (hibits lobits : BitVec 64) :
    shiftPair sl hibits lobits 0 = (hibits, lobits) := by
  simp [shiftPair, select_spec]

/-- A shift that loses nothing at the top. -/
theorem pairVal_shiftPair {sl : ℕ} {hibits : BitVec 64} (lobits : BitVec 64) (hsl : sl < 64)
    (hfits : hibits.toNat * 2 ^ sl < 2 ^ 64) :
    pairVal (shiftPair sl hibits lobits 1).1 (shiftPair sl hibits lobits 1).2 =
      pairVal hibits lobits * 2 ^ sl := by
  have hlo := lobits.isLt
  have hpow : (2 : ℕ) ^ 64 = 2 ^ (64 - sl) * 2 ^ sl := by
    rw [← pow_add]
    congr 1
    omega
  have hhigh : lobits.toNat / 2 ^ (64 - sl) < 2 ^ sl := by
    rw [Nat.div_lt_iff_lt_mul (Nat.two_pow_pos _), Nat.mul_comm, ← hpow]
    exact hlo
  have hlow : lobits.toNat * 2 ^ sl =
      lobits.toNat * 2 ^ sl % 2 ^ 64 + 2 ^ 64 * (lobits.toNat / 2 ^ (64 - sl)) := by
    have h1 : lobits.toNat * 2 ^ sl / 2 ^ 64 = lobits.toNat / 2 ^ (64 - sl) := by
      rw [hpow, Nat.mul_div_mul_right _ _ (Nat.two_pow_pos _)]
    rw [← h1, Nat.mod_add_div]
  simp only [shiftPair, select_spec, Nat.one_mod, if_true, pairVal, BitVec.toNat_or,
    BitVec.toNat_shiftLeft, BitVec.toNat_ushiftRight, Nat.shiftLeft_eq, Nat.shiftRight_eq_div_pow,
    Nat.mod_eq_of_lt hfits]
  rw [← Nat.shiftLeft_eq hibits.toNat, ← Nat.shiftLeft_add_eq_or_of_lt hhigh, Nat.shiftLeft_eq]
  linarith

/-! ## The loops -/

/-- The topmost bit is moved to the top. -/
theorem normaliseUp_spec {i : ℕ} (hi : i ≤ 6) {hibits lobits : BitVec 64} (shiftUp : ℕ)
    (hge : 2 ^ (128 - 2 ^ i) ≤ pairVal hibits lobits) :
    ∃ s < 2 ^ i, (normaliseUp i hibits lobits shiftUp).2.2 = shiftUp + s ∧
      pairVal (normaliseUp i hibits lobits shiftUp).1 (normaliseUp i hibits lobits shiftUp).2.1 =
        pairVal hibits lobits * 2 ^ s ∧
      2 ^ 127 ≤ pairVal hibits lobits * 2 ^ s := by
  induction i generalizing hibits lobits shiftUp with
  | zero => exact ⟨0, by simp, rfl, by simp [normaliseUp], by simpa using hge⟩
  | succ i ih =>
    have hpos : 0 < 2 ^ i := Nat.two_pow_pos i
    have hle : 2 ^ (i + 1) ≤ 2 ^ 6 := Nat.pow_le_pow_right (by omega) hi
    have hsl : 1 <<< i = 2 ^ i := by rw [Nat.shiftLeft_eq, Nat.one_mul]
    have hdouble : 2 ^ (i + 1) = 2 * 2 ^ i := pow_succ' 2 i
    rw [normaliseUp]
    simp only [hsl, normaliseTo1_spec (by omega : 2 ≤ 64)]
    by_cases hzero : hibits >>> (64 - 2 ^ i) = 0
    · have hlt : hibits.toNat < 2 ^ (64 - 2 ^ i) := by
        have h1 := congrArg BitVec.toNat hzero
        rw [BitVec.toNat_ushiftRight, Nat.shiftRight_eq_div_pow, toNat_zero,
          Nat.div_eq_zero_iff_lt (Nat.two_pow_pos _)] at h1
        exact h1
      have hfits : hibits.toNat * 2 ^ 2 ^ i < 2 ^ 64 := by
        have h1 : (2 : ℕ) ^ 64 = 2 ^ (64 - 2 ^ i) * 2 ^ 2 ^ i := by
          rw [← pow_add]
          congr 1
          omega
        rw [h1]
        exact Nat.mul_lt_mul_of_pos_right hlt (Nat.two_pow_pos _)
      have hshift := pairVal_shiftPair lobits (by omega : 2 ^ i < 64) hfits
      simp only [if_pos hzero, Nat.xor_zero, if_true]
      have hge' : 2 ^ (128 - 2 ^ i) ≤ pairVal (shiftPair (2 ^ i) hibits lobits 1).1
          (shiftPair (2 ^ i) hibits lobits 1).2 := by
        rw [hshift]
        calc 2 ^ (128 - 2 ^ i) = 2 ^ (128 - 2 ^ (i + 1)) * 2 ^ 2 ^ i := by
              rw [← pow_add]
              congr 1
              omega
          _ ≤ _ := Nat.mul_le_mul_right _ hge
      obtain ⟨s, hs, hup, hval, htop⟩ := ih (by omega) (shiftUp + 2 ^ i) hge'
      refine ⟨2 ^ i + s, by omega, by rw [hup, Nat.add_assoc], ?_, ?_⟩
      · rw [hval, hshift, pow_add, Nat.mul_assoc]
      · rw [hshift, Nat.mul_assoc, ← pow_add] at htop
        exact htop
    · have hge' : 2 ^ (128 - 2 ^ i) ≤ pairVal hibits lobits := by
        have h1 : 2 ^ (64 - 2 ^ i) ≤ hibits.toNat := by
          by_contra hlt
          apply hzero
          apply BitVec.eq_of_toNat_eq
          rw [BitVec.toNat_ushiftRight, Nat.shiftRight_eq_div_pow, toNat_zero,
            Nat.div_eq_zero_iff_lt (Nat.two_pow_pos _)]
          omega
        calc 2 ^ (128 - 2 ^ i) = 2 ^ (64 - 2 ^ i) * 2 ^ 64 := by
              rw [← pow_add]
              congr 1
              omega
          _ ≤ hibits.toNat * 2 ^ 64 := Nat.mul_le_mul_right _ h1
          _ ≤ _ := Nat.le_add_right _ _
      simp only [if_neg hzero, Nat.xor_self, shiftPair_zero, zero_ne_one, if_false]
      obtain ⟨s, hs, h⟩ := ih (by omega) shiftUp hge'
      exact ⟨s, by omega, h⟩

/-- The pair is shifted up by `shiftUp` bits. -/
theorem shiftUpBy_spec {i shiftUp : ℕ} (hi : i ≤ 6) {hibits lobits : BitVec 64}
    (hfits : pairVal hibits lobits * 2 ^ (shiftUp % 2 ^ i) < 2 ^ 128) :
    pairVal (shiftUpBy shiftUp i hibits lobits).1 (shiftUpBy shiftUp i hibits lobits).2 =
      pairVal hibits lobits * 2 ^ (shiftUp % 2 ^ i) := by
  induction i generalizing hibits lobits with
  | zero => simp [shiftUpBy, Nat.mod_one]
  | succ i ih =>
    have hle : 2 ^ (i + 1) ≤ 2 ^ 6 := Nat.pow_le_pow_right (by omega) hi
    have hdouble : 2 ^ (i + 1) = 2 * 2 ^ i := pow_succ' 2 i
    have hpos : 0 < 2 ^ i := Nat.two_pow_pos i
    have hsl : 1 <<< i = 2 ^ i := by rw [Nat.shiftLeft_eq, Nat.one_mul]
    have hbit : 1 &&& (shiftUp >>> i) = shiftUp / 2 ^ i % 2 := by
      rw [Nat.and_comm, Nat.and_one_is_mod, Nat.shiftRight_eq_div_pow]
    rw [Nat.mod_pow_succ] at hfits ⊢
    rw [shiftUpBy]
    simp only [hsl, hbit]
    rcases Nat.mod_two_eq_zero_or_one (shiftUp / 2 ^ i) with h | h
    · rw [h, Nat.mul_zero, Nat.add_zero] at hfits ⊢
      rw [shiftPair_zero]
      exact ih (by omega) hfits
    · rw [h, Nat.mul_one, pow_add] at hfits ⊢
      have hlow : 1 ≤ 2 ^ (shiftUp % 2 ^ i) := Nat.one_le_two_pow
      have hfits' : hibits.toNat * 2 ^ 2 ^ i < 2 ^ 64 := by
        have h1 : hibits.toNat * 2 ^ 64 * 2 ^ 2 ^ i < 2 ^ 64 * 2 ^ 64 := by
          calc hibits.toNat * 2 ^ 64 * 2 ^ 2 ^ i ≤ pairVal hibits lobits * 2 ^ 2 ^ i :=
                Nat.mul_le_mul_right _ (Nat.le_add_right _ _)
            _ ≤ pairVal hibits lobits * (2 ^ (shiftUp % 2 ^ i) * 2 ^ 2 ^ i) :=
                Nat.mul_le_mul_left _ (Nat.le_mul_of_pos_left _ hlow)
            _ < 2 ^ 64 * 2 ^ 64 := hfits
        rw [Nat.mul_right_comm] at h1
        exact lt_of_mul_lt_mul_right h1 (by omega)
      have hshift := pairVal_shiftPair lobits (by omega : 2 ^ i < 64) hfits'
      have hcomm : pairVal hibits lobits * (2 ^ (shiftUp % 2 ^ i) * 2 ^ 2 ^ i) =
          pairVal hibits lobits * 2 ^ 2 ^ i * 2 ^ (shiftUp % 2 ^ i) := by ring
      rw [hcomm] at hfits ⊢
      rw [← hshift] at hfits ⊢
      exact ih (by omega) hfits

/-! ## The highest words -/

section Top

variable {x : MpInt u} {n h : ℕ}

/-- The loop of `mp_find_highest_nonzero_word_pair` after `n` rounds. -/
def highestAfter (x : MpInt u) (shiftWanted n : ℕ) : Highest :=
  (List.range n).foldl (Highest.round x shiftWanted) ⟨0, 0, 0, 0, 0⟩

theorem highestAfter_succ (x : MpInt u) (shiftWanted n : ℕ) :
    highestAfter x shiftWanted (n + 1) = (highestAfter x shiftWanted n).round x shiftWanted n := by
  rw [highestAfter, List.range_succ, List.foldl_append]
  rfl

/-- What is kept is what was there when the highest word was read. -/
theorem highestAfter_kept (hu : 1 ≤ u ∧ u ≤ 6) (shiftWanted : ℕ) (hh : IsHighest x n h) :
    (highestAfter x shiftWanted n).index = h ∧
      (highestAfter x shiftWanted n).hi = (highestAfter x shiftWanted (h + 1)).currHi ∧
      (highestAfter x shiftWanted n).lo = (highestAfter x shiftWanted (h + 1)).currLo := by
  have hbits := (two_bits_le hu).1
  induction n with
  | zero => exact absurd hh.1 (by omega)
  | succ n ih =>
    have hround := highestAfter_succ x shiftWanted n
    generalize highestAfter x shiftWanted n = s at ih hround
    by_cases hn : word x n = 0
    · have hhn : IsHighest x n h := by
        refine ⟨?_, hh.2.1, fun i hi hin => hh.2.2 i hi (by omega)⟩
        rcases Nat.lt_succ_iff_lt_or_eq.mp hh.1 with hlt | rfl
        · exact hlt
        · exact absurd hn hh.2.1
      rw [hround]
      simp only [Highest.round, normaliseTo1_spec hbits, select_spec, if_pos hn]
      exact ih hhn
    · obtain rfl : h = n := hh.unique ⟨by omega, hn, fun i hi hin => by omega⟩
      rw [hround]
      simp only [Highest.round, normaliseTo1_spec hbits, select_spec, if_neg hn, if_true, Nat.one_mod]
      exact ⟨trivial, trivial, trivial⟩

/-- The code does not shift by the width of the type. -/
theorem toNat_shiftOut {w : ℕ} (hw : w ≤ 64) (x : BitVec 64) :
    (if w < 64 then x >>> w else 0).toNat = x.toNat / 2 ^ w := by
  split
  · rw [BitVec.toNat_ushiftRight, Nat.shiftRight_eq_div_pow]
  · obtain rfl : w = 64 := by omega
    rw [Nat.div_eq_of_lt x.isLt]
    rfl

/-- One round shifts the pair down by a word, and puts the next word in at the top. -/
theorem pairVal_round (hu : 1 ≤ u ∧ u ≤ 6) (s : Highest) (i : ℕ) :
    pairVal (s.round x (64 - BIGNUM_INT_BITS u) i).currHi
        (s.round x (64 - BIGNUM_INT_BITS u) i).currLo =
      pairVal s.currHi s.currLo / 2 ^ BIGNUM_INT_BITS u +
        (word x i).toNat * 2 ^ (128 - BIGNUM_INT_BITS u) := by
  have hle := (two_bits_le hu).2
  have hword := word_lt (l := x) (i := i)
  have hpow : (2 : ℕ) ^ 64 = 2 ^ BIGNUM_INT_BITS u * 2 ^ (64 - BIGNUM_INT_BITS u) := by
    rw [← pow_add]
    congr 1
    omega
  have hpow' : (2 : ℕ) ^ (128 - BIGNUM_INT_BITS u) = 2 ^ (64 - BIGNUM_INT_BITS u) * 2 ^ 64 := by
    rw [← pow_add]
    congr 1
    omega
  have hset : ((word x i).setWidth 64).toNat = (word x i).toNat := by
    rw [BitVec.toNat_setWidth, Nat.mod_eq_of_lt]
    exact lt_of_lt_of_le hword (Nat.pow_le_pow_right (by omega) hle)
  have hhi : (s.round x (64 - BIGNUM_INT_BITS u) i).currHi.toNat =
      s.currHi.toNat / 2 ^ BIGNUM_INT_BITS u + (word x i).toNat * 2 ^ (64 - BIGNUM_INT_BITS u) := by
    have hlt : s.currHi.toNat / 2 ^ BIGNUM_INT_BITS u < 2 ^ (64 - BIGNUM_INT_BITS u) := by
      rw [Nat.div_lt_iff_lt_mul (Nat.two_pow_pos _), Nat.mul_comm, ← hpow]
      exact s.currHi.isLt
    have hfits : (word x i).toNat * 2 ^ (64 - BIGNUM_INT_BITS u) < 2 ^ 64 := by
      rw [hpow]
      exact Nat.mul_lt_mul_of_pos_right hword (Nat.two_pow_pos _)
    simp only [Highest.round]
    rw [BitVec.toNat_or, toNat_shiftOut hle, BitVec.toNat_shiftLeft, hset, Nat.shiftLeft_eq,
      Nat.mod_eq_of_lt hfits, Nat.or_comm, ← Nat.shiftLeft_eq, ← Nat.shiftLeft_add_eq_or_of_lt hlt,
      Nat.shiftLeft_eq, Nat.add_comm]
  have hlo : (s.round x (64 - BIGNUM_INT_BITS u) i).currLo.toNat =
      s.currLo.toNat / 2 ^ BIGNUM_INT_BITS u +
        s.currHi.toNat % 2 ^ BIGNUM_INT_BITS u * 2 ^ (64 - BIGNUM_INT_BITS u) := by
    have hlt : s.currLo.toNat / 2 ^ BIGNUM_INT_BITS u < 2 ^ (64 - BIGNUM_INT_BITS u) := by
      rw [Nat.div_lt_iff_lt_mul (Nat.two_pow_pos _), Nat.mul_comm, ← hpow]
      exact s.currLo.isLt
    simp only [Highest.round]
    rw [BitVec.toNat_or, toNat_shiftOut hle, BitVec.toNat_shiftLeft, Nat.shiftLeft_eq, hpow,
      Nat.mul_mod_mul_right, Nat.or_comm, ← Nat.shiftLeft_eq, ← Nat.shiftLeft_add_eq_or_of_lt hlt,
      Nat.shiftLeft_eq, Nat.add_comm]
  have hsplit : pairVal s.currHi s.currLo = s.currLo.toNat +
      2 ^ BIGNUM_INT_BITS u * (s.currHi.toNat / 2 ^ BIGNUM_INT_BITS u * 2 ^ 64 +
        s.currHi.toNat % 2 ^ BIGNUM_INT_BITS u * 2 ^ (64 - BIGNUM_INT_BITS u)) := by
    have h1 := Nat.div_add_mod s.currHi.toNat (2 ^ BIGNUM_INT_BITS u)
    calc pairVal s.currHi s.currLo
        = (2 ^ BIGNUM_INT_BITS u * (s.currHi.toNat / 2 ^ BIGNUM_INT_BITS u) +
            s.currHi.toNat % 2 ^ BIGNUM_INT_BITS u) * 2 ^ 64 + s.currLo.toNat := by rw [h1, pairVal]
      _ = s.currLo.toNat + (2 ^ BIGNUM_INT_BITS u * (s.currHi.toNat / 2 ^ BIGNUM_INT_BITS u * 2 ^ 64) +
            s.currHi.toNat % 2 ^ BIGNUM_INT_BITS u * 2 ^ 64) := by ring
      _ = _ := by
        rw [hpow]
        ring
  rw [hsplit, Nat.add_mul_div_left _ _ (Nat.two_pow_pos _), pairVal, hhi, hlo, hpow']
  ring

/-- The words go through the pair from the top. -/
theorem pairVal_highestAfter (hu : 1 ≤ u ∧ u ≤ 6) (n : ℕ) :
    pairVal (highestAfter x (64 - BIGNUM_INT_BITS u) n).currHi
      (highestAfter x (64 - BIGNUM_INT_BITS u) n).currLo =
        val (x.take n) * 2 ^ 128 / 2 ^ (BIGNUM_INT_BITS u * n) := by
  have hle := (two_bits_le hu).2
  induction n with
  | zero => simp [highestAfter, pairVal]
  | succ n ih =>
    have hpow : 2 ^ (BIGNUM_INT_BITS u * n) * 2 ^ 128 = 2 ^ (BIGNUM_INT_BITS u * (n + 1)) *
        2 ^ (128 - BIGNUM_INT_BITS u) := by
      rw [← pow_add, ← pow_add, Nat.mul_add]
      congr 1
      omega
    have htake : val (x.take (n + 1)) =
        val (x.take n) + 2 ^ (BIGNUM_INT_BITS u * n) * (word x n).toNat := by
      rw [val_take, val_take, word_eq, Nat.mul_add, Nat.mul_one, pow_add, Nat.mod_mul]
    rw [highestAfter_succ, pairVal_round hu, ih, htake, Nat.add_mul,
      Nat.mul_right_comm _ (word x n).toNat, hpow, Nat.mul_assoc (2 ^ _),
      Nat.add_mul_div_left _ _ (Nat.two_pow_pos _), Nat.div_div_eq_div_mul, ← pow_add, Nat.mul_add,
      Nat.mul_one, Nat.mul_comm (2 ^ (128 - _))]

/-- The topmost bits of a number that is not zero, as a number of 128 bits whose first bit is set. -/
theorem topBits_spec (hu : 1 ≤ u ∧ u ≤ 6) {d : MpInt u} (hd : val d ≠ 0) :
    ∃ k s, k < d.length ∧ (topBits d).1.index = (k : ℕ) ∧ (topBits d).2.2.2 = s ∧
      s < BIGNUM_INT_BITS u ∧ val d < 2 ^ (BIGNUM_INT_BITS u * (k + 1)) ∧
      pairVal (topBits d).2.1 (topBits d).2.2.1 =
        val d * 2 ^ 128 / 2 ^ (BIGNUM_INT_BITS u * (k + 1)) * 2 ^ s ∧
      2 ^ 127 ≤ val d * 2 ^ 128 / 2 ^ (BIGNUM_INT_BITS u * (k + 1)) * 2 ^ s := by
  have hle := (two_bits_le hu).2
  rcases exists_highest d d.length with ⟨k, hk⟩ | hzero
  · have habove : ∀ i, k < i → word d i = 0 := by
      intro i hi
      rcases Nat.lt_or_ge i d.length with h | h
      · exact hk.2.2 i hi h
      · exact word_of_le h
    have htop := val_eq_top habove
    have hlow : 2 ^ (BIGNUM_INT_BITS u * k) ≤ val d := by
      have hne : (word d k).toNat ≠ 0 := fun h => hk.2.1 (BitVec.eq_of_toNat_eq (by simpa using h))
      have hword : 2 ^ (BIGNUM_INT_BITS u * k) ≤ (word d k).toNat * 2 ^ (BIGNUM_INT_BITS u * k) :=
        Nat.le_mul_of_pos_left _ (by omega)
      rw [htop]
      omega
    have hhigh : val d < 2 ^ (BIGNUM_INT_BITS u * (k + 1)) := by
      have hword := word_lt (l := d) (i := k)
      have hmod := Nat.mod_lt (val d) (Nat.two_pow_pos (BIGNUM_INT_BITS u * k))
      rw [htop, Nat.mul_add, Nat.mul_one, pow_add, Nat.mul_comm (2 ^ _) (2 ^ BIGNUM_INT_BITS u)]
      generalize 2 ^ (BIGNUM_INT_BITS u * k) = M at hmod ⊢
      calc val d % M + (word d k).toNat * M < M + (word d k).toNat * M := by omega
        _ = ((word d k).toNat + 1) * M := by ring
        _ ≤ 2 ^ BIGNUM_INT_BITS u * M := Nat.mul_le_mul_right _ hword
    have hfound := highestAfter_kept hu (64 - BIGNUM_INT_BITS u) hk
    have hpair := pairVal_highestAfter (x := d) hu (k + 1)
    rw [val_take, Nat.mod_eq_of_lt hhigh, ← hfound.2.1, ← hfound.2.2] at hpair
    have hge : 2 ^ (128 - BIGNUM_INT_BITS u) ≤ val d * 2 ^ 128 / 2 ^ (BIGNUM_INT_BITS u * (k + 1)) := by
      rw [Nat.le_div_iff_mul_le (Nat.two_pow_pos _)]
      calc 2 ^ (128 - BIGNUM_INT_BITS u) * 2 ^ (BIGNUM_INT_BITS u * (k + 1))
          = 2 ^ (BIGNUM_INT_BITS u * k) * 2 ^ 128 := by
            rw [← pow_add, ← pow_add, Nat.mul_add]
            congr 1
            omega
        _ ≤ _ := Nat.mul_le_mul_right _ hlow
    rw [← hpair] at hge
    obtain ⟨s, hs, hup, hval, hbit⟩ := normaliseUp_spec hu.2 0 hge
    rw [Nat.zero_add] at hup
    refine ⟨k, s, hk.1, hfound.1, hup, hs, hhigh, ?_⟩
    rw [← hpair]
    exact ⟨hval, hbit⟩
  · exfalso
    apply hd
    rw [val_eq_zero]
    intro i
    rcases Nat.lt_or_ge i d.length with h | h
    · exact hzero i h
    · exact word_of_le h

end Top

end PuttyNd.Mpint
