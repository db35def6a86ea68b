import PuttyNd.Mpint.Monty
import PuttyNd.Mpint.Proofs.MultiplyProofs
import PuttyNd.Lib.Montgomery
import Mathlib.Data.Nat.Prime.Basic

/-!
# Proofs: modular exponentiation
-/

namespace PuttyNd.Mpint

open Words Outcome Montgomery

variable {u : ℕ}

theorem mpMakeSized_ok {n : ℕ} (h : n ≠ 0) : mpMakeSized (u := u) n = .ok (List.replicate n 0) := by
  rw [mpMakeSized, check, if_pos h]
  rfl

theorem mpCopy_ok {x : MpInt u} (hx : x ≠ []) : mpCopy x = .ok x := by
  rw [mpCopy, mpMakeSized_ok (by simpa using hx), ok_bind, List.length_replicate]
  simp [mpCopyInto]

theorem val_lt_of_length_le {x : MpInt u} {n : ℕ} (h : x.length ≤ n) :
    val x < 2 ^ (BIGNUM_INT_BITS u * n) :=
  lt_of_lt_of_le val_lt (Nat.pow_le_pow_right (by omega) (Nat.mul_le_mul_left _ h))

/-! ## Inverses modulo powers of two -/

section Invert

/-- The sizes in the loop: everything in one word, or whole words. -/
theorem invert_sizes (i : ℕ) {b bw b2w : ℕ} (hb : b = 2 ^ i)
    (hbw : bw = (b + BIGNUM_INT_BITS u - 1) / BIGNUM_INT_BITS u)
    (hb2w : b2w = (2 * b + BIGNUM_INT_BITS u - 1) / BIGNUM_INT_BITS u) :
    (2 * b ≤ BIGNUM_INT_BITS u ∧ bw = 1 ∧ b2w = 1 ∧ b / BIGNUM_INT_BITS u = 0 ∧
      b % BIGNUM_INT_BITS u = b) ∨
    (b = BIGNUM_INT_BITS u * bw ∧ b2w = 2 * bw ∧ b / BIGNUM_INT_BITS u = bw ∧
      b % BIGNUM_INT_BITS u = 0) := by
  have hpos : 0 < b := hb ▸ Nat.two_pow_pos i
  have hW : 0 < BIGNUM_INT_BITS u := bits_pos
  rcases Nat.lt_or_ge i u with h | h
  · left
    have hle : 2 * b ≤ BIGNUM_INT_BITS u := by
      rw [hb, ← pow_succ']
      exact Nat.pow_le_pow_right (by omega) h
    generalize BIGNUM_INT_BITS u = W at *
    refine ⟨hle, ?_, ?_, Nat.div_eq_of_lt (by omega), Nat.mod_eq_of_lt (by omega)⟩
    · rw [hbw]
      exact Nat.div_eq_of_lt_le (by omega) (by omega)
    · rw [hb2w]
      exact Nat.div_eq_of_lt_le (by omega) (by omega)
  · right
    obtain ⟨k, rfl⟩ := Nat.exists_eq_add_of_le h
    have hbk : b = BIGNUM_INT_BITS u * 2 ^ k := by rw [hb, pow_add]
    have hup : ∀ n, (BIGNUM_INT_BITS u * n + BIGNUM_INT_BITS u - 1) / BIGNUM_INT_BITS u = n := by
      intro n
      rw [Nat.add_sub_assoc hW, Nat.mul_add_div hW, Nat.div_eq_of_lt (by omega), Nat.add_zero]
    have hbw' : bw = 2 ^ k := by rw [hbw, hbk, hup]
    refine ⟨by rw [hbk, hbw'], ?_, ?_, ?_⟩
    · rw [hb2w, hbk, hbw', Nat.mul_left_comm, hup]
    · rw [hbk, hbw', Nat.mul_div_cancel_left _ hW]
    · rw [hbk, Nat.mul_mod_right]

variable {x r : MpInt u} {b nw : ℕ}

/-- What the loop of `mp_invert_mod_2to` keeps. -/
structure IsInverse (x : MpInt u) (nw b : ℕ) (r : MpInt u) : Prop where
  length : r.length = nw
  lt : val r < 2 ^ b
  inverse : val x * val r ≡ 1 [MOD 2 ^ min b (BIGNUM_INT_BITS u * nw)]

/-- The words of the inverse are added above those that are there. -/
theorem val_addAt {i : ℕ} {r1 : MpInt u} {bw b2w bpos : ℕ} (hb : b = 2 ^ i)
    (hbw : bw = (b + BIGNUM_INT_BITS u - 1) / BIGNUM_INT_BITS u)
    (hb2w : b2w = (2 * b + BIGNUM_INT_BITS u - 1) / BIGNUM_INT_BITS u)
    (hbpos : bpos = b / BIGNUM_INT_BITS u) (hle : bw ≤ r.length)
    (hr : val r < 2 ^ b) (hr1 : val r1 < 2 ^ b)
    (hr1' : r1.length = bw) :
    let r1Position := (r.drop bpos).take (b2w - bpos)
    let r' := r.take bpos ++ mpAddInto r1Position.length r1Position
      (mpLshiftFixedInto bw r1 (b % BIGNUM_INT_BITS u)) ++ r.drop (bpos + r1Position.length)
    r'.length = r.length ∧ val r' < 2 ^ (2 * b) ∧
      val r' ≡ val r + 2 ^ b * val r1 [MOD 2 ^ min (2 * b) (BIGNUM_INT_BITS u * r.length)] := by
  intro r1Position r'
  have hsizes := invert_sizes (u := u) i hb hbw hb2w
  have hlen : r1Position.length = min (b2w - bpos) (r.length - bpos) := by
    simp only [r1Position, List.length_take, List.length_drop]
  have hval : val r' = val r % 2 ^ (BIGNUM_INT_BITS u * bpos) + 2 ^ (BIGNUM_INT_BITS u * bpos) *
      ((val r1Position + val r1 * 2 ^ (b % BIGNUM_INT_BITS u) % 2 ^ (BIGNUM_INT_BITS u * bw)) %
        2 ^ (BIGNUM_INT_BITS u * r1Position.length)) := by
    have hb' : BIGNUM_INT_BITS u * bpos + BIGNUM_INT_BITS u * r1Position.length ≥
        min (2 * b) (BIGNUM_INT_BITS u * r.length) := by
      rw [← Nat.mul_add]
      rcases hsizes with ⟨h1, h2, h3, h4, h5⟩ | ⟨h1, h2, h3, h4⟩
      · have : bpos + r1Position.length = 1 := by omega
        rw [this]
        omega
      · rcases Nat.le_total (2 * bw) r.length with h | h
        · have h6 : bpos + r1Position.length = 2 * bw := by omega
          rw [h6, h1, Nat.mul_left_comm]
          omega
        · have h6 : bpos + r1Position.length = r.length := by omega
          rw [h6]
          omega
    have hdrop : val (r.drop (bpos + r1Position.length)) = 0 := by
      rw [val_drop, Nat.mul_add]
      apply Nat.div_eq_of_lt
      have h1 := val_lt (l := r)
      have h2 : val r < 2 ^ min (2 * b) (BIGNUM_INT_BITS u * r.length) := by
        rcases Nat.le_total (2 * b) (BIGNUM_INT_BITS u * r.length) with h | h
        · rw [Nat.min_eq_left h]
          exact lt_of_lt_of_le hr (Nat.pow_le_pow_right (by omega) (by omega))
        · rwa [Nat.min_eq_right h]
      exact lt_of_lt_of_le h2 (Nat.pow_le_pow_right (by omega) hb')
    have htake : (r.take bpos).length = bpos := by
      rw [List.length_take]
      rcases hsizes with ⟨h1, h2, h3, h4, h5⟩ | ⟨h1, h2, h3, h4⟩ <;> omega
    simp only [r']
    rw [val_append, val_append, hdrop, val_take, htake, val_mpAddInto, val_mpLshiftFixedInto,
      Nat.mul_zero, Nat.add_zero]
  have hpos : val r1Position = val r / 2 ^ (BIGNUM_INT_BITS u * bpos) %
      2 ^ (BIGNUM_INT_BITS u * (b2w - bpos)) := by
    simp only [r1Position, val_take, val_drop]
  have hlen' : r'.length = r.length := by
    simp only [r', List.length_append, length_mpAddInto, List.length_take, List.length_drop]
    rcases hsizes with ⟨h1, h2, h3, h4, h5⟩ | ⟨h1, h2, h3, h4⟩ <;> omega
  refine ⟨hlen', ?_⟩
  have hpow : 2 ^ (2 * b) = 2 ^ b * 2 ^ b := two_pow_two_mul b
  have hsum : val r + val r1 * 2 ^ b < 2 ^ (2 * b) := by
    rw [hpow]
    nlinarith
  rcases hsizes with ⟨h1, h2, h3, h4, h5⟩ | ⟨h1, h2, h3, h4⟩
  · -- the upper half of one word
    have hW : 2 ^ (2 * b) ≤ 2 ^ BIGNUM_INT_BITS u := Nat.pow_le_pow_right (by omega) h1
    have hlow : val r < 2 ^ BIGNUM_INT_BITS u := by omega
    have hhigh : val r1 * 2 ^ b < 2 ^ BIGNUM_INT_BITS u := by omega
    have hboth : val r + val r1 * 2 ^ b < 2 ^ BIGNUM_INT_BITS u := by omega
    rw [hpos, hlen, h2, h3, h5, hbpos, h4, Nat.min_eq_left (by omega), Nat.mul_zero, Nat.sub_zero,
      Nat.mul_one, pow_zero, Nat.mod_one, Nat.div_one, Nat.zero_add, Nat.one_mul,
      Nat.mod_eq_of_lt hlow, Nat.mod_eq_of_lt hhigh, Nat.mod_eq_of_lt hboth] at hval
    rw [hval, Nat.mul_comm (2 ^ b)]
    exact ⟨hsum, Nat.ModEq.refl _⟩
  · -- the words above
    have hb2 : 2 ^ (BIGNUM_INT_BITS u * bw) = 2 ^ b := by rw [← h1]
    rw [hpos, hlen, h2, h4, hbpos, h3, hb2, Nat.div_eq_of_lt hr, Nat.zero_mod, Nat.zero_add, pow_zero,
      Nat.mul_one, Nat.mod_eq_of_lt hr, Nat.mod_eq_of_lt hr1] at hval
    have hmod := Nat.mod_le (val r1) (2 ^ (BIGNUM_INT_BITS u * min (2 * bw - bw) (r.length - bw)))
    constructor
    · rw [hval]
      nlinarith
    · rw [hval]
      apply Nat.ModEq.add_left
      have h5 : min (2 * b) (BIGNUM_INT_BITS u * r.length) =
          b + BIGNUM_INT_BITS u * min (2 * bw - bw) (r.length - bw) := by
        have hle' : BIGNUM_INT_BITS u * bw ≤ BIGNUM_INT_BITS u * r.length :=
          Nat.mul_le_mul_left _ hle
        rw [← Nat.mul_min_mul_left, Nat.mul_sub, Nat.mul_sub, Nat.mul_left_comm, ← h1]
        omega
      rw [h5, pow_add]
      exact Nat.ModEq.mul_left' _ (Nat.mod_modEq _ _)

/-- The correction that is added, with the reductions modulo the word size taken away. -/
theorem correction_modEq {M B r0 x1 K neg r1 : ℕ} (hBM : B ∣ M)
    (hneg : (neg : ℤ) = -(((r0 * x1 % M + K) % M : ℕ) : ℤ) % (M : ℕ)) (hr1 : r1 = r0 * neg % M) :
    ((r1 % B : ℕ) : ℤ) ≡ -(r0 * (r0 * x1 + K)) [ZMOD B] := by
  have hBM' : (B : ℤ) ∣ M := Int.natCast_dvd_natCast.mpr hBM
  have hneg' : (neg : ℤ) ≡ -(r0 * x1 + K) [ZMOD M] := by
    rw [hneg]
    refine (Int.mod_modEq _ _).trans (Int.ModEq.neg ?_)
    push_cast
    exact (Int.mod_modEq _ _).trans ((Int.mod_modEq _ _).add_right _)
  have hr1' : (r1 : ℤ) ≡ r0 * neg [ZMOD M] := by
    rw [hr1]
    push_cast
    exact Int.mod_modEq _ _
  calc ((r1 % B : ℕ) : ℤ) ≡ r1 [ZMOD B] := by
        push_cast
        exact Int.mod_modEq _ _
    _ ≡ r0 * neg [ZMOD B] := hr1'.of_dvd hBM'
    _ ≡ r0 * -(r0 * x1 + K) [ZMOD B] := (hneg'.of_dvd hBM').mul_left _
    _ = -(r0 * (r0 * x1 + K)) := by ring

/-- What the loop body computes above the inverse that is there. -/
theorem invertStep_spec {i scratchPerIter mulScratch p : ℕ} (hb : b = 2 ^ i) (hbp : b < p)
    (hp : p ≤ BIGNUM_INT_BITS u * nw) (hscratch : 6 * nw ≤ scratchPerIter)
    (hmul : 6 * nw ≤ mulScratch) (hr : IsInverse x nw b r) :
    Succeeds (invertStep x scratchPerIter mulScratch b r) (IsInverse x nw (2 * b)) := by
  have hpos : 0 < b := hb ▸ Nat.two_pow_pos i
  have hW : 0 < BIGNUM_INT_BITS u := bits_pos
  obtain ⟨bw, hbw⟩ : ∃ bw, bw = (b + BIGNUM_INT_BITS u - 1) / BIGNUM_INT_BITS u := ⟨_, rfl⟩
  obtain ⟨b2w, hb2w⟩ : ∃ n, n = (2 * b + BIGNUM_INT_BITS u - 1) / BIGNUM_INT_BITS u := ⟨_, rfl⟩
  have hsizes := invert_sizes (u := u) i hb hbw hb2w
  have hbits : b ≤ BIGNUM_INT_BITS u * bw ∧ 2 * b ≤ BIGNUM_INT_BITS u * b2w := by
    rcases hsizes with ⟨h1, h2, h3, h4, h5⟩ | ⟨h1, h2, h3, h4⟩
    · rw [h2, h3]
      omega
    · rw [h2, Nat.mul_left_comm]
      omega
  have hle : bw ≤ nw := by
    by_contra h
    have h1 : BIGNUM_INT_BITS u * (nw + 1) ≤ BIGNUM_INT_BITS u * bw := Nat.mul_le_mul_left _ (by omega)
    rcases hsizes with ⟨h2, h3, h4, h5, h6⟩ | ⟨h2, h3, h4, h5⟩
    · have h7 : nw = 0 := by omega
      rw [h7] at hp
      omega
    · rw [Nat.mul_add] at h1
      omega
  have hb2le : bw ≤ b2w ∧ b2w ≤ 2 * bw := by omega
  have hlen := hr.length
  unfold invertStep
  rw [← hbw, ← hb2w]
  simp only [mpMakeAlias_eq, List.drop_zero]
  rw [mpAllocFromScratch_of_le (by omega), ok_bind, mpAllocFromScratch_of_le (by omega), ok_bind]
  refine .bind (mpMulInternal_spec _ _ _ _ ?_) fun kshift hkshift => ?_
  · simp only [mpMulScratchspace, mpMulScratchspaceUnary, length_mpReduceMod2to, length_mpCopyInto,
      List.length_take]
    omega
  rw [mpAllocFromScratch_of_le (by omega), ok_bind, mpAllocFromScratch_of_le (by omega), ok_bind]
  have hklen : (kshift.take bw).length = bw := by
    rw [List.length_take, hkshift.1]
    omega
  rw [hklen]
  refine .bind (mpMulInternal_spec _ _ _ _ ?_) fun r0x1 hr0x1 => ?_
  · simp only [mpMulScratchspace, mpMulScratchspaceUnary]
    omega
  rw [mpAllocFromScratch_of_le (by omega), ok_bind]
  refine .bind (mpMulInternal_spec _ _ _ _ ?_) fun r1 hr1 => ?_
  · simp only [mpMulScratchspace, mpMulScratchspaceUnary]
    omega
  have hr1lt : val (mpReduceMod2to r1 b) < 2 ^ b := by
    rw [val_mpReduceMod2to]
    exact Nat.mod_lt _ (Nat.two_pow_pos _)
  have hadd := val_addAt (r := r) hb hbw hb2w rfl (by omega) hr.lt hr1lt
    (by rw [length_mpReduceMod2to, hr1.1])
  rw [pure_eq, succeeds_ok]
  refine ⟨hadd.1.trans hlen, hadd.2.1, ?_⟩
  have hB : 1 < 2 ^ b := Nat.one_lt_two_pow (by omega)
  have hM : 2 ^ b ≤ 2 ^ (BIGNUM_INT_BITS u * bw) := Nat.pow_le_pow_right (by omega) hbits.1
  have hdvd : 2 ^ b ∣ 2 ^ (BIGNUM_INT_BITS u * bw) := pow_dvd_pow 2 hbits.1
  have hr0 : val (r.take bw) = val r := by
    rw [val_take, Nat.mod_eq_of_lt (lt_of_lt_of_le hr.lt hM)]
  have hx0 : val (mpReduceMod2to (mpCopyInto bw x) b) = val x % 2 ^ b := by
    rw [val_mpReduceMod2to, val_mpCopyInto, Nat.mod_mod_of_dvd _ hdvd]
  have hx1 : val (mpReduceMod2to (mpRshiftFixedInto bw x b) b) = val x / 2 ^ b % 2 ^ b := by
    rw [val_mpReduceMod2to, val_mpRshiftFixedInto, Nat.mod_mod_of_dvd _ hdvd]
  have hk : val (mpRshiftFixedInto bw kshift b) = val x % 2 ^ b * val r / 2 ^ b := by
    have h1 : val x % 2 ^ b * val r < 2 ^ b * 2 ^ b :=
      Nat.mul_lt_mul'' (Nat.mod_lt _ (Nat.two_pow_pos _)) hr.lt
    have h2 : 2 ^ b * 2 ^ b ≤ 2 ^ (BIGNUM_INT_BITS u * b2w) := by
      rw [← two_pow_two_mul]
      exact Nat.pow_le_pow_right (by omega) hbits.2
    rw [val_mpRshiftFixedInto, hkshift.2, hx0, hr0, Nat.mod_eq_of_lt (lt_of_lt_of_le h1 h2),
      Nat.mod_eq_of_lt (lt_of_lt_of_le (Nat.div_lt_of_lt_mul h1) hM)]
  have hneg := val_mpNegInto (n := (mpAddInto r0x1.length r0x1 (mpRshiftFixedInto bw kshift b)).length)
    (a := mpAddInto r0x1.length r0x1 (mpRshiftFixedInto bw kshift b))
  rw [val_mpAddInto, length_mpAddInto, hr0x1.1, hr0x1.2, hr0, hx1, hk] at hneg
  have hr1val := hr1.2
  rw [hr0, length_mpAddInto, hr0x1.1] at hr1val
  have hcorrection := correction_modEq hdvd hneg hr1val
  rw [← val_mpReduceMod2to] at hcorrection
  have hinv := hr.inverse
  rw [Nat.min_eq_left (by omega)] at hinv
  have hdouble := inverse_double (B := (2 ^ b : ℕ)) (x := val x) (r := val r)
    ((Int.natCast_modEq_iff (a := val x * val r) (b := 1)).mpr hinv) hcorrection (by exact_mod_cast hB)
  have hmul : val x * (val r + 2 ^ b * val (mpReduceMod2to r1 b)) ≡ 1
      [MOD 2 ^ min (2 * b) (BIGNUM_INT_BITS u * nw)] := by
    refine Nat.ModEq.of_dvd (pow_dvd_pow 2 (Nat.min_le_left _ _)) ?_
    rw [two_pow_two_mul]
    exact (Int.natCast_modEq_iff).mp (by exact_mod_cast hdouble)
  have hval := hadd.2.2
  rw [hlen] at hval
  exact (hval.mul_left (val x)).trans hmul

theorem invertLoop_spec {scratchPerIter mulScratch p : ℕ} (hp : p ≤ BIGNUM_INT_BITS u * nw)
    (hscratch : 6 * nw ≤ scratchPerIter) (hmul : 6 * nw ≤ mulScratch) (i : ℕ) {r : MpInt u}
    (hr : IsInverse x nw (2 ^ i) r) :
    Succeeds (invertLoop x scratchPerIter mulScratch p i r) fun r' =>
      r'.length = nw ∧ val x * val r' ≡ 1 [MOD 2 ^ p] := by
  induction hn : p - i using Nat.strong_induction_on generalizing i r with
  | _ n ih =>
    rw [invertLoop]
    split
    · rename_i hlt
      refine .bind (invertStep_spec rfl hlt hp hscratch hmul hr) fun r' hr' => ?_
      have hi := i.lt_two_pow_self
      rw [← pow_succ'] at hr'
      exact ih (p - (i + 1)) (by omega) (i + 1) hr' rfl
    · exact succeeds_ok.mpr ⟨hr.length, hr.inverse.of_dvd (pow_dvd_pow 2 (by omega))⟩

/-- The lowest word is odd if the number is. -/
theorem word_and_one (x : MpInt u) : mpWord x 0 &&& 1 ≠ 0 ↔ val x % 2 = 1 := by
  have hone : (1 : BignumInt u).toNat = 1 := toNat_one bits_pos
  have hword : (mpWord x 0).toNat % 2 = val x % 2 := by
    rw [word_eq, Nat.mul_zero, pow_zero, Nat.div_one]
    exact Nat.mod_mod_of_dvd _ (dvd_pow_self 2 bits_pos.ne')
  rw [Ne, ← BitVec.toNat_inj, BitVec.toNat_and, hone, Nat.and_one_is_mod, toNat_zero, hword]
  omega

theorem ne_nil_of_odd (hodd : val x % 2 = 1) : x ≠ [] := by
  rintro rfl
  simp at hodd

/-- `mp_invert_mod_2to` gives the inverse. -/
theorem mpInvertMod2to_spec {p : ℕ} (hodd : val x % 2 = 1) (hp : 0 < p) :
    Succeeds (mpInvertMod2to x p) fun r =>
      r.length = max ((p + BIGNUM_INT_BITS u - 1) / BIGNUM_INT_BITS u) 1 ∧ val r < 2 ^ p ∧
        val x * val r ≡ 1 [MOD 2 ^ p] := by
  have hlen : x.length > 0 := List.length_pos_of_ne_nil (ne_nil_of_odd hodd)
  have hW : 0 < BIGNUM_INT_BITS u := bits_pos
  unfold mpInvertMod2to
  obtain ⟨n, hn⟩ : ∃ n, n = max ((p + BIGNUM_INT_BITS u - 1) / BIGNUM_INT_BITS u) 1 := ⟨_, rfl⟩
  simp only [check, if_pos hlen, if_pos ((word_and_one x).mpr hodd), if_pos hp, ok_bind, ← hn]
  rw [mpMakeSized_ok (by omega), ok_bind, mpMakeSized_ok (by omega), ok_bind, List.length_replicate,
    mpAllocFromScratch_of_le (by omega), ok_bind]
  have hfits : p ≤ BIGNUM_INT_BITS u * n := by
    have h1 := Nat.lt_mul_div_succ (p + BIGNUM_INT_BITS u - 1) hW
    have h2 : BIGNUM_INT_BITS u * ((p + BIGNUM_INT_BITS u - 1) / BIGNUM_INT_BITS u) ≤
        BIGNUM_INT_BITS u * n := Nat.mul_le_mul_left _ (by omega)
    rw [Nat.mul_add] at h1
    omega
  have hone : val ((List.replicate n (0 : BignumInt u)).set 0 1) = 1 := by
    obtain ⟨k, rfl⟩ : ∃ k, n = k + 1 := ⟨n - 1, by omega⟩
    rw [List.replicate_succ, List.set_cons_zero, val_cons, val_replicate, toNat_one bits_pos,
      Nat.mul_zero]
  have hinit : IsInverse x n (2 ^ 0) ((List.replicate n (0 : BignumInt u)).set 0 1) := by
    constructor
    · simp
    · rw [hone]
      simp
    · rw [hone, Nat.mul_one]
      refine Nat.ModEq.of_dvd (pow_dvd_pow 2 (Nat.min_le_left _ _)) ?_
      exact hodd
  have hscratch : 6 * n ≤ mpMulScratchspace (2 * n) n n := by
    rw [mpMulScratchspace, mpMulScratchspaceUnary]
    omega
  refine .bind (invertLoop_spec hfits (by omega) hscratch 0 hinit) fun r hr => ?_
  rw [pure_eq, succeeds_ok, length_mpReduceMod2to, val_mpReduceMod2to]
  refine ⟨hr.1, Nat.mod_lt _ (Nat.two_pow_pos _), ?_⟩
  exact ((Nat.mod_modEq _ _).mul_left _).trans hr.2

end Invert

/-! ## Montgomery multiplication -/

section Monty

/-- The quotient and the remainder, as far as they fit the outputs. -/
def DivmodExact (divmodInto : DivmodInto u) : Prop :=
  ∀ (n d : MpInt u) (qNw rNw : ℕ), n ≠ [] → val d ≠ 0 →
    Succeeds (divmodInto n d qNw rNw) fun out =>
      (out.1.length = qNw ∧ val out.1 = val n / val d % 2 ^ (BIGNUM_INT_BITS u * qNw)) ∧
      (out.2.length = rNw ∧ val out.2 = val n % val d % 2 ^ (BIGNUM_INT_BITS u * rNw))

variable {divmodInto : DivmodInto u} {mc : MontyContext u} {modulus n d x y : MpInt u}

theorem ne_nil_of_val {x : MpInt u} (h : val x ≠ 0) : x ≠ [] := by
  rintro rfl
  simp at h

theorem mpMod_spec (hdiv : DivmodExact divmodInto) (hn : n ≠ []) (hd : val d ≠ 0) :
    Succeeds (mpMod divmodInto n d) fun r => r.length = d.length ∧ val r = val n % val d := by
  rw [mpMod, mpMakeSized_ok (by simpa using ne_nil_of_val hd), ok_bind, List.length_replicate]
  refine .bind (hdiv n d 0 d.length hn hd) fun ⟨q, r⟩ hout => succeeds_ok.mpr ⟨hout.2.1, ?_⟩
  have hlt : val n % val d < val d := Nat.mod_lt _ (Nat.pos_of_ne_zero hd)
  rw [hout.2.2, Nat.mod_eq_of_lt (hlt.trans val_lt)]

theorem mpMul_spec (hx : x ≠ []) : Succeeds (mpMul x y) fun r =>
    r.length = x.length + y.length ∧ val r = val x * val y := by
  have hlen : 0 < x.length := List.length_pos_of_ne_nil hx
  rw [mpMul, mpMakeSized_ok (by omega), ok_bind, List.length_replicate]
  refine (mpMulInto_spec (by omega) hx).mono fun r hr => ⟨hr.1, ?_⟩
  have hlt : val x * val y < 2 ^ (BIGNUM_INT_BITS u * (x.length + y.length)) := by
    rw [Nat.mul_add, pow_add]
    exact Nat.mul_lt_mul'' val_lt val_lt
  rw [hr.2, Nat.mod_eq_of_lt hlt]

theorem mpModmul_spec (hdiv : DivmodExact divmodInto) (hx : x ≠ []) (hd : val d ≠ 0) :
    Succeeds (mpModmul divmodInto x y d) fun r =>
      r.length = d.length ∧ val r = val x * val y % val d := by
  refine .bind (mpMul_spec hx) fun product hproduct => ?_
  have hne : product ≠ [] := by
    intro h
    have hlen : 0 < x.length := List.length_pos_of_ne_nil hx
    rw [h, List.length_nil] at hproduct
    omega
  rw [← hproduct.2]
  exact mpMod_spec hdiv hne hd

/-- `R`, the power of two that numbers are multiplied by. -/
abbrev radix (mc : MontyContext u) : ℕ := 2 ^ (BIGNUM_INT_BITS u * mc.rw)

/-- What `monty_new` sets up. -/
structure IsMonty (mc : MontyContext u) (modulus : MpInt u) : Prop where
  rw : mc.rw = modulus.length
  rbits : mc.rbits = modulus.length * BIGNUM_INT_BITS u
  pw : mc.pw = modulus.length * 2 + 1
  m : mc.m = modulus
  odd : val modulus % 2 = 1
  minv_length : mc.minusMinvModR.length = mc.rw
  minv : radix mc ∣ val modulus * val mc.minusMinvModR + 1
  power_length : (mc.powersOfRModM 0).length = mc.rw
  power : IsForm (radix mc) (val modulus) 1 (val (mc.powersOfRModM 0))
  scratch : mc.scratch = 3 * mc.rw + mc.pw + 6 * mc.rw

theorem IsMonty.pos (h : IsMonty mc modulus) : 0 < val modulus := by
  have := h.odd
  omega

theorem IsMonty.rw_pos (h : IsMonty mc modulus) : 0 < mc.rw := by
  rw [h.rw]
  exact List.length_pos_of_ne_nil (ne_nil_of_odd h.odd)

theorem IsMonty.lt_radix (h : IsMonty mc modulus) : val modulus < radix mc := by
  rw [radix, h.rw]
  exact val_lt

theorem IsMonty.coprime (h : IsMonty mc modulus) : (val modulus).Coprime (radix mc) := by
  apply Nat.Coprime.pow_right
  exact Nat.coprime_two_right.mpr (Nat.odd_iff.mpr h.odd)

/-- The negated inverse. -/
theorem dvd_neg_inverse {R a b c : ℕ} (hneg : (c : ℤ) = -(b : ℤ) % (R : ℕ)) (h : a * b ≡ 1 [MOD R]) :
    R ∣ a * c + 1 := by
  have h1 : (c : ℤ) ≡ -b [ZMOD R] := hneg ▸ Int.mod_modEq _ _
  have h2 : (a : ℤ) * b ≡ 1 [ZMOD R] := by exact_mod_cast Int.natCast_modEq_iff.mpr h
  have h3 : (a : ℤ) * c + 1 ≡ 0 [ZMOD R] := by
    calc (a : ℤ) * c + 1 ≡ a * -b + 1 [ZMOD R] := (h1.mul_left _).add_right _
      _ = -(a * b) + 1 := by ring
      _ ≡ -1 + 1 [ZMOD R] := h2.neg.add_right _
      _ = 0 := by ring
  exact_mod_cast Int.modEq_zero_iff_dvd.mp h3

theorem montyNew_spec (hdiv : DivmodExact divmodInto) (hodd : val modulus % 2 = 1) :
    Succeeds (montyNew divmodInto modulus) fun mc => IsMonty mc modulus := by
  have hne := ne_nil_of_odd hodd
  have hlen : 0 < modulus.length := List.length_pos_of_ne_nil hne
  have hW : 0 < BIGNUM_INT_BITS u := bits_pos
  have hm : val modulus ≠ 0 := by omega
  unfold montyNew
  rw [mpCopy_ok hne, ok_bind]
  refine .bind (mpInvertMod2to_spec hodd (Nat.mul_pos hlen hW)) fun minv hminv => ?_
  rw [mpMakeSized_ok (by omega), ok_bind]
  have hrne : (List.replicate (modulus.length + 1) (0 : BignumInt u)).set modulus.length 1 ≠ [] := by
    simp
  refine .bind (mpMod_spec hdiv hrne hm) fun power0 h0 => ?_
  have h0ne : power0 ≠ [] := List.ne_nil_of_length_pos (by omega)
  refine .bind (mpModmul_spec hdiv h0ne hm) fun power1 h1 => ?_
  refine .bind (mpModmul_spec hdiv h0ne hm) fun power2 h2 => ?_
  have hscratch : montyScratchSize modulus.length (modulus.length * 2 + 1) =
      3 * modulus.length + (modulus.length * 2 + 1) + 6 * modulus.length := by
    rw [montyScratchSize, mpMulScratchspace, mpMulScratchspaceUnary]
    omega
  rw [hscratch, mpMakeSized_ok (by omega), ok_bind, pure_eq, succeeds_ok]
  have hminvlen : minv.length = modulus.length := by
    have h1 : (modulus.length * BIGNUM_INT_BITS u + BIGNUM_INT_BITS u - 1) / BIGNUM_INT_BITS u =
        modulus.length := by
      rw [Nat.add_sub_assoc hW, Nat.mul_comm, Nat.mul_add_div hW, Nat.div_eq_of_lt (by omega),
        Nat.add_zero]
    rw [hminv.1, h1]
    omega
  have hr : val ((List.replicate (modulus.length + 1) (0 : BignumInt u)).set modulus.length 1) =
      2 ^ (BIGNUM_INT_BITS u * modulus.length) := by
    rw [List.replicate_succ', List.set_append_right _ _ (by simp), List.length_replicate,
      Nat.sub_self, List.set_cons_zero, val_append, val_replicate, List.length_replicate, val_cons,
      val_nil, toNat_one bits_pos, Nat.mul_zero, Nat.mul_one, Nat.zero_add]
  constructor
  · rfl
  · rfl
  · rfl
  · rfl
  · exact hodd
  · rw [length_mpNegInto, hminvlen]
  · have hneg := val_mpNegInto (n := minv.length) (a := minv)
    have hinv := hminv.2.2
    rw [hminvlen] at hneg
    rw [Nat.mul_comm modulus.length] at hinv
    show 2 ^ (BIGNUM_INT_BITS u * modulus.length) ∣
      val modulus * val (mpNegInto minv.length minv) + 1
    rw [hminvlen]
    exact dvd_neg_inverse hneg hinv
  · exact h0.1
  · show val power0 = _
    rw [h0.2, hr, Nat.one_mul]
  · simp

/-- One Montgomery reduction; the scratch space of the context is enough. -/
theorem montyReduceInternal_spec (hmc : IsMonty mc modulus) {scratch : ℕ}
    (hscratch : mc.rw + mc.pw + 6 * mc.rw ≤ scratch) (hx : val x < val modulus * radix mc) :
    Succeeds (montyReduceInternal mc x scratch) fun r =>
      r.length = mc.rw + 1 ∧ val r < val modulus ∧ val r * radix mc ≡ val x [MOD val modulus] := by
  have hW : 0 < BIGNUM_INT_BITS u := bits_pos
  have hlt := hmc.lt_radix
  have hradix : 0 < radix mc := Nat.two_pow_pos _
  have hpw : mc.pw = mc.rw + (mc.rw + 1) := by
    rw [hmc.pw, hmc.rw]
    omega
  unfold montyReduceInternal
  simp only [mpMakeAlias_eq, List.drop_zero]
  rw [mpAllocFromScratch_of_le (by omega), ok_bind]
  refine .bind (mpMulInternal_spec _ _ _ _ ?_) fun k hk => ?_
  · rw [mpMulScratchspace, mpMulScratchspaceUnary]
    omega
  rw [mpAllocFromScratch_of_le (by omega), ok_bind]
  refine .bind (mpMulInternal_spec _ _ _ _ ?_) fun mk hmk => ?_
  · rw [mpMulScratchspace, mpMulScratchspaceUnary, hk.1, hmc.m, ← hmc.rw]
    omega
  rw [length_mpAddInto, hmk.1]
  have hkval : val k = val x * val mc.minusMinvModR % radix mc := by
    have h1 : val (x.take mc.rbits) ≡ val x [MOD radix mc] := by
      rw [val_take]
      apply Nat.ModEq.of_dvd _ (Nat.mod_modEq _ _)
      rw [hmc.rbits, ← hmc.rw]
      exact pow_dvd_pow 2 (Nat.mul_le_mul_left _ (Nat.le_mul_of_pos_right _ hW))
    rw [hk.2]
    exact h1.mul_right _
  have hbig : 2 * (val modulus * radix mc) ≤ 2 ^ (BIGNUM_INT_BITS u * mc.pw) := by
    have h1 : 2 ^ (BIGNUM_INT_BITS u * mc.pw) = radix mc * (radix mc * 2 ^ BIGNUM_INT_BITS u) := by
      rw [hpw, radix, ← pow_add, ← pow_add]
      congr 1
      ring
    have h2 : 2 ^ 1 ≤ 2 ^ BIGNUM_INT_BITS u := Nat.pow_le_pow_right (by omega) hW
    rw [h1]
    calc 2 * (val modulus * radix mc) ≤ 2 * (radix mc * radix mc) :=
          Nat.mul_le_mul_left _ (Nat.mul_le_mul_right _ hlt.le)
      _ = radix mc * (radix mc * 2 ^ 1) := by ring
      _ ≤ _ := Nat.mul_le_mul_left _ (Nat.mul_le_mul_left _ h2)
  have hadjust : adjust (radix mc) (val modulus) (val mc.minusMinvModR) (val x) <
      val modulus * radix mc := adjust_lt hradix hmc.pos
  have hmkval : val mk = adjust (radix mc) (val modulus) (val mc.minusMinvModR) (val x) := by
    rw [hmk.2, hkval, hmc.m]
    exact Nat.mod_eq_of_lt (by unfold adjust at hadjust; omega)
  have hsum : val (mpAddInto mc.pw x mk) =
      val x + adjust (radix mc) (val modulus) (val mc.minusMinvModR) (val x) := by
    rw [val_mpAddInto, hmkval]
    exact Nat.mod_eq_of_lt (by omega)
  have hreduced : val (((mpAddInto mc.pw x mk).drop mc.rw).take (mc.pw - mc.rw)) =
      reduce (radix mc) (val modulus) (val mc.minusMinvModR) (val x) := by
    rw [List.take_of_length_le (by simp), val_drop, hsum]
    rfl
  have hlength : (((mpAddInto mc.pw x mk).drop mc.rw).take (mc.pw - mc.rw)).length = mc.rw + 1 := by
    rw [List.length_take, List.length_drop, length_mpAddInto]
    omega
  rw [pure_eq, succeeds_ok, length_mpCondSubInto, hlength, hmc.m]
  have hfits := val_lt (l := ((mpAddInto mc.pw x mk).drop mc.rw).take (mc.pw - mc.rw))
  rw [hlength] at hfits
  rw [val_mpCondSubInto hfits, hreduced]
  exact ⟨rfl, reduce_sub hradix hmc.pos hx hmc.minv⟩

/-! ## Import and export -/

/-- A number of `mc.rw` words that stands for `a`. -/
def Stands (mc : MontyContext u) (modulus : MpInt u) (a : ℕ) (x : MpInt u) : Prop :=
  x.length = mc.rw ∧ IsForm (radix mc) (val modulus) a (val x)

theorem montyImport_spec (hdiv : DivmodExact divmodInto) (hmc : IsMonty mc modulus) (hx : x ≠ []) :
    Succeeds (montyImport divmodInto mc x) (Stands mc modulus (val x)) := by
  have hpower := hmc.power
  rw [IsForm, Nat.one_mul] at hpower
  rw [montyImport, hmc.m]
  refine (mpModmul_spec hdiv hx hmc.pos.ne').mono fun r hr => ?_
  refine ⟨hr.1.trans hmc.rw.symm, ?_⟩
  rw [IsForm, hr.2, hpower]
  exact (Nat.mod_modEq _ _).mul_left _

theorem montyExport_spec (hmc : IsMonty mc modulus) (hlen : x.length ≤ 2 * mc.rw)
    (hx : val x < val modulus) : Succeeds (montyExport mc x) fun r =>
      r.length = mc.rw ∧ val r < val modulus ∧ val r * radix mc ≡ val x [MOD val modulus] := by
  have hlt := hmc.lt_radix
  have hscratch := hmc.scratch
  rw [montyExport, mpMakeSized_ok hmc.rw_pos.ne', ok_bind, montyExportInto, check, if_pos hlen, ok_bind,
    List.length_replicate]
  refine .bind (montyReduceInternal_spec hmc (by omega) ?_) fun r hr => ?_
  · exact lt_of_lt_of_le hx (Nat.le_mul_of_pos_right _ (Nat.two_pow_pos _))
  · rw [pure_eq, succeeds_ok, val_mpCopyInto, Nat.mod_eq_of_lt (hr.2.1.trans hlt)]
    exact ⟨length_mpCopyInto, hr.2⟩

/-- The product of two numbers fits in twice the words. -/
theorem mpMulInto_stands (hmc : IsMonty mc modulus) {a b : ℕ} (hx : Stands mc modulus a x)
    (hy : Stands mc modulus b y) :
    Succeeds (mpMulInto (mc.rw * 2) x y) fun tmp => tmp.length = mc.rw * 2 ∧ val tmp = val x * val y ∧
      val tmp < val modulus * radix mc := by
  have hpos := hmc.rw_pos
  have hlt := hmc.lt_radix
  have hprod : val x * val y < val modulus * radix mc :=
    Nat.mul_lt_mul'' (hx.2.lt hmc.pos) ((hy.2.lt hmc.pos).trans hlt)
  have hsquare : radix mc * radix mc = 2 ^ (BIGNUM_INT_BITS u * (mc.rw * 2)) := by
    rw [radix, ← pow_add]
    congr 1
    ring
  have hxne : x ≠ [] := List.ne_nil_of_length_pos (hx.1 ▸ hpos)
  refine (mpMulInto_spec (by omega) hxne).mono fun tmp htmp => ?_
  have hval : val tmp = val x * val y := by
    rw [htmp.2, Nat.mod_eq_of_lt]
    rw [← hsquare]
    exact hprod.trans (Nat.mul_lt_mul_of_pos_right hlt (Nat.two_pow_pos _))
  exact ⟨htmp.1, hval, hval ▸ hprod⟩

/-- The product of two numbers, reduced, stands for the product. -/
theorem mulReduce_spec (hmc : IsMonty mc modulus) {a b : ℕ} (hx : Stands mc modulus a x)
    (hy : Stands mc modulus b y) :
    Succeeds (mpMulInto (mc.rw * 2) x y >>= fun tmp => montyReduce mc tmp) fun tmp =>
      tmp.length = mc.rw * 2 ∧ IsForm (radix mc) (val modulus) (a * b) (val tmp) := by
  have hlt := hmc.lt_radix
  have hscratch := hmc.scratch
  refine .bind (mpMulInto_stands hmc hx hy) fun tmp ⟨hlen, hval, hprod⟩ => ?_
  refine .bind (montyReduceInternal_spec hmc (by omega) hprod) fun r hr => ?_
  have hfits : val r < 2 ^ (BIGNUM_INT_BITS u * (mc.rw * 2)) := by
    refine (hr.2.1.trans hlt).trans_le (Nat.pow_le_pow_right (by omega) ?_)
    exact Nat.mul_le_mul_left _ (by omega)
  rw [pure_eq, succeeds_ok, length_mpCopyInto, val_mpCopyInto, hlen, Nat.mod_eq_of_lt hfits]
  exact ⟨rfl, hx.2.mul hy.2 hmc.coprime hr.2.1 (hval ▸ hr.2.2)⟩

theorem montyMulInto_spec (hmc : IsMonty mc modulus) {a b : ℕ} (hx : Stands mc modulus a x)
    (hy : Stands mc modulus b y) :
    Succeeds (montyMulInto mc mc.rw x y) (Stands mc modulus (a * b)) := by
  have hlt := hmc.lt_radix
  have hscratch := hmc.scratch
  rw [montyMulInto, check, check, if_pos hx.1.le, ok_bind, if_pos hy.1.le, ok_bind,
    mpAllocFromScratch_of_le (by omega), ok_bind, Nat.mul_comm 2 mc.rw]
  refine .bind (mpMulInto_stands hmc hx hy) fun tmp htmp => ?_
  obtain ⟨-, hval, hprod⟩ := htmp
  refine .bind (montyReduceInternal_spec hmc (by omega) hprod) fun r hr => ?_
  rw [pure_eq, succeeds_ok, Stands, length_mpCopyInto, val_mpCopyInto,
    Nat.mod_eq_of_lt (hr.2.1.trans hlt)]
  exact ⟨rfl, hx.2.mul hy.2 hmc.coprime hr.2.1 (hval ▸ hr.2.2)⟩

theorem mpGetBit_spec (i : ℕ) : mpGetBit x i = val x / 2 ^ i % 2 := by
  have hone : (1 : BignumInt u).toNat = 1 := toNat_one bits_pos
  have hr : i % BIGNUM_INT_BITS u < BIGNUM_INT_BITS u := Nat.mod_lt _ bits_pos
  have hi := Nat.div_add_mod i (BIGNUM_INT_BITS u)
  have hpow : 2 ^ BIGNUM_INT_BITS u =
      2 ^ (i % BIGNUM_INT_BITS u) * 2 ^ (BIGNUM_INT_BITS u - i % BIGNUM_INT_BITS u) := by
    rw [← pow_add]
    congr 1
    omega
  have hdvd : 2 ∣ 2 ^ (BIGNUM_INT_BITS u - i % BIGNUM_INT_BITS u) :=
    dvd_pow_self 2 (by omega)
  rw [mpGetBit, BitVec.toNat_and, hone, Nat.and_comm, Nat.and_one_is_mod, BitVec.toNat_ushiftRight,
    Nat.shiftRight_eq_div_pow, word_eq, hpow, Nat.mod_mul_right_div_self, Nat.mod_mod_of_dvd _ hdvd,
    Nat.div_div_eq_div_mul, ← pow_add, hi]

/-- The bits of the exponent up to bit `i`. -/
theorem mod_two_pow_succ (e i : ℕ) : e % 2 ^ (i + 1) = e % 2 ^ i + 2 ^ i * (e / 2 ^ i % 2) :=
  Nat.mod_pow_succ

/-- What the selection keeps. -/
theorem stands_select (hmc : IsMonty mc modulus) {a i : ℕ} {exponent out tmp : MpInt u}
    (hout : Stands mc modulus (a ^ (val exponent % 2 ^ i)) out)
    (htmp : IsForm (radix mc) (val modulus) (a ^ (val exponent % 2 ^ i) * a ^ 2 ^ i) (val tmp)) :
    Stands mc modulus (a ^ (val exponent % 2 ^ (i + 1)))
      (mpSelectInto out.length out tmp (mpGetBit exponent i)) := by
  have hlt := hmc.lt_radix
  refine ⟨(length_mpSelectInto _).trans hout.1, ?_⟩
  rw [val_mpSelectInto, mpGetBit_spec, hout.1, mod_two_pow_succ, Nat.mod_mod]
  rcases Nat.mod_two_eq_zero_or_one (val exponent / 2 ^ i) with h | h
  · rw [h, if_neg (by omega), Nat.mul_zero, Nat.add_zero,
      Nat.mod_eq_of_lt ((hout.2.lt hmc.pos).trans hlt)]
    exact hout.2
  · rw [h, if_pos rfl, Nat.mul_one, pow_add, Nat.mod_eq_of_lt ((htmp.lt hmc.pos).trans hlt)]
    exact htmp

theorem montyPowLoop_spec (hmc : IsMonty mc modulus) (exponent : MpInt u) {a : ℕ} (i : ℕ)
    {out square : MpInt u} (hout : Stands mc modulus (a ^ (val exponent % 2 ^ i)) out)
    (hsquare : Stands mc modulus (a ^ 2 ^ i) square) :
    Succeeds (montyPowLoop mc exponent (mc.rw * 2) i out square)
      (Stands mc modulus (a ^ val exponent)) := by
  have hlt := hmc.lt_radix
  induction hn : exponent.length * BIGNUM_INT_BITS u - i using Nat.strong_induction_on
    generalizing i out square with
  | _ n ih =>
    rw [montyPowLoop, ← bind_assoc]
    refine .bind (mulReduce_spec hmc hout hsquare) fun tmp htmp => ?_
    have hselect := stands_select hmc hout htmp.2
    split
    · rename_i hend
      have hall : val exponent % 2 ^ (i + 1) = val exponent := by
        apply Nat.mod_eq_of_lt
        refine lt_of_lt_of_le val_lt (Nat.pow_le_pow_right (by omega) ?_)
        rw [Nat.mul_comm]
        exact hend
      rw [hall] at hselect
      exact succeeds_ok.mpr hselect
    · rename_i hmore
      rw [← bind_assoc]
      refine .bind (mulReduce_spec hmc hsquare hsquare) fun tmp' htmp' => ?_
      refine ih _ (by omega) (i + 1) hselect ?_ rfl
      refine ⟨length_mpCopyInto.trans hsquare.1, ?_⟩
      rw [val_mpCopyInto, hsquare.1, Nat.mod_eq_of_lt ((htmp'.2.lt hmc.pos).trans hlt), pow_succ,
        Nat.mul_two, pow_add]
      exact htmp'.2

theorem montyPow_spec (hmc : IsMonty mc modulus) {a : ℕ} {base : MpInt u}
    (hbase : Stands mc modulus a base) (exponent : MpInt u) :
    Succeeds (montyPow mc base exponent) (Stands mc modulus (a ^ val exponent)) := by
  have hpos := hmc.rw_pos
  have hne : base ≠ [] := List.ne_nil_of_length_pos (hbase.1 ▸ hpos)
  have hne' : mc.powersOfRModM 0 ≠ [] := List.ne_nil_of_length_pos (hmc.power_length ▸ hpos)
  rw [montyPow, mpCopy_ok hne, ok_bind, mpCopy_ok hne', ok_bind, mpMakeSized_ok (by omega), ok_bind,
    List.length_replicate]
  apply montyPowLoop_spec hmc
  · rw [pow_zero, Nat.mod_one, pow_zero]
    exact ⟨hmc.power_length, hmc.power⟩
  · rw [pow_zero, pow_one]
    exact hbase

theorem mpModpow_spec (hdiv : DivmodExact divmodInto) (hodd : val modulus % 2 = 1)
    {base : MpInt u} (hbase : base ≠ []) (exponent : MpInt u) :
    Succeeds (mpModpow divmodInto base exponent modulus) fun out =>
      out.length = modulus.length ∧ val out = val base ^ val exponent % val modulus := by
  have hlen : modulus.length > 0 := List.length_pos_of_ne_nil (ne_nil_of_odd hodd)
  simp only [mpModpow, check, if_pos hlen, if_pos ((word_and_one modulus).mpr hodd), ok_bind]
  refine .bind (montyNew_spec hdiv hodd) fun mc hmc => ?_
  refine .bind (montyImport_spec hdiv hmc hbase) fun mBase hmBase => ?_
  refine .bind (montyPow_spec hmc hmBase exponent) fun mOut hmOut => ?_
  have hmOutLen := hmOut.1
  refine (montyExport_spec hmc (by omega) (hmOut.2.lt hmc.pos)).mono fun out hout => ?_
  exact ⟨hout.1.trans hmc.rw, hmOut.2.reduced hmc.coprime hout.2.1 hout.2.2⟩

/-- Import and export undo each other. -/
theorem montyExport_import (hdiv : DivmodExact divmodInto) (hmc : IsMonty mc modulus) (hx : x ≠ [])
    (hlt : val x < val modulus) :
    Succeeds (montyImport divmodInto mc x >>= fun r => montyExport mc r) fun r => val r = val x := by
  refine .bind (montyImport_spec hdiv hmc hx) fun r hr => ?_
  have hlen := hr.1
  refine (montyExport_spec hmc (by omega) (hr.2.lt hmc.pos)).mono fun r' hr' => ?_
  rw [hr.2.reduced hmc.coprime hr'.2.1 hr'.2.2, Nat.mod_eq_of_lt hlt]

theorem montyImport_export (hdiv : DivmodExact divmodInto) (hmc : IsMonty mc modulus)
    (hlen : x.length ≤ 2 * mc.rw) (hlt : val x < val modulus) :
    Succeeds (montyExport mc x >>= fun r => montyImport divmodInto mc r) fun r => val r = val x := by
  have hpos := hmc.rw_pos
  refine .bind (montyExport_spec hmc hlen hlt) fun r hr => ?_
  refine (montyImport_spec hdiv hmc (List.ne_nil_of_length_pos (by omega))).mono fun r' hr' => ?_
  rw [hr'.2, ← Nat.mod_eq_of_lt hlt]
  exact hr.2.2

/-- With an exact division, `mp_modpow` gives the power modulo an odd number, and so do the layers that
it is built of. -/
theorem mpModpow_exact (hdiv : DivmodExact divmodInto) (modulus : OwnMpInt u)
    (hodd : val modulus.words % 2 = 1) :
    (∀ base exponent : OwnMpInt u,
      ∃ out, mpModpow divmodInto base.words exponent.words modulus.words = .ok out ∧
        val out = val base.words ^ val exponent.words % val modulus.words) ∧
    (∀ (x : MpInt u) (p : ℕ), val x % 2 = 1 → 0 < p →
      ∃ r, mpInvertMod2to x p = .ok r ∧ val r < 2 ^ p ∧ val x * val r ≡ 1 [MOD 2 ^ p]) ∧
    ∃ mc, montyNew divmodInto modulus.words = .ok mc ∧
      (∀ x : MpInt u, val x < val modulus.words * 2 ^ mc.rbits →
        ∃ r, montyReduceInternal mc x mc.scratch = .ok r ∧ val r < val modulus.words ∧
          val r * 2 ^ mc.rbits ≡ val x [MOD val modulus.words]) ∧
      (∀ x : OwnMpInt u, val x.words < val modulus.words →
        ∃ r, (montyImport divmodInto mc x.words >>= fun r => montyExport mc r) = .ok r ∧
          val r = val x.words) ∧
      (∀ x : OwnMpInt u, x.words.length ≤ 2 * mc.rw → val x.words < val modulus.words →
        ∃ r, (montyExport mc x.words >>= fun r => montyImport divmodInto mc r) = .ok r ∧
          val r = val x.words) := by
  refine ⟨fun base exponent => ?_, fun x p hx hp => ?_, ?_⟩
  · exact (mpModpow_spec hdiv hodd base.outlawed exponent.words).mono fun out hout => hout.2
  · exact (mpInvertMod2to_spec hx hp).mono fun r hr => hr.2
  · obtain ⟨mc, hmcok, hmc⟩ := montyNew_spec hdiv hodd
    have hradix : 2 ^ mc.rbits = radix mc := by rw [hmc.rbits, ← hmc.rw, Nat.mul_comm]
    have hscratch := hmc.scratch
    refine ⟨mc, hmcok, ?_⟩
    rw [hradix]
    refine ⟨fun x hx => ?_, fun x hx => ?_, fun x hlen hx => ?_⟩
    · exact (montyReduceInternal_spec hmc (by omega) hx).mono fun r hr => hr.2
    · exact montyExport_import hdiv hmc x.outlawed hx
    · exact montyImport_export hdiv hmc hlen hx

/-- The lowest words of a number. -/
def wordsOf (u nw n : ℕ) : MpInt u :=
  (List.range nw).map fun i => BitVec.ofNat _ (n / (2 ^ BIGNUM_INT_BITS u) ^ i)

theorem val_wordsOf (nw n : ℕ) : val (wordsOf u nw n) = n % 2 ^ (BIGNUM_INT_BITS u * nw) := by
  rw [wordsOf, val_map_range, pow_mul, ← num_digits]
  simp only [BitVec.toNat_ofNat]

/-- A division that is exact. -/
def divmodWords (u : ℕ) : DivmodInto u :=
  fun n d qNw rNw => .ok (wordsOf u qNw (val n / val d), wordsOf u rNw (val n % val d))

theorem divmodWords_exact : DivmodExact (divmodWords u) := by
  intro n d qNw rNw _ _
  rw [divmodWords, succeeds_ok, val_wordsOf, val_wordsOf]
  simp [wordsOf]

theorem mpModpow_exact_five :
    ∃ out, mpModpow (divmodWords 5) [3] [5] [7] = .ok out ∧ val out = 5 := by
  obtain ⟨out, hout, hval⟩ := (mpModpow_exact (divmodWords_exact (u := 5)) ⟨[7], by simp⟩
    (by decide)).1 ⟨[3], by simp⟩ ⟨[5], by simp⟩
  exact ⟨out, hout, hval.trans (by decide)⟩

end Monty

end PuttyNd.Mpint
