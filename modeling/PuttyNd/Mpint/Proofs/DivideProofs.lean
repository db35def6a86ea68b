import PuttyNd.Mpint.Proofs.IntegersProofs
import PuttyNd.Mpint.Proofs.MontyProofs
import PuttyNd.Lib.Reciprocal

/-!
# Proofs: division

The reciprocal is close enough at the start, the iterations are enough, and the quotient is at most one
too small.
-/

namespace PuttyNd.Mpint

open Words Outcome Reciprocal

variable {u : ℕ}

/-! ## Addition of an integer at a word -/

section Shifted

variable {n : BitVec 64} {wordIndex : ℕ}

/-- Below its place nothing of `n` is used, above it one word after the other. -/
theorem shiftedState_spec (hle : BIGNUM_INT_BITS u ≤ 64) (i : ℕ) :
    (shiftedState u n wordIndex i).1 = (if wordIndex < i then 1 else 0) ∧
      (shiftedState u n wordIndex i).2.toNat =
        n.toNat / 2 ^ (BIGNUM_INT_BITS u * (i - wordIndex)) := by
  induction i with
  | zero => simp [shiftedState]
  | succ i ih =>
    have heq : i ^^^ wordIndex = 0 ↔ i = wordIndex := Nat.xor_eq_zero_iff
    obtain ⟨hind, hn⟩ := ih
    simp only [shiftedState, hind, select_spec, heq]
    rcases Nat.lt_trichotomy wordIndex i with h | h | h
    · have hsub : i + 1 - wordIndex = i - wordIndex + 1 := by omega
      have hne : ¬ i = wordIndex := by omega
      rw [if_pos h, if_neg hne, if_pos (by omega : wordIndex < i + 1), hsub]
      refine ⟨rfl, ?_⟩
      rw [if_pos (by decide), toNat_shiftOut hle, hn, Nat.div_div_eq_div_mul, ← pow_add, Nat.mul_add,
        Nat.mul_one]
    · subst h
      rw [if_neg (by omega), if_pos rfl, if_pos (by omega), Nat.add_sub_cancel_left]
      refine ⟨rfl, ?_⟩
      rw [if_pos (by decide), toNat_shiftOut hle, hn]
      simp
    · have hne : ¬ i = wordIndex := by omega
      have hsub : i + 1 - wordIndex = 0 := by omega
      have hsub' : i - wordIndex = 0 := by omega
      rw [if_neg (by omega), if_neg hne, if_neg (by omega), hsub]
      refine ⟨rfl, ?_⟩
      rw [if_neg (by decide), hn, hsub']

@[simp] theorem length_mpAddIntegerIntoShiftedByWords {nw : ℕ} {a : MpInt u} :
    (mpAddIntegerIntoShiftedByWords nw a n wordIndex).length = nw := length_addWords

theorem val_mpAddIntegerIntoShiftedByWords (hle : BIGNUM_INT_BITS u ≤ 64) {nw : ℕ} {a : MpInt u} :
    val (mpAddIntegerIntoShiftedByWords nw a n wordIndex) =
      (val a + n.toNat * 2 ^ (BIGNUM_INT_BITS u * wordIndex)) % 2 ^ (BIGNUM_INT_BITS u * nw) := by
  have hword : ∀ i, ((shiftedState u n wordIndex i).2.setWidth _ &&&
      -BitVec.ofNat (BIGNUM_INT_BITS u) (shiftedState u n wordIndex (i + 1)).1).toNat =
      n.toNat * 2 ^ (BIGNUM_INT_BITS u * wordIndex) / (2 ^ BIGNUM_INT_BITS u) ^ i %
        2 ^ BIGNUM_INT_BITS u := by
    intro i
    rw [(shiftedState_spec hle (i + 1)).1, ← pow_mul]
    rcases Nat.lt_or_ge i wordIndex with h | h
    · obtain ⟨k, rfl⟩ : ∃ k, wordIndex = i + (k + 1) := ⟨wordIndex - i - 1, by omega⟩
      have hpow : 2 ^ (BIGNUM_INT_BITS u * (i + (k + 1))) = 2 ^ (BIGNUM_INT_BITS u * i) *
          (2 ^ BIGNUM_INT_BITS u * 2 ^ (BIGNUM_INT_BITS u * k)) := by
        rw [← pow_add, ← pow_add]
        congr 1
        ring
      rw [if_neg (by omega), hpow, Nat.mul_left_comm, Nat.mul_div_cancel_left _ (Nat.two_pow_pos _),
        Nat.mul_left_comm, Nat.mul_mod_right]
      simp
    · obtain ⟨k, rfl⟩ := Nat.exists_eq_add_of_le h
      have hones : -BitVec.ofNat (BIGNUM_INT_BITS u) 1 = BitVec.allOnes _ :=
        BitVec.neg_one_eq_allOnes
      rw [if_pos (by omega), hones, BitVec.and_allOnes, BitVec.toNat_setWidth,
        (shiftedState_spec hle _).2, Nat.add_sub_cancel_left, Nat.mul_add, pow_add,
        Nat.mul_comm n.toNat, Nat.mul_div_mul_left _ _ (Nat.two_pow_pos _)]
  rw [mpAddIntegerIntoShiftedByWords, val_addWords]
  simp only [hword, num_word, num_digits, toNat_zero, Nat.add_zero]
  rw [← pow_mul, ← Nat.add_mod]

end Shifted

/-! ## The starting value -/

/-- The bound that the comment on `recip_approx_32` states: it is off by less than 2048 from
`2 ^ 63 / x`. -/
def RecipBound (x : BitVec 32) : Prop :=
  |((recipApprox32 x).toNat * x.toNat : ℤ) - 2 ^ 63| < (2048 * x.toNat : ℤ)

instance (x : BitVec 32) : Decidable (RecipBound x) := Int.decLt _ _

/-- The bits of `d` that the reciprocal is taken of. -/
def recipInput (d : MpInt u) : BitVec 32 := ((topBits d).2.1 >>> 32).setWidth 32

/-- The topmost 32 bits as a quotient. -/
theorem top_bits_bounds {D M s : ℕ} (hs : s ≤ 96) (hM : 0 < M) :
    D * 2 ^ 128 / M * 2 ^ s / 2 ^ 96 * M ≤ D * 2 ^ (32 + s) ∧
      D * 2 ^ (32 + s) < (D * 2 ^ 128 / M * 2 ^ s / 2 ^ 96 + 1) * M := by
  have hlow := Nat.div_mul_le_self (D * 2 ^ 128) M
  have hhigh := Nat.lt_div_mul_add hM (a := D * 2 ^ 128)
  generalize D * 2 ^ 128 / M = V at hlow hhigh ⊢
  have hlow' := Nat.div_mul_le_self (V * 2 ^ s) (2 ^ 96)
  have hhigh' := Nat.lt_div_mul_add (by omega : 0 < 2 ^ 96) (a := V * 2 ^ s)
  generalize V * 2 ^ s / 2 ^ 96 = x at hlow' hhigh' ⊢
  have hpow : 2 ^ 96 * 2 ^ (32 + s) = 2 ^ 128 * 2 ^ s := by
    rw [← pow_add, ← pow_add]
    congr 1
    omega
  have hpow' : (2 : ℕ) ^ 96 = 2 ^ (96 - s) * 2 ^ s := by
    rw [← pow_add]
    congr 1
    omega
  have hV : V + 1 ≤ (x + 1) * 2 ^ (96 - s) := by
    apply Nat.lt_of_mul_lt_mul_right (a := 2 ^ s)
    rw [Nat.mul_assoc, ← hpow']
    omega
  constructor
  · apply Nat.le_of_mul_le_mul_left _ (by omega : 0 < 2 ^ 96)
    calc 2 ^ 96 * (x * M) = x * 2 ^ 96 * M := by ring
      _ ≤ V * 2 ^ s * M := Nat.mul_le_mul_right _ hlow'
      _ = V * M * 2 ^ s := by ring
      _ ≤ D * 2 ^ 128 * 2 ^ s := Nat.mul_le_mul_right _ hlow
      _ = 2 ^ 96 * (D * 2 ^ (32 + s)) := by
        rw [Nat.mul_left_comm, hpow]
        ring
  · apply Nat.lt_of_mul_lt_mul_left (a := 2 ^ 96)
    calc 2 ^ 96 * (D * 2 ^ (32 + s)) = D * 2 ^ 128 * 2 ^ s := by
          rw [Nat.mul_left_comm, hpow]
          ring
      _ < (V * M + M) * 2 ^ s := Nat.mul_lt_mul_of_pos_right hhigh (Nat.two_pow_pos _)
      _ = (V + 1) * M * 2 ^ s := by ring
      _ ≤ (x + 1) * 2 ^ (96 - s) * M * 2 ^ s :=
        Nat.mul_le_mul_right _ (Nat.mul_le_mul_right _ hV)
      _ = 2 ^ 96 * ((x + 1) * M) := by
        rw [hpow']
        ring

/-- The reciprocal of the topmost bits, put where it belongs, has 19 good bits. -/
theorem initial_approx {d x a M Y c o : ℤ} (hM : 0 < M) (hc : Y = d * c) (hd : 0 < d)
    (hlow : x * M ≤ Y) (hhigh : Y < (x + 1) * M) (hx : x < 2 ^ 32) (ha : 0 ≤ a)
    (ha' : a < 2 ^ 32) (hrecip : |a * x - 2 ^ 63| < 2048 * x) (ho : 0 < o) :
    Approx (2 ^ 63 * M * o) d (2 ^ 19) (a * c * o) := by
  have habs := abs_lt.mp hrecip
  have hsplit : 2 ^ 63 * M * o - d * (a * c * o) =
      o * (M * (2 ^ 63 - a * x) - a * (Y - x * M)) := by
    rw [hc]
    ring
  have hup : a * (Y - x * M) ≤ a * M := mul_le_mul_of_nonneg_left (by linarith) ha
  have hdown : 0 ≤ a * (Y - x * M) := mul_nonneg ha (by linarith)
  have hMx : M * |2 ^ 63 - a * x| ≤ M * (2048 * 2 ^ 32) := by
    apply mul_le_mul_of_nonneg_left _ hM.le
    rw [abs_sub_comm]
    linarith
  have haM : a * M ≤ 2 ^ 32 * M := mul_le_mul_of_nonneg_right ha'.le hM.le
  have hinner : |M * (2 ^ 63 - a * x) - a * (Y - x * M)| ≤ 2 ^ 44 * M := by
    calc |M * (2 ^ 63 - a * x) - a * (Y - x * M)|
        ≤ |M * (2 ^ 63 - a * x)| + |a * (Y - x * M)| := abs_sub _ _
      _ = M * |2 ^ 63 - a * x| + a * (Y - x * M) := by
        rw [abs_mul, abs_of_pos hM, abs_of_nonneg hdown]
      _ ≤ 2 ^ 44 * M := by linarith
  rw [Approx, hsplit, abs_mul, abs_of_pos ho]
  have hpos : 0 ≤ 2 * d * 2 ^ 19 := by positivity
  calc 2 ^ 19 * (o * |M * (2 ^ 63 - a * x) - a * (Y - x * M)|)
      ≤ 2 ^ 19 * (o * (2 ^ 44 * M)) := by
        apply mul_le_mul_of_nonneg_left _ (by norm_num)
        exact mul_le_mul_of_nonneg_left hinner ho.le
    _ = 2 ^ 63 * M * o := by ring
    _ ≤ _ := by linarith

/-! ## The iterations -/

section Newton

variable {d rApprox twoR : MpInt u} {L nw scratch : ℕ}

theorem goodBits_eq (i : ℕ) : goodBits i = 19 * 2 ^ i + 1 := by
  induction i with
  | zero => rfl
  | succ i ih =>
    rw [goodBits, ih, pow_succ]
    omega

/-- What the loop keeps: the good bits but one, and a value that is not too large once there was an
iteration. -/
structure IsReciprocal (L : ℕ) (d : MpInt u) (nw i : ℕ) (r : MpInt u) : Prop where
  length : r.length = nw
  approx : Approx (2 ^ L) (val d) (2 ^ (19 * 2 ^ i)) (val r)
  le : 0 < i → val d * val r ≤ 2 ^ L

/-- One iteration computes one step of Newton's method. -/
theorem val_newton {dr diff product : MpInt u} (hL : L + 2 ≤ BIGNUM_INT_BITS u * nw)
    (htwoR : val twoR = 2 * 2 ^ L) (hlen : rApprox.length = nw) (hrange : val d * val rApprox < 2 * 2 ^ L)
    (hdr : IsProduct (nw + d.length) rApprox d dr)
    (hdiff : diff = mpSubInto (nw + d.length) twoR dr)
    (hproduct : IsProduct (nw + (nw + d.length)) rApprox diff product)
    (hfits : val rApprox * (2 * 2 ^ L - val d * val rApprox) / 2 ^ L < 2 ^ (BIGNUM_INT_BITS u * nw)) :
    val (mpRshiftFixedInto nw (mpMakeAlias product (L / BIGNUM_INT_BITS u) product.length)
      (L % BIGNUM_INT_BITS u)) = val rApprox * (2 * 2 ^ L - val d * val rApprox) / 2 ^ L := by
  have hr : val rApprox < 2 ^ (BIGNUM_INT_BITS u * nw) := by
    rw [← hlen]
    exact val_lt
  have hdrval : val dr = val d * val rApprox := by
    rw [hdr.2, Nat.mul_comm (val d), Nat.mod_eq_of_lt]
    rw [Nat.mul_add, pow_add]
    exact Nat.mul_lt_mul'' hr val_lt
  have hdiffval : val diff = 2 * 2 ^ L - val d * val rApprox := by
    have h := val_mpSubInto (n := nw + d.length) (a := twoR) (b := dr)
    have hbig : 2 * 2 ^ L < 2 ^ (BIGNUM_INT_BITS u * (nw + d.length)) := by
      rw [← pow_succ']
      exact Nat.pow_lt_pow_right (by omega) (by rw [Nat.mul_add]; omega)
    rw [htwoR, hdrval, ← Int.natCast_sub hrange.le, ← Int.natCast_mod,
      Nat.mod_eq_of_lt (by omega)] at h
    rw [hdiff]
    exact_mod_cast h
  have hproductval : val product = val rApprox * (2 * 2 ^ L - val d * val rApprox) := by
    rw [hproduct.2, hdiffval, Nat.mod_eq_of_lt]
    rw [Nat.mul_add, pow_add]
    have h := val_lt (l := diff)
    rw [hdiff, length_mpSubInto, ← hdiff, hdiffval] at h
    exact Nat.mul_lt_mul'' hr h
  rw [val_mpRshiftFixedInto, mpMakeAlias_eq, List.take_of_length_le (by simp), val_drop, hproductval,
    Nat.div_div_eq_div_mul, ← pow_add, Nat.div_add_mod]
  exact Nat.mod_eq_of_lt hfits

/-- The step over the integers, with the bounds that keep everything in range. -/
theorem newtonLoop_step {i : ℕ} (hd : 0 < val d) (hdR : 8 * val d ≤ 2 ^ L)
    (hr : IsReciprocal L d nw i rApprox) :
    val d * val rApprox < 2 * 2 ^ L ∧
    (val rApprox * (2 * 2 ^ L - val d * val rApprox) / 2 ^ L : ℕ) =
      newton (2 ^ L) (val d) (val rApprox) ∧
    Approx (2 ^ L) (val d) (2 ^ (19 * 2 ^ (i + 1))) (newton (2 ^ L) (val d) (val rApprox)) ∧
    val d * (val rApprox * (2 * 2 ^ L - val d * val rApprox) / 2 ^ L) ≤ 2 ^ L := by
  have hR : (0 : ℤ) < 2 ^ L := by positivity
  have hd' : (0 : ℤ) < val d := by exact_mod_cast hd
  have hdR' : (8 : ℤ) * val d ≤ 2 ^ L := by exact_mod_cast hdR
  have hA : (8 : ℤ) ≤ 2 ^ (19 * 2 ^ i) := by
    have h : 2 ^ 3 ≤ 2 ^ (19 * 2 ^ i) := Nat.pow_le_pow_right (by omega) (by
      have := Nat.two_pow_pos i
      omega)
    exact_mod_cast h
  have hrange := hr.approx.range hR hd' hA hdR'
  have hlt : val d * val rApprox < 2 * 2 ^ L := by exact_mod_cast hrange.2
  have hcast : ((val rApprox * (2 * 2 ^ L - val d * val rApprox) / 2 ^ L : ℕ) : ℤ) =
      newton (2 ^ L) (val d) (val rApprox) := by
    rw [newton]
    push_cast [Nat.cast_sub hlt.le]
    rfl
  refine ⟨hlt, hcast, ?_, ?_⟩
  · have hsq : (2 : ℤ) ^ (19 * 2 ^ (i + 1)) = 2 ^ (19 * 2 ^ i) * 2 ^ (19 * 2 ^ i) := by
      rw [← pow_add, pow_succ]
      congr 1
      ring
    rw [hsq]
    exact newton_approx hR hd' hA hdR' hr.approx
  · have h := newton_le (r := (val rApprox : ℤ)) hR hd'
    rw [← hcast] at h
    have h' : (val d : ℤ) * (val rApprox * (2 * 2 ^ L - val d * val rApprox) / 2 ^ L : ℕ) ≤ 2 ^ L := by
      linarith
    exact_mod_cast h'

theorem newtonLoop_spec {goodBitsNeeded i : ℕ} (hd : 0 < val d) (hdR : 8 * val d ≤ 2 ^ L)
    (hL : L + 2 ≤ BIGNUM_INT_BITS u * nw) (htwoR : val twoR = 2 * 2 ^ L)
    (hscratch : mpMulScratchspace (nw + d.length) nw d.length ≤ scratch)
    (hscratch' : mpMulScratchspace (nw + (nw + d.length)) nw (nw + d.length) ≤ scratch)
    (hr : IsReciprocal L d nw i rApprox) :
    Succeeds (newtonLoop d twoR L nw scratch goodBitsNeeded i rApprox) fun r =>
      ∃ j, i ≤ j ∧ goodBitsNeeded ≤ goodBits j ∧ IsReciprocal L d nw j r := by
  induction hn : goodBitsNeeded - i using Nat.strong_induction_on generalizing i rApprox with
  | _ n ih =>
    rw [newtonLoop]
    split
    · rename_i hmore
      obtain ⟨hlt, hcast, happrox, hle⟩ := newtonLoop_step hd hdR hr
      have hi := lt_goodBits i
      have hmax : max nw (nw + d.length) = nw + d.length := by omega
      simp only [hmax]
      refine .bind (mpMulInternal_spec _ _ _ _ (hr.length ▸ hscratch)) fun dr hdr => ?_
      refine .bind (mpMulInternal_spec _ _ _ _ ?_) fun product hproduct => ?_
      · rw [length_mpSubInto, hr.length]
        exact hscratch'
      · have hfits : val rApprox * (2 * 2 ^ L - val d * val rApprox) / 2 ^ L <
            2 ^ (BIGNUM_INT_BITS u * nw) := by
          have h1 : val rApprox * (2 * 2 ^ L - val d * val rApprox) / 2 ^ L ≤ 2 ^ L :=
            le_trans (Nat.le_mul_of_pos_left _ hd) hle
          exact lt_of_le_of_lt h1 (Nat.pow_lt_pow_right (by omega) (by omega))
        have hval := val_newton hL htwoR hr.length hlt hdr rfl hproduct hfits
        have hnext : IsReciprocal L d nw (i + 1)
            (mpRshiftFixedInto nw (mpMakeAlias product (L / BIGNUM_INT_BITS u) product.length)
              (L % BIGNUM_INT_BITS u)) := by
          constructor
          · exact length_mpRshiftFixedInto
          · rw [hval, hcast]
            exact happrox
          · intro _
            rw [hval]
            exact hle
        obtain ⟨r, hr', j, hj, hneeded, hrec⟩ := ih _ (by omega) hnext rfl
        exact ⟨r, hr', j, by omega, hneeded, hrec⟩
    · rename_i hdone
      exact succeeds_ok.mpr ⟨i, le_refl i, by omega, hr⟩

end Newton

/-! ## Quotient and remainder -/

section Quotient

variable {n d : MpInt u} {L nw : ℕ}

/-- The final corrections: a remainder that is at most `d` needs at most one. -/
theorem correct_spec {remainder : MpInt u} (hd : 0 < val d) (hlen : remainder.length = d.length)
    (hle : val remainder ≤ val d) :
    ((correct d 2 remainder 0).1.length = d.length) ∧
      val (correct d 2 remainder 0).1 = val remainder % val d ∧
      (correct d 2 remainder 0).2 = val remainder / val d := by
  have hfits : ∀ {x : MpInt u}, val x ≤ val d → val x < 2 ^ (BIGNUM_INT_BITS u * d.length) :=
    fun h => lt_of_le_of_lt h val_lt
  have hcmp : mpCmpHs remainder d = val remainder / val d := by
    rw [mpCmpHs_spec]
    split
    · rw [show val remainder = val d by omega, Nat.div_self hd]
    · rw [Nat.div_eq_of_lt (by omega)]
  have hfirst : val (mpCondSubInto d.length remainder d (mpCmpHs remainder d)) =
      val remainder % val d := by
    rw [val_mpCondSubInto (hfits hle)]
    split
    · rw [show val remainder = val d by omega, Nat.mod_self, Nat.sub_self]
    · rw [Nat.mod_eq_of_lt (by omega)]
  have hlt : val (mpCondSubInto d.length remainder d (mpCmpHs remainder d)) < val d := by
    rw [hfirst]
    exact Nat.mod_lt _ hd
  have hsecond := val_mpCondSubInto (n := d.length) (b := d) (hfits hlt.le)
  have hcmp' : mpCmpHs (mpCondSubInto d.length remainder d (mpCmpHs remainder d)) d = 0 := by
    rw [mpCmpHs_spec, if_neg (by omega)]
  rw [if_neg (by omega)] at hsecond
  simp only [correct, hlen, length_mpCondSubInto, Nat.zero_add]
  exact ⟨trivial, hsecond.trans hfirst, by rw [hcmp', hcmp, Nat.add_zero]⟩

/-- The quotient that the reciprocal gives leaves a remainder of at most `d`. -/
theorem quotient_approx {j : ℕ} {r : MpInt u} (hd : 0 < val d) (hj : 0 < j)
    (hbits : BIGNUM_INT_BITS u * n.length + 4 ≤ goodBits j)
    (hdL : val d * 2 ^ (BIGNUM_INT_BITS u * n.length + 3) ≤ 2 ^ L)
    (hr : IsReciprocal L d nw j r) :
    val n * val r / 2 ^ L * val d ≤ val n ∧ val n ≤ val n * val r / 2 ^ L * val d + val d := by
  have hn : val n < 2 ^ (BIGNUM_INT_BITS u * n.length) := val_lt
  have hA : 2 ^ (BIGNUM_INT_BITS u * n.length + 3) ≤ 2 ^ (19 * 2 ^ j) := by
    rw [goodBits_eq] at hbits
    exact Nat.pow_le_pow_right (by omega) (by omega)
  rw [pow_add] at hA hdL
  generalize 2 ^ (BIGNUM_INT_BITS u * n.length) = N at hn hA hdL
  have happrox := hr.approx
  have hle := hr.le hj
  have hprecision : val n * (2 ^ L + 2 * val d * 2 ^ (19 * 2 ^ j)) ≤ 2 ^ (19 * 2 ^ j) * 2 ^ L := by
    have hA' : N * 2 ^ 3 * 2 ^ L ≤ 2 ^ (19 * 2 ^ j) * 2 ^ L := Nat.mul_le_mul_right _ hA
    have hd' : val d * (N * 2 ^ 3) * 2 ^ (19 * 2 ^ j) ≤ 2 ^ L * 2 ^ (19 * 2 ^ j) :=
      Nat.mul_le_mul_right _ hdL
    calc val n * (2 ^ L + 2 * val d * 2 ^ (19 * 2 ^ j))
        ≤ N * (2 ^ L + 2 * val d * 2 ^ (19 * 2 ^ j)) := Nat.mul_le_mul_right _ hn.le
      _ ≤ 2 ^ (19 * 2 ^ j) * 2 ^ L := by
        generalize 2 ^ (19 * 2 ^ j) = A at *
        generalize 2 ^ L = R at *
        nlinarith
  have h := remainder_le (R := 2 ^ L) (d := val d) (r := val r) (A := 2 ^ (19 * 2 ^ j)) (n := val n)
    (by positivity) (by exact_mod_cast hd) (by positivity) (by positivity)
    (by have : (val d : ℤ) * val r ≤ 2 ^ L := by exact_mod_cast hle
        linarith) happrox (by exact_mod_cast hprecision)
  have hcast : (val n * val r / 2 ^ L : ℤ) = (val n * val r / 2 ^ L : ℕ) := by push_cast; rfl
  rw [hcast] at h
  constructor
  · have h1 : ((val n * val r / 2 ^ L : ℕ) : ℤ) * val d ≤ val n := by linarith [h.1]
    exact_mod_cast h1
  · have h1 : (val n : ℤ) ≤ ((val n * val r / 2 ^ L : ℕ) : ℤ) * val d + val d := by linarith [h.2]
    exact_mod_cast h1

end Quotient

/-! ## The whole division -/

section Divide

variable {n d : MpInt u}

/-- `R` is large enough, and what is placed in `r_approx` starts at a word. -/
theorem log2R_spec (hu : u = 5 ∨ u = 6) {nNw dNw k : ℕ} (hn : 1 ≤ nNw) (hk : k < dNw) :
    BIGNUM_INT_BITS u * nNw + BIGNUM_INT_BITS u * dNw + 3 ≤ log2R u nNw dNw ∧
      ∃ o, log2R u nNw dNw = 63 + BIGNUM_INT_BITS u * (k + 1) + BIGNUM_INT_BITS u * o := by
  have h5 : BIGNUM_INT_BITS 5 = 32 := rfl
  have h6 : BIGNUM_INT_BITS 6 = 64 := rfl
  rcases hu with rfl | rfl
  · simp only [log2R, h5]
    refine ⟨by omega, ((nNw + dNw) * 32 + 3 - min 191 ((nNw + dNw) * 32 + 3) + 32 - 1) / 32 + 3 - k, ?_⟩
    omega
  · simp only [log2R, h6]
    refine ⟨by omega, ((nNw + dNw) * 64 + 3 - min 191 ((nNw + dNw) * 64 + 3) + 64 - 1) / 64 + 1 - k, ?_⟩
    omega

theorem le_mul_div_add {W x : ℕ} (hW : 0 < W) : x ≤ W * ((x + W - 1) / W) := by
  have h := Nat.lt_mul_div_succ (x + W - 1) hW
  rw [Nat.mul_add] at h
  omega

theorem val_mpAddIntegerInto_of_lt {nw : ℕ} {a : MpInt u} {n : UInt64} (hW : 8 ≤ BIGNUM_INT_BITS u)
    (hn : n.toNat < 2 ^ BIGNUM_INT_BITS u) :
    val (mpAddIntegerInto nw a n) = (val a + n.toNat) % 2 ^ (BIGNUM_INT_BITS u * nw) := by
  rw [val_mpAddIntegerInto hW, Nat.mod_eq_of_lt hn]

/-- The starting value of the iterations. -/
theorem isReciprocal_start (hu : u = 5 ∨ u = 6) {L k s o nw : ℕ} (hd : 0 < val d)
    (hL : L = 63 + BIGNUM_INT_BITS u * (k + 1) + BIGNUM_INT_BITS u * o)
    (hfits : L + 2 ≤ BIGNUM_INT_BITS u * nw) (hs : s < BIGNUM_INT_BITS u)
    (hpair : pairVal (topBits d).2.1 (topBits d).2.2.1 =
      val d * 2 ^ 128 / 2 ^ (BIGNUM_INT_BITS u * (k + 1)) * 2 ^ s)
    (hdR : 8 * val d ≤ 2 ^ L) (hrecip : RecipBound (recipInput d)) :
    IsReciprocal L d nw 0
      (mpAddIntegerIntoShiftedByWords nw
        (mpAddIntegerIntoShiftedByWords nw (List.replicate nw 0)
          (shiftUpBy s u 0 ((recipApprox32 (recipInput d)).setWidth 64 <<< 32)).2 o)
        (shiftUpBy s u 0 ((recipApprox32 (recipInput d)).setWidth 64 <<< 32)).1
        (o + 64 / BIGNUM_INT_BITS u)) := by
  have hle := two_bits_le (u := u) (by omega)
  have hwords : BIGNUM_INT_BITS u * (64 / BIGNUM_INT_BITS u) = 64 := by
    rcases hu with rfl | rfl <;> rfl
  obtain ⟨r0, hr0⟩ : ∃ r0, r0 = (recipApprox32 (recipInput d)).toNat := ⟨_, rfl⟩
  obtain ⟨M, hM⟩ : ∃ M, M = 2 ^ (BIGNUM_INT_BITS u * (k + 1)) := ⟨_, rfl⟩
  have hr0lt : r0 < 2 ^ 32 := hr0 ▸ BitVec.isLt _
  unfold RecipBound at hrecip
  rw [← hr0] at hrecip
  -- the input of the approximation
  have hx : (recipInput d).toNat = val d * 2 ^ 128 / M * 2 ^ s / 2 ^ 96 := by
    rw [hM, ← hpair, recipInput, BitVec.toNat_setWidth, BitVec.toNat_ushiftRight,
      Nat.shiftRight_eq_div_pow, pairVal]
    have h1 := (topBits d).2.1.isLt
    have h2 := (topBits d).2.2.1.isLt
    omega
  have hbounds := top_bits_bounds (D := val d) (s := s) (by omega) (hM ▸ Nat.two_pow_pos _ : 0 < M)
  rw [← hx] at hbounds
  -- its output, shifted up
  have hlobits : ((recipApprox32 (recipInput d)).setWidth 64 <<< 32).toNat = r0 * 2 ^ 32 := by
    rw [BitVec.toNat_shiftLeft, BitVec.toNat_setWidth, ← hr0, Nat.shiftLeft_eq]
    omega
  have hshifted : pairVal (shiftUpBy s u 0 ((recipApprox32 (recipInput d)).setWidth 64 <<< 32)).1
      (shiftUpBy s u 0 ((recipApprox32 (recipInput d)).setWidth 64 <<< 32)).2 =
        r0 * 2 ^ (32 + s) := by
    have hmod : s % 2 ^ u = s := Nat.mod_eq_of_lt hs
    have hpow : 2 ^ s ≤ 2 ^ 63 := Nat.pow_le_pow_right (by omega) (by omega)
    have hstart : pairVal 0 ((recipApprox32 (recipInput d)).setWidth 64 <<< 32) = r0 * 2 ^ 32 := by
      rw [pairVal, hlobits, toNat_zero, Nat.zero_mul, Nat.zero_add]
    rw [shiftUpBy_spec (by omega), hstart, hmod, pow_add, Nat.mul_assoc]
    rw [hstart, hmod]
    calc r0 * 2 ^ 32 * 2 ^ s ≤ r0 * 2 ^ 32 * 2 ^ 63 := Nat.mul_le_mul_left _ hpow
      _ < 2 ^ 128 := by omega
  generalize shiftUpBy s u 0 ((recipApprox32 (recipInput d)).setWidth 64 <<< 32) = pair at hshifted ⊢
  have hxlt : ((recipInput d).toNat : ℤ) < 2 ^ 32 := by
    have h := (recipInput d).isLt
    omega
  have hr0lt' : (r0 : ℤ) < 2 ^ 32 := by omega
  -- the value that is placed
  have happrox : Approx (2 ^ L) (val d) (2 ^ 19) ((r0 * 2 ^ (32 + s) * 2 ^ (BIGNUM_INT_BITS u * o) : ℕ)) := by
    have h := initial_approx (d := val d) (x := (recipInput d).toNat) (a := r0) (M := M)
      (Y := (val d * 2 ^ (32 + s) : ℕ)) (c := 2 ^ (32 + s)) (o := 2 ^ (BIGNUM_INT_BITS u * o))
      (by rw [hM]; positivity) (by push_cast; ring) (by exact_mod_cast hd)
      (by exact_mod_cast hbounds.1) (by exact_mod_cast hbounds.2)
      hxlt (Int.natCast_nonneg r0) hr0lt'
      hrecip (by positivity)
    have hR : (2 : ℤ) ^ L = 2 ^ 63 * M * 2 ^ (BIGNUM_INT_BITS u * o) := by
      rw [hL, hM, pow_add, pow_add]
      push_cast
      ring
    rw [hR]
    push_cast
    exact h
  have hrange := happrox.range (by positivity) (by exact_mod_cast hd) (by norm_num)
    (by exact_mod_cast hdR)
  have hlt : r0 * 2 ^ (32 + s) * 2 ^ (BIGNUM_INT_BITS u * o) < 2 ^ (BIGNUM_INT_BITS u * nw) := by
    have h1 : val d * (r0 * 2 ^ (32 + s) * 2 ^ (BIGNUM_INT_BITS u * o)) < 2 * 2 ^ L := by
      exact_mod_cast hrange.2
    have h2 : r0 * 2 ^ (32 + s) * 2 ^ (BIGNUM_INT_BITS u * o) ≤
        val d * (r0 * 2 ^ (32 + s) * 2 ^ (BIGNUM_INT_BITS u * o)) := Nat.le_mul_of_pos_left _ hd
    have h3 : 2 * 2 ^ L ≤ 2 ^ (BIGNUM_INT_BITS u * nw) := by
      rw [← pow_succ']
      exact Nat.pow_le_pow_right (by omega) (by omega)
    omega
  have hval : val (mpAddIntegerIntoShiftedByWords nw
      (mpAddIntegerIntoShiftedByWords nw (List.replicate nw (0 : BignumInt u)) pair.2 o) pair.1
      (o + 64 / BIGNUM_INT_BITS u)) = r0 * 2 ^ (32 + s) * 2 ^ (BIGNUM_INT_BITS u * o) := by
    have hsum : pair.2.toNat * 2 ^ (BIGNUM_INT_BITS u * o) +
        pair.1.toNat * 2 ^ (BIGNUM_INT_BITS u * o + 64) =
          r0 * 2 ^ (32 + s) * 2 ^ (BIGNUM_INT_BITS u * o) := by
      rw [← hshifted, pairVal, pow_add]
      ring
    rw [val_mpAddIntegerIntoShiftedByWords hle.2, val_mpAddIntegerIntoShiftedByWords hle.2,
      val_replicate, Nat.zero_add, Nat.mod_add_mod, Nat.mul_add, hwords, hsum, Nat.mod_eq_of_lt hlt]
  constructor
  · exact length_mpAddIntegerIntoShiftedByWords
  · have hbits : 19 * 2 ^ 0 = 19 := rfl
    rw [hval, hbits]

    exact happrox
  · intro h
    omega

/-- `two_R` -/
theorem val_twoR (hu : 1 ≤ u ∧ u ≤ 6) {L nw : ℕ} (hfits : L + 2 ≤ BIGNUM_INT_BITS u * nw) :
    val (mpAddIntegerIntoShiftedByWords nw (List.replicate nw (0 : BignumInt u))
      (((1 : BignumInt u) <<< ((L + 1) % BIGNUM_INT_BITS u)).setWidth 64)
      ((L + 1) / BIGNUM_INT_BITS u)) = 2 * 2 ^ L := by
  have hle := (two_bits_le hu).2
  have hone : (1 : BignumInt u).toNat = 1 := toNat_one bits_pos
  have hmod : (L + 1) % BIGNUM_INT_BITS u < BIGNUM_INT_BITS u := Nat.mod_lt _ bits_pos
  have hbit : (((1 : BignumInt u) <<< ((L + 1) % BIGNUM_INT_BITS u)).setWidth 64).toNat =
      2 ^ ((L + 1) % BIGNUM_INT_BITS u) := by
    have h1 : 2 ^ ((L + 1) % BIGNUM_INT_BITS u) < 2 ^ BIGNUM_INT_BITS u :=
      Nat.pow_lt_pow_right (by omega) hmod
    have h2 : 2 ^ BIGNUM_INT_BITS u ≤ 2 ^ 64 := Nat.pow_le_pow_right (by omega) hle
    rw [BitVec.toNat_setWidth, BitVec.toNat_shiftLeft, hone, Nat.shiftLeft_eq, Nat.one_mul,
      Nat.mod_eq_of_lt h1, Nat.mod_eq_of_lt (by omega)]
  have hlt : 2 ^ (L + 1) < 2 ^ (BIGNUM_INT_BITS u * nw) := Nat.pow_lt_pow_right (by omega) (by omega)
  rw [val_mpAddIntegerIntoShiftedByWords hle, val_replicate, Nat.zero_add, hbit, ← pow_add,
    Nat.mod_add_div, Nat.mod_eq_of_lt hlt, pow_succ']

/-- The remainder of the quotient by the reciprocal, and what the corrections make of both. -/
theorem div_mod_of_remainder {a b q t : ℕ} (hb : 0 < b) (hqt : q * b + t = a) :
    q + t / b = a / b ∧ t % b = a % b := by
  rw [← hqt]
  constructor
  · rw [Nat.add_comm (q * b), Nat.add_mul_div_right _ _ hb, Nat.add_comm]
  · rw [Nat.add_comm, Nat.add_mul_mod_self_right]

theorem mpDivmodInto_spec (hu : u = 5 ∨ u = 6) (hn : n ≠ []) (hd : val d ≠ 0)
    (hrecip : RecipBound (recipInput d)) (qNw rNw : ℕ) :
    Succeeds (mpDivmodInto n d qNw rNw) fun out =>
      (out.1.length = qNw ∧ val out.1 = val n / val d % 2 ^ (BIGNUM_INT_BITS u * qNw)) ∧
      (out.2.length = rNw ∧ val out.2 = val n % val d % 2 ^ (BIGNUM_INT_BITS u * rNw)) := by
  have hu' : 1 ≤ u ∧ u ≤ 6 := by omega
  have hnlen : 0 < n.length := List.length_pos_of_ne_nil hn
  have hdpos : 0 < val d := Nat.pos_of_ne_zero hd
  have hdlen : 0 < d.length := List.length_pos_of_ne_nil (ne_nil_of_val hd)
  have hW : 0 < BIGNUM_INT_BITS u := bits_pos
  obtain ⟨k, s, hk, hindex, hup, hs, -, hpair, -⟩ := topBits_spec hu' hd
  obtain ⟨hLarge, o, hL⟩ := log2R_spec hu hnlen hk
  have heta : topBits d = ((topBits d).1, (topBits d).2.1, (topBits d).2.2.1, (topBits d).2.2.2) := rfl
  unfold mpDivmodInto
  rw [heta]
  simp only [check, mpEqInteger_zero hu', if_neg hd, zero_ne_one, not_false_eq_true, if_true, ok_bind,
    hup, hindex]
  obtain ⟨L, hLdef⟩ : ∃ L, L = log2R u n.length d.length := ⟨_, rfl⟩
  rw [← hLdef] at hLarge hL ⊢
  obtain ⟨nw, hnw⟩ : ∃ nw, nw = (L + 2 + BIGNUM_INT_BITS u - 1) / BIGNUM_INT_BITS u := ⟨_, rfl⟩
  rw [← hnw]
  have hfits : L + 2 ≤ BIGNUM_INT_BITS u * nw := hnw ▸ le_mul_div_add hW
  have hnwpos : nw ≠ 0 := by
    rintro rfl
    omega
  have hdR : val d * 2 ^ (BIGNUM_INT_BITS u * n.length + 3) ≤ 2 ^ L := by
    calc val d * 2 ^ (BIGNUM_INT_BITS u * n.length + 3)
        ≤ 2 ^ (BIGNUM_INT_BITS u * d.length) * 2 ^ (BIGNUM_INT_BITS u * n.length + 3) :=
          Nat.mul_le_mul_right _ val_lt.le
      _ ≤ 2 ^ L := by
        rw [← pow_add]
        exact Nat.pow_le_pow_right (by omega) (by omega)
  have hbit : (L : ℤ) - 191 - (k * BIGNUM_INT_BITS u - (128 - BIGNUM_INT_BITS u)) =
      BIGNUM_INT_BITS u * o := by
    rw [hL]
    push_cast
    ring
  have hword : ((BIGNUM_INT_BITS u * o : ℤ) / BIGNUM_INT_BITS u).toNat = o := by
    rw [Int.mul_ediv_cancel_left _ (by exact_mod_cast hW.ne')]
    exact Int.toNat_natCast o
  have hdR8 : 8 * val d ≤ 2 ^ L := by
    refine le_trans ?_ hdR
    rw [pow_add, Nat.mul_comm 8]
    exact Nat.mul_le_mul_left _ (Nat.le_mul_of_pos_left _ (Nat.two_pow_pos _))
  have hstart := isReciprocal_start hu hdpos hL hfits hs hpair hdR8 hrecip
  rw [hbit, Int.mul_emod_right, if_pos rfl, hword, mpMakeSized_ok hnwpos]
  simp only [ok_bind, List.length_replicate, mpMakeSized_ok hnlen.ne', mpMakeSized_ok hdlen.ne']
  rw [mpMakeSized_ok (by omega), ok_bind, List.length_replicate,
    Nat.max_eq_right (Nat.le_add_right nw d.length), mpMakeSized_ok (by omega), ok_bind,
    List.length_replicate, mpMakeSized_ok (by omega), ok_bind, List.length_replicate]
  have hscratch : max (mpMulScratchspace (nw + d.length) nw d.length)
      (mpMulScratchspace (nw + (nw + d.length)) nw (nw + d.length)) ≠ 0 := by
    simp only [mpMulScratchspace, mpMulScratchspaceUnary]
    omega
  rw [mpMakeSized_ok hscratch, ok_bind, List.length_replicate]
  refine .bind (newtonLoop_spec hdpos hdR8 hfits (val_twoR hu' hfits) (Nat.le_max_left _ _)
    (Nat.le_max_right _ _) hstart) fun r hr => ?_
  obtain ⟨j, -, hneeded, hr⟩ := hr
  have hrne : r ≠ [] := List.ne_nil_of_length_pos (by rw [hr.length]; omega)
  refine .bind (mpMul_spec hrne) fun quotientFull hquotientFull => ?_
  have hj : 0 < j := by
    rcases j with _ | j
    · have hW32 : 32 ≤ BIGNUM_INT_BITS u := by rcases hu with rfl | rfl <;> decide
      have hbits : 32 * 1 ≤ BIGNUM_INT_BITS u * n.length := Nat.mul_le_mul hW32 hnlen
      have hgood : goodBits 0 = 20 := rfl
      omega
    · omega
  obtain ⟨hle, hge⟩ := quotient_approx hdpos hj hneeded hdR hr
  obtain ⟨q, hq⟩ : ∃ q, q = val n * val r / 2 ^ L := ⟨_, rfl⟩
  rw [← hq] at hle hge
  have hqn : q ≤ val n := le_trans (Nat.le_mul_of_pos_right _ hdpos) hle
  -- the quotient
  have hquotient : val (mpRshiftFixedInto n.length
      (mpMakeAlias quotientFull (L / BIGNUM_INT_BITS u) quotientFull.length)
      (L % BIGNUM_INT_BITS u)) = q := by
    rw [val_mpRshiftFixedInto, mpMakeAlias_eq, List.take_of_length_le (by simp), val_drop,
      hquotientFull.2, Nat.div_div_eq_div_mul, ← pow_add, Nat.div_add_mod, Nat.mul_comm (val r), ← hq]
    exact Nat.mod_eq_of_lt (lt_of_le_of_lt hqn val_lt)
  generalize hquo : mpRshiftFixedInto n.length
      (mpMakeAlias quotientFull (L / BIGNUM_INT_BITS u) quotientFull.length)
      (L % BIGNUM_INT_BITS u) = quotient at hquotient ⊢
  have hquolen : quotient.length = n.length := by rw [← hquo, length_mpRshiftFixedInto]
  have hquone : quotient ≠ [] := List.ne_nil_of_length_pos (by omega)
  refine .bind (mpMulInto_spec hdlen.ne' hquone) fun product hproduct => ?_
  -- the remainder
  obtain ⟨t, ht⟩ : ∃ t, t = val n - q * val d := ⟨_, rfl⟩
  have htle : t ≤ val d := by omega
  have hremainder : val (mpSubInto product.length n product) = t := by
    have hM := val_lt (l := d)
    have h := val_mpSubInto (n := product.length) (a := n) (b := product)
    rw [hproduct.1, hproduct.2, hquotient] at h
    rw [hproduct.1]
    have h1 : ((val n : ℤ) - (q * val d % 2 ^ (BIGNUM_INT_BITS u * d.length) : ℕ)) %
        (2 ^ (BIGNUM_INT_BITS u * d.length) : ℕ) = t := by
      rw [Int.natCast_mod, Int.sub_emod_emod, ← Int.natCast_sub hle, ← Int.natCast_mod, ← ht,
        Nat.mod_eq_of_lt (lt_of_le_of_lt htle hM)]
    rw [h1] at h
    exact_mod_cast h
  have hremlen : (mpSubInto product.length n product).length = d.length := by
    rw [length_mpSubInto, hproduct.1]
  obtain ⟨hlen, hmod, hcorrection⟩ := correct_spec hdpos hremlen (hremainder ▸ htle)
  rw [hremainder] at hmod hcorrection
  obtain ⟨hdiv, hmod'⟩ := div_mod_of_remainder (t := t) hdpos (by omega : q * val d + t = val n)
  have hsmall : t / val d ≤ 1 := by
    rw [Nat.div_le_iff_le_mul_add_pred hdpos]
    omega
  have hcmp : mpCmpHs (correct d 2 (mpSubInto product.length n product) 0).1 d = 0 := by
    have hlt := Nat.mod_lt t hdpos
    rw [mpCmpHs_spec, hmod, if_neg (by omega)]
  rw [hcmp, hcorrection, if_pos (by decide), ok_bind, pure_eq, succeeds_ok, val_mpCopyInto,
    val_mpCopyInto, hmod, hmod']
  refine ⟨⟨length_mpCopyInto, ?_⟩, length_mpCopyInto, rfl⟩
  -- at most one is added to the quotient
  have hofNat : (UInt64.ofNat (t / val d)).toNat = t / val d := by
    rw [UInt64.toNat_ofNat']
    exact Nat.mod_eq_of_lt (by omega)
  have hW8 : 8 ≤ BIGNUM_INT_BITS u := by rcases hu with rfl | rfl <;> decide
  have hword : (UInt64.ofNat (t / val d)).toNat < 2 ^ BIGNUM_INT_BITS u := by
    have h1 : 2 ^ 8 ≤ 2 ^ BIGNUM_INT_BITS u := Nat.pow_le_pow_right (by omega) hW8
    omega
  have hquotlt : val n / val d < 2 ^ (BIGNUM_INT_BITS u * n.length) :=
    lt_of_le_of_lt (Nat.div_le_self _ _) val_lt
  rw [val_mpAddIntegerInto_of_lt hW8 hword, hofNat, hquotient, hdiv, hquolen,
    Nat.mod_eq_of_lt hquotlt]

theorem recipInput_top (hu : 1 ≤ u ∧ u ≤ 6) (hd : val d ≠ 0) : 2 ^ 31 ≤ (recipInput d).toNat := by
  obtain ⟨k, s, -, -, -, -, -, hpair, hbit⟩ := topBits_spec hu hd
  rw [← hpair, pairVal] at hbit
  have h1 := (topBits d).2.1.isLt
  have h2 := (topBits d).2.2.1.isLt
  rw [recipInput, BitVec.toNat_setWidth, BitVec.toNat_ushiftRight, Nat.shiftRight_eq_div_pow]
  omega

/-- With the bound for every input of `recip_approx_32`, division is exact. -/
theorem mpDivmodInto_divmodExact (hu : u = 5 ∨ u = 6)
    (hrecip : ∀ x : BitVec 32, 2 ^ 31 ≤ x.toNat → RecipBound x) :
    DivmodExact (mpDivmodInto (u := u)) :=
  fun _ _ qNw rNw hn hd => mpDivmodInto_spec hu hn hd (hrecip _ (recipInput_top (by omega) hd)) qNw rNw

/-- Division is exact, if `recip_approx_32` is within its bound for the topmost bits of the
denominator. -/
theorem mpDivmodInto_exact (hu : u = 5 ∨ u = 6) (n d : OwnMpInt u) (hd : val d.words ≠ 0)
    (hrecip : RecipBound (recipInput d.words)) (qNw rNw : ℕ) :
    ∃ qOut rOut, mpDivmodInto n.words d.words qNw rNw = .ok (qOut, rOut) ∧
      qOut.length = qNw ∧ rOut.length = rNw ∧
      ∀ q r, val n.words = q * val d.words + r → r < val d.words →
        val qOut = q % 2 ^ (BIGNUM_INT_BITS u * qNw) ∧ val rOut = r % 2 ^ (BIGNUM_INT_BITS u * rNw) := by
  obtain ⟨⟨qOut, rOut⟩, hout, ⟨hqlen, hq⟩, hrlen, hr⟩ :=
    mpDivmodInto_spec hu n.outlawed hd hrecip qNw rNw
  refine ⟨qOut, rOut, hout, hqlen, hrlen, fun q r hqr hlt => ?_⟩
  have hdpos : 0 < val d.words := Nat.pos_of_ne_zero hd
  have hdiv : val n.words / val d.words = q := by
    rw [hqr, Nat.add_comm, Nat.add_mul_div_right _ _ hdpos, Nat.div_eq_of_lt hlt, Nat.zero_add]
  have hmod : val n.words % val d.words = r := by
    rw [hqr, Nat.add_comm, Nat.add_mul_mod_self_right, Nat.mod_eq_of_lt hlt]
  exact ⟨by rw [hq, hdiv], by rw [hr, hmod]⟩

theorem mpDivmodInto_exact_seventeen :
    ∃ qOut rOut, mpDivmodInto ([17] : MpInt 5) [5] 1 1 = .ok (qOut, rOut) ∧ val qOut = 3 ∧ val rOut = 2 := by
  have hrecip : RecipBound (recipInput ([5] : MpInt 5)) := by decide +kernel
  obtain ⟨qOut, rOut, hout, -, -, h⟩ := mpDivmodInto_exact (.inl rfl) ⟨[17], by simp⟩ ⟨[5], by simp⟩
    (by decide) hrecip 1 1
  obtain ⟨hq, hr⟩ := h 3 2 (by decide) (by decide)
  exact ⟨qOut, rOut, hout, hq, hr⟩

end Divide

end PuttyNd.Mpint
