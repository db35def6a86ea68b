import PuttyNd.Mpint.Monty
import PuttyNd.Mpint.Proofs.MpintProofs

/-!
# Proofs: multiplication

`mp_mul_add_simple` adds the product to what is there, and the recursive function agrees with it: each
of its branches puts the three terms of the product together, as far as they fit. The scratch space is
enough at every level.
-/

namespace PuttyNd.Mpint

open Words Outcome

variable {u : ℕ}

/-! ## The simple algorithm -/

@[simp] theorem length_mulAddRow (adata : BignumInt u) (bp rq : MpInt u) (carry : BignumInt u) :
    (mulAddRow adata bp rq carry).length = rq.length := by
  induction rq generalizing bp carry with
  | nil => cases bp <;> rfl
  | cons q rq ih => cases bp <;> simp [mulAddRow, ih]

/-- One digit, and what is carried into the others. -/
theorem digit_modEq {B M x c y y' : ℕ} (h : y' ≡ y + c [MOD M]) :
    x + B * y' ≡ x + B * c + B * y [MOD B * M] := by
  have h1 : B * y' ≡ B * (y + c) [MOD B * M] := h.mul_left' B
  calc x + B * y' ≡ x + B * (y + c) [MOD B * M] := h1.add_left x
    _ = x + B * c + B * y := by ring

theorem val_mulAddRow (adata : BignumInt u) (bp rq : MpInt u) (carry : BignumInt u) :
    val (mulAddRow adata bp rq carry) ≡
      val rq + adata.toNat * val bp + carry.toNat [MOD 2 ^ (BIGNUM_INT_BITS u * rq.length)] := by
  induction rq generalizing bp carry with
  | nil =>
    rw [List.length_nil, Nat.mul_zero, pow_zero]
    exact Nat.modEq_one
  | cons q rq ih =>
    have hpow : 2 ^ (BIGNUM_INT_BITS u * (q :: rq).length) =
        2 ^ BIGNUM_INT_BITS u * 2 ^ (BIGNUM_INT_BITS u * rq.length) := by
      rw [List.length_cons, ← pow_add]
      congr 1
      ring
    rw [hpow]
    cases bp with
    | nil =>
      have hadc := bignumADC_spec carry q 0
      rw [toNat_zero] at hadc
      rw [mulAddRow, val_cons, val_cons, val_nil]
      refine (digit_modEq (ih [] _)).trans ?_
      rw [hadc, val_nil, Nat.mul_zero, Nat.add_zero, Nat.add_zero]
      exact congrArg (· % _) (by ring)
    | cons bdata bp =>
      have hmul := bignumMULADD2_spec adata bdata q carry
      rw [mulAddRow, val_cons, val_cons, val_cons]
      refine (digit_modEq (ih bp _)).trans ?_
      rw [hmul]
      exact congrArg (· % _) (by ring)

@[simp] theorem length_mpMulAddSimple (r a b : MpInt u) :
    (mpMulAddSimple b r a).length = r.length := by
  induction a generalizing r with
  | nil => rfl
  | cons adata ap ih =>
    have hlen := length_mulAddRow adata b r 0
    rw [mpMulAddSimple]
    cases hrow : mulAddRow adata b r 0 with
    | nil =>
      rw [hrow] at hlen
      exact hlen
    | cons q rp =>
      rw [hrow] at hlen
      rw [List.length_cons, ih, ← hlen, List.length_cons]

/-- What is there and the product, as far as they fit. -/
theorem val_mpMulAddSimple (r a b : MpInt u) :
    val (mpMulAddSimple b r a) ≡ val r + val a * val b [MOD 2 ^ (BIGNUM_INT_BITS u * r.length)] := by
  induction a generalizing r with
  | nil =>
    rw [mpMulAddSimple, val_nil, Nat.zero_mul]
    exact Nat.ModEq.refl _
  | cons adata ap ih =>
    have hlen := length_mulAddRow adata b r 0
    have hval := val_mulAddRow adata b r 0
    rw [toNat_zero, Nat.add_zero] at hval
    rw [mpMulAddSimple]
    cases hrow : mulAddRow adata b r 0 with
    | nil =>
      rw [hrow] at hlen
      rw [← hlen, List.length_nil, Nat.mul_zero, pow_zero]
      exact Nat.modEq_one
    | cons q rp =>
      rw [hrow] at hlen hval
      have hpow : 2 ^ (BIGNUM_INT_BITS u * r.length) =
          2 ^ BIGNUM_INT_BITS u * 2 ^ (BIGNUM_INT_BITS u * rp.length) := by
        rw [← hlen, List.length_cons, ← pow_add]
        congr 1
        ring
      rw [hpow] at hval ⊢
      rw [val_cons] at hval
      show val (q :: mpMulAddSimple b rp ap) ≡ _ [MOD _]
      rw [val_cons, val_cons]
      calc q.toNat + 2 ^ BIGNUM_INT_BITS u * val (mpMulAddSimple b rp ap)
          ≡ q.toNat + 2 ^ BIGNUM_INT_BITS u * (val ap * val b) + 2 ^ BIGNUM_INT_BITS u * val rp
            [MOD 2 ^ BIGNUM_INT_BITS u * 2 ^ (BIGNUM_INT_BITS u * rp.length)] :=
            digit_modEq (ih rp)
        _ = (q.toNat + 2 ^ BIGNUM_INT_BITS u * val rp) +
            2 ^ BIGNUM_INT_BITS u * (val ap * val b) := by ring
        _ ≡ (val r + adata.toNat * val b) + 2 ^ BIGNUM_INT_BITS u * (val ap * val b)
            [MOD 2 ^ BIGNUM_INT_BITS u * 2 ^ (BIGNUM_INT_BITS u * rp.length)] :=
            hval.add_right _
        _ = val r + (adata.toNat + 2 ^ BIGNUM_INT_BITS u * val ap) * val b := by ring

/-! ## Parts of a number -/

section Parts

variable {a b r s r0 r2 : MpInt u} {nw inlen k t x : ℕ}

theorem pow_words_add (w m n : ℕ) : 2 ^ (w * (m + n)) = 2 ^ (w * m) * 2 ^ (w * n) := by
  rw [Nat.mul_add, pow_add]

/-- The two halves of the lowest words of a number. -/
theorem val_halves (a : MpInt u) (k t : ℕ) :
    val (mpMakeAlias a 0 k) + 2 ^ (BIGNUM_INT_BITS u * k) * val (mpMakeAlias a k t) =
      val a % 2 ^ (BIGNUM_INT_BITS u * (k + t)) := by
  rw [mpMakeAlias_eq, mpMakeAlias_eq, List.drop_zero, val_take, val_take, val_drop, pow_words_add,
    Nat.mod_mul]

/-- Only the words of the result count. -/
theorem val_mod_modEq (h : a.length ≤ inlen ∨ nw ≤ inlen) :
    val a % 2 ^ (BIGNUM_INT_BITS u * inlen) ≡ val a [MOD 2 ^ (BIGNUM_INT_BITS u * nw)] := by
  rcases h with h | h
  · have hlt : val a < 2 ^ (BIGNUM_INT_BITS u * inlen) :=
      lt_of_lt_of_le val_lt (Nat.pow_le_pow_right (by omega) (Nat.mul_le_mul_left _ h))
    rw [Nat.mod_eq_of_lt hlt]
  · exact (Nat.mod_modEq _ _).of_dvd (Nat.pow_dvd_pow 2 (Nat.mul_le_mul_left _ h))

/-- A product that is computed as far as it fits, where it does not reach beyond `k` words. -/
theorem mod_modEq_of_lt (hx : x < 2 ^ (BIGNUM_INT_BITS u * k)) :
    x % 2 ^ (BIGNUM_INT_BITS u * min k nw) ≡ x [MOD 2 ^ (BIGNUM_INT_BITS u * nw)] := by
  rcases Nat.le_total k nw with h | h
  · rw [Nat.min_eq_left h, Nat.mod_eq_of_lt hx]
  · rw [Nat.min_eq_right h]
    exact Nat.mod_modEq _ _

/-- The same `k` words further up. -/
theorem shift_modEq (h : k ≤ nw) {y : ℕ} (hxy : x ≡ y [MOD 2 ^ (BIGNUM_INT_BITS u * (nw - k))]) :
    2 ^ (BIGNUM_INT_BITS u * k) * x ≡ 2 ^ (BIGNUM_INT_BITS u * k) * y
      [MOD 2 ^ (BIGNUM_INT_BITS u * nw)] := by
  have hpow := pow_words_add (BIGNUM_INT_BITS u) k (nw - k)
  rw [Nat.add_sub_cancel' h] at hpow
  rw [hpow]
  exact hxy.mul_left' _

/-- What is too far up does not count. -/
theorem beyond_modEq (h : nw ≤ k) :
    0 ≡ 2 ^ (BIGNUM_INT_BITS u * k) * x [MOD 2 ^ (BIGNUM_INT_BITS u * nw)] := by
  have hdvd : 2 ^ (BIGNUM_INT_BITS u * nw) ∣ 2 ^ (BIGNUM_INT_BITS u * k) :=
    Nat.pow_dvd_pow 2 (Nat.mul_le_mul_left _ h)
  exact ((Nat.modEq_zero_iff_dvd.mpr (hdvd.mul_right x))).symm

theorem mul_lt_pow {x y m n : ℕ} (hx : x < 2 ^ (BIGNUM_INT_BITS u * m))
    (hy : y < 2 ^ (BIGNUM_INT_BITS u * n)) : x * y < 2 ^ (BIGNUM_INT_BITS u * (m + n)) := by
  rw [pow_words_add]
  exact Nat.mul_lt_mul'' hx hy

theorem val_alias_lt (a : MpInt u) (offset len : ℕ) :
    val (mpMakeAlias a offset len) < 2 ^ (BIGNUM_INT_BITS u * len) := by
  rw [mpMakeAlias_eq, val_take]
  exact Nat.mod_lt _ (Nat.two_pow_pos _)

/-- The outer terms of the product, in their places. -/
theorem val_outer (hr0 : r0.length = min (k * 2) nw) (hr2 : r2.length = nw - k * 2) {x y : ℕ}
    (hx : x < 2 ^ (BIGNUM_INT_BITS u * (k * 2)))
    (hv0 : val r0 = x % 2 ^ (BIGNUM_INT_BITS u * r0.length))
    (hv2 : val r2 = y % 2 ^ (BIGNUM_INT_BITS u * r2.length)) :
    val (r0 ++ r2) ≡ x + 2 ^ (BIGNUM_INT_BITS u * (k * 2)) * y
      [MOD 2 ^ (BIGNUM_INT_BITS u * nw)] := by
  rw [val_append, hv0, hr0]
  refine (mod_modEq_of_lt hx).add ?_
  rcases Nat.le_total (k * 2) nw with h | h
  · rw [Nat.min_eq_left h]
    apply shift_modEq h
    rw [hv2, hr2]
    exact Nat.mod_modEq _ _
  · have hnil : r2 = [] := List.eq_nil_of_length_eq_zero (by omega)
    rw [hnil, val_nil, Nat.mul_zero]
    exact beyond_modEq h

/-- Adding to the upper words. -/
theorem val_addHigh (low high s : MpInt u) :
    val (low ++ mpAddInto high.length high s) ≡
      val (low ++ high) + 2 ^ (BIGNUM_INT_BITS u * low.length) * val s
      [MOD 2 ^ (BIGNUM_INT_BITS u * (low.length + high.length))] := by
  rw [val_append, val_append, val_mpAddInto, Nat.add_assoc, ← Nat.mul_add]
  refine Nat.ModEq.add_left _ (shift_modEq (by omega) ?_)
  rw [Nat.add_sub_cancel_left]
  exact Nat.mod_modEq _ _

theorem low_high (r : MpInt u) (k : ℕ) (hr : r.length = nw) :
    mpMakeAlias r 0 k ++ mpMakeAlias r k nw = r := by
  have hrest : (r.drop k).take nw = r.drop k := List.take_of_length_le (by simp [hr])
  rw [mpMakeAlias_eq, mpMakeAlias_eq, List.drop_zero, hrest, List.take_append_drop]

end Parts

/-! ## The recursive algorithm -/

section Karatsuba

variable {a b : MpInt u} {nw : ℕ}

/-- What `mp_mul_internal` is to return. -/
def IsProduct (nw : ℕ) (a b r : MpInt u) : Prop :=
  r.length = nw ∧ val r = val a * val b % 2 ^ (BIGNUM_INT_BITS u * nw)

theorem IsProduct.of_modEq {r : MpInt u} (hlen : r.length = nw)
    (h : val r ≡ val a * val b [MOD 2 ^ (BIGNUM_INT_BITS u * nw)]) : IsProduct nw a b r := by
  refine ⟨hlen, ?_⟩
  have hlt := val_lt (l := r)
  rw [hlen] at hlt
  have h' : val r % 2 ^ (BIGNUM_INT_BITS u * nw) = val a * val b % 2 ^ (BIGNUM_INT_BITS u * nw) := h
  rwa [Nat.mod_eq_of_lt hlt] at h'

theorem isProduct_simple (nw : ℕ) (a b : MpInt u) :
    IsProduct nw a b (mpMulAddSimple b (List.replicate nw 0) a) := by
  apply IsProduct.of_modEq (by simp)
  have h := val_mpMulAddSimple (List.replicate nw 0) a b
  rwa [val_replicate, Nat.zero_add, List.length_replicate] at h

variable {r0 r2 s s' product : MpInt u} {k t : ℕ}

/-- The outer terms. -/
theorem outer_terms (a b : MpInt u)
    (hr0 : IsProduct (min (k * 2) nw) (mpMakeAlias a 0 k) (mpMakeAlias b 0 k) r0)
    (hr2 : IsProduct (nw - k * 2) (mpMakeAlias a k t) (mpMakeAlias b k t) r2) :
    (r0 ++ r2).length = nw ∧ val (r0 ++ r2) ≡
      val (mpMakeAlias a 0 k) * val (mpMakeAlias b 0 k) +
        2 ^ (BIGNUM_INT_BITS u * (k * 2)) * (val (mpMakeAlias a k t) * val (mpMakeAlias b k t))
      [MOD 2 ^ (BIGNUM_INT_BITS u * nw)] := by
  refine ⟨?_, val_outer hr0.1 hr2.1 ?_ ?_ ?_⟩
  · rw [List.length_append, hr0.1, hr2.1]
    omega
  · have h := mul_lt_pow (val_alias_lt a 0 k) (val_alias_lt b 0 k)
    rwa [← Nat.mul_two] at h
  · rw [hr0.1]
    exact hr0.2
  · rw [hr2.1]
    exact hr2.2

/-- The product of the halves is the product, as far as it fits. -/
theorem halves_product (ha : a.length ≤ k + t ∨ nw ≤ k + t) (hb : b.length ≤ k + t ∨ nw ≤ k + t) :
    (val (mpMakeAlias a 0 k) + 2 ^ (BIGNUM_INT_BITS u * k) * val (mpMakeAlias a k t)) *
      (val (mpMakeAlias b 0 k) + 2 ^ (BIGNUM_INT_BITS u * k) * val (mpMakeAlias b k t)) ≡
    val a * val b [MOD 2 ^ (BIGNUM_INT_BITS u * nw)] := by
  rw [val_halves, val_halves]
  exact (val_mod_modEq ha).mul (val_mod_modEq hb)

theorem pow_square (k : ℕ) : 2 ^ (BIGNUM_INT_BITS u * (k * 2)) =
    2 ^ (BIGNUM_INT_BITS u * k) * 2 ^ (BIGNUM_INT_BITS u * k) := by
  rw [Nat.mul_two, pow_words_add]

/-- The branch that adds the middle terms one by one. -/
theorem isProduct_truncated (hk : k ≤ nw)
    (ha : a.length ≤ k + t ∨ nw ≤ k + t) (hb : b.length ≤ k + t ∨ nw ≤ k + t)
    (hr0 : IsProduct (min (k * 2) nw) (mpMakeAlias a 0 k) (mpMakeAlias b 0 k) r0)
    (hr2 : IsProduct (nw - k * 2) (mpMakeAlias a k t) (mpMakeAlias b k t) r2)
    (hs : IsProduct (min (k + t) (nw - k)) (mpMakeAlias a 0 k) (mpMakeAlias b k t) s)
    (hs' : IsProduct (min (k + t) (nw - k)) (mpMakeAlias a k t) (mpMakeAlias b 0 k) s') :
    IsProduct nw a b (mpMakeAlias (r0 ++ r2) 0 k ++
      mpAddInto (mpAddInto (mpMakeAlias (r0 ++ r2) k nw).length (mpMakeAlias (r0 ++ r2) k nw) s).length
        (mpAddInto (mpMakeAlias (r0 ++ r2) k nw).length (mpMakeAlias (r0 ++ r2) k nw) s) s') := by
  obtain ⟨hlen, hval⟩ := outer_terms a b hr0 hr2
  have hlow : (mpMakeAlias (r0 ++ r2) 0 k).length = k := by
    rw [mpMakeAlias_eq, List.length_take, List.drop_zero, hlen]
    omega
  have hhigh : (mpMakeAlias (r0 ++ r2) k nw).length = nw - k := by
    rw [mpMakeAlias_eq, List.length_take, List.length_drop, hlen]
    omega
  have hsum := low_high (r0 ++ r2) k hlen
  generalize mpMakeAlias (r0 ++ r2) 0 k = low at hlow hsum ⊢
  generalize mpMakeAlias (r0 ++ r2) k nw = high at hhigh hsum ⊢
  have hmid : val s ≡ val (mpMakeAlias a 0 k) * val (mpMakeAlias b k t)
      [MOD 2 ^ (BIGNUM_INT_BITS u * (nw - k))] := by
    rw [hs.2]
    exact mod_modEq_of_lt (mul_lt_pow (val_alias_lt a 0 k) (val_alias_lt b k t))
  have hmid' : val s' ≡ val (mpMakeAlias a k t) * val (mpMakeAlias b 0 k)
      [MOD 2 ^ (BIGNUM_INT_BITS u * (nw - k))] := by
    rw [hs'.2]
    have hlt := mul_lt_pow (val_alias_lt a k t) (val_alias_lt b 0 k)
    rw [Nat.add_comm t k] at hlt
    exact mod_modEq_of_lt hlt
  have hadd := val_addHigh low high s
  have hadd' := val_addHigh low (mpAddInto high.length high s) s'
  rw [length_mpAddInto, hlow, hhigh, Nat.add_sub_cancel' hk] at hadd'
  rw [hlow, hhigh, Nat.add_sub_cancel' hk, hsum] at hadd
  apply IsProduct.of_modEq
  · rw [List.length_append, length_mpAddInto, length_mpAddInto]
    omega
  · rw [length_mpAddInto, hhigh]
    refine (hadd'.trans ((hadd.add_right _).trans ?_)).trans (halves_product ha hb)
    refine (((hval.add (shift_modEq hk hmid)).add (shift_modEq hk hmid'))).trans ?_
    rw [pow_square]
    exact congrArg (· % _) (by ring)

theorem two_mul_pow_le (n : ℕ) :
    2 * 2 ^ (BIGNUM_INT_BITS u * n) ≤ 2 ^ (BIGNUM_INT_BITS u * (n + 1)) := by
  rw [← pow_succ']
  apply Nat.pow_le_pow_right (by omega)
  rw [Nat.mul_add]
  have := bits_pos (u := u)
  omega

/-- The sum of the halves has room in one more word. -/
theorem val_halfSum (htk : t ≤ k) :
    val (mpAddInto (k + 1) (mpMakeAlias a 0 k) (mpMakeAlias a k t)) =
      val (mpMakeAlias a 0 k) + val (mpMakeAlias a k t) := by
  have h0 := val_alias_lt a 0 k
  have h1 := val_alias_lt a k t
  have hle : 2 ^ (BIGNUM_INT_BITS u * t) ≤ 2 ^ (BIGNUM_INT_BITS u * k) :=
    Nat.pow_le_pow_right (by omega) (Nat.mul_le_mul_left _ htk)
  have h2 := two_mul_pow_le (u := u) k
  rw [val_mpAddInto, Nat.mod_eq_of_lt (by omega)]

/-- What is left of the product of the sums is the middle term. -/
theorem val_middle (htk : t ≤ k)
    (hr0 : val r0 = val (mpMakeAlias a 0 k) * val (mpMakeAlias b 0 k))
    (hr2 : val r2 = val (mpMakeAlias a k t) * val (mpMakeAlias b k t))
    (hproduct : IsProduct (k * 2 + 1) (mpAddInto (k + 1) (mpMakeAlias a 0 k) (mpMakeAlias a k t))
      (mpAddInto (k + 1) (mpMakeAlias b 0 k) (mpMakeAlias b k t)) product) :
    val (mpSubInto (k * 2 + 1) (mpSubInto (k * 2 + 1) product r0) r2) =
      val (mpMakeAlias a 0 k) * val (mpMakeAlias b k t) +
        val (mpMakeAlias a k t) * val (mpMakeAlias b 0 k) := by
  have h1 := mul_lt_pow (val_alias_lt a 0 k) (val_alias_lt b k t)
  have h2 := mul_lt_pow (val_alias_lt a k t) (val_alias_lt b 0 k)
  have hle : 2 * 2 ^ (BIGNUM_INT_BITS u * (k + t)) ≤ 2 ^ (BIGNUM_INT_BITS u * (k * 2 + 1)) :=
    (two_mul_pow_le (k + t)).trans (Nat.pow_le_pow_right (by omega)
      (Nat.mul_le_mul_left _ (by omega)))
  rw [Nat.add_comm t k] at h2
  have hp := hproduct.2
  rw [val_halfSum htk, val_halfSum htk] at hp
  have hsub := val_mpSubInto (n := k * 2 + 1) (a := mpSubInto (k * 2 + 1) product r0) (b := r2)
  have hsub0 := val_mpSubInto (n := k * 2 + 1) (a := product) (b := r0)
  rw [hsub0, hp, hr0, hr2, Int.emod_sub_emod, Int.natCast_mod] at hsub
  generalize 2 ^ (BIGNUM_INT_BITS u * (k * 2 + 1)) = M at hle hsub
  rw [Int.sub_sub, Int.emod_sub_emod, ← Int.sub_sub] at hsub
  generalize val (mpMakeAlias a 0 k) = a0 at *
  generalize val (mpMakeAlias a k t) = a1 at *
  generalize val (mpMakeAlias b 0 k) = b0 at *
  generalize val (mpMakeAlias b k t) = b1 at *
  have hmid : (((a0 + a1) * (b0 + b1) : ℕ) : ℤ) - ((a0 * b0 : ℕ) : ℤ) - ((a1 * b1 : ℕ) : ℤ) =
      ((a0 * b1 + a1 * b0 : ℕ) : ℤ) := by
    push_cast
    ring
  rw [hmid, ← Int.natCast_mod, Nat.mod_eq_of_lt (by omega)] at hsub
  exact_mod_cast hsub

/-- The branch that saves a multiplication. -/
theorem isProduct_full (hn : (k + t) * 2 ≤ nw) (htk : t ≤ k)
    (ha : a.length ≤ k + t) (hb : b.length ≤ k + t)
    (hr0 : IsProduct (min (k * 2) nw) (mpMakeAlias a 0 k) (mpMakeAlias b 0 k) r0)
    (hr2 : IsProduct (nw - k * 2) (mpMakeAlias a k t) (mpMakeAlias b k t) r2)
    (hproduct : IsProduct (k * 2 + 1) (mpAddInto (k + 1) (mpMakeAlias a 0 k) (mpMakeAlias a k t))
      (mpAddInto (k + 1) (mpMakeAlias b 0 k) (mpMakeAlias b k t)) product) :
    IsProduct nw a b (mpMakeAlias (r0 ++ r2) 0 k ++
      mpAddInto (mpMakeAlias (r0 ++ r2) k nw).length (mpMakeAlias (r0 ++ r2) k nw)
        (mpSubInto (k * 2 + 1) (mpSubInto (k * 2 + 1) product r0) r2)) := by
  obtain ⟨hlen, hval⟩ := outer_terms a b hr0 hr2
  have hlow : (mpMakeAlias (r0 ++ r2) 0 k).length = k := by
    rw [mpMakeAlias_eq, List.length_take, List.drop_zero, hlen]
    omega
  have hhigh : (mpMakeAlias (r0 ++ r2) k nw).length = nw - k := by
    rw [mpMakeAlias_eq, List.length_take, List.length_drop, hlen]
    omega
  have hexact0 : val r0 = val (mpMakeAlias a 0 k) * val (mpMakeAlias b 0 k) := by
    have h := mul_lt_pow (val_alias_lt a 0 k) (val_alias_lt b 0 k)
    rw [← Nat.mul_two] at h
    rw [hr0.2, Nat.min_eq_left (by omega), Nat.mod_eq_of_lt h]
  have hexact2 : val r2 = val (mpMakeAlias a k t) * val (mpMakeAlias b k t) := by
    have h := mul_lt_pow (val_alias_lt a k t) (val_alias_lt b k t)
    have hle : 2 ^ (BIGNUM_INT_BITS u * (t + t)) ≤ 2 ^ (BIGNUM_INT_BITS u * (nw - k * 2)) :=
      Nat.pow_le_pow_right (by omega) (Nat.mul_le_mul_left _ (by omega))
    rw [hr2.2, Nat.mod_eq_of_lt (by omega)]
  have hadd := val_addHigh (mpMakeAlias (r0 ++ r2) 0 k) (mpMakeAlias (r0 ++ r2) k nw)
    (mpSubInto (k * 2 + 1) (mpSubInto (k * 2 + 1) product r0) r2)
  rw [low_high (r0 ++ r2) k hlen, hlow, hhigh, Nat.add_sub_cancel' (by omega),
    val_middle htk hexact0 hexact2 hproduct] at hadd
  apply IsProduct.of_modEq
  · rw [List.length_append, length_mpAddInto, hlow, hhigh]
    omega
  · rw [hhigh]
    refine (hadd.trans ((hval.add_right _).trans ?_)).trans (halves_product (.inl ha) (.inl hb))
    rw [pow_square]
    exact congrArg (· % _) (by ring)

/-- The recursion is right, and never runs out of scratch space. -/
theorem mpMulInternal_spec (nw : ℕ) (a b : MpInt u) (scratch : ℕ)
    (hscratch : mpMulScratchspace nw a.length b.length ≤ scratch) :
    Succeeds (mpMulInternal nw a b scratch) (IsProduct nw a b) := by
  induction hn : max a.length b.length using Nat.strong_induction_on generalizing nw a b scratch with
  | _ n ih =>
    unfold mpMulScratchspace mpMulScratchspaceUnary at hscratch ih
    rw [mpMulInternal]
    simp only [check, mpMulScratchspaceUnary, ge_iff_le, hscratch, if_true, ok_bind]
    split
    · exact succeeds_ok.mpr (isProduct_simple nw a b)
    · rename_i hlarge
      simp only [KARATSUBA_THRESHOLD, not_or, Nat.not_lt] at hlarge
      generalize hinlen : min nw (max a.length b.length) = inlen at hscratch hlarge ⊢
      generalize ht : inlen / 2 = t
      generalize hk : inlen - t = k
      have hl0 : (mpMakeAlias (List.replicate nw (0 : BignumInt u)) 0 (k * 2)).length =
          min (k * 2) nw := by simp
      have hl2 : (mpMakeAlias (List.replicate nw (0 : BignumInt u)) (k * 2) nw).length =
          nw - k * 2 := by simp
      rw [hl0, hl2]
      have hlen : ∀ x : MpInt u, (mpMakeAlias x 0 k).length ≤ k ∧ (mpMakeAlias x k t).length ≤ t :=
        fun x => ⟨by simp, by simp⟩
      have ha := hlen a
      have hb := hlen b
      refine .bind (ih _ ?_ _ _ _ _ ?_ rfl) fun r0 hr0 => .bind (ih _ ?_ _ _ _ _ ?_ rfl)
        fun r2 hr2 => ?_
      · omega
      · omega
      · omega
      · omega
      have hr := (outer_terms a b hr0 hr2).1
      have hl1 : (mpMakeAlias (r0 ++ r2) k nw).length = nw - k := by
        rw [mpMakeAlias_eq, List.length_take, List.length_drop, hr]
        omega
      split
      · -- the output is too short for the whole product
        have hsize : min (k + t) (mpMakeAlias (r0 ++ r2) k nw).length = min (k + t) (nw - k) := by
          rw [hl1]
        rw [hsize, mpAllocFromScratch_of_le (by omega), ok_bind]
        refine .bind (ih _ ?_ _ _ _ _ ?_ rfl) fun s hs => .bind (ih _ ?_ _ _ _ _ ?_ rfl)
          fun s' hs' => ?_
        · omega
        · omega
        · omega
        · omega
        · exact succeeds_ok.mpr (isProduct_truncated (by omega) (by omega) (by omega) hr0 hr2 hs hs')
      · rw [mpAllocFromScratch_of_le (by omega), ok_bind, mpAllocFromScratch_of_le (by omega), ok_bind,
          mpAllocFromScratch_of_le (by omega), ok_bind]
        refine .bind (ih _ ?_ _ _ _ _ ?_ rfl) fun product hproduct => ?_
        · rw [length_mpAddInto, length_mpAddInto]
          omega
        · rw [length_mpAddInto, length_mpAddInto]
          omega
        · exact succeeds_ok.mpr
            (isProduct_full (by omega) (by omega) (by omega) (by omega) hr0 hr2 hproduct)

theorem IsProduct.unique {r r' : MpInt u} (h : IsProduct nw a b r) (h' : IsProduct nw a b r') :
    r = r' :=
  val_inj (h.1.trans h'.1.symm) (h.2.trans h'.2.symm)

theorem mpMulInternal_eq (nw : ℕ) (a b : MpInt u) (scratch : ℕ)
    (hscratch : mpMulScratchspace nw a.length b.length ≤ scratch) :
    mpMulInternal nw a b scratch = .ok (mpMulAddSimple b (List.replicate nw 0) a) := by
  obtain ⟨r, hr, hproduct⟩ := mpMulInternal_spec nw a b scratch hscratch
  rw [hr, hproduct.unique (isProduct_simple nw a b)]

theorem mpMulInto_spec (hnw : nw ≠ 0) (ha : a ≠ []) : Succeeds (mpMulInto nw a b) (IsProduct nw a b) := by
  have hlen : 0 < a.length := List.length_pos_of_ne_nil ha
  have hne : mpMulScratchspace nw a.length b.length ≠ 0 := by
    rw [mpMulScratchspace, mpMulScratchspaceUnary]
    omega
  rw [mpMulInto, mpMakeSized, check, if_pos hne]
  exact mpMulInternal_spec nw a b _ (by simp)

end Karatsuba

/-- Multiplication into a number of any size gives the product modulo that size; and the recursive
algorithm finds enough scratch space at each level, and agrees with the simple one. -/
theorem mpMulInto_exact (r a b : OwnMpInt u) :
    (∃ product, mpMulInto r.words.length a.words b.words = .ok product ∧
      product.length = r.words.length ∧
      val product = val a.words * val b.words % 2 ^ (BIGNUM_INT_BITS u * r.words.length)) ∧
    ∀ (nw : ℕ) (x y : MpInt u) (scratch : ℕ), mpMulScratchspace nw x.length y.length ≤ scratch →
      mpMulInternal nw x y scratch = .ok (mpMulAddSimple y (List.replicate nw 0) x) ∧
        val (mpMulAddSimple y (List.replicate nw 0) x) =
          val x * val y % 2 ^ (BIGNUM_INT_BITS u * nw) := by
  constructor
  · have hr : r.words.length ≠ 0 := fun h => r.outlawed (List.eq_nil_of_length_eq_zero h)
    exact mpMulInto_spec hr a.outlawed
  · intro nw x y scratch hscratch
    exact ⟨mpMulInternal_eq nw x y scratch hscratch, (isProduct_simple nw x y).2⟩

theorem mpMulInto_exact_fifteen :
    mpMulInternal 2 ([3] : MpInt 5) [5] 6 =
      .ok (mpMulAddSimple [5] (List.replicate 2 0) ([3] : MpInt 5)) ∧
    val (mpMulAddSimple [5] (List.replicate 2 0) ([3] : MpInt 5)) = 15 :=
  (mpMulInto_exact (u := 5) ⟨[0], by simp⟩ ⟨[0], by simp⟩ ⟨[0], by simp⟩).2 2 [3] [5] 6 (by decide)

end PuttyNd.Mpint
