import PuttyNd.Lib.PrimePowers
import PuttyNd.Mpint.Proofs.BezoutProofs
import PuttyNd.Mpint.Proofs.RecipProofs
import PuttyNd.Rsa.Sshrsa

/-!
# Proofs for the RSA key type (`psftp/sshrsa.c`)

First the numbers that the functions of `mpint.c` leave, then what the private operation computes from them.
-/

namespace PuttyNd.Mpint

open Words Outcome

variable {u : ℕ} {x y : MpInt u}

/-- The number before a positive one -/
theorem val_mpSubIntegerInto_one (hW : 8 ≤ BIGNUM_INT_BITS u) (hx : 0 < val x) :
    val (mpSubIntegerInto x.length x 1) = val x - 1 := by
  have hone : (1 : UInt64).toNat % 2 ^ BIGNUM_INT_BITS u = 1 :=
    Nat.mod_eq_of_lt (Nat.one_lt_two_pow (by omega))
  have h := @val_mpSubIntegerInto u x.length x 1 hW
  rw [hone] at h
  have hlt : val x < 2 ^ (BIGNUM_INT_BITS u * x.length) := val_lt
  rw [Int.emod_eq_of_lt (by omega) (by omega)] at h
  omega

theorem mpMin_spec (hx : x ≠ []) (hy : y ≠ []) : Succeeds (mpMin x y) fun r =>
    r.length = min x.length y.length ∧ val r = min (val x) (val y) := by
  have hlen : min x.length y.length ≠ 0 := by
    have h1 := List.length_pos_of_ne_nil hx
    have h2 := List.length_pos_of_ne_nil hy
    omega
  rw [mpMin, mpMakeSized_ok hlen, ok_bind, List.length_replicate, pure_eq, succeeds_ok, mpMinInto,
    length_mpSelectInto, val_mpSelectInto, mpCmpHs_spec]
  refine ⟨rfl, ?_⟩
  have hmin : min (val x) (val y) < 2 ^ (BIGNUM_INT_BITS u * min x.length y.length) := by
    rcases Nat.le_total x.length y.length with h | h
    · rw [Nat.min_eq_left h]
      exact lt_of_le_of_lt (min_le_left _ _) val_lt
    · rw [Nat.min_eq_right h]
      exact lt_of_le_of_lt (min_le_right _ _) val_lt
  by_cases hle : val y ≤ val x
  · have hval : min (val x) (val y) = val y := Nat.min_eq_right hle
    rw [hval] at hmin ⊢
    rw [if_pos hle]
    exact Nat.mod_eq_of_lt hmin
  · have hval : min (val x) (val y) = val x := Nat.min_eq_left (by omega)
    rw [hval] at hmin ⊢
    rw [if_neg hle]
    exact Nat.mod_eq_of_lt hmin

theorem mpMax_spec (hx : x ≠ []) : Succeeds (mpMax x y) fun r =>
    r.length = max x.length y.length ∧ val r = max (val x) (val y) := by
  have hlen : max x.length y.length ≠ 0 := by
    have h1 := List.length_pos_of_ne_nil hx
    omega
  rw [mpMax, mpMakeSized_ok hlen, ok_bind, List.length_replicate, pure_eq, succeeds_ok, mpMaxInto,
    length_mpSelectInto, val_mpSelectInto, mpCmpHs_spec]
  refine ⟨rfl, ?_⟩
  by_cases hle : val y ≤ val x
  · have hval : max (val x) (val y) = val x := Nat.max_eq_left hle
    rw [hval, if_pos hle]
    exact Nat.mod_eq_of_lt (val_lt_of_length_le (Nat.le_max_left _ _))
  · have hval : max (val x) (val y) = val y := Nat.max_eq_right (by omega)
    rw [hval, if_neg hle]
    exact Nat.mod_eq_of_lt (val_lt_of_length_le (Nat.le_max_right _ _))

theorem ne_nil_of_length_eq (h : x.length = y.length) (hy : y ≠ []) : x ≠ [] :=
  List.ne_nil_of_length_pos (h ▸ List.length_pos_of_ne_nil hy)

theorem eight_le_bits (hu : u = 5 ∨ u = 6) : 8 ≤ BIGNUM_INT_BITS u := by
  rcases hu with rfl | rfl <;> decide

theorem mpModpow_ok (hu : u = 5 ∨ u = 6) {modulus base : MpInt u} (hodd : val modulus % 2 = 1) (hbase : base ≠ [])
    (exponent : MpInt u) : Succeeds (mpModpow mpDivmodInto base exponent modulus) fun out =>
      out.length = modulus.length ∧ val out = val base ^ val exponent % val modulus :=
  mpModpow_spec (mpDivmodInto_exact_all hu) hodd hbase exponent

end PuttyNd.Mpint

namespace PuttyNd.Rsa

open Mpint Words Outcome PrimePowers

variable {u : ℕ}

section Crt

variable {base exp mod p q iqmp : MpInt u}

/-- The difference is not cut off, and it is congruent to what it stands for. -/
theorem diff_spec {presult qresult : MpInt u} (hlen : presult.length = p.length) (hlen' : qresult.length ≤ p.length)
    (hx : val presult < val p) (hy : val qresult < val p) :
    Succeeds (mpSub (mpCondAddInto presult.length presult p (mpCmpHs qresult presult)) qresult) fun diff =>
      diff.length = p.length ∧ val diff + val qresult ≡ val presult [MOD val p] := by
  have hpos : p.length ≠ 0 := by
    rw [Ne, List.length_eq_zero_iff]
    exact ne_nil_of_val (by omega)
  have hmax : max (mpCondAddInto presult.length presult p (mpCmpHs qresult presult)).length qresult.length =
      p.length := by
    rw [length_mpCondAddInto, hlen, Nat.max_eq_left hlen']
  rw [mpSub, hmax, mpMakeSized_ok hpos, ok_bind, List.length_replicate, pure_eq, succeeds_ok]
  refine ⟨length_mpSubInto, ?_⟩
  have hsub := val_mpSubInto (n := p.length)
    (a := mpCondAddInto presult.length presult p (mpCmpHs qresult presult)) (b := qresult)
  rw [val_mpCondAddInto, hlen, mpCmpHs_spec] at hsub
  have hp : val p < 2 ^ (BIGNUM_INT_BITS u * p.length) := val_lt
  rw [Int.natCast_mod, Int.sub_emod, Int.emod_emod_of_dvd _ (dvd_refl _), ← Int.sub_emod] at hsub
  rw [hlen, mpCmpHs_spec]
  by_cases hle : val presult ≤ val qresult
  · simp only [if_pos hle] at hsub ⊢
    rw [if_pos (by decide), Int.emod_eq_of_lt (by omega) (by omega)] at hsub
    have hval : val (mpSubInto p.length (mpCondAddInto p.length presult p 1) qresult) + val qresult =
        val presult + val p := by omega
    rw [hval]
    exact Nat.add_modEq_right
  · simp only [if_neg hle] at hsub ⊢
    rw [if_neg (by decide), Int.emod_eq_of_lt (by omega) (by omega)] at hsub
    have hval : val (mpSubInto p.length (mpCondAddInto p.length presult p 0) qresult) + val qresult =
        val presult := by omega
    rw [hval]

/-- The sum is not cut off. -/
theorem sum_lt {A B C a b c y : ℕ} (ha : a < A) (hb : b < B) (hc : c < C) (hy : y < b) : a * b * c + y < A * B * C := by
  have hac : a * c + 1 ≤ A * C := Nat.mul_lt_mul'' ha hc
  calc a * b * c + y < a * b * c + b := Nat.add_lt_add_left hy _
    _ = b * (a * c + 1) := by ring
    _ ≤ b * (A * C) := Nat.mul_le_mul_left b hac
    _ ≤ B * (A * C) := Nat.mul_le_mul_right _ hb.le
    _ = A * B * C := by ring

/-- The residues of the result -/
theorem crtModpow_spec (hu : u = 5 ∨ u = 6) (hbase : base ≠ []) (hexp : exp ≠ []) (hp : val p % 2 = 1)
    (hq : val q % 2 = 1) (hqone : 1 < val q) (hqp : val q < val p) (hlen : q.length ≤ p.length) (hiqmp : iqmp ≠ [])
    (hinv : val iqmp * val q % val p = 1) (hmod : val mod = val p * val q) :
    Succeeds (crtModpow base exp mod p q iqmp) fun r => r.length = mod.length ∧ val r < val mod ∧
      val r ≡ val base ^ (val exp % (val p - 1)) [MOD val p] ∧
      val r ≡ val base ^ (val exp % (val q - 1)) [MOD val q] := by
  have hW := eight_le_bits hu
  have hdiv := mpDivmodInto_exact_all hu
  have hpm1 := val_mpSubIntegerInto_one (x := p) hW (by omega)
  have hqm1 := val_mpSubIntegerInto_one (x := q) hW (by omega)
  have hmodpos : 0 < val mod := hmod ▸ Nat.mul_pos (by omega) (by omega)
  unfold crtModpow
  rw [mpCopy_ok (ne_nil_of_odd hp), ok_bind, mpCopy_ok (ne_nil_of_odd hq), ok_bind]
  refine .bind (mpMod_spec hdiv hexp (by omega)) fun pexp hpexp => ?_
  refine .bind (mpMod_spec hdiv hexp (by omega)) fun qexp hqexp => ?_
  refine .bind (mpMod_spec hdiv hbase (by omega)) fun baseModP hbaseP => ?_
  refine .bind (mpModpow_ok hu hp (ne_nil_of_length_eq hbaseP.1 (ne_nil_of_odd hp)) pexp) fun presult hpresult => ?_
  refine .bind (mpMod_spec hdiv hbase (by omega)) fun baseModQ hbaseQ => ?_
  refine .bind (mpModpow_ok hu hq (ne_nil_of_length_eq hbaseQ.1 (ne_nil_of_odd hq)) qexp) fun qresult hqresult => ?_
  have hxlt : val presult < val p := hpresult.2 ▸ Nat.mod_lt _ (by omega)
  have hylt : val qresult < val q := hqresult.2 ▸ Nat.mod_lt _ (by omega)
  refine .bind (diff_spec hpresult.1 (hqresult.1 ▸ hlen) hxlt (hylt.trans hqp)) fun diff hdiff => ?_
  refine .bind (mpMul_spec hiqmp) fun multiplier hmultiplier => ?_
  have hnem : multiplier ≠ [] := fun h => by
    have h1 := List.length_pos_of_ne_nil hiqmp
    have h2 := hmultiplier.1
    rw [h, List.length_nil] at h2
    omega
  refine .bind (mpMul_spec hnem) fun ret0 hret0 => ?_
  have hsum : val (mpAddInto ret0.length ret0 qresult) = val iqmp * val q * val diff + val qresult := by
    rw [val_mpAddInto, hret0.2, hmultiplier.2, hret0.1, hmultiplier.1, Nat.mul_add, Nat.mul_add, pow_add, pow_add]
    exact Nat.mod_eq_of_lt (sum_lt val_lt val_lt val_lt hylt)
  have hne0 : mpAddInto ret0.length ret0 qresult ≠ [] := fun h => by
    have h1 := List.length_pos_of_ne_nil hnem
    have h2 := congrArg List.length h
    rw [length_mpAddInto, hret0.1, List.length_nil] at h2
    omega
  refine (mpMod_spec hdiv hne0 (by omega)).mono fun r hr => ?_
  obtain ⟨hresp, hresq⟩ := garner (q := val q) (by rw [hinv, Nat.mod_eq_of_lt (by omega)]) hdiff.2
  rw [hsum] at hr
  have hbp : val presult ≡ val base ^ (val exp % (val p - 1)) [MOD val p] := by
    rw [hpresult.2, hbaseP.2, hpexp.2, hpm1]
    exact (Nat.mod_modEq _ _).trans ((Nat.mod_modEq _ _).pow _)
  have hbq : val qresult ≡ val base ^ (val exp % (val q - 1)) [MOD val q] := by
    rw [hqresult.2, hbaseQ.2, hqexp.2, hqm1]
    exact (Nat.mod_modEq _ _).trans ((Nat.mod_modEq _ _).pow _)
  have hr' : val r ≡ val iqmp * val q * val diff + val qresult [MOD val p * val q] := by
    rw [hr.2, hmod]
    exact Nat.mod_modEq _ _
  exact ⟨hr.1, hr.2 ▸ Nat.mod_lt _ hmodpos, (hr'.of_mul_right _).trans (hresp.trans hbp),
    (hr'.of_mul_left _).trans (hresq.trans hbq)⟩

/-- For two primes the result is the power, but where a prime divides the base and the exponent that is left modulo
the prime is 0. -/
theorem crtModpow_iff (hu : u = 5 ∨ u = 6) (base exp mod p q iqmp : OwnMpInt u) (hp : (val p.words).Prime)
    (hq : (val q.words).Prime) (htwo : val q.words ≠ 2) (hqp : val q.words < val p.words)
    (hlen : q.words.length ≤ p.words.length) (hinv : val iqmp.words * val q.words % val p.words = 1)
    (hmod : val mod.words = val p.words * val q.words) :
    ∃ r, crtModpow base.words exp.words mod.words p.words q.words iqmp.words = .ok r ∧ val r < val mod.words ∧
      (val r = val base.words ^ val exp.words % val mod.words ↔
        ¬Spoils (val p.words) (val base.words) (val exp.words) ∧
          ¬Spoils (val q.words) (val base.words) (val exp.words)) := by
  have hpodd : val p.words % 2 = 1 := hp.eq_two_or_odd.resolve_left (by have := hq.two_le; omega)
  have hqodd : val q.words % 2 = 1 := hq.eq_two_or_odd.resolve_left htwo
  obtain ⟨r, hr, -, hlt, hrp, hrq⟩ := crtModpow_spec hu base.outlawed exp.outlawed hpodd hqodd hq.one_lt hqp hlen
    iqmp.outlawed hinv hmod
  refine ⟨r, hr, hlt, ?_⟩
  rw [← pow_mod_pred_iff hp, ← pow_mod_pred_iff hq, hmod,
    eq_mod_mul_iff ((Nat.coprime_primes hp hq).mpr (by omega)) (hmod ▸ hlt)]
  constructor
  · rintro ⟨h1, h2⟩
    exact ⟨hrp.symm.trans h1, hrq.symm.trans h2⟩
  · rintro ⟨h1, h2⟩
    exact ⟨hrp.trans h1, hrq.trans h2⟩

/-- `2 ^ 5` modulo 35, and a power of 7 that is spoilt -/
theorem crtModpow_iff_thirtyFive :
    (∃ r, crtModpow ([2] : MpInt 5) [5] [35] [7] [5] [3] = .ok r ∧ val r = 32) ∧
      ∃ r, crtModpow ([7] : MpInt 5) [6] [35] [7] [5] [3] = .ok r ∧ val r ≠ 7 ^ 6 % 35 := by
  have hall := fun base exp : OwnMpInt 5 => crtModpow_iff (u := 5) (.inl rfl) base exp ⟨[35], by simp⟩ ⟨[7], by simp⟩
    ⟨[5], by simp⟩ ⟨[3], by simp⟩ (by decide) (by decide) (by decide) (by decide) (by decide) (by decide) (by decide)
  constructor
  · obtain ⟨r, hr, -, hiff⟩ := hall ⟨[2], by simp⟩ ⟨[5], by simp⟩
    exact ⟨r, hr, hiff.mpr (by unfold Spoils; decide)⟩
  · obtain ⟨r, hr, -, hiff⟩ := hall ⟨[7], by simp⟩ ⟨[6], by simp⟩
    exact ⟨r, hr, fun h => (hiff.mp h).1 (by unfold Spoils; decide)⟩

end Crt

/-! ## Checked keys -/

/-- What the checks of `rsa_verify` ask for -/
structure Consistent (key : RSAKey u) : Prop where
  two_le_p : 2 ≤ val key.p
  two_le_q : 2 ≤ val key.q
  modulus : val key.p * val key.q = val key.modulus
  inverse_p : val key.exponent * val key.privateExponent % (val key.p - 1) = 1
  inverse_q : val key.exponent * val key.privateExponent % (val key.q - 1) = 1

theorem ne_zero_of_inverse {x y m : ℕ} (h : x * y % m = 1) : x ≠ 0 ∧ y ≠ 0 := by
  constructor
  · rintro rfl
    rw [Nat.zero_mul, Nat.zero_mod] at h
    exact Nat.zero_ne_one h
  · rintro rfl
    rw [Nat.mul_zero, Nat.zero_mod] at h
    exact Nat.zero_ne_one h

/-- What becomes of the key that is checked -/
structure Verified (read key : RSAKey u) : Prop where
  modulus : key.modulus = read.modulus
  exponent : key.exponent = read.exponent
  privateExponent : key.privateExponent = read.privateExponent
  p : val key.p = max (val read.p) (val read.q)
  q : val key.q = min (val read.p) (val read.q)
  length_le : key.q.length ≤ key.p.length
  iqmp : (val read.p).Coprime (val read.q) → val key.iqmp < val key.p ∧ val key.iqmp * val key.q % val key.p = 1

section Verify

variable {key : RSAKey u}

theorem mpHsInteger_two (hW : 8 ≤ BIGNUM_INT_BITS u) {x : MpInt u} (hx : x ≠ []) :
    mpHsInteger x 2 = if 2 ≤ val x then 1 else 0 := by
  have hlen := List.length_pos_of_ne_nil hx
  have htwo : (2 : UInt64).toNat % 2 ^ (BIGNUM_INT_BITS u * x.length) = 2 := by
    refine Nat.mod_eq_of_lt ?_
    calc (2 : UInt64).toNat < 2 ^ 2 := by decide
      _ ≤ 2 ^ (BIGNUM_INT_BITS u * x.length) :=
        Nat.pow_le_pow_right Nat.two_pos ((by omega : 2 ≤ BIGNUM_INT_BITS u).trans (Nat.le_mul_of_pos_right _ hlen))
  rw [mpHsInteger_spec, htwo]

theorem mpEqInteger_one (hu : u = 5 ∨ u = 6) {x : MpInt u} (hx : x ≠ []) :
    mpEqInteger x 1 = if val x = 1 then 1 else 0 := by
  have hlen := List.length_pos_of_ne_nil hx
  have hone : (1 : UInt64).toNat % 2 ^ (BIGNUM_INT_BITS u * x.length) = 1 :=
    Nat.mod_eq_of_lt (Nat.one_lt_two_pow (Nat.mul_pos bits_pos hlen).ne')
  rw [mpEqInteger_spec (by omega), hone]
  simp only [eq_comm]

/-- The product of the exponents modulo the number before a prime factor -/
theorem modmul_spec (hu : u = 5 ∨ u = 6) {e d x : MpInt u} (he : e ≠ []) (hx : 2 ≤ val x) :
    Succeeds (mpModmul mpDivmodInto e d (mpSubIntegerInto x.length x 1)) fun ed =>
      mpEqInteger ed 1 = if val e * val d % (val x - 1) = 1 then 1 else 0 := by
  have hW := eight_le_bits hu
  have hval := val_mpSubIntegerInto_one (x := x) hW (by omega)
  refine (mpModmul_spec (mpDivmodInto_exact_all hu) he (by omega)).mono fun ed hed => ?_
  have hne : ed ≠ [] := ne_nil_of_length_eq (hed.1.trans length_mpSubIntegerInto) (ne_nil_of_val (by omega))
  rw [mpEqInteger_one hu hne, hed.2, hval]

/-- The checks pass for a consistent key, and none of them is left half way. -/
theorem rsaVerify_spec (hu : u = 5 ∨ u = 6) (hp : key.p ≠ []) (hq : key.q ≠ []) (he : key.exponent ≠ []) :
    Succeeds (rsaVerify key) fun r => (r.2 = true ↔ Consistent key) ∧ (r.2 = true → Verified key r.1) := by
  have hW := eight_le_bits hu
  unfold rsaVerify
  rw [mpHsInteger_two hW hp, mpHsInteger_two hW hq]
  by_cases hsmall : 2 ≤ val key.p ∧ 2 ≤ val key.q
  · obtain ⟨hp2, hq2⟩ := hsmall
    rw [if_pos hp2, if_pos hq2, if_neg (by decide)]
    refine .bind (mpMul_spec hp) fun n hn => ?_
    rw [mpCopy_ok hp, ok_bind]
    refine .bind (modmul_spec hu he hp2) fun ed hed => ?_
    rw [mpCopy_ok hq, ok_bind]
    refine .bind (modmul_spec hu he hq2) fun ed' hed' => ?_
    refine .bind (mpMax_spec hp) fun pNew hpNew => ?_
    refine .bind (mpMin_spec hp hq) fun qNew hqNew => ?_
    have hnil : pNew ≠ [] := ne_nil_of_val (by omega)
    refine .bind (mpInvert_spec (by omega) qNew hnil) fun iqmp hiqmp => ?_
    rw [pure_eq, succeeds_ok, hed, hed', mpCmpEq_spec (by omega), hn.2]
    have hiff : (1 &&& (if val key.p * val key.q = val key.modulus then 1 else 0) &&&
        (if val key.exponent * val key.privateExponent % (val key.p - 1) = 1 then 1 else 0) &&&
          (if val key.exponent * val key.privateExponent % (val key.q - 1) = 1 then 1 else 0) : ℕ) ≠ 0 ↔
        Consistent key := by
      constructor
      · intro h
        split_ifs at h with h1 h2 h3
        · exact ⟨hp2, hq2, h1, h2, h3⟩
        all_goals exact absurd rfl h
      · rintro ⟨-, -, h1, h2, h3⟩
        rw [if_pos h1, if_pos h2, if_pos h3]
        decide
    refine ⟨by rw [decide_eq_true_iff, hiff], fun _ => ⟨rfl, rfl, rfl, hpNew.2, hqNew.2, ?_, fun hcop => ?_⟩⟩
    · show qNew.length ≤ pNew.length
      omega
    · refine hiqmp.2 ?_ (by omega)
      rw [hpNew.2, hqNew.2]
      rcases Nat.le_total (val key.p) (val key.q) with hle | hle
      · rw [Nat.min_eq_left hle, Nat.max_eq_right hle]
        exact hcop
      · rw [Nat.min_eq_right hle, Nat.max_eq_left hle]
        exact hcop.symm
  · have hzero : ((if 2 ≤ val key.p then 1 else 0) &&& (if 2 ≤ val key.q then 1 else 0) : ℕ) = 0 := by
      split_ifs with h1 h2
      · exact absurd ⟨h1, h2⟩ hsmall
      all_goals rfl
    rw [if_pos hzero, succeeds_ok]
    exact ⟨iff_of_false Bool.false_ne_true fun h => hsmall ⟨h.two_le_p, h.two_le_q⟩, fun h => (nomatch h)⟩

variable {read : RSAKey u}

/-- The checks say the same about the key afterwards. -/
theorem Verified.consistent (hkey : Verified read key) (h : Consistent read) : Consistent key := by
  obtain ⟨hmod, hexp, hpriv, hp, hq, -, -⟩ := hkey
  obtain ⟨h1, h2, h3, h4, h5⟩ := h
  refine ⟨by omega, by omega, ?_, ?_, ?_⟩
  · rw [hp, hq, hmod, max_mul_min, h3]
  · rw [hexp, hpriv, hp]
    rcases max_choice (val read.p) (val read.q) with h | h
    · rw [h, h4]
    · rw [h, h5]
  · rw [hexp, hpriv, hq]
    rcases min_choice (val read.p) (val read.q) with h | h
    · rw [h, h4]
    · rw [h, h5]

theorem Verified.coprime_iff (hkey : Verified read key) :
    (val key.p).Coprime (val key.q) ↔ (val read.p).Coprime (val read.q) := by
  rw [hkey.p, hkey.q]
  rcases Nat.le_total (val read.p) (val read.q) with hle | hle
  · rw [Nat.max_eq_right hle, Nat.min_eq_left hle]
    exact Nat.coprime_comm
  · rw [Nat.max_eq_left hle, Nat.min_eq_right hle]

end Verify

/-! ## Keys of two primes -/

/-- A key of two different primes that was accepted -/
structure PrimeKey (key : RSAKey u) : Prop extends Consistent key where
  prime_p : (val key.p).Prime
  prime_q : (val key.q).Prime
  lt : val key.q < val key.p
  length_le : key.q.length ≤ key.p.length
  iqmp : val key.iqmp * val key.q % val key.p = 1

theorem Verified.primeKey {read key : RSAKey u} (hkey : Verified read key) (h : Consistent read)
    (hp : (val read.p).Prime) (hq : (val read.q).Prime) (hne : val read.p ≠ val read.q) : PrimeKey key := by
  have hsorted := hkey.consistent h
  obtain ⟨-, -, -, hpval, hqval, hlen, hiqmp⟩ := hkey
  refine ⟨hsorted, ?_, ?_, by omega, hlen, (hiqmp ((Nat.coprime_primes hp hq).mpr hne)).2⟩
  · rw [hpval]
    rcases max_choice (val read.p) (val read.q) with h | h
    · rwa [h]
    · rwa [h]
  · rw [hqval]
    rcases min_choice (val read.p) (val read.q) with h | h
    · rwa [h]
    · rwa [h]

/-- The prime 2 has no exponents that are inverse to each other. -/
theorem odd_of_inverse {e d x : ℕ} (hx : x.Prime) (h : e * d % (x - 1) = 1) : x % 2 = 1 := by
  refine hx.eq_two_or_odd.resolve_left ?_
  rintro rfl
  rw [Nat.mod_one] at h
  exact Nat.zero_ne_one h

namespace PrimeKey

variable {key : RSAKey u} {x : MpInt u}

theorem odd_modulus (h : PrimeKey key) : val key.modulus % 2 = 1 := by
  rw [← h.modulus, Nat.mul_mod, odd_of_inverse h.prime_p h.inverse_p, odd_of_inverse h.prime_q h.inverse_q]

theorem coprime (h : PrimeKey key) : (val key.p).Coprime (val key.q) :=
  (Nat.coprime_primes h.prime_p h.prime_q).mpr h.lt.ne'

/-- The private operation is the power of the private exponent. -/
theorem privkeyOp_spec (hu : u = 5 ∨ u = 6) (h : PrimeKey key) (hx : x ≠ []) :
    Succeeds (key.privkeyOp x) fun r => r ≠ [] ∧
      val r = val x ^ val key.privateExponent % val key.modulus := by
  obtain ⟨-, hd⟩ := ne_zero_of_inverse h.inverse_p
  obtain ⟨hi, -⟩ := ne_zero_of_inverse h.iqmp
  refine (crtModpow_spec hu hx (ne_nil_of_val hd) (odd_of_inverse h.prime_p h.inverse_p)
    (odd_of_inverse h.prime_q h.inverse_q) h.prime_q.one_lt h.lt h.length_le (ne_nil_of_val hi) h.iqmp
    h.modulus.symm).mono fun r hr => ?_
  obtain ⟨hlen, hlt, hrp, hrq⟩ := hr
  have hne : r ≠ [] := ne_nil_of_length_eq hlen (ne_nil_of_val (by omega))
  rw [← h.modulus] at hlt ⊢
  rw [eq_mod_mul_iff h.coprime hlt]
  exact ⟨hne, hrp.trans ((pow_mod_pred_iff h.prime_p).mpr (not_spoils h.inverse_p)),
    hrq.trans ((pow_mod_pred_iff h.prime_q).mpr (not_spoils h.inverse_q))⟩

/-- The two exponents undo each other. -/
theorem power_power (h : PrimeKey key) (x : ℕ) :
    (x ^ val key.privateExponent % val key.modulus) ^ val key.exponent % val key.modulus = x % val key.modulus ∧
      (x ^ val key.exponent % val key.modulus) ^ val key.privateExponent % val key.modulus = x % val key.modulus := by
  have hboth : x ^ (val key.exponent * val key.privateExponent) % val key.modulus = x % val key.modulus := by
    rw [← h.modulus]
    exact pow_inverse_mul h.prime_p h.prime_q h.lt.ne' h.inverse_p h.inverse_q x
  constructor
  · rw [← Nat.pow_mod, ← pow_mul, Nat.mul_comm (val key.privateExponent), hboth]
  · rw [← Nat.pow_mod, ← pow_mul, hboth]

end PrimeKey

/-- No key makes a check of the functions below fail, and the keys that are accepted are the consistent ones. With an
accepted key of two different primes, the private operation undoes the public one, and the other way round. -/
theorem rsaVerify_works (hu : u = 5 ∨ u = 6) (key : RSAKey u) (hp : key.p ≠ []) (hq : key.q ≠ [])
    (he : key.exponent ≠ []) : ∃ key' ok, rsaVerify key = .ok (key', ok) ∧ (ok = true ↔ Consistent key) ∧
      (ok = true → (val key.p).Prime → (val key.q).Prime → val key.p ≠ val key.q → ∀ x : OwnMpInt u,
        (∃ r s, key'.privkeyOp x.words = .ok r ∧ mpModpow mpDivmodInto r key'.exponent key'.modulus = .ok s ∧
          val s = val x.words % val key.modulus) ∧
        ∃ s r, mpModpow mpDivmodInto x.words key'.exponent key'.modulus = .ok s ∧ key'.privkeyOp s = .ok r ∧
          val r = val x.words % val key.modulus) := by
  obtain ⟨⟨key', ok⟩, hok, hiff, hverified⟩ := rsaVerify_spec hu hp hq he
  refine ⟨key', ok, hok, hiff, fun htrue hpp hqp hne x => ?_⟩
  have hkey := hverified htrue
  have hprime := hkey.primeKey (hiff.mp htrue) hpp hqp hne
  rw [← hkey.modulus]
  constructor
  · obtain ⟨r, hr, hnil, hval⟩ := hprime.privkeyOp_spec hu x.outlawed
    obtain ⟨s, hs, -, hval'⟩ := mpModpow_ok hu hprime.odd_modulus hnil key'.exponent
    refine ⟨r, s, hr, hs, ?_⟩
    rw [hval', hval]
    exact (hprime.power_power _).1
  · obtain ⟨s, hs, hlen, hval⟩ := mpModpow_ok hu hprime.odd_modulus x.outlawed key'.exponent
    obtain ⟨r, hr, -, hval'⟩ :=
      hprime.privkeyOp_spec hu (ne_nil_of_length_eq hlen (ne_nil_of_odd hprime.odd_modulus))
    refine ⟨s, r, hs, hr, ?_⟩
    rw [hval', hval]
    exact (hprime.power_power _).2

/-- The primes 5 and 7, with the smaller one first -/
theorem rsaVerify_works_seven : ∃ key' : RSAKey 5, rsaVerify ⟨[35], [5], [5], [5], [7], []⟩ = .ok (key', true) ∧
    ∃ r s, key'.privkeyOp [2] = .ok r ∧ mpModpow mpDivmodInto r key'.exponent key'.modulus = .ok s ∧ val s = 2 := by
  obtain ⟨key', ok, hok, hiff, hworks⟩ := rsaVerify_works (u := 5) (.inl rfl) ⟨[35], [5], [5], [5], [7], []⟩ (by simp)
    (by simp) (by simp)
  have htrue : ok = true := hiff.mpr ⟨by decide, by decide, by decide, by decide, by decide⟩
  obtain ⟨⟨r, s, hr, hs, hval⟩, -⟩ := hworks htrue (by decide) (by decide) (by decide) ⟨[2], by simp⟩
  exact ⟨key', htrue ▸ hok, r, s, hr, hs, hval⟩

end PuttyNd.Rsa
