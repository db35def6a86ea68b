import PuttyNd.Mpint.Modular
import PuttyNd.Mpint.Proofs.BezoutProofs
import PuttyNd.Mpint.Proofs.ModsqrtProofs

/-!
# Proofs: modular arithmetic in Montgomery form

Each operation on numbers in Montgomery form is that of the field.
-/

namespace PuttyNd.Mpint

open Words Outcome Montgomery

variable {u : ℕ} {mc : MontyContext u} {modulus x y r : MpInt u} {c d : ZMod (val modulus)}

/-! ## Addition and subtraction -/

theorem carry_spec {n : ℕ} {a b : MpInt u} : val (mpAddMaskedInto n a b (~~~0) 0 0).1 +
    2 ^ (BIGNUM_INT_BITS u * n) * (mpAddMaskedInto n a b (~~~0) 0 0).2.toNat =
      val a % 2 ^ (BIGNUM_INT_BITS u * n) + val b % 2 ^ (BIGNUM_INT_BITS u * n) := by
  have hmask : ∀ i, (mpWord b i &&& ~~~0) ^^^ 0 = word b i := by
    intro i
    rw [complement_zero, BitVec.and_allOnes]
    exact BitVec.xor_zero
  rw [mpAddMaskedInto, addWords_spec]
  simp only [hmask, num_word, toNat_zero, Nat.add_zero]

theorem mpModaddInRange_spec (hm : modulus ≠ []) (hx : val x < val modulus) (hy : val y < val modulus) :
    Succeeds (mpModaddInRange x y modulus) fun r =>
      r.length = modulus.length ∧ val r = (val x + val y) % val modulus := by
  have hsum := carry_spec (n := modulus.length) (a := x) (b := y)
  have hlen : (mpAddMaskedInto modulus.length x y (~~~0) 0 0).1.length = modulus.length := length_addWords
  have hlt : val modulus < 2 ^ (BIGNUM_INT_BITS u * modulus.length) := val_lt
  rw [Nat.mod_eq_of_lt (hx.trans hlt), Nat.mod_eq_of_lt (hy.trans hlt)] at hsum
  rw [mpModaddInRange, mpMakeSized_ok (List.length_pos_of_ne_nil hm).ne', ok_bind, List.length_replicate]
  generalize mpAddMaskedInto modulus.length x y (~~~0) 0 0 = result at hsum hlen ⊢
  obtain ⟨sum, carry⟩ := result
  dsimp only at hsum hlen ⊢
  have hfits := val_lt (l := sum)
  rw [hlen] at hfits
  rw [pure_eq, succeeds_ok, hlen, length_mpCondSubInto, mpCmpHs_spec]
  refine ⟨rfl, ?_⟩
  generalize carry.toNat = carry at hsum ⊢
  have hwrapped : ∀ hle : val modulus ≤ val x + val y, val (mpSubInto modulus.length sum modulus) =
      (val x + val y) % val modulus := by
    intro hle
    have hdiff := val_mpSubInto (n := modulus.length) (a := sum) (b := modulus)
    have hsub : (val sum : ℤ) - val modulus =
        ((val x + val y - val modulus : ℕ) : ℤ) +
          (2 ^ (BIGNUM_INT_BITS u * modulus.length) : ℕ) * (-(carry : ℤ)) := by
      have hint : (val sum : ℤ) + (2 ^ (BIGNUM_INT_BITS u * modulus.length) : ℕ) * (carry : ℤ) = val x + val y := by
        exact_mod_cast hsum
      rw [Nat.cast_sub hle, Nat.cast_add]
      linear_combination hint
    rw [hsub, Int.add_mul_emod_self_left, ← Int.natCast_mod, Nat.mod_eq_of_lt (by omega)] at hdiff
    rw [Nat.mod_eq_sub_mod hle, Nat.mod_eq_of_lt (by omega)]
    exact_mod_cast hdiff
  rcases carry with _ | _ | carry
  · rw [Nat.mul_zero, Nat.add_zero] at hsum
    rw [Nat.zero_or]
    split_ifs with hle
    · rw [mpCondSubInto_one]
      exact hwrapped (hsum ▸ hle)
    · rw [val_mpCondSubInto_zero, Nat.mod_eq_of_lt hfits, hsum, Nat.mod_eq_of_lt (by omega)]
  · have hle : val modulus ≤ val x + val y := by omega
    have hone : (0 + 1 ||| if val modulus ≤ val sum then 1 else 0) = 1 := by
      split_ifs <;> rfl
    rw [hone, mpCondSubInto_one]
    exact hwrapped hle
  · have hmul : 2 ^ (BIGNUM_INT_BITS u * modulus.length) * 2 ≤
        2 ^ (BIGNUM_INT_BITS u * modulus.length) * (carry + 1 + 1) := Nat.mul_le_mul_left _ (by omega)
    omega

theorem mpModsubInRange_spec (hm : modulus ≠ []) (hx : val x < val modulus) (hy : val y < val modulus) :
    Succeeds (mpModsubInRange x y modulus) fun r =>
      r.length = modulus.length ∧ val r = (val x + (val modulus - val y)) % val modulus := by
  have hlt : val modulus < 2 ^ (BIGNUM_INT_BITS u * modulus.length) := val_lt
  have hdiff := val_mpSubInto (n := modulus.length) (a := x) (b := y)
  rw [mpModsubInRange, mpMakeSized_ok (List.length_pos_of_ne_nil hm).ne', ok_bind, List.length_replicate,
    pure_eq, succeeds_ok, length_mpSubInto, length_mpCondAddInto, val_mpCondAddInto, mpCmpHs_spec]
  refine ⟨rfl, ?_⟩
  by_cases hle : val y ≤ val x
  · have hsub : val x + (val modulus - val y) = val x - val y + val modulus := by omega
    rw [if_pos hle, if_neg (by decide), val_mpSubInto_of_le hle (hx.trans hlt), hsub, Nat.add_mod_right,
      Nat.add_zero, Nat.mod_eq_of_lt (by omega), Nat.mod_eq_of_lt (by omega)]
  · rw [if_neg hle, if_pos (by decide), Nat.mod_eq_of_lt (b := val modulus) (by omega)]
    have hint : ((val (mpSubInto modulus.length x y) + val modulus : ℕ) : ℤ) ≡
        ((val x + (val modulus - val y) : ℕ) : ℤ) [ZMOD (2 ^ (BIGNUM_INT_BITS u * modulus.length) : ℕ)] := by
      rw [Nat.cast_add, hdiff, Nat.cast_add, Nat.cast_sub hy.le]
      have hsum : (val x : ℤ) + ((val modulus : ℤ) - val y) = (val x - val y) + val modulus := by ring
      rw [hsum]
      exact (Int.mod_modEq _ _).add_right _
    have hmod : (val (mpSubInto modulus.length x y) + val modulus) % 2 ^ (BIGNUM_INT_BITS u * modulus.length) =
        (val x + (val modulus - val y)) % 2 ^ (BIGNUM_INT_BITS u * modulus.length) :=
      Int.natCast_modEq_iff.mp hint
    rw [hmod, Nat.mod_eq_of_lt (by omega)]

/-! ## Numbers in Montgomery form -/

theorem Holds.lt_modulus (hmc : IsMonty mc modulus) (hx : Holds mc modulus c x) : val x < val modulus := by
  obtain ⟨a, -, ha⟩ := hx
  exact ha.2.lt hmc.pos

/-- What a number stands for, in the field -/
theorem Holds.cast (hx : Holds mc modulus c x) : (val x : ZMod (val modulus)) = c * (radix mc : ℕ) := by
  obtain ⟨a, rfl, ha⟩ := hx
  rw [← Nat.cast_mul]
  exact (ZMod.natCast_eq_natCast_iff _ _ _).mpr ha.2.modEq

theorem holds_of_cast (hmc : IsMonty mc modulus) (hlen : x.length = mc.rw) (hlt : val x < val modulus)
    (hc : (val x : ZMod (val modulus)) = c * (radix mc : ℕ)) : Holds mc modulus c x := by
  have : NeZero (val modulus) := ⟨hmc.pos.ne'⟩
  refine ⟨c.val, ZMod.natCast_zmod_val c, hlen, isForm_of_modEq hlt ?_⟩
  rw [← ZMod.natCast_eq_natCast_iff, hc, Nat.cast_mul, ZMod.natCast_zmod_val]

theorem Holds.add (hmc : IsMonty mc modulus) (hx : Holds mc modulus c x) (hy : Holds mc modulus d y) :
    Succeeds (montyAdd mc x y) (Holds mc modulus (c + d)) := by
  rw [montyAdd, hmc.m]
  refine (mpModaddInRange_spec (ne_nil_of_odd hmc.odd) (hx.lt_modulus hmc) (hy.lt_modulus hmc)).mono fun r hr => ?_
  refine holds_of_cast hmc (hr.1.trans hmc.rw.symm) (hr.2 ▸ Nat.mod_lt _ hmc.pos) ?_
  rw [hr.2, ZMod.natCast_mod, Nat.cast_add, hx.cast, hy.cast, add_mul]

theorem Holds.sub (hmc : IsMonty mc modulus) (hx : Holds mc modulus c x) (hy : Holds mc modulus d y) :
    Succeeds (montySub mc x y) (Holds mc modulus (c - d)) := by
  have hlt := hy.lt_modulus hmc
  rw [montySub, hmc.m]
  refine (mpModsubInRange_spec (ne_nil_of_odd hmc.odd) (hx.lt_modulus hmc) hlt).mono fun r hr => ?_
  refine holds_of_cast hmc (hr.1.trans hmc.rw.symm) (hr.2 ▸ Nat.mod_lt _ hmc.pos) ?_
  rw [hr.2, ZMod.natCast_mod, Nat.cast_add, Nat.cast_sub hlt.le, ZMod.natCast_self, hx.cast, hy.cast]
  ring

theorem Holds.product (hmc : IsMonty mc modulus) (hx : Holds mc modulus c x) (hy : Holds mc modulus d y) :
    Succeeds (montyMul mc x y) (Holds mc modulus (c * d)) := by
  rw [montyMul, mpMakeSized_ok hmc.rw_pos.ne', ok_bind, List.length_replicate]
  exact hx.mul hmc hy

/-! ## Inverses -/

/-- The cube of `R` is what `monty_invert` multiplies by. -/
def HasCube (mc : MontyContext u) (modulus : MpInt u) : Prop :=
  (mc.powersOfRModM 2).length = mc.rw ∧ val (mc.powersOfRModM 2) = radix mc ^ 3 % val modulus

theorem montyNew_cube {divmodInto : DivmodInto u} (hdiv : DivmodExact divmodInto) (hodd : val modulus % 2 = 1) :
    Succeeds (montyNew divmodInto modulus) fun mc => IsMonty mc modulus ∧ HasCube mc modulus := by
  obtain ⟨mc, hok, hmc⟩ := montyNew_spec hdiv hodd
  refine ⟨mc, hok, hmc, ?_⟩
  have hne := ne_nil_of_odd hodd
  have hlen : 0 < modulus.length := List.length_pos_of_ne_nil hne
  have hm : val modulus ≠ 0 := by omega
  have hcube : Succeeds (montyNew divmodInto modulus) fun mc => (mc.powersOfRModM 2).length = modulus.length ∧
      val (mc.powersOfRModM 2) = val (mc.powersOfRModM 0) ^ 3 % val modulus := by
    unfold montyNew
    rw [mpCopy_ok hne, ok_bind]
    refine .bind (mpInvertMod2to_spec hodd (Nat.mul_pos hlen bits_pos)) fun minv _ => ?_
    rw [mpMakeSized_ok (Nat.succ_ne_zero _), ok_bind]
    refine .bind (mpMod_spec hdiv (by simp) hm) fun power0 h0 => ?_
    have h0ne : power0 ≠ [] := List.ne_nil_of_length_pos (by omega)
    refine .bind (mpModmul_spec hdiv h0ne hm) fun power1 h1 => ?_
    refine .bind (mpModmul_spec hdiv h0ne hm) fun power2 h2 => ?_
    have hscratch : montyScratchSize modulus.length (modulus.length * 2 + 1) ≠ 0 := by
      unfold montyScratchSize
      omega
    rw [mpMakeSized_ok hscratch, ok_bind, pure_eq, succeeds_ok]
    refine ⟨h2.1, ?_⟩
    show val power2 = val power0 ^ 3 % val modulus
    rw [h2.2, h1.2, Nat.mul_mod_mod]
    ring_nf
  obtain ⟨mc', hok', hlength, hval⟩ := hcube
  cases hok.symm.trans hok'
  refine ⟨hlength.trans hmc.rw.symm, ?_⟩
  rw [hval, hmc.power, Nat.one_mul, ← Nat.pow_mod]

theorem ensures_true {r : Except Fault α} : Ensures r fun _ => True := fun _ _ => trivial

theorem length_mpInvert (hok : mpInvert x modulus = .ok r) : r.length = modulus.length := by
  have hbezout : ∀ aNw bNw (a b : MpInt u), Ensures (mpBezoutInto aNw bNw a b) fun out => out.1.length = aNw := by
    intro aNw bNw a b
    unfold mpBezoutInto
    repeat refine Ensures.bind ensures_true fun _ _ => ?_
    exact ensures_ok.mpr length_mpCopyInto
  have hlen : Ensures (mpInvert x modulus) fun r => r.length = modulus.length := by
    unfold mpInvert
    by_cases hm : modulus.length = 0
    · rw [mpMakeSized, check, if_neg (not_not.mpr hm)]
      exact ensures_error.mpr trivial
    · rw [mpMakeSized_ok hm, ok_bind, List.length_replicate]
      exact (hbezout _ _ _ _).bind fun out hout => ensures_ok.mpr hout
  exact hlen r hok

theorem Holds.inverse (hu : 1 ≤ u ∧ u ≤ 6) [hp : Fact (val modulus).Prime] (hmc : IsMonty mc modulus)
    (hcube : HasCube mc modulus) (hx : Holds mc modulus c x) (hc : c ≠ 0) :
    Succeeds (montyInvert mc x) (Holds mc modulus c⁻¹) := by
  have hR : ((radix mc : ℕ) : ZMod (val modulus)) ≠ 0 := by
    intro hzero
    have hdvd := (ZMod.natCast_eq_zero_iff _ _).mp hzero
    have hone := Nat.eq_one_of_dvd_coprimes hmc.coprime (Nat.dvd_refl _) hdvd
    exact hp.out.one_lt.ne' hone
  have hval : val x ≠ 0 := fun hzero => hc ((hx.val_eq_zero hmc).mp hzero)
  have hcop : (val x).Coprime (val modulus) :=
    (Nat.coprime_of_lt_prime hval (hx.lt_modulus hmc) hp.out).symm
  obtain ⟨tmp, hok, -, hinverse⟩ := mpInvert_spec hu x (ne_nil_of_val hp.out.ne_zero)
  obtain ⟨hlt, hinv⟩ := hinverse hcop hp.out.two_le
  have hcast : (val tmp : ZMod (val modulus)) * (c * (radix mc : ℕ)) = 1 := by
    rw [← hx.cast, ← Nat.cast_mul, ← ZMod.natCast_mod, hinv, Nat.cast_one]
  have htmp : Holds mc modulus (c⁻¹ * ((radix mc : ℕ) : ZMod (val modulus))⁻¹ ^ 2) tmp := by
    refine holds_of_cast hmc ((length_mpInvert hok).trans hmc.rw.symm) hlt ?_
    rw [eq_div_of_mul_eq (mul_ne_zero hc hR) hcast]
    field_simp
  have hpower : Holds mc modulus ((radix mc : ℕ) ^ 2 : ZMod (val modulus)) (mc.powersOfRModM 2) := by
    refine holds_of_cast hmc hcube.1 (hcube.2 ▸ Nat.mod_lt _ hmc.pos) ?_
    rw [hcube.2, ZMod.natCast_mod, Nat.cast_pow]
    ring
  rw [montyInvert, hmc.m, hok, ok_bind]
  refine (htmp.product hmc hpower).mono fun r hr => ?_
  have hsame : c⁻¹ * ((radix mc : ℕ) : ZMod (val modulus))⁻¹ ^ 2 * (radix mc : ℕ) ^ 2 = c⁻¹ := by
    field_simp
  rw [← hsame]
  exact hr

end PuttyNd.Mpint
