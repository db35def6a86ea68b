import PuttyNd.Lib.SquareRoots
import PuttyNd.Mpint.Modular
import PuttyNd.Mpint.Proofs.IntegersProofs
import PuttyNd.Mpint.Proofs.MontyProofs
import Mathlib.NumberTheory.LegendreSymbol.Basic

/-!
# Proofs: modular square roots

The loop takes the steps of `SquareRoots` on numbers in Montgomery form.
-/

namespace PuttyNd.Mpint

open Words Outcome Montgomery

variable {u : ℕ}

/-! ## Shifting -/

theorem mpRshiftFixed_spec (x : MpInt u) (bits : ℕ) :
    Succeeds (mpRshiftFixed x bits) fun r => val r = val x / 2 ^ bits := by
  have hwords : BIGNUM_INT_BITS u * (bits / BIGNUM_INT_BITS u) ≤ bits := Nat.mul_div_le _ _
  have hlt : val x / 2 ^ bits <
      2 ^ (BIGNUM_INT_BITS u * max (x.length - min x.length (bits / BIGNUM_INT_BITS u)) 1) := by
    rw [Nat.div_lt_iff_lt_mul (Nat.two_pow_pos _), ← pow_add]
    refine lt_of_lt_of_le val_lt (Nat.pow_le_pow_right (by omega) ?_)
    have hlen : x.length ≤ max (x.length - min x.length (bits / BIGNUM_INT_BITS u)) 1 +
        bits / BIGNUM_INT_BITS u := by omega
    calc BIGNUM_INT_BITS u * x.length
        ≤ BIGNUM_INT_BITS u * (max (x.length - min x.length (bits / BIGNUM_INT_BITS u)) 1 +
            bits / BIGNUM_INT_BITS u) := Nat.mul_le_mul_left _ hlen
      _ ≤ _ := by
        rw [Nat.mul_add]
        omega
  rw [mpRshiftFixed, mpMakeSized_ok (by omega), ok_bind, pure_eq, succeeds_ok, val_mpRshiftFixedInto,
    List.length_replicate, Nat.mod_eq_of_lt hlt]

/-- The lowest bit that is set, if the bits below the first are known. -/
theorem lowestSetBit_spec {p : MpInt u} {e : ℕ} (hp : 1 < val p) (he : val p % 2 ^ e = 1) :
    e ≤ lowestSetBit p e ∧ val p % 2 ^ lowestSetBit p e = 1 ∧ val p / 2 ^ lowestSetBit p e % 2 = 1 := by
  induction hn : BIGNUM_INT_BITS u * p.length - e using Nat.strong_induction_on generalizing e with
  | _ n ih =>
    rw [lowestSetBit]
    split
    · rename_i hlt
      rw [mpGetBit_spec]
      rcases Nat.mod_two_eq_zero_or_one (val p / 2 ^ e) with hbit | hbit
      · rw [hbit, if_neg (by decide)]
        have hnext : val p % 2 ^ (e + 1) = 1 := by rw [Nat.mod_pow_succ, he, hbit, Nat.mul_zero]
        obtain ⟨hle, hspec⟩ := ih _ (by omega) hnext rfl
        exact ⟨by omega, hspec⟩
      · rw [hbit, if_pos (by decide)]
        exact ⟨Nat.le_refl e, he, hbit⟩
    · rename_i hge
      have hsmall : val p < 2 ^ e := lt_of_lt_of_le val_lt (Nat.pow_le_pow_right (by omega) (by omega))
      rw [Nat.mod_eq_of_lt hsmall] at he
      omega

section Modsqrt

variable {divmodInto : DivmodInto u} {mc : MontyContext u} {modulus x y : MpInt u}

/-! ## Numbers in Montgomery form -/

/-- A number that stands for `c` -/
def Holds (mc : MontyContext u) (modulus : MpInt u) (c : ZMod (val modulus)) (x : MpInt u) : Prop :=
  ∃ a : ℕ, (a : ZMod (val modulus)) = c ∧ Stands mc modulus a x

variable {c d : ZMod (val modulus)}

theorem Holds.length (h : Holds mc modulus c x) : x.length = mc.rw := by
  obtain ⟨a, -, ha⟩ := h
  exact ha.1

theorem Holds.mul (hmc : IsMonty mc modulus) (hx : Holds mc modulus c x) (hy : Holds mc modulus d y) :
    Succeeds (montyMulInto mc mc.rw x y) (Holds mc modulus (c * d)) := by
  obtain ⟨a, rfl, ha⟩ := hx
  obtain ⟨b, rfl, hb⟩ := hy
  exact (montyMulInto_spec hmc ha hb).mono fun r hr => ⟨a * b, Nat.cast_mul a b, hr⟩

theorem Holds.pow (hmc : IsMonty mc modulus) (hx : Holds mc modulus c x) (exponent : MpInt u) :
    Succeeds (montyPow mc x exponent) (Holds mc modulus (c ^ val exponent)) := by
  obtain ⟨a, rfl, ha⟩ := hx
  exact (montyPow_spec hmc ha exponent).mono fun r hr => ⟨a ^ val exponent, Nat.cast_pow a _, hr⟩

theorem Holds.lt (hmc : IsMonty mc modulus) (hx : Holds mc modulus c x) :
    val x < 2 ^ (BIGNUM_INT_BITS u * mc.rw) := by
  obtain ⟨a, -, ha⟩ := hx
  exact (ha.2.lt hmc.pos).trans hmc.lt_radix

theorem Holds.copy (hmc : IsMonty mc modulus) (hx : Holds mc modulus c x) :
    Holds mc modulus c (mpCopyInto mc.rw x) := by
  have hlt := hx.lt hmc
  obtain ⟨a, rfl, ha⟩ := hx
  refine ⟨a, rfl, length_mpCopyInto, ?_⟩
  rw [val_mpCopyInto, Nat.mod_eq_of_lt hlt]
  exact ha.2

theorem Holds.select (hmc : IsMonty mc modulus) (hx : Holds mc modulus c x) (hy : Holds mc modulus d y)
    (which : ℕ) : Holds mc modulus (if which % 2 = 1 then d else c) (mpSelectInto mc.rw x y which) := by
  have hxlt := hx.lt hmc
  have hylt := hy.lt hmc
  obtain ⟨a, rfl, ha⟩ := hx
  obtain ⟨b, rfl, hb⟩ := hy
  by_cases hwhich : which % 2 = 1
  · rw [if_pos hwhich]
    refine ⟨b, rfl, length_mpSelectInto _, ?_⟩
    rw [val_mpSelectInto, if_pos hwhich, Nat.mod_eq_of_lt hylt]
    exact hb.2
  · rw [if_neg hwhich]
    refine ⟨a, rfl, length_mpSelectInto _, ?_⟩
    rw [val_mpSelectInto, if_neg hwhich, Nat.mod_eq_of_lt hxlt]
    exact ha.2

/-- Numbers in Montgomery form are equal if what they stand for is. -/
theorem Holds.val_eq (hmc : IsMonty mc modulus) (hx : Holds mc modulus c x) (hy : Holds mc modulus d y) :
    val x = val y ↔ c = d := by
  obtain ⟨a, rfl, ha⟩ := hx
  obtain ⟨b, rfl, hb⟩ := hy
  rw [ZMod.natCast_eq_natCast_iff, ha.2, hb.2]
  constructor
  · exact fun h => Nat.ModEq.cancel_right_of_coprime hmc.coprime h
  · exact fun h => h.mul_right _

theorem Holds.val_eq_zero (hmc : IsMonty mc modulus) (hx : Holds mc modulus c x) : val x = 0 ↔ c = 0 := by
  have hzero : Holds mc modulus 0 (List.replicate mc.rw 0) := by
    refine ⟨0, Nat.cast_zero, List.length_replicate, ?_⟩
    rw [val_replicate, IsForm, Nat.zero_mul, Nat.zero_mod]
  rw [← hx.val_eq hmc hzero, val_replicate]

theorem holds_identity (hmc : IsMonty mc modulus) : Holds mc modulus 1 (mc.powersOfRModM 0) :=
  ⟨1, Nat.cast_one, hmc.power_length, hmc.power⟩

/-! ## The rounds -/

theorem squareTimes_spec (hmc : IsMonty mc modulus) (hx : Holds mc modulus c x) (n : ℕ) :
    Succeeds (squareTimes mc n x) (Holds mc modulus (c ^ 2 ^ n)) := by
  induction n generalizing c x with
  | zero =>
    rw [pow_zero, pow_one]
    exact succeeds_ok.mpr hx
  | succ n ih =>
    rw [squareTimes, hx.length]
    refine .bind (hx.mul hmc hx) fun r hr => ?_
    rw [pow_succ', pow_mul, sq]
    exact ih hr

/-- The variables of the loop hold a state of `SquareRoots`. -/
structure HoldsState (mc : MontyContext u) (modulus : MpInt u) (v : SquareRoots.State (ZMod (val modulus)))
    (s : RootState u) : Prop where
  toret : Holds mc modulus v.root s.toret
  xk : Holds mc modulus v.rest s.xk
  powerOfZk : Holds mc modulus v.power s.powerOfZk

variable {sc : ModsqrtContext u} {v : SquareRoots.State (ZMod (val modulus))} {s : RootState u}

/-- The test whether the order of the factor divides a power of 2 -/
theorem order_test (hu : 1 ≤ u ∧ u ≤ 6) (hmc : IsMonty mc modulus) (hx : Holds mc modulus c x) (n : ℕ) :
    Succeeds (squareTimes mc n (mpCopyInto mc.rw x)) fun tmp =>
      mpCmpEq tmp (mc.powersOfRModM 0) = if c ^ 2 ^ n = 1 then 1 else 0 := by
  refine (squareTimes_spec hmc (hx.copy hmc) n).mono fun tmp htmp => ?_
  rw [mpCmpEq_spec hu]
  simp only [htmp.val_eq hmc (holds_identity hmc)]

/-- The first round finds out whether there is a root. -/
theorem modsqrtRound_zero (hu : 1 ≤ u ∧ u ≤ 6) (hmc : IsMonty sc.mc modulus) (hs : HoldsState sc.mc modulus v s)
    (hx : Holds sc.mc modulus c x) : Succeeds (modsqrtRound sc x s 0) fun s' =>
      HoldsState sc.mc modulus v s' ∧
        s'.success = if v.rest ^ 2 ^ (sc.e - 1) = 1 ∨ c = 0 then 1 else 0 := by
  rw [modsqrtRound]
  refine .bind (order_test hu hmc hs.xk _) fun tmp htmp => ?_
  rw [if_pos rfl, pure_eq, succeeds_ok, htmp, mpEqInteger_spec hu]
  refine ⟨⟨hs.toret, hs.xk, hs.powerOfZk⟩, ?_⟩
  have hzero : (0 : UInt64).toNat % 2 ^ (BIGNUM_INT_BITS u * x.length) = val x ↔ c = 0 := by
    rw [← hx.val_eq_zero hmc, UInt64.toNat_zero, Nat.zero_mod, eq_comm]
  show (_ ||| _) = _
  simp only [hzero, Nat.zero_add]
  by_cases hone : v.rest ^ 2 ^ (sc.e - 1) = 1
  · rw [if_pos hone, if_pos (Or.inl hone)]
    split <;> rfl
  · rw [if_neg hone, Nat.zero_or]
    simp only [hone, false_or]

/-- Each other round takes a step. -/
theorem modsqrtRound_succ (hu : 1 ≤ u ∧ u ≤ 6) (hmc : IsMonty sc.mc modulus) (hs : HoldsState sc.mc modulus v s)
    {i : ℕ} (hi : i ≠ 0) : Succeeds (modsqrtRound sc x s i) fun s' =>
      HoldsState sc.mc modulus (SquareRoots.step sc.e i v) s' ∧ s'.success = s.success := by
  have hexp : sc.e - (i + 1) = sc.e - 1 - i := by omega
  rw [modsqrtRound]
  refine .bind (order_test hu hmc hs.xk _) fun tmp heq => ?_
  rw [if_neg hi, heq, hs.toret.length, hs.xk.length, hs.powerOfZk.length, hexp]
  refine .bind (hs.toret.mul hmc hs.powerOfZk) fun toret htoret => ?_
  refine .bind (hs.powerOfZk.mul hmc hs.powerOfZk) fun powerOfZk hpower => ?_
  refine .bind (hs.xk.mul hmc hpower) fun xk hxk => ?_
  rw [pure_eq, succeeds_ok]
  refine ⟨?_, rfl⟩
  rw [← sq] at hpower hxk
  unfold SquareRoots.step
  by_cases hone : v.rest ^ 2 ^ (sc.e - 1 - i) = 1
  · rw [if_pos hone, if_pos hone]
    exact ⟨htoret.select hmc hs.toret 1, hxk.select hmc hs.xk 1, hpower⟩
  · rw [if_neg hone, if_neg hone]
    exact ⟨htoret.select hmc hs.toret 0, hxk.select hmc hs.xk 0, hpower⟩

theorem modsqrtRounds_spec (hu : 1 ≤ u ∧ u ≤ 6) (hmc : IsMonty sc.mc modulus)
    [IsDomain (ZMod (val modulus))] (hs : HoldsState sc.mc modulus v s) (hx : Holds sc.mc modulus c x)
    (hv : SquareRoots.IsCandidate c v) {n : ℕ} (hn : n + 1 ≤ sc.e) :
    Succeeds ((List.range (n + 1)).foldlM (modsqrtRound sc x) s) fun s' =>
      ∃ v', HoldsState sc.mc modulus v' s' ∧ SquareRoots.IsCandidate c v' ∧
        (SquareRoots.Halved sc.e 1 v → SquareRoots.Halved sc.e (n + 1) v') ∧
        s'.success = if v.rest ^ 2 ^ (sc.e - 1) = 1 ∨ c = 0 then 1 else 0 := by
  induction n with
  | zero =>
    rw [List.range_one, List.foldlM_cons]
    refine .bind (modsqrtRound_zero hu hmc hs hx) fun s' hs' => ?_
    exact succeeds_ok.mpr ⟨v, hs'.1, hv, id, hs'.2⟩
  | succ n ih =>
    rw [List.range_succ, List.foldlM_append]
    refine .bind (ih (by omega)) fun s' ⟨v', hs', hv', hhalved, hsuccess⟩ => ?_
    rw [List.foldlM_cons]
    refine .bind (modsqrtRound_succ hu hmc hs' (Nat.succ_ne_zero n)) fun s'' hs'' => ?_
    refine succeeds_ok.mpr ⟨_, hs''.1, hv'.step, fun h => (hhalved h).step (by omega), ?_⟩
    rw [hs''.2, hsuccess]

/-! ## The context -/

/-- A context that was made from the modulus and from a number that stands for `z` -/
structure IsModsqrt (sc : ModsqrtContext u) (modulus : MpInt u) (z : ZMod (val modulus)) : Prop where
  mc : IsMonty sc.mc modulus
  e_pos : 1 ≤ sc.e
  order : val modulus = 2 ^ sc.e * val sc.k + 1
  odd : val sc.k % 2 = 1
  km1o2 : val sc.km1o2 = val sc.k / 2
  nonsquare : Holds sc.mc modulus z sc.z
  lazy : ∀ zk, sc.zk = some zk → Holds sc.mc modulus (z ^ val sc.k) zk

variable {z : ZMod (val modulus)}

theorem modsqrtNew_spec (hdiv : DivmodExact divmodInto) (hodd : val modulus % 2 = 1) (hone : 1 < val modulus)
    {any : MpInt u} (hany : any ≠ []) :
    Succeeds (modsqrtNew divmodInto modulus any) fun sc =>
      IsModsqrt sc modulus (val any : ZMod (val modulus)) := by
  obtain ⟨hle, hlow, hbit⟩ := lowestSetBit_spec (e := 1) hone hodd
  rw [modsqrtNew, mpCopy_ok (ne_nil_of_odd hodd), ok_bind]
  refine .bind (montyNew_spec hdiv hodd) fun mc hmc => ?_
  refine .bind (montyImport_spec hdiv hmc hany) fun z hz => ?_
  refine .bind (mpRshiftFixed_spec modulus _) fun k hk => ?_
  refine .bind (mpRshiftFixed_spec k 1) fun km1o2 hkm1o2 => ?_
  rw [pure_eq, succeeds_ok]
  refine ⟨hmc, hle, ?_, ?_, ?_, ⟨val any, rfl, hz⟩, fun zk hzk => nomatch hzk⟩
  · show val modulus = 2 ^ lowestSetBit modulus 1 * val k + 1
    have hdiv := Nat.div_add_mod (val modulus) (2 ^ lowestSetBit modulus 1)
    rw [hlow] at hdiv
    rw [hk]
    exact hdiv.symm
  · rw [hk]
    exact hbit
  · rw [hkm1o2, pow_one]

theorem modsqrtLazySetup_spec (hsc : IsModsqrt sc modulus z) : Succeeds (modsqrtLazySetup sc) fun r =>
    IsModsqrt r.1 modulus z ∧ r.1.mc = sc.mc ∧ Holds sc.mc modulus (z ^ val r.1.k) r.2 := by
  unfold modsqrtLazySetup
  cases hzk : sc.zk with
  | some zk => exact succeeds_ok.mpr ⟨hsc, rfl, hsc.lazy zk hzk⟩
  | none =>
    refine .bind (hsc.nonsquare.pow hsc.mc sc.k) fun zk hpow => ?_
    refine succeeds_ok.mpr ⟨⟨hsc.mc, hsc.e_pos, hsc.order, hsc.odd, hsc.km1o2, hsc.nonsquare, ?_⟩, rfl, hpow⟩
    rintro _ ⟨rfl⟩
    exact hpow

/-! ## The root -/

/-- What a call is to give for `c`: whether there is a root, and the root if there is one. -/
def IsRoot (c root : ZMod (val modulus)) (success : ℕ) : Prop :=
  success ≤ 1 ∧ (success = 1 ↔ IsSquare c) ∧ (IsSquare c → root ^ 2 = c)

theorem half_order (hsc : IsModsqrt sc modulus z) : val modulus / 2 = val sc.k * 2 ^ (sc.e - 1) := by
  have hpow : 2 ^ sc.e = 2 * 2 ^ (sc.e - 1) := by
    rw [← pow_succ', Nat.sub_add_cancel hsc.e_pos]
  rw [hsc.order, hpow, Nat.mul_assoc, Nat.mul_comm (val sc.k)]
  omega

/-- The test in the first round decides whether there is a root. -/
theorem isSquare_iff (hsc : IsModsqrt sc modulus z) [Fact (val modulus).Prime] :
    ((c ^ val sc.k) ^ 2 ^ (sc.e - 1) = 1 ∨ c = 0) ↔ IsSquare c := by
  rw [← pow_mul, ← half_order hsc]
  by_cases hc : c = 0
  · rw [hc]
    exact iff_of_true (Or.inr rfl) IsSquare.zero
  · rw [or_iff_left hc, ZMod.euler_criterion _ hc]

theorem halved_start (hsc : IsModsqrt sc modulus z) [Fact (val modulus).Prime] (hz : ¬ IsSquare z)
    (hc : c ≠ 0) (hsquare : IsSquare c) {root : ZMod (val modulus)} :
    SquareRoots.Halved sc.e 1 ⟨root, c ^ val sc.k, z ^ val sc.k⟩ := by
  refine ⟨((isSquare_iff hsc).mpr hsquare).resolve_right hc, ?_⟩
  have hz0 : z ≠ 0 := fun h => hz (h ▸ IsSquare.zero)
  show (z ^ val sc.k) ^ 2 ^ (sc.e - 1) = -1
  rw [← pow_mul, ← half_order hsc]
  exact (ZMod.pow_div_two_eq_neg_one_or_one _ hz0).resolve_left fun h =>
    hz ((ZMod.euler_criterion _ hz0).mpr h)

theorem montyModsqrt_spec (hu : 1 ≤ u ∧ u ≤ 6) [hp : Fact (val modulus).Prime] (hsc : IsModsqrt sc modulus z)
    (hz : ¬ IsSquare z) (hx : Holds sc.mc modulus c x) (success : ℕ) :
    Succeeds (montyModsqrt sc x success) fun r => IsModsqrt r.1 modulus z ∧ r.1.mc = sc.mc ∧
      ∃ root, Holds sc.mc modulus root r.2.1 ∧ IsRoot c root r.2.2 := by
  have hrw := hsc.mc.rw_pos
  rw [montyModsqrt]
  refine .bind (modsqrtLazySetup_spec hsc) fun ⟨sc', zk⟩ ⟨hsc', hmc, hzk⟩ => ?_
  dsimp only at hsc' hmc hzk ⊢
  rw [← hmc] at hx hrw hzk ⊢
  clear hsc hmc
  rw [mpMakeSized_ok (by omega), ok_bind]
  refine .bind (hx.pow hsc'.mc sc'.km1o2) fun toret htoret => ?_
  rw [List.length_replicate, mpAllocFromScratch_of_le (by omega), ok_bind, htoret.length]
  refine .bind (htoret.mul hsc'.mc hx) fun toret' htoret' => ?_
  rw [length_mpCopyInto]
  refine .bind (htoret'.mul hsc'.mc (htoret.copy hsc'.mc)) fun xk hxk => ?_
  rw [mpAllocFromScratch_of_le (by omega), ok_bind, mpAllocFromScratch_of_le (by omega), ok_bind]
  rw [hsc'.km1o2, ← pow_succ] at htoret' hxk
  rw [← pow_add] at hxk
  have hk : val sc'.k / 2 + 1 + val sc'.k / 2 = val sc'.k := by
    have hodd := hsc'.odd
    omega
  rw [hk] at hxk
  have hstate : HoldsState sc'.mc modulus ⟨c ^ (val sc'.k / 2 + 1), c ^ val sc'.k, z ^ val sc'.k⟩
      ⟨toret', xk, mpCopyInto sc'.mc.rw zk, success⟩ := ⟨htoret', hxk, hzk.copy hsc'.mc⟩
  have hcandidate : SquareRoots.IsCandidate c
      (⟨c ^ (val sc'.k / 2 + 1), c ^ val sc'.k, z ^ val sc'.k⟩ : SquareRoots.State (ZMod (val modulus))) := by
    show (c ^ (val sc'.k / 2 + 1)) ^ 2 = c * c ^ val sc'.k
    rw [← pow_mul, ← pow_succ']
    congr 1
    omega
  have he : sc'.e - 1 + 1 = sc'.e := Nat.sub_add_cancel hsc'.e_pos
  have hrounds := modsqrtRounds_spec hu hsc'.mc hstate hx hcandidate (n := sc'.e - 1) (by omega)
  rw [he] at hrounds
  refine hrounds.bind fun s ⟨v, hs, hv, hhalved, hsuccess⟩ => ?_
  refine succeeds_ok.mpr ⟨hsc', rfl, v.root, hs.toret, ?_⟩
  simp only [isSquare_iff hsc'] at hsuccess
  refine ⟨?_, ?_, fun hsquare => ?_⟩
  · rw [hsuccess]
    split
    · exact Nat.le_refl 1
    · exact Nat.zero_le 1
  · rw [hsuccess]
    split_ifs with hsquare
    · exact iff_of_true rfl hsquare
    · exact iff_of_false (by decide) hsquare
  · by_cases hc : c = 0
    · rw [hv, hc, zero_mul]
    · exact SquareRoots.root_of_halved hv (hhalved (halved_start hsc' hz hc hsquare))

theorem mpModsqrt_spec (hu : 1 ≤ u ∧ u ≤ 6) (hdiv : DivmodExact divmodInto) [Fact (val modulus).Prime]
    (hsc : IsModsqrt sc modulus z) (hz : ¬ IsSquare z) (hx : x ≠ []) (success : ℕ) :
    Succeeds (mpModsqrt divmodInto sc x success) fun r => IsModsqrt r.1 modulus z ∧
      val r.2.1 < val modulus ∧
      IsRoot (val x : ZMod (val modulus)) (val r.2.1 : ZMod (val modulus)) r.2.2 := by
  rw [mpModsqrt]
  refine .bind (montyImport_spec hdiv hsc.mc hx) fun mx hmx => ?_
  refine .bind (montyModsqrt_spec hu hsc hz ⟨val x, rfl, hmx⟩ success) fun r hr => ?_
  obtain ⟨sc', mroot, success'⟩ := r
  obtain ⟨hsc', hmc, root, ⟨a, rfl, hroot⟩, hresult⟩ := hr
  dsimp only at hsc' hmc hroot hresult ⊢
  rw [← hmc] at hroot
  have hlen := hroot.1
  refine .bind (montyExport_spec hsc'.mc (by omega) (hroot.2.lt hsc'.mc.pos)) fun r hr => ?_
  have hreduced := hroot.2.reduced hsc'.mc.coprime hr.2.1 hr.2.2
  refine succeeds_ok.mpr ⟨hsc', hr.2.1, ?_⟩
  show IsRoot _ (val r : ZMod (val modulus)) success'
  rw [hreduced, ZMod.natCast_mod]
  exact hresult

/-! ## All calls on a context -/

/-- The contexts that are made from `p` and `z`, and what calls leave of them. -/
inductive Reached (divmodInto : DivmodInto u) (p z : MpInt u) : ModsqrtContext u → Prop
  | new (sc : ModsqrtContext u) : modsqrtNew divmodInto p z = .ok sc → Reached divmodInto p z sc
  | call (sc sc' : ModsqrtContext u) (x : OwnMpInt u) (success success' : ℕ) (root : MpInt u) :
      Reached divmodInto p z sc → mpModsqrt divmodInto sc x.words success = .ok (sc', root, success') →
      Reached divmodInto p z sc'

theorem Reached.isModsqrt (hu : 1 ≤ u ∧ u ≤ 6) (hdiv : DivmodExact divmodInto) [hp : Fact (val modulus).Prime]
    (hodd : val modulus % 2 = 1) {any : MpInt u} (hany : any ≠ [])
    (hz : ¬ IsSquare (val any : ZMod (val modulus))) (h : Reached divmodInto modulus any sc) :
    IsModsqrt sc modulus (val any : ZMod (val modulus)) := by
  induction h with
  | new sc hnew =>
    obtain ⟨sc', hok, hsc'⟩ := modsqrtNew_spec hdiv hodd hp.out.one_lt hany
    cases hnew.symm.trans hok
    exact hsc'
  | call sc sc' x success success' root _ hcall ih =>
    obtain ⟨r, hok, hsc', -⟩ := mpModsqrt_spec hu hdiv ih hz x.outlawed success
    cases hcall.symm.trans hok
    exact hsc'

/-- Each call on a context says whether the number is a square modulo the prime, and gives a root if it
is. -/
theorem mpModsqrt_exact (hu : 1 ≤ u ∧ u ≤ 6) (hdiv : DivmodExact divmodInto) (p z : OwnMpInt u)
    (hp : (val p.words).Prime) (hodd : val p.words % 2 = 1)
    (hz : ¬ IsSquare (val z.words : ZMod (val p.words))) :
    (∃ sc, modsqrtNew divmodInto p.words z.words = .ok sc) ∧
    ∀ sc, Reached divmodInto p.words z.words sc → ∀ (x : OwnMpInt u) (success : ℕ),
      ∃ sc' root success', mpModsqrt divmodInto sc x.words success = .ok (sc', root, success') ∧
        success' ≤ 1 ∧ (success' = 1 ↔ IsSquare (val x.words : ZMod (val p.words))) ∧
        (success' = 1 → val root < val p.words ∧ val root * val root ≡ val x.words [MOD val p.words]) := by
  have : Fact (val p.words).Prime := ⟨hp⟩
  constructor
  · obtain ⟨sc, hsc, -⟩ := modsqrtNew_spec hdiv hodd hp.one_lt z.outlawed
    exact ⟨sc, hsc⟩
  · intro sc hsc x success
    obtain ⟨⟨sc', root, success'⟩, hok, -, hlt, hle, hiff, hroot⟩ :=
      mpModsqrt_spec hu hdiv (hsc.isModsqrt hu hdiv hodd z.outlawed hz) hz x.outlawed success
    refine ⟨sc', root, success', hok, hle, hiff, fun hone => ⟨hlt, ?_⟩⟩
    have hsquare := hroot (hiff.mp hone)
    rw [sq, ← Nat.cast_mul] at hsquare
    exact (ZMod.natCast_eq_natCast_iff _ _ _).mp hsquare

theorem mpModsqrt_exact_seven : ∃ sc sc' root success',
    modsqrtNew (divmodWords 5) [7] [3] = .ok sc ∧
      mpModsqrt (divmodWords 5) sc [2] 0 = .ok (sc', root, success') ∧ success' = 1 ∧
      val root * val root ≡ 2 [MOD 7] := by
  have hprime : (val ([7] : MpInt 5)).Prime := by decide
  have hsquare : ¬ IsSquare ((val ([3] : MpInt 5) : ℕ) : ZMod (val ([7] : MpInt 5))) := by
    have hnone : ∀ y : ZMod 7, 3 ≠ y * y := by decide
    rintro ⟨y, hy⟩
    exact hnone y hy
  obtain ⟨⟨sc, hnew⟩, hcalls⟩ := mpModsqrt_exact (by decide) (divmodWords_exact (u := 5))
    ⟨[7], List.cons_ne_nil _ _⟩ ⟨[3], List.cons_ne_nil _ _⟩ hprime (by decide) hsquare
  obtain ⟨sc', root, success', hcall, -, hiff, hroot⟩ :=
    hcalls sc (.new sc hnew) ⟨[2], List.cons_ne_nil _ _⟩ 0
  have hone : success' = 1 := hiff.mpr ⟨(3 : ZMod 7), rfl⟩
  exact ⟨sc, sc', root, success', hnew, hcall, hone, (hroot hone).2⟩

end Modsqrt

end PuttyNd.Mpint
