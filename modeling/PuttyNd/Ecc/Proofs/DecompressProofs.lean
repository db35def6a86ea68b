import PuttyNd.Ecc.Decompress
import PuttyNd.Mpint.Proofs.ModularProofs

/-!
# Proofs: points from one coordinate

Of the two roots of a number other than zero, exactly one has the parity that is asked for. Zero has only one.
-/

namespace PuttyNd.Ecc

open Mpint Words Outcome Montgomery

variable {u : ℕ} {divmodInto : DivmodInto u} {mc mc' : MontyContext u} {modulus x y r : MpInt u}
  {c s : ZMod (val modulus)} {parity : ℕ}

/-! ## The choice of the root -/

theorem holds_of_rw (hmc : IsMonty mc modulus) (hmc' : IsMonty mc' modulus) (hx : Holds mc modulus c x) :
    Holds mc' modulus c x := by
  have hrw : mc.rw = mc'.rw := hmc.rw.trans hmc'.rw.symm
  obtain ⟨a, ha, hlen, hform⟩ := hx
  exact ⟨a, ha, hlen.trans hrw, by rwa [radix, ← hrw]⟩

/-- The negative of a residue has the other parity. -/
theorem parity_neg [NeZero (val modulus)] (hodd : val modulus % 2 = 1) (hc : c ≠ 0) :
    (-c).val % 2 = 1 - c.val % 2 := by
  have hlt := c.val_lt
  rw [ZMod.neg_val, if_neg hc]
  omega

theorem chooseParity_spec (hmc : IsMonty mc modulus) (hx : Holds mc modulus c x) (parity : ℕ) :
    Succeeds (chooseParity mc modulus x parity) fun r => r.length = mc.rw ∧
      val r = if c.val % 2 = parity % 2 then val x else val modulus - val x := by
  have hlt := hx.lt_modulus hmc
  have hlen := hx.length
  have hfits : val modulus < 2 ^ (BIGNUM_INT_BITS u * mc.rw) := hmc.lt_radix
  unfold chooseParity
  refine .bind (montyExport_spec hmc (by omega) hlt) fun tmp ⟨htmplen, htmplt, htmp⟩ => ?_
  have hval : val tmp = c.val := by
    obtain ⟨a, rfl, ha⟩ := hx
    rw [ha.2.reduced hmc.coprime htmplt htmp, ZMod.val_natCast]
  rw [pure_eq, succeeds_ok]
  refine ⟨(length_mpSelectInto _).trans hlen, ?_⟩
  have hflip : ((mpGetBit tmp 0 ^^^ parity) &&& 1) % 2 = 1 ↔ ¬ c.val % 2 = parity % 2 := by
    rw [Nat.and_one_is_mod, mpGetBit_spec, pow_zero, Nat.div_one, hval, Nat.mod_mod, Nat.xor_mod_two_eq]
    omega
  rw [val_mpSelectInto, htmplen, hlen]
  by_cases heq : c.val % 2 = parity % 2
  · rw [if_pos heq, if_neg (fun h => hflip.mp h heq), Nat.mod_eq_of_lt (hlt.trans hfits)]
  · rw [if_neg heq, if_pos (hflip.mpr heq), val_mpSubInto_of_le hlt.le hfits, Nat.mod_eq_of_lt (by omega)]

/-- The root with the parity, if there is one -/
theorem chooseParity_holds [NeZero (val modulus)] (hmc : IsMonty mc modulus) (hx : Holds mc modulus c x)
    (hc : ¬ (c = 0 ∧ parity % 2 = 1)) : Succeeds (chooseParity mc modulus x parity) fun r =>
      ∃ s, (s = c ∨ s = -c) ∧ s.val % 2 = parity % 2 ∧ Holds mc modulus s r := by
  refine (chooseParity_spec hmc hx parity).mono fun r ⟨hlen, hval⟩ => ?_
  have hlt := hx.lt_modulus hmc
  by_cases heq : c.val % 2 = parity % 2
  · rw [if_pos heq] at hval
    exact ⟨c, Or.inl rfl, heq, holds_of_cast hmc hlen (hval ▸ hlt) (by rw [hval, hx.cast])⟩
  · rw [if_neg heq] at hval
    have hc0 : c ≠ 0 := by
      rintro rfl
      rw [ZMod.val_zero] at heq
      exact hc ⟨rfl, by omega⟩
    have hpos : val x ≠ 0 := fun hzero => hc0 ((hx.val_eq_zero hmc).mp hzero)
    refine ⟨-c, Or.inr rfl, ?_, holds_of_cast hmc hlen (by omega) ?_⟩
    · rw [parity_neg hmc.odd hc0]
      omega
    · rw [hval, Nat.cast_sub hlt.le, ZMod.natCast_self, hx.cast]
      ring

/-- The root of zero is not reduced if it is to be odd. -/
theorem chooseParity_zero (hmc : IsMonty mc modulus) (hx : Holds mc modulus 0 x) (hparity : parity % 2 = 1) :
    Succeeds (chooseParity mc modulus x parity) fun r => r.length = mc.rw ∧ val r = val modulus := by
  refine (chooseParity_spec hmc hx parity).mono fun r ⟨hlen, hval⟩ => ⟨hlen, ?_⟩
  rw [ZMod.val_zero, hparity, if_neg (by decide), (hx.val_eq_zero hmc).mpr rfl, Nat.sub_zero] at hval
  exact hval

/-- The roots of a number, of which only one has the parity -/
theorem root_unique [hp : Fact (val modulus).Prime] (hodd : val modulus % 2 = 1) {t : ZMod (val modulus)}
    (hst : s ^ 2 = t ^ 2) (hs : s.val % 2 = parity % 2) (ht : t.val % 2 = parity % 2) : s = t := by
  rcases sq_eq_sq_iff_eq_or_eq_neg.mp hst with heq | hneg
  · exact heq
  · by_cases hzero : t = 0
    · rw [hneg, hzero, neg_zero]
    · rw [hneg, parity_neg hodd hzero] at hs
      omega

/-- A call finds whether there is a root, and the root. -/
theorem modsqrt_root (hu : 1 ≤ u ∧ u ≤ 6) [Fact (val modulus).Prime] (hmc : IsMonty mc modulus)
    {sc : ModsqrtContext u} {z : ZMod (val modulus)} (hsc : IsModsqrt sc modulus z) (hz : ¬ IsSquare z)
    (hx : Holds mc modulus c x) : Succeeds (montyModsqrt sc x 0) fun r => IsModsqrt r.1 modulus z ∧
      ((r.2.2 = 0 ∧ ¬ IsSquare c) ∨ (r.2.2 ≠ 0 ∧ ∃ root, root ^ 2 = c ∧ Holds mc modulus root r.2.1)) := by
  refine (montyModsqrt_spec hu hsc hz (holds_of_rw hmc hsc.mc hx) 0).mono fun r ⟨hsc', hmc', root, hroot, hr⟩ => ?_
  obtain ⟨hle, hiff, hsquare⟩ := hr
  refine ⟨hsc', ?_⟩
  by_cases hc : IsSquare c
  · right
    have hone := hiff.mpr hc
    exact ⟨by omega, root, hsquare hc, holds_of_rw hsc.mc hmc hroot⟩
  · left
    refine ⟨?_, hc⟩
    by_contra hne
    exact hc (hiff.mp (by omega))

/-! ## Weierstrass curves -/

section Weierstrass

variable {wc : StoredWeierstrass u} {a b z : ZMod (val modulus)}

/-- A curve that is made from these parameters -/
structure IsWeierstrass (wc : StoredWeierstrass u) (modulus : MpInt u) (a b z : ZMod (val modulus)) : Prop where
  p : wc.p = modulus
  mc : IsMonty wc.mc modulus
  a : Holds wc.mc modulus a wc.a
  b : Holds wc.mc modulus b wc.b
  sc : ∃ sc, wc.sc = some sc ∧ IsModsqrt sc modulus z

/-- A point of the curve with the first coordinate `x` whose second coordinate has the parity -/
def HasY (a b x : ZMod (val modulus)) (parity : ℕ) (y : ZMod (val modulus)) : Prop :=
  y ^ 2 = x ^ 3 + a * x + b ∧ y.val % 2 = parity % 2

/-- The result is the only point with the parity, in reduced coordinates, if there is one. -/
def IsPointFromX (mc : MontyContext u) (modulus : MpInt u) (a b x : ZMod (val modulus)) (parity : ℕ) :
    Option (StoredWeierstrassPoint u) → Prop
  | none => ¬ ∃ y, HasY a b x parity y
  | some point => ∃ y, HasY a b x parity y ∧ (∀ y', HasY a b x parity y' → y' = y) ∧
      (Holds mc modulus x point.X ∧ val point.X < val modulus) ∧
      (Holds mc modulus y point.Y ∧ val point.Y < val modulus) ∧
      (Holds mc modulus 1 point.Z ∧ val point.Z < val modulus)

theorem eccWeierstrassCurve_spec (hdiv : DivmodExact divmodInto) (hodd : val modulus % 2 = 1)
    (hone : 1 < val modulus) {a b z : MpInt u} (ha : a ≠ []) (hb : b ≠ []) (hz : z ≠ []) :
    Succeeds (eccWeierstrassCurve divmodInto modulus a b (some z)) fun wc =>
      IsWeierstrass wc modulus (val a : ZMod (val modulus)) (val b : ZMod (val modulus))
        (val z : ZMod (val modulus)) := by
  unfold eccWeierstrassCurve
  rw [mpCopy_ok (ne_nil_of_odd hodd), ok_bind]
  refine .bind (montyNew_spec hdiv hodd) fun mc hmc => ?_
  refine .bind (montyImport_spec hdiv hmc ha) fun a' ha' => ?_
  refine .bind (montyImport_spec hdiv hmc hb) fun b' hb' => ?_
  refine .bind (modsqrtNew_spec hdiv hodd hone hz) fun sc hsc => ?_
  exact succeeds_ok.mpr ⟨rfl, hmc, ⟨val a, rfl, ha'⟩, ⟨val b, rfl, hb'⟩, sc, rfl, hsc⟩

theorem mpCopy_identity (hmc : IsMonty mc modulus) :
    mpCopy (montyIdentity mc) = .ok (montyIdentity mc) := by
  refine mpCopy_ok (List.ne_nil_of_length_pos ?_)
  rw [montyIdentity, hmc.power_length]
  exact hmc.rw_pos

theorem eccWeierstrassPointNewFromX_spec (hu : 1 ≤ u ∧ u ≤ 6) (hdiv : DivmodExact divmodInto)
    [Fact (val modulus).Prime] (hwc : IsWeierstrass wc modulus a b z) (hz : ¬ IsSquare z) {xorig : MpInt u}
    (hx : xorig ≠ []) (parity : ℕ) :
    Succeeds (eccWeierstrassPointNewFromX divmodInto wc xorig parity) fun r => IsWeierstrass r.1 modulus a b z ∧
      (IsPointFromX wc.mc modulus a b (val xorig) parity r.2 ↔
        ¬ ((val xorig : ZMod (val modulus)) ^ 3 + a * val xorig + b = 0 ∧ parity % 2 = 1)) := by
  obtain ⟨sc, hsome, hsc⟩ := hwc.sc
  have hmc := hwc.mc
  unfold eccWeierstrassPointNewFromX
  rw [hsome]
  dsimp only
  refine .bind (montyImport_spec hdiv hmc hx) fun x hx => ?_
  have hx : Holds wc.mc modulus (val xorig : ZMod (val modulus)) x := ⟨val xorig, rfl, hx⟩
  generalize (val xorig : ZMod (val modulus)) = xval at hx ⊢
  refine .bind (hx.product hmc hx) fun x2 hx2 => ?_
  refine .bind (hx2.add hmc hwc.a) fun x2a hx2a => ?_
  refine .bind (hx2a.product hmc hx) fun x3 hx3 => ?_
  refine .bind (hx3.add hmc hwc.b) fun rhs hrhs => ?_
  have heq : (xval * xval + a) * xval + b = xval ^ 3 + a * xval + b := by ring
  rw [heq] at hrhs
  refine .bind (modsqrt_root hu hmc hsc hz hrhs) fun ⟨sc', root, success⟩ ⟨hsc', hroot⟩ => ?_
  have hwc' : IsWeierstrass ⟨modulus, wc.mc, some sc', wc.a, wc.b⟩ modulus a b z :=
    ⟨rfl, hmc, hwc.a, hwc.b, sc', rfl, hsc'⟩
  dsimp only at hroot ⊢
  rw [hwc.p]
  rcases hroot with ⟨hzero, hsquare⟩ | ⟨hne, root', hroot', hholds⟩
  · rw [if_pos hzero]
    refine succeeds_ok.mpr ⟨hwc', iff_of_true ?_ ?_⟩
    · rintro ⟨y, hy, -⟩
      exact hsquare ⟨y, by rw [← hy, sq]⟩
    · rintro ⟨h0, -⟩
      exact hsquare (h0 ▸ IsSquare.zero)
  · rw [if_neg hne]
    by_cases hc : root' = 0 ∧ parity % 2 = 1
    · obtain ⟨rfl, hparity⟩ := hc
      refine .bind (chooseParity_zero hmc hholds hparity) fun y hy => ?_
      rw [eccWeierstrassPointNewImported, mpCopy_identity hmc, ok_bind]
      refine succeeds_ok.mpr ⟨hwc', iff_of_false ?_ (not_not.mpr ⟨by rw [← hroot', zero_pow two_ne_zero], hparity⟩)⟩
      rintro ⟨y', -, -, -, ⟨-, hlt⟩, -⟩
      exact absurd hy.2 hlt.ne
    · have : NeZero (val modulus) := ⟨hmc.pos.ne'⟩
      refine .bind (chooseParity_holds hmc hholds hc) fun y ⟨s, hs, hparity, hy⟩ => ?_
      rw [eccWeierstrassPointNewImported, mpCopy_identity hmc, ok_bind]
      have hs2 : s ^ 2 = xval ^ 3 + a * xval + b := by
        rw [← hroot']
        rcases hs with rfl | rfl
        · rfl
        · exact neg_sq root'
      refine succeeds_ok.mpr ⟨hwc', iff_of_true ⟨s, ⟨hs2, hparity⟩, ?_, ?_⟩ ?_⟩
      · rintro y' ⟨hy', hparity'⟩
        exact root_unique hmc.odd (hy'.trans hs2.symm) hparity' hparity
      · exact ⟨⟨hx, hx.lt_modulus hmc⟩, ⟨hy, hy.lt_modulus hmc⟩, holds_identity hmc,
          (holds_identity hmc).lt_modulus hmc⟩
      · rintro ⟨h0, hodd⟩
        rw [h0] at hroot'
        exact hc ⟨pow_eq_zero_iff two_ne_zero |>.mp hroot', hodd⟩

end Weierstrass

/-! ## Edwards curves -/

section Edwards

variable {ec : StoredEdwards u} {d a z : ZMod (val modulus)}

/-- A curve that is made from these parameters -/
structure IsEdwards (ec : StoredEdwards u) (modulus : MpInt u) (d a z : ZMod (val modulus)) : Prop where
  p : ec.p = modulus
  mc : IsMonty ec.mc modulus
  cube : HasCube ec.mc modulus
  d : Holds ec.mc modulus d ec.d
  a : Holds ec.mc modulus a ec.a
  sc : ∃ sc, ec.sc = some sc ∧ IsModsqrt sc modulus z

/-- A point of the curve with the second coordinate `y` whose first coordinate has the parity -/
def HasX (d a y : ZMod (val modulus)) (parity : ℕ) (x : ZMod (val modulus)) : Prop :=
  a * x ^ 2 + y ^ 2 = 1 + d * x ^ 2 * y ^ 2 ∧ x.val % 2 = parity % 2

/-- The result is the only point with the parity, in reduced coordinates, if there is one. -/
def IsPointFromY (mc : MontyContext u) (modulus : MpInt u) (d a y : ZMod (val modulus)) (parity : ℕ) :
    Option (StoredEdwardsPoint u) → Prop
  | none => ¬ ∃ x, HasX d a y parity x
  | some point => ∃ x, HasX d a y parity x ∧ (∀ x', HasX d a y parity x' → x' = x) ∧
      (Holds mc modulus x point.X ∧ val point.X < val modulus) ∧
      (Holds mc modulus y point.Y ∧ val point.Y < val modulus) ∧
      (Holds mc modulus 1 point.Z ∧ val point.Z < val modulus) ∧
      (Holds mc modulus (x * y) point.T ∧ val point.T < val modulus)

theorem eccEdwardsCurve_spec (hdiv : DivmodExact divmodInto) (hodd : val modulus % 2 = 1)
    (hone : 1 < val modulus) {d a z : MpInt u} (hd : d ≠ []) (ha : a ≠ []) (hz : z ≠ []) :
    Succeeds (eccEdwardsCurve divmodInto modulus d a (some z)) fun ec =>
      IsEdwards ec modulus (val d : ZMod (val modulus)) (val a : ZMod (val modulus))
        (val z : ZMod (val modulus)) := by
  unfold eccEdwardsCurve
  rw [mpCopy_ok (ne_nil_of_odd hodd), ok_bind]
  refine .bind (montyNew_cube hdiv hodd) fun mc ⟨hmc, hcube⟩ => ?_
  refine .bind (montyImport_spec hdiv hmc hd) fun d' hd' => ?_
  refine .bind (montyImport_spec hdiv hmc ha) fun a' ha' => ?_
  refine .bind (modsqrtNew_spec hdiv hodd hone hz) fun sc hsc => ?_
  exact succeeds_ok.mpr ⟨rfl, hmc, hcube, ⟨val d, rfl, hd'⟩, ⟨val a, rfl, ha'⟩, sc, rfl, hsc⟩

/-- A product is computed even if a factor is the modulus itself. -/
theorem montyMul_total (hmc : IsMonty mc modulus) (hlen : x.length = mc.rw) (hle : val x ≤ val modulus)
    (hy : Holds mc modulus c y) : Succeeds (montyMul mc x y) fun _ => True := by
  have hpos := hmc.rw_pos
  have hradix := hmc.lt_radix
  have hscratch := hmc.scratch
  have hprod : val x * val y < val modulus * radix mc :=
    Nat.mul_lt_mul_of_le_of_lt hle ((hy.lt_modulus hmc).trans hradix) hmc.pos
  have hxne : x ≠ [] := List.ne_nil_of_length_pos (hlen ▸ hpos)
  rw [montyMul, mpMakeSized_ok hpos.ne', ok_bind, montyMulInto, check, check, if_pos hlen.le, ok_bind,
    if_pos hy.length.le, ok_bind, mpAllocFromScratch_of_le (by omega), ok_bind]
  refine .bind (mpMulInto_spec (by omega) hxne) fun tmp htmp => ?_
  refine .bind (montyReduceInternal_spec hmc (by omega) ?_) fun r _ => succeeds_ok.mpr trivial
  rw [htmp.2]
  exact (Nat.mod_le _ _).trans_lt hprod

/-- The square of the other coordinate -/
theorem edwards_iff {K : Type} [Field K] {x y a d : K} (h : d * y ^ 2 - a ≠ 0) :
    a * x ^ 2 + y ^ 2 = 1 + d * x ^ 2 * y ^ 2 ↔ x ^ 2 = (y ^ 2 - 1) * (d * y ^ 2 - a)⁻¹ := by
  rw [← div_eq_mul_inv, eq_div_iff h]
  constructor
  · intro heq
    linear_combination -heq
  · intro heq
    linear_combination -heq

theorem eccEdwardsPointNewFromY_spec (hu : 1 ≤ u ∧ u ≤ 6) (hdiv : DivmodExact divmodInto)
    [Fact (val modulus).Prime] (hec : IsEdwards ec modulus d a z) (hz : ¬ IsSquare z)
    (hsuitable : ∀ y, d * y ^ 2 ≠ a) {yorig : MpInt u} (hy : yorig ≠ []) (parity : ℕ) :
    Succeeds (eccEdwardsPointNewFromY divmodInto ec yorig parity) fun r => IsEdwards r.1 modulus d a z ∧
      (IsPointFromY ec.mc modulus d a (val yorig) parity r.2 ↔
        ¬ ((val yorig : ZMod (val modulus)) ^ 2 = 1 ∧ parity % 2 = 1)) := by
  obtain ⟨sc, hsome, hsc⟩ := hec.sc
  have hmc := hec.mc
  unfold eccEdwardsPointNewFromY
  rw [hsome]
  dsimp only
  refine .bind (montyImport_spec hdiv hmc hy) fun y hy => ?_
  have hy : Holds ec.mc modulus (val yorig : ZMod (val modulus)) y := ⟨val yorig, rfl, hy⟩
  generalize (val yorig : ZMod (val modulus)) = yval at hy ⊢
  have hden : d * yval ^ 2 - a ≠ 0 := sub_ne_zero.mpr (hsuitable yval)
  refine .bind (hy.product hmc hy) fun y2 hy2 => ?_
  rw [← sq] at hy2
  refine .bind (hec.d.product hmc hy2) fun dy2 hdy2 => ?_
  refine .bind (hdy2.sub hmc hec.a) fun dy2ma hdy2ma => ?_
  refine .bind (hy2.sub hmc (holds_identity hmc)) fun y2m1 hy2m1 => ?_
  refine .bind (hdy2ma.inverse hu hmc hec.cube hden) fun recip hrecip => ?_
  refine .bind (hy2m1.product hmc hrecip) fun radicand hradicand => ?_
  refine .bind (modsqrt_root hu hmc hsc hz hradicand) fun ⟨sc', root, success⟩ ⟨hsc', hroot⟩ => ?_
  have hec' : IsEdwards ⟨modulus, ec.mc, some sc', ec.d, ec.a⟩ modulus d a z :=
    ⟨rfl, hmc, hec.cube, hec.d, hec.a, sc', rfl, hsc'⟩
  have hzero : (yval ^ 2 - 1) * (d * yval ^ 2 - a)⁻¹ = 0 ↔ yval ^ 2 = 1 := by
    rw [mul_eq_zero_iff_right (inv_ne_zero hden), sub_eq_zero]
  dsimp only at hroot ⊢
  rw [hec.p]
  rcases hroot with ⟨h0, hsquare⟩ | ⟨hne, root', hroot', hholds⟩
  · rw [if_pos h0]
    refine succeeds_ok.mpr ⟨hec', iff_of_true ?_ ?_⟩
    · rintro ⟨x, hx, -⟩
      exact hsquare ⟨x, by rw [← (edwards_iff hden).mp hx, sq]⟩
    · rintro ⟨hone, -⟩
      exact hsquare (hzero.mpr hone ▸ IsSquare.zero)
  · rw [if_neg hne]
    by_cases hc : root' = 0 ∧ parity % 2 = 1
    · obtain ⟨rfl, hparity⟩ := hc
      refine .bind (chooseParity_zero hmc hholds hparity) fun x hx => ?_
      refine .bind (.bind (montyMul_total hmc hx.1 hx.2.le hy) fun T _ => ?_ : Succeeds
        (eccEdwardsPointNewImported ⟨modulus, ec.mc, some sc', ec.d, ec.a⟩ x y) fun point => point.X = x)
        fun point hpoint => ?_
      · rw [mpCopy_identity hmc, ok_bind]
        exact succeeds_ok.mpr rfl
      · refine succeeds_ok.mpr ⟨hec', iff_of_false ?_ (not_not.mpr ⟨?_, hparity⟩)⟩
        · rintro ⟨x', -, -, ⟨-, hlt⟩, -⟩
          rw [hpoint] at hlt
          exact absurd hx.2 hlt.ne
        · rw [← hzero, ← hroot', zero_pow two_ne_zero]
    · have : NeZero (val modulus) := ⟨hmc.pos.ne'⟩
      refine .bind (chooseParity_holds hmc hholds hc) fun x ⟨s, hs, hparity, hx⟩ => ?_
      have hs2 : s ^ 2 = (yval ^ 2 - 1) * (d * yval ^ 2 - a)⁻¹ := by
        rw [← hroot']
        rcases hs with rfl | rfl
        · rfl
        · exact neg_sq root'
      refine .bind (.bind (hx.product hmc hy) fun T hT => ?_ : Succeeds
        (eccEdwardsPointNewImported ⟨modulus, ec.mc, some sc', ec.d, ec.a⟩ x y) fun point =>
          ∃ T, point = ⟨x, y, montyIdentity ec.mc, T⟩ ∧ Holds ec.mc modulus (s * yval) T) fun point hpoint => ?_
      · rw [mpCopy_identity hmc, ok_bind]
        exact succeeds_ok.mpr ⟨T, rfl, hT⟩
      · obtain ⟨T, rfl, hT⟩ := hpoint
        refine succeeds_ok.mpr ⟨hec', iff_of_true ⟨s, ⟨(edwards_iff hden).mpr hs2, hparity⟩, ?_, ?_⟩ ?_⟩
        · rintro x' ⟨hx', hparity'⟩
          exact root_unique hmc.odd (((edwards_iff hden).mp hx').trans hs2.symm) hparity' hparity
        · exact ⟨⟨hx, hx.lt_modulus hmc⟩, ⟨hy, hy.lt_modulus hmc⟩, ⟨holds_identity hmc,
            (holds_identity hmc).lt_modulus hmc⟩, hT, hT.lt_modulus hmc⟩
        · rintro ⟨hone, hodd⟩
          rw [hzero.mpr hone] at hroot'
          exact hc ⟨(pow_eq_zero_iff two_ne_zero).mp hroot', hodd⟩

end Edwards

/-! ## All calls on a curve -/

/-- The curves that are made, and what calls leave of them -/
inductive ReachedCurve {Curve Point : Type} (new : Except Fault Curve)
    (call : Curve → MpInt u → ℕ → Except Fault (Curve × Point)) : Curve → Prop
  | new (curve : Curve) : new = .ok curve → ReachedCurve new call curve
  | call (curve curve' : Curve) (coordinate : OwnMpInt u) (parity : ℕ) (point : Point) :
      ReachedCurve new call curve → call curve coordinate.words parity = .ok (curve', point) →
      ReachedCurve new call curve'

theorem ReachedCurve.invariant {Curve Point : Type} {new : Except Fault Curve}
    {call : Curve → MpInt u → ℕ → Except Fault (Curve × Point)} {curve : Curve} {I : Curve → Prop}
    (hreached : ReachedCurve new call curve) (hnew : Succeeds new I)
    (hcall : ∀ curve (coordinate : OwnMpInt u) parity, I curve →
      Succeeds (call curve coordinate.words parity) fun r => I r.1) : I curve := by
  induction hreached with
  | new curve hok =>
    obtain ⟨curve', hok', hI⟩ := hnew
    cases hok.symm.trans hok'
    exact hI
  | call curve curve' coordinate parity point _ hok ih =>
    obtain ⟨r, hok', hI⟩ := hcall curve coordinate parity ih
    cases hok.symm.trans hok'
    exact hI

/-- A point is found from a coordinate and a parity exactly as it should be unless the other coordinate is zero and
is to be odd. -/
theorem decompress_iff (hu : 1 ≤ u ∧ u ≤ 6) (hdiv : DivmodExact divmodInto) (p z : OwnMpInt u)
    (hp : (val p.words).Prime) (hodd : val p.words % 2 = 1)
    (hz : ¬ IsSquare (val z.words : ZMod (val p.words))) :
    (∀ a b : OwnMpInt u,
      (∃ wc, eccWeierstrassCurve divmodInto p.words a.words b.words (some z.words) = .ok wc) ∧
      ∀ wc, ReachedCurve (eccWeierstrassCurve divmodInto p.words a.words b.words (some z.words))
          (eccWeierstrassPointNewFromX divmodInto) wc →
        ∀ (x : OwnMpInt u) (parity : ℕ), ∃ wc' point,
          eccWeierstrassPointNewFromX divmodInto wc x.words parity = .ok (wc', point) ∧
          (IsPointFromX wc.mc p.words (val a.words) (val b.words) (val x.words) parity point ↔
            ¬ ((val x.words : ZMod (val p.words)) ^ 3 + val a.words * val x.words + val b.words = 0 ∧
              parity % 2 = 1))) ∧
    ∀ d a : OwnMpInt u, (∀ y : ZMod (val p.words), val d.words * y ^ 2 ≠ val a.words) →
      (∃ ec, eccEdwardsCurve divmodInto p.words d.words a.words (some z.words) = .ok ec) ∧
      ∀ ec, ReachedCurve (eccEdwardsCurve divmodInto p.words d.words a.words (some z.words))
          (eccEdwardsPointNewFromY divmodInto) ec →
        ∀ (y : OwnMpInt u) (parity : ℕ), ∃ ec' point,
          eccEdwardsPointNewFromY divmodInto ec y.words parity = .ok (ec', point) ∧
          (IsPointFromY ec.mc p.words (val d.words) (val a.words) (val y.words) parity point ↔
            ¬ ((val y.words : ZMod (val p.words)) ^ 2 = 1 ∧ parity % 2 = 1)) := by
  have : Fact (val p.words).Prime := ⟨hp⟩
  constructor
  · intro a b
    have hnew := eccWeierstrassCurve_spec hdiv hodd hp.one_lt a.outlawed b.outlawed z.outlawed
    constructor
    · obtain ⟨wc, hok, -⟩ := hnew
      exact ⟨wc, hok⟩
    · intro wc hreached x parity
      have hwc := hreached.invariant hnew fun wc x parity hwc =>
        (eccWeierstrassPointNewFromX_spec hu hdiv hwc hz x.outlawed parity).mono fun r hr => hr.1
      obtain ⟨⟨wc', point⟩, hok, -, hpoint⟩ :=
        eccWeierstrassPointNewFromX_spec hu hdiv hwc hz x.outlawed parity
      exact ⟨wc', point, hok, hpoint⟩
  · intro d a hsuitable
    have hnew := eccEdwardsCurve_spec hdiv hodd hp.one_lt d.outlawed a.outlawed z.outlawed
    constructor
    · obtain ⟨ec, hok, -⟩ := hnew
      exact ⟨ec, hok⟩
    · intro ec hreached y parity
      have hec := hreached.invariant hnew fun ec y parity hec =>
        (eccEdwardsPointNewFromY_spec hu hdiv hec hz hsuitable y.outlawed parity).mono fun r hr => hr.1
      obtain ⟨⟨ec', point⟩, hok, -, hpoint⟩ :=
        eccEdwardsPointNewFromY_spec hu hdiv hec hz hsuitable y.outlawed parity
      exact ⟨ec', point, hok, hpoint⟩

theorem nonsquare_seven : ¬ IsSquare ((val ([3] : MpInt 5) : ℕ) : ZMod (val ([7] : MpInt 5))) := by
  have hnone : ∀ y : ZMod 7, 3 ≠ y * y := by decide
  rintro ⟨y, hy⟩
  exact hnone y hy

/-- The points with `x = 1` on `y^2 = x^3 + 3` and with `y = 2` on `x^2 + y^2 = 1 + 3 x^2 y^2` modulo 7 -/
theorem decompress_iff_seven :
    (∃ wc wc' point, eccWeierstrassCurve (divmodWords 5) [7] [0] [3] (some [3]) = .ok wc ∧
      eccWeierstrassPointNewFromX (divmodWords 5) wc [1] 1 = .ok (wc', point) ∧
      IsPointFromX wc.mc [7] (0 : ℕ) (3 : ℕ) (1 : ℕ) 1 point) ∧
    ∃ ec ec' point, eccEdwardsCurve (divmodWords 5) [7] [3] [1] (some [3]) = .ok ec ∧
      eccEdwardsPointNewFromY (divmodWords 5) ec [2] 0 = .ok (ec', point) ∧
      IsPointFromY ec.mc [7] (3 : ℕ) (1 : ℕ) (2 : ℕ) 0 point := by
  have hprime : (val ([7] : MpInt 5)).Prime := by decide
  obtain ⟨hweierstrass, hedwards⟩ := decompress_iff (by decide) (divmodWords_exact (u := 5))
    ⟨[7], List.cons_ne_nil _ _⟩ ⟨[3], List.cons_ne_nil _ _⟩ hprime (by decide) nonsquare_seven
  constructor
  · obtain ⟨⟨wc, hnew⟩, hall⟩ := hweierstrass ⟨[0], List.cons_ne_nil _ _⟩ ⟨[3], List.cons_ne_nil _ _⟩
    obtain ⟨wc', point, hcall, hpoint⟩ := hall wc (.new wc hnew) ⟨[1], List.cons_ne_nil _ _⟩ 1
    refine ⟨wc, wc', point, hnew, hcall, hpoint.mpr ?_⟩
    rintro ⟨hzero, -⟩
    have hne : (1 : ZMod 7) ^ 3 + 0 * 1 + 3 ≠ 0 := by decide
    exact hne hzero
  · have hsuitable : ∀ y : ZMod 7, 3 * y ^ 2 ≠ 1 := by decide
    obtain ⟨⟨ec, hnew⟩, hall⟩ :=
      hedwards ⟨[3], List.cons_ne_nil _ _⟩ ⟨[1], List.cons_ne_nil _ _⟩ fun y hy => hsuitable y hy
    obtain ⟨ec', point, hcall, hpoint⟩ := hall ec (.new ec hnew) ⟨[2], List.cons_ne_nil _ _⟩ 0
    refine ⟨ec, ec', point, hnew, hcall, hpoint.mpr ?_⟩
    rintro ⟨-, hparity⟩
    exact absurd hparity (by decide)

/-- The point with `x = 1` on `y^2 = x^3 + 6` modulo 7 has no odd second coordinate, nor has that with `y = 1` on
`x^2 + y^2 = 1 + 3 x^2 y^2` an odd first one. -/
theorem odd_zero :
    (∃ wc wc' point, eccWeierstrassCurve (divmodWords 5) [7] [0] [6] (some [3]) = .ok wc ∧
      eccWeierstrassPointNewFromX (divmodWords 5) wc [1] 1 = .ok (wc', point) ∧
      ¬ IsPointFromX wc.mc [7] (0 : ℕ) (6 : ℕ) (1 : ℕ) 1 point) ∧
    ∃ ec ec' point, eccEdwardsCurve (divmodWords 5) [7] [3] [1] (some [3]) = .ok ec ∧
      eccEdwardsPointNewFromY (divmodWords 5) ec [1] 1 = .ok (ec', point) ∧
      ¬ IsPointFromY ec.mc [7] (3 : ℕ) (1 : ℕ) (1 : ℕ) 1 point := by
  have hu : 1 ≤ 5 ∧ 5 ≤ 6 := by decide
  have hone : 1 < val ([7] : MpInt 5) := by decide
  have : Fact (val ([7] : MpInt 5)).Prime := ⟨by decide⟩
  have hdiv := divmodWords_exact (u := 5)
  have hcoordinate : ([1] : MpInt 5) ≠ [] := List.cons_ne_nil _ _
  constructor
  · obtain ⟨wc, hnew, hwc⟩ := @eccWeierstrassCurve_spec 5 _ [7] hdiv (by decide) hone [0] [6] [3]
      (List.cons_ne_nil _ _) (List.cons_ne_nil _ _) (List.cons_ne_nil _ _)
    obtain ⟨⟨wc', point⟩, hcall, -, hpoint⟩ := eccWeierstrassPointNewFromX_spec hu hdiv hwc
      nonsquare_seven hcoordinate 1
    refine ⟨wc, wc', point, hnew, hcall, fun hcorrect => hpoint.mp hcorrect ⟨?_, rfl⟩⟩
    have hzero : (1 : ZMod 7) ^ 3 + 0 * 1 + 6 = 0 := by decide
    exact hzero
  · have hsuitable : ∀ y : ZMod 7, 3 * y ^ 2 ≠ 1 := by decide
    obtain ⟨ec, hnew, hec⟩ := @eccEdwardsCurve_spec 5 _ [7] hdiv (by decide) hone [3] [1] [3]
      (List.cons_ne_nil _ _) (List.cons_ne_nil _ _) (List.cons_ne_nil _ _)
    obtain ⟨⟨ec', point⟩, hcall, -, hpoint⟩ := eccEdwardsPointNewFromY_spec hu hdiv hec
      nonsquare_seven (fun y hy => hsuitable y hy) hcoordinate 1
    refine ⟨ec, ec', point, hnew, hcall, fun hcorrect => hpoint.mp hcorrect ⟨?_, rfl⟩⟩
    have hsquare : (1 : ZMod 7) ^ 2 = 1 := by decide
    exact hsquare

end PuttyNd.Ecc
