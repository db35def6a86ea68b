import PuttyNd.Lib.Horner
import PuttyNd.Mpint.Proofs.DivideProofs

/-!
# Proofs for the reciprocal approximation (`psftp/mpint.c`)

The approximation is computed by Horner's rule, and every multiplication is followed by a shift that truncates. No
value on the way is out of the range of 32 bits, and the result stays between two polynomials.
-/

namespace PuttyNd.Mpint

open Horner Words

variable {u : ℕ}

/-- The constants of `recip_approx_32` after the first one, with the shifts before them -/
def recipSteps : List (BitVec 64 × ℕ) :=
  [(0xf63e71ea, 34), (0xb63721e8, 34), (0x9c2da00e, 33), (0xaada0bb8, 32), (0xf75cd403, 31), (0xecf97a41, 31),
    (0x90d876cd, 31), (0x6682799a0, 26)]

theorem recipApprox32_eq (x : BitVec 32) : recipApprox32 x =
    (recipSteps.foldl (fun r p => p.1 - ((r * x.setWidth 64) >>> p.2)) 0x92db03d6).setWidth 32 := rfl

/-- The polynomial is positive for every input with the top bit set. -/
def positiveInput (cs : List ℤ) : Bool := positiveOn 31 (shift (2 ^ 31 : ℕ) cs)

/-- What lies within the bounds has 32 bits, for every such input. -/
def inRange (b : Enclosure) : Bool :=
  positiveInput b.lo && positiveInput (addConst (2 ^ (32 + b.scale) : ℕ) (neg b.hi))

def enclose (b : Enclosure) (p : BitVec 64 × ℕ) : Enclosure := b.step p.1.toNat p.2

/-- All values on the way are in range. -/
def allInRange : Enclosure → List (BitVec 64 × ℕ) → Bool
  | _, [] => true
  | b, p :: steps => inRange (enclose b p) && allInRange (enclose b p) steps

section Input

variable {x : BitVec 32}

theorem positiveInput_sound (hx : 2 ^ 31 ≤ x.toNat) {cs : List ℤ} (hcs : positiveInput cs = true) :
    0 < eval (x.toNat : ℤ) cs := by
  have hlt : x.toNat < 2 ^ 32 := x.isLt
  have hpos := positiveOn_sound (x := x.toNat - (2 ^ 31 : ℕ)) hcs (by omega) (by omega)
  rwa [eval_shift, add_sub_cancel] at hpos

theorem inRange_spec (hx : 2 ^ 31 ≤ x.toNat) {b : Enclosure} (hb : inRange b = true) :
    0 < eval (x.toNat : ℤ) b.lo ∧ ∀ r, b.Contains x.toNat r → r < 2 ^ 32 := by
  obtain ⟨hlo, hhi⟩ := Bool.and_eq_true_iff.mp hb
  refine ⟨positiveInput_sound hx hlo, fun r hr => ?_⟩
  have hpos := positiveInput_sound hx hhi
  rw [eval_addConst, eval_neg, pow_add] at hpos
  push_cast at hpos
  have hlt : (r * 2 ^ b.scale : ℤ) < 2 ^ 32 * 2 ^ b.scale := by linarith [hr.2]
  exact_mod_cast lt_of_mul_lt_mul_right hlt (by positivity)

/-- Nothing is cut off in one step. -/
theorem toNat_recipStep {r c : BitVec 64} {s : ℕ} (hr : r.toNat < 2 ^ 32) (hc : r.toNat * x.toNat / 2 ^ s ≤ c.toNat) :
    (c - ((r * x.setWidth 64) >>> s)).toNat = c.toNat - r.toNat * x.toNat / 2 ^ s := by
  have hxw : (x.setWidth 64).toNat = x.toNat := BitVec.toNat_setWidth_of_le (by omega)
  have hmul : r.toNat * x.toNat < 2 ^ 64 :=
    calc r.toNat * x.toNat < 2 ^ 32 * 2 ^ 32 := Nat.mul_lt_mul'' hr x.isLt
      _ = 2 ^ 64 := by norm_num
  have hshift : ((r * x.setWidth 64) >>> s).toNat = r.toNat * x.toNat / 2 ^ s := by
    rw [BitVec.toNat_ushiftRight, BitVec.toNat_mul, hxw, Nat.mod_eq_of_lt hmul, Nat.shiftRight_eq_div_pow]
  rw [BitVec.toNat_sub_of_le (BitVec.le_def.mpr (hshift ▸ hc)), hshift]

/-- The whole computation stays within the bounds. -/
theorem recipSteps_contains (hx : 2 ^ 31 ≤ x.toNat) {steps : List (BitVec 64 × ℕ)} {b : Enclosure} {r : BitVec 64}
    (hsteps : allInRange b steps = true) (hr : r.toNat < 2 ^ 32) (hb : b.Contains x.toNat r.toNat) :
    (steps.foldl (fun r p => p.1 - ((r * x.setWidth 64) >>> p.2)) r).toNat < 2 ^ 32 ∧
      (steps.foldl enclose b).Contains x.toNat
        (steps.foldl (fun r p => p.1 - ((r * x.setWidth 64) >>> p.2)) r).toNat := by
  induction steps generalizing b r with
  | nil => exact ⟨hr, hb⟩
  | cons p steps ih =>
    obtain ⟨hrange, hrest⟩ := Bool.and_eq_true_iff.mp hsteps
    obtain ⟨hpos, hlt⟩ := inRange_spec hx hrange
    obtain ⟨hle, hnext⟩ := hb.step hpos
    rw [← toNat_recipStep hr hle] at hnext
    exact ih hrest (hlt _ hnext) hnext

/-- Within the bounds, a result is close to `2 ^ 63 / x` for every such input. -/
def isClose (b : Enclosure) : Bool :=
  positiveInput ((2 ^ (63 + b.scale) : ℕ) :: addConst (1750 * 2 ^ b.scale : ℕ) (neg b.hi)) &&
    positiveInput (-(2 ^ (63 + b.scale) : ℕ) :: addConst (1750 * 2 ^ b.scale : ℕ) b.lo)

theorem isClose_spec (hx : 2 ^ 31 ≤ x.toNat) {b : Enclosure} (hb : isClose b = true) {r : ℕ}
    (hr : b.Contains x.toNat r) : |(r * x.toNat : ℤ) - 2 ^ 63| < 1750 * (x.toNat : ℤ) := by
  obtain ⟨hhi, hlo⟩ := Bool.and_eq_true_iff.mp hb
  have hup := positiveInput_sound hx hhi
  have hdown := positiveInput_sound hx hlo
  rw [eval, eval_addConst, eval_neg, pow_add] at hup
  rw [eval, eval_addConst, pow_add] at hdown
  push_cast at hup hdown
  have hhix := Int.mul_le_mul_of_nonneg_left hr.2 (Int.natCast_nonneg x.toNat)
  have hlox := Int.mul_le_mul_of_nonneg_left hr.1 (Int.natCast_nonneg x.toNat)
  have hS : (0 : ℤ) ≤ 2 ^ b.scale := by positivity
  rw [abs_lt]
  constructor
  · refine lt_of_mul_lt_mul_right ?_ hS
    linarith
  · refine lt_of_mul_lt_mul_right ?_ hS
    linarith

def recipStart : Enclosure := ⟨[0x92db03d6], [0x92db03d6], 0⟩

theorem recipSteps_inRange : allInRange recipStart recipSteps = true := by decide +kernel

theorem recipSteps_isClose : isClose (recipSteps.foldl enclose recipStart) = true := by decide +kernel

/-- For every input with the top bit set, the result is off by less than 1750 from `2 ^ 63 / x`. -/
theorem recipApprox32_close (hx : 2 ^ 31 ≤ x.toNat) :
    |((recipApprox32 x).toNat * x.toNat : ℤ) - 2 ^ 63| < 1750 * (x.toNat : ℤ) := by
  have hstart : recipStart.Contains x.toNat (0x92db03d6 : BitVec 64).toNat := by
    constructor <;> simp [recipStart, eval]
  obtain ⟨hlt, hcontains⟩ := recipSteps_contains hx recipSteps_inRange (by decide) hstart
  have hval : (recipApprox32 x).toNat =
      (recipSteps.foldl (fun r p => p.1 - ((r * x.setWidth 64) >>> p.2)) 0x92db03d6).toNat := by
    rw [recipApprox32_eq, BitVec.toNat_setWidth, Nat.mod_eq_of_lt hlt]
  rw [hval]
  exact isClose_spec hx recipSteps_isClose hcontains

theorem recipBound (hx : 2 ^ 31 ≤ x.toNat) : RecipBound x := by
  refine (recipApprox32_close hx).trans ?_
  have hpos : (0 : ℤ) < x.toNat := by
    have hpos : 0 < x.toNat := lt_of_lt_of_le (by decide) hx
    exact_mod_cast hpos
  linarith

end Input

/-- Division is exact for all numerators and denominators. -/
theorem mpDivmodInto_exact_all (hu : u = 5 ∨ u = 6) : DivmodExact (mpDivmodInto (u := u)) :=
  mpDivmodInto_divmodExact hu fun _ => recipBound

/-- Every approximation of a reciprocal is close, and with no assumption at all every division by a number other than
0 comes to its end with the quotient and the remainder, as far as they fit the outputs. -/
theorem mpDivmodInto_total (hu : u = 5 ∨ u = 6) :
    (∀ x : BitVec 32, 2 ^ 31 ≤ x.toNat →
      |((recipApprox32 x).toNat * x.toNat : ℤ) - 2 ^ 63| < 1750 * (x.toNat : ℤ)) ∧
    ∀ n d : OwnMpInt u, val d.words ≠ 0 → ∀ qNw rNw, ∃ qOut rOut,
      mpDivmodInto n.words d.words qNw rNw = .ok (qOut, rOut) ∧ qOut.length = qNw ∧ rOut.length = rNw ∧
        val qOut = val n.words / val d.words % 2 ^ (BIGNUM_INT_BITS u * qNw) ∧
        val rOut = val n.words % val d.words % 2 ^ (BIGNUM_INT_BITS u * rNw) := by
  refine ⟨fun x hx => recipApprox32_close hx, fun n d hd qNw rNw => ?_⟩
  obtain ⟨⟨qOut, rOut⟩, hout, ⟨hqlen, hq⟩, hrlen, hr⟩ := mpDivmodInto_exact_all hu n.words d.words qNw rNw n.outlawed hd
  exact ⟨qOut, rOut, hout, hqlen, hrlen, hq, hr⟩

theorem mpDivmodInto_total_seventeen :
    ∃ qOut rOut, mpDivmodInto ([17] : MpInt 5) [5] 1 1 = .ok (qOut, rOut) ∧ val qOut = 3 ∧ val rOut = 2 := by
  obtain ⟨qOut, rOut, hout, -, -, hq, hr⟩ :=
    (mpDivmodInto_total (u := 5) (.inl rfl)).2 ⟨[17], by simp⟩ ⟨[5], by simp⟩ (by decide) 1 1
  exact ⟨qOut, rOut, hout, hq, hr⟩

end PuttyNd.Mpint
