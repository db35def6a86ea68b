import PuttyNd.Lib.BinaryEuclid
import PuttyNd.Mpint.Bezout
import PuttyNd.Mpint.Proofs.IntegersProofs
import PuttyNd.Mpint.Proofs.MontyProofs

/-!
# Proofs: modular inverses

The two loops take the steps of `BinaryEuclid` and undo them. The coefficients stay below the numbers, so
they fit in one word more.
-/

namespace PuttyNd.Mpint

open Words Outcome BinaryEuclid

variable {u nw yes swap bit : ℕ} {a b x x0 x1 : MpInt u}

/-! ## Conditional operations -/

theorem zipWith_left (h : x0.length = x1.length) : x0.zipWith (fun w0 _ => w0) x1 = x0 := by
  induction x0 generalizing x1 with
  | nil => rfl
  | cons w0 x0 ih =>
    cases x1 with
    | nil => exact absurd h (Nat.succ_ne_zero _)
    | cons w1 x1 => rw [List.zipWith_cons_cons, ih (Nat.succ.inj h)]

theorem zipWith_right (h : x0.length = x1.length) : x0.zipWith (fun _ w1 => w1) x1 = x1 := by
  induction x0 generalizing x1 with
  | nil => rw [List.eq_nil_of_length_eq_zero h.symm, List.zipWith_nil_left]
  | cons w0 x0 ih =>
    cases x1 with
    | nil => exact absurd h (Nat.succ_ne_zero _)
    | cons w1 x1 => rw [List.zipWith_cons_cons, ih (Nat.succ.inj h)]

/-- The mask of a bit -/
theorem mask_eq {w : ℕ} (n : ℕ) : -BitVec.ofNat w (1 &&& n) = if n % 2 = 1 then BitVec.allOnes w else 0#w := by
  rw [Nat.and_comm, Nat.and_one_is_mod]
  rcases Nat.mod_two_eq_zero_or_one n with h | h
  · rw [h, if_neg (by decide)]
    exact BitVec.neg_zero w
  · rw [h, if_pos rfl]
    exact BitVec.neg_one_eq_allOnes

theorem mpCondSwap_spec (h : x0.length = x1.length) (swap : ℕ) :
    mpCondSwap x0 x1 swap = .ok (if swap % 2 = 1 then (x1, x0) else (x0, x1)) := by
  have hright : ∀ w0 w1 : BignumInt u, w0 ^^^ (w0 ^^^ w1) = w1 := fun w0 w1 => by
    rw [← BitVec.xor_assoc, BitVec.xor_self, BitVec.zero_xor]
  have hleft : ∀ w0 w1 : BignumInt u, w1 ^^^ (w0 ^^^ w1) = w0 := fun w0 w1 => by
    rw [BitVec.xor_comm w0, hright]
  rw [mpCondSwap, check, if_pos h, ok_bind, mask_eq]
  split_ifs
  · simp only [BitVec.and_allOnes, hright, hleft, zipWith_left h, zipWith_right h, pure_eq]
  · simp only [BitVec.and_zero, BitVec.xor_zero, zipWith_left h, zipWith_right h, pure_eq]

@[simp] theorem length_mpCondAddInto : (mpCondAddInto nw a b yes).length = nw := length_addWords

theorem val_mpCondAddInto : val (mpCondAddInto nw a b yes) =
    (val a + if yes % 2 = 1 then val b else 0) % 2 ^ (BIGNUM_INT_BITS u * nw) := by
  rw [mpCondAddInto, Nat.and_comm yes, mask_eq]
  split_ifs
  · rw [← complement_zero]
    exact val_mpAddInto
  · have hmasked : ∀ i, (mpWord b i &&& 0#_) ^^^ 0 = 0 := fun i => by
      rw [BitVec.and_zero]
      exact BitVec.xor_self
    rw [mpAddMaskedInto, val_addWords]
    simp only [hmasked, num_word]
    rw [num_eq_zero fun i _ => toNat_zero]
    simp

theorem val_mpCondSubInto_bit (ha : val a < 2 ^ (BIGNUM_INT_BITS u * nw)) (bothOdd : Bool)
    (hle : bothOdd = true → val b ≤ val a) :
    val (mpCondSubInto nw a b bothOdd.toNat) = if bothOdd then val a - val b else val a := by
  cases bothOdd with
  | true => exact mpCondSubInto_one (u := u) ▸ val_mpSubInto_of_le (hle rfl) ha
  | false => exact val_mpCondSubInto_zero.trans (Nat.mod_eq_of_lt ha)

/-! ## Bits -/

theorem toNat_low_bit (x : MpInt u) : (mpWord x 0 &&& 1).toNat = val x % 2 := by
  have hone : (1 : BignumInt u).toNat = 1 := toNat_one bits_pos
  rw [BitVec.toNat_and, hone, Nat.and_one_is_mod, word_eq, Nat.mul_zero, pow_zero, Nat.div_one]
  exact Nat.mod_mod_of_dvd _ (dvd_pow_self 2 bits_pos.ne')

theorem mpGetBit_eq (x : MpInt u) (j : ℕ) :
    mpGetBit x j = ((mpWord x (j / BIGNUM_INT_BITS u)).getLsbD (j % BIGNUM_INT_BITS u)).toNat := by
  have hone : (1 : BignumInt u).toNat = 1 := toNat_one bits_pos
  rw [mpGetBit, BitVec.toNat_and, hone, Nat.and_comm, Nat.and_one_is_mod, BitVec.toNat_ushiftRight,
    Nat.shiftRight_eq_div_pow, BitVec.getLsbD, Nat.toNat_testBit]

theorem word_modify {k i : ℕ} (f : BignumInt u → BignumInt u) (hk : k < x.length) :
    mpWord (x.modify k f) i = if i = k then f (mpWord x k) else mpWord x i := by
  unfold mpWord word
  rw [List.getD_eq_getElem?_getD, List.getD_eq_getElem?_getD, List.getD_eq_getElem?_getD,
    List.getElem?_modify]
  by_cases hik : i = k
  · simp [hik, List.getElem?_eq_getElem hk]
  · simp [hik, Ne.symm hik]

theorem setBit_word {w : BignumInt u} {t t' : ℕ} (v : ℕ) (ht : t < BIGNUM_INT_BITS u) (ht' : t' < BIGNUM_INT_BITS u) :
    (((w &&& ~~~((1 : BignumInt u) <<< t')) ||| BitVec.ofNat _ (v &&& 1) <<< t').getLsbD t).toNat =
      if t = t' then v % 2 else (w.getLsbD t).toNat := by
  have hone : ∀ i, (1 : BignumInt u).getLsbD i = decide (i = 0) := fun i => by
    rw [show (1 : BignumInt u) = 1#_ from rfl, BitVec.getLsbD_one]
    simp
  rw [Nat.and_one_is_mod, BitVec.getLsbD_or, BitVec.getLsbD_and, BitVec.getLsbD_not, BitVec.getLsbD_shiftLeft,
    BitVec.getLsbD_shiftLeft, BitVec.getLsbD_ofNat, hone]
  rcases Nat.lt_trichotomy t t' with hlt | rfl | hgt
  · rw [if_neg hlt.ne]
    simp [ht, hlt]
  · have hbit : (v % 2).testBit 0 = decide (v % 2 = 1) := by simp
    rw [if_pos rfl, Nat.sub_self, hbit]
    rcases Nat.mod_two_eq_zero_or_one v with h | h <;> simp [h, ht]
  · have hhigh : (v % 2).testBit (t - t') = false :=
      Nat.testBit_lt_two_pow ((Nat.mod_lt v (by decide)).trans_le
        (Nat.pow_le_pow_right (n := 2) (by decide) (show 1 ≤ t - t' by omega)))
    rw [if_neg hgt.ne', hhigh]
    simp [ht, show ¬ t < t' by omega, show t - t' ≠ 0 by omega]

/-- A bit that is set is there, and the other bits are as they were. -/
theorem mpSetBit_spec (h : bit / BIGNUM_INT_BITS u < x.length) (v : ℕ) :
    ∃ r, mpSetBit x bit v = .ok r ∧ r.length = x.length ∧
      ∀ j, mpGetBit r j = if j = bit then v % 2 else mpGetBit x j := by
  have hmod : ∀ i, i % BIGNUM_INT_BITS u < BIGNUM_INT_BITS u := fun i => Nat.mod_lt i bits_pos
  rw [mpSetBit, check, if_pos h]
  refine ⟨_, rfl, List.length_modify _ _ _, fun j => ?_⟩
  rw [mpGetBit_eq, mpGetBit_eq, word_modify _ h]
  by_cases hword : j / BIGNUM_INT_BITS u = bit / BIGNUM_INT_BITS u
  · have hsame : j = bit ↔ j % BIGNUM_INT_BITS u = bit % BIGNUM_INT_BITS u := by
      have hj := Nat.div_add_mod j (BIGNUM_INT_BITS u)
      have hbit := Nat.div_add_mod bit (BIGNUM_INT_BITS u)
      rw [hword] at hj
      omega
    rw [if_pos hword, hword]
    simp only [hsame]
    exact setBit_word v (hmod j) (hmod bit)
  · have hne : j ≠ bit := fun heq => hword (by rw [heq])
    rw [if_neg hword, if_neg hne]

/-! ## Reducing -/

/-- Two numbers of `nw` words -/
structure HoldsPair (nw : ℕ) (a b : MpInt u) (p : ℕ × ℕ) : Prop where
  length_a : a.length = nw
  length_b : b.length = nw
  val_a : val a = p.1
  val_b : val b = p.2

variable {p : ℕ × ℕ} {s : ReduceState u} {n step : ℕ}

/-- The bits of a move, as they are computed -/
theorem choose_bits (p : ℕ × ℕ) : (p.1 % 2) &&& (p.2 % 2) = (choose p).bothOdd.toNat ∧
    (p.1 % 2) ^^^ (((if p.1 ≤ p.2 then 1 else 0) ^^^ (p.1 % 2)) &&& (choose p).bothOdd.toNat) =
      (choose p).swap.toNat := by
  unfold choose
  rcases Nat.mod_two_eq_zero_or_one p.1 with h1 | h1 <;> rcases Nat.mod_two_eq_zero_or_one p.2 with h2 | h2 <;>
    by_cases hle : p.1 ≤ p.2 <;> simp [h1, h2, hle]

theorem low_bits (a b : MpInt u) : (mpWord a 0 &&& mpWord b 0 &&& 1).toNat = (val a % 2) &&& (val b % 2) := by
  have hsplit : mpWord a 0 &&& mpWord b 0 &&& 1 = (mpWord a 0 &&& 1) &&& (mpWord b 0 &&& 1) := by
    rw [BitVec.and_assoc, BitVec.and_assoc, BitVec.and_comm 1 (mpWord b 0 &&& 1), BitVec.and_assoc,
      BitVec.and_self]
  rw [hsplit, BitVec.toNat_and, toNat_low_bit, toNat_low_bit]

theorem holdsPair_sort (h : HoldsPair nw a b p) (m : Move) :
    ∃ a' b', (if m.swap.toNat % 2 = 1 then (b, a) else (a, b)) = (a', b') ∧ HoldsPair nw a' b' (m.sort p) := by
  obtain ⟨bothOdd, swap⟩ := m
  cases swap with
  | true => exact ⟨b, a, rfl, h.length_b, h.length_a, h.val_b, h.val_a⟩
  | false => exact ⟨a, b, rfl, h⟩

/-- A round of the first loop takes a step, and records it. -/
theorem bezoutReduce_spec (hs : HoldsPair nw s.a s.b p)
    (hrecord : (step * 2 + 1) / BIGNUM_INT_BITS u < s.record.length) :
    ∃ s', bezoutReduce s step = .ok s' ∧ HoldsPair nw s'.a s'.b (reduce p) ∧
      s'.record.length = s.record.length ∧ ∀ j, mpGetBit s'.record j =
        if j = step * 2 + 1 then (choose p).swap.toNat else if j = step * 2 then (choose p).bothOdd.toNat
        else mpGetBit s.record j := by
  obtain ⟨hboth, hswap⟩ := choose_bits p
  obtain ⟨a', b', hsort, hpair⟩ := holdsPair_sort hs (choose p)
  have hcases := sort_choose_even p
  have hlt := val_lt (l := a')
  have hsub : val (mpCondSubInto nw a' b' (choose p).bothOdd.toNat) =
      if (choose p).bothOdd then val a' - val b' else val a' := by
    refine val_mpCondSubInto_bit (hpair.length_a ▸ hlt) _ fun h => ?_
    rw [if_pos h] at hcases
    rw [hpair.val_a, hpair.val_b]
    exact hcases.2
  have hbit : ∀ b : Bool, b.toNat % 2 = b.toNat := fun b => by cases b <;> rfl
  have hdiv : step * 2 / BIGNUM_INT_BITS u ≤ (step * 2 + 1) / BIGNUM_INT_BITS u := Nat.div_le_div_right (by omega)
  obtain ⟨r1, hr1, hlen1, hget1⟩ := mpSetBit_spec (lt_of_le_of_lt hdiv hrecord) (choose p).bothOdd.toNat
  obtain ⟨r2, hr2, hlen2, hget2⟩ := @mpSetBit_spec u (step * 2 + 1) r1 (by rw [hlen1]; exact hrecord)
    (choose p).swap.toNat
  rw [bezoutReduce, mpCmpHs_spec, toNat_low_bit, low_bits, hs.val_a, hs.val_b, hboth, hswap,
    mpCondSwap_spec (hs.length_a.trans hs.length_b.symm), ok_bind, hsort]
  dsimp only
  rw [hpair.length_a, hr1, ok_bind, hr2, ok_bind]
  refine ⟨_, rfl, ⟨length_mpRshiftFixedInto.trans length_addWords, hpair.length_b, ?_, hpair.val_b⟩, hlen2.trans hlen1, fun j => ?_⟩
  · have hfits : val (mpCondSubInto nw a' b' (choose p).bothOdd.toNat) / 2 ^ 1 < 2 ^ (BIGNUM_INT_BITS u * nw) := by
      refine lt_of_le_of_lt (Nat.div_le_self _ _) ?_
      have hlt' := val_lt (l := mpCondSubInto nw a' b' (choose p).bothOdd.toNat)
      rwa [length_mpCondSubInto] at hlt'
    show val (mpRshiftFixedInto _ _ 1) = _
    rw [val_mpRshiftFixedInto, length_mpCondSubInto, Nat.mod_eq_of_lt hfits, hsub, hpair.val_a, hpair.val_b,
      pow_one]
    rfl
  · rw [hget2, hget1, hbit, hbit]

/-- The moves of the first `n` steps are in the record. -/
def IsRecorded (record : MpInt u) (p : ℕ × ℕ) (n : ℕ) : Prop :=
  ∀ i < n, mpGetBit record (i * 2) = (choose (reduce^[i] p)).bothOdd.toNat ∧
    mpGetBit record (i * 2 + 1) = (choose (reduce^[i] p)).swap.toNat

theorem bezoutReduce_run (hs : HoldsPair nw s.a s.b p)
    (hrecord : n * 2 ≤ BIGNUM_INT_BITS u * s.record.length) :
    Succeeds ((List.range n).foldlM bezoutReduce s) fun s' => HoldsPair nw s'.a s'.b (reduce^[n] p) ∧
      s'.record.length = s.record.length ∧ IsRecorded s'.record p n := by
  induction n with
  | zero => exact succeeds_ok.mpr ⟨hs, rfl, fun i hi => absurd hi (Nat.not_lt_zero i)⟩
  | succ n ih =>
    rw [List.range_succ, List.foldlM_append]
    refine .bind (ih (by omega)) fun s' ⟨hs', hlen, hrecorded⟩ => ?_
    have hroom : (n * 2 + 1) / BIGNUM_INT_BITS u < s'.record.length := by
      rw [hlen, Nat.div_lt_iff_lt_mul bits_pos, Nat.mul_comm s.record.length]
      omega
    obtain ⟨s'', hok, hpair, hlen', hget⟩ := bezoutReduce_spec hs' hroom
    rw [List.foldlM_cons, hok, ok_bind, Function.iterate_succ_apply']
    refine succeeds_ok.mpr ⟨hpair, hlen'.trans hlen, fun i hi => ?_⟩
    rw [hget, hget, if_neg (by omega)]
    by_cases hin : i = n
    · rw [if_pos (by rw [hin]), if_pos (by rw [hin]), hin]
      exact ⟨rfl, rfl⟩
    · rw [if_neg (by omega), if_neg (by omega), if_neg (by omega)]
      exact hrecorded i (by omega)

/-! ## Undoing -/

/-- Two numbers of `nw` words and their coefficients, which have one word more -/
structure HoldsCoeffs (nw : ℕ) (s : UnwindState u) (p : ℕ × ℕ) (c : Coeffs) : Prop where
  pair : HoldsPair nw s.a s.b p
  length_ac : s.ac.length = nw + 1
  length_bc : s.bc.length = nw + 1
  val_ac : val s.ac = c.ac
  val_bc : val s.bc = c.bc
  minusOne : s.minusOne = c.minusOne.toNat

variable {c : Coeffs} {record : MpInt u} {t : UnwindState u}

theorem holdsCoeffs_swap {ac bc : MpInt u} {minusOne : ℕ} {q : ℕ × ℕ} {swap : Bool}
    (hs : HoldsCoeffs nw ⟨a, b, ac, bc, minusOne⟩ q c) :
    ∃ a' b' ac' bc', (if swap.toNat % 2 = 1 then (b, a) else (a, b)) = (a', b') ∧
      (if swap.toNat % 2 = 1 then (bc, ac) else (ac, bc)) = (ac', bc') ∧
      HoldsCoeffs nw ⟨a', b', ac', bc', minusOne ^^^ swap.toNat⟩ (if swap then q.swap else q)
        (if swap then ⟨c.bc, c.ac, !c.minusOne⟩ else c) := by
  obtain ⟨hpair, hlen, hlen', hval, hval', hminus⟩ := hs
  dsimp only at hpair hlen hlen' hval hval' hminus
  cases swap with
  | true =>
    refine ⟨b, a, bc, ac, rfl, rfl, ⟨hpair.length_b, hpair.length_a, hpair.val_b, hpair.val_a⟩, hlen', hlen, hval',
      hval, ?_⟩
    rw [hminus]
    cases c.minusOne <;> rfl
  | false => exact ⟨a, b, ac, bc, rfl, rfl, hpair, hlen, hlen', hval, hval', by rw [hminus]; exact Nat.xor_zero _⟩

/-- A round of the second loop undoes a step. -/
theorem bezoutUnwind_spec (hs : HoldsCoeffs nw t p c) (m : Move) (hbounded : Bounded p c)
    (hfits : 2 * p.1 + (if m.bothOdd then p.2 else 0) < 2 ^ (BIGNUM_INT_BITS u * nw))
    (hboth : mpGetBit record (step * 2) = m.bothOdd.toNat) (hswap : mpGetBit record (step * 2 + 1) = m.swap.toNat) :
    ∃ t', bezoutUnwind record t step = .ok t' ∧ HoldsCoeffs nw t' (m.undo p) (c.undo m p) := by
  obtain ⟨bothOdd, swap⟩ := m
  obtain ⟨hpair, hlenac, hlenbc, hvalac, hvalbc, hminus⟩ := hs
  obtain ⟨hac, hbc, -⟩ := hbounded
  dsimp only at hfits hboth hswap
  have hbit : ∀ b : Bool, b.toNat % 2 = 1 ↔ b = true := fun b => by cases b <;> decide
  have hb := val_lt (l := t.b)
  rw [hpair.length_b, hpair.val_b] at hb
  -- one word more is enough for twice the numbers
  have hroom : 2 * 2 ^ (BIGNUM_INT_BITS u * nw) ≤ 2 ^ (BIGNUM_INT_BITS u * (nw + 1)) := by
    rw [← pow_succ', Nat.mul_succ]
    exact Nat.pow_le_pow_right (by decide) (Nat.add_le_add_left bits_pos _)
  obtain ⟨x, y, hadjusted⟩ : ∃ x y, (if c.ac % 2 = 1 then (c.ac + p.2, c.bc + p.1) else (c.ac, c.bc)) = (x, y) :=
    ⟨_, _, rfl⟩
  have hxy : x ≤ c.ac + p.2 ∧ y ≤ c.bc + p.1 := by
    split_ifs at hadjusted <;> (cases hadjusted; omega)
  have hac1 : val (mpCondAddInto (nw + 1) t.ac t.b (c.ac % 2)) = x := by
    rw [val_mpCondAddInto, hvalac, hpair.val_b, Nat.mod_mod]
    split_ifs at hadjusted ⊢ <;> (cases hadjusted; exact Nat.mod_eq_of_lt (by omega))
  have hbc1 : val (mpCondAddInto (nw + 1) t.bc t.a (c.ac % 2)) = y := by
    rw [val_mpCondAddInto, hvalbc, hpair.val_a, Nat.mod_mod]
    split_ifs at hadjusted ⊢ <;> (cases hadjusted; exact Nat.mod_eq_of_lt (by omega))
  have hac2 : val (mpRshiftFixedInto (nw + 1) (mpCondAddInto (nw + 1) t.ac t.b (c.ac % 2)) 1) = x / 2 := by
    rw [val_mpRshiftFixedInto, hac1, pow_one, Nat.mod_eq_of_lt (by omega)]
  have hbc2 : val (mpCondAddInto (nw + 1) (mpCondAddInto (nw + 1) t.bc t.a (c.ac % 2))
      (mpRshiftFixedInto (nw + 1) (mpCondAddInto (nw + 1) t.ac t.b (c.ac % 2)) 1) bothOdd.toNat) =
        if bothOdd then y + x / 2 else y := by
    rw [val_mpCondAddInto, hbc1, hac2]
    simp only [hbit]
    split_ifs at hfits ⊢ <;> exact Nat.mod_eq_of_lt (by omega)
  have ha2 : val (mpCondAddInto nw (mpLshiftFixedInto nw t.a 1) t.b bothOdd.toNat) =
      2 * p.1 + (if bothOdd then p.2 else 0) := by
    rw [val_mpCondAddInto, val_mpLshiftFixedInto, hpair.val_a, hpair.val_b, pow_one, Nat.mul_comm p.1,
      Nat.mod_add_mod]
    simp only [hbit]
    exact Nat.mod_eq_of_lt hfits
  have hbefore : HoldsCoeffs nw ⟨mpCondAddInto nw (mpLshiftFixedInto nw t.a 1) t.b bothOdd.toNat, t.b,
      mpRshiftFixedInto (nw + 1) (mpCondAddInto (nw + 1) t.ac t.b (c.ac % 2)) 1,
      mpCondAddInto (nw + 1) (mpCondAddInto (nw + 1) t.bc t.a (c.ac % 2))
        (mpRshiftFixedInto (nw + 1) (mpCondAddInto (nw + 1) t.ac t.b (c.ac % 2)) 1) bothOdd.toNat,
      t.minusOne⟩ (2 * p.1 + (if bothOdd then p.2 else 0), p.2)
      ⟨x / 2, if bothOdd then y + x / 2 else y, c.minusOne⟩ :=
    ⟨⟨length_mpCondAddInto, hpair.length_b, ha2, hpair.val_b⟩, length_mpRshiftFixedInto, length_mpCondAddInto, hac2,
      hbc2, hminus⟩
  obtain ⟨a', b', ac', bc', hab, hcoeffs, hafter⟩ := @holdsCoeffs_swap u nw _ _ _ _ _ _ _ swap hbefore
  rw [bezoutUnwind, hboth, hswap, toNat_low_bit, hlenac, hlenbc, hvalac, hpair.length_a]
  dsimp only
  rw [length_mpCondAddInto, length_mpCondAddInto, length_mpLshiftFixedInto,
    mpCondSwap_spec (length_mpCondAddInto.trans hpair.length_b.symm), ok_bind, hab]
  dsimp only
  rw [mpCondSwap_spec (length_mpRshiftFixedInto.trans length_mpCondAddInto.symm), ok_bind, hcoeffs]
  refine ⟨_, rfl, ?_⟩
  have hundo : c.undo ⟨bothOdd, swap⟩ p = if swap then ⟨if bothOdd then y + x / 2 else y, x / 2, !c.minusOne⟩
      else ⟨x / 2, if bothOdd then y + x / 2 else y, c.minusOne⟩ := by
    unfold Coeffs.undo
    simp only [hadjusted]
  rw [hundo]
  exact hafter

/-- The second loop undoes all steps. -/
theorem bezoutUnwind_run (hcop : p.1.Coprime p.2) (hp : 0 < p.2)
    (hfits : p.1 < 2 ^ (BIGNUM_INT_BITS u * nw) ∧ p.2 < 2 ^ (BIGNUM_INT_BITS u * nw))
    (hrecord : IsRecorded record p n) (hs : HoldsCoeffs nw t (reduce^[n] p) c) (hc : IsUnwound p n c) :
    Succeeds (bezoutUnwindLoop record n t) fun t' => ∃ c', HoldsCoeffs nw t' p c' ∧ IsUnwound p 0 c' := by
  induction n generalizing t c with
  | zero => exact succeeds_ok.mpr ⟨c, hs, hc⟩
  | succ n ih =>
    obtain ⟨hboth, hswap⟩ := hrecord n (Nat.lt_succ_self n)
    have hback := undo_reduce (reduce^[n] p)
    rw [← Function.iterate_succ_apply' reduce n p] at hback
    -- the numbers before the step fit, also before they were sorted
    have hsorted : 2 * (reduce^[n + 1] p).1 + (if (choose (reduce^[n] p)).bothOdd then (reduce^[n + 1] p).2 else 0) <
        2 ^ (BIGNUM_INT_BITS u * nw) := by
      have hle := iterate_le (n := n) (p := p) (k := 2 ^ (BIGNUM_INT_BITS u * nw) - 1) (by omega)
      have hpos := Nat.two_pow_pos (BIGNUM_INT_BITS u * nw)
      have hle' := undo_le (m := choose (reduce^[n] p)) (p := reduce^[n + 1] p) (by rw [hback]; exact hle)
      omega
    obtain ⟨t', hok, ht'⟩ := bezoutUnwind_spec hs (choose (reduce^[n] p)) hc.2 hsorted hboth hswap
    rw [hback] at ht'
    rw [bezoutUnwindLoop, hok, ok_bind]
    exact ih (fun i hi => hrecord i (by omega)) ht' (hc.undo hcop hp)

/-! ## Coefficients and inverses -/

variable {aIn bIn : MpInt u} {aNw bNw : ℕ}

/-- The coefficients that are returned, with the first made positive -/
theorem val_positive (hs : HoldsCoeffs nw t p c) (hc : IsUnwound p 0 c) (hp : 1 ≤ p.1) :
    val (mpSelectInto t.ac.length t.ac (mpSubInto nw t.b t.ac) t.minusOne) = (c.positive p).1 ∧
      val (mpSelectInto t.bc.length t.bc (mpSubInto nw t.a t.bc) t.minusOne) = (c.positive p).2 := by
  obtain ⟨⟨hlena, hlenb, hvala, hvalb⟩, hlenac, hlenbc, hvalac, hvalbc, hminus⟩ := hs
  obtain ⟨-, hac, hbc, -⟩ := hc
  rw [Function.iterate_zero_apply] at hac hbc
  rw [Nat.max_eq_left hp] at hbc
  have hbit : c.minusOne.toNat % 2 = 1 ↔ c.minusOne = true := by cases c.minusOne <;> decide
  have ha := val_lt (l := t.a)
  have hb := val_lt (l := t.b)
  rw [hlena] at ha
  rw [hlenb] at hb
  have hroom : 2 ^ (BIGNUM_INT_BITS u * nw) ≤ 2 ^ (BIGNUM_INT_BITS u * (nw + 1)) :=
    Nat.pow_le_pow_right (by decide) (Nat.mul_le_mul_left _ (Nat.le_succ nw))
  have hsubb : val (mpSubInto nw t.b t.ac) = p.2 - c.ac := by
    rw [val_mpSubInto_of_le (by omega) hb, hvalb, hvalac]
  have hsuba : val (mpSubInto nw t.a t.bc) = p.1 - c.bc := by
    rw [val_mpSubInto_of_le (by omega) ha, hvala, hvalbc]
  rw [val_mpSelectInto, val_mpSelectInto, hlenac, hlenbc, hsubb, hsuba, hvalac, hvalbc, hminus]
  unfold Coeffs.positive
  simp only [hbit]
  constructor
  · split_ifs <;> exact Nat.mod_eq_of_lt (by omega)
  · split_ifs <;> exact Nat.mod_eq_of_lt (by omega)

/-- The coefficients with which the second loop begins -/
theorem holdsCoeffs_end (hpair : HoldsPair nw a b (0, 1)) :
    HoldsCoeffs nw ⟨a, b, mpCopyInto (nw + 1) a, mpCopyInto (nw + 1) b, (mpWord b 0).toNat % 2 ^ 32⟩ (0, 1)
      ⟨0, 1, true⟩ := by
  obtain ⟨hlena, hlenb, hvala, hvalb⟩ := hpair
  have hword : (mpWord b 0).toNat = 1 := by
    rw [mpWord, word_eq, hvalb, Nat.mul_zero, pow_zero, Nat.div_one]
    exact Nat.one_mod_two_pow bits_pos
  refine ⟨⟨hlena, hlenb, hvala, hvalb⟩, length_mpCopyInto, length_mpCopyInto, ?_, ?_, ?_⟩
  · show val (mpCopyInto _ _) = 0
    rw [val_mpCopyInto, hvala, Nat.zero_mod]
  · show val (mpCopyInto _ _) = 1
    rw [val_mpCopyInto, hvalb]
    exact Nat.one_mod_two_pow (Nat.mul_pos bits_pos (Nat.succ_pos nw))
  · show (mpWord b 0).toNat % 2 ^ 32 = 1
    rw [hword]
    rfl

/-- The coefficients of two coprime numbers, as far as they fit in the outputs -/
theorem mpBezoutInto_spec (hu : 1 ≤ u ∧ u ≤ 6) (hcop : (val aIn).Coprime (val bIn)) (ha : 1 ≤ val aIn)
    (hb : 2 ≤ val bIn) : ∃ A B : ℕ, A * val aIn = B * val bIn + 1 ∧ A < val bIn ∧ B < val aIn ∧
      ∀ aNw bNw, ∃ ra rb, mpBezoutInto aNw bNw aIn bIn = .ok (ra, rb) ∧
        val ra = A % 2 ^ (BIGNUM_INT_BITS u * aNw) ∧ val rb = B % 2 ^ (BIGNUM_INT_BITS u * bNw) := by
  obtain ⟨nw, hnw⟩ : ∃ nw, nw = max 1 (max aIn.length bIn.length) := ⟨_, rfl⟩
  have hW := bits_pos (u := u)
  have hafits : val aIn < 2 ^ (BIGNUM_INT_BITS u * nw) := val_lt_of_length_le (by omega)
  have hbfits : val bIn < 2 ^ (BIGNUM_INT_BITS u * nw) := val_lt_of_length_le (by omega)
  obtain ⟨steps, hsteps⟩ : ∃ steps, steps = 2 * nw * BIGNUM_INT_BITS u := ⟨_, rfl⟩
  have hend : reduce^[steps] (val aIn, val bIn) = (0, 1) := by
    refine iterate_end hcop (by omega) ?_
    have hpow : 2 ^ steps = 2 ^ (BIGNUM_INT_BITS u * nw) * 2 ^ (BIGNUM_INT_BITS u * nw) := by
      rw [hsteps, ← pow_add]
      congr 1
      ring
    rw [hpow]
    exact Nat.mul_lt_mul'' hafits hbfits
  have hnwpos : nw ≠ 0 := by omega
  have hstepspos : steps ≠ 0 := hsteps ▸ (Nat.mul_pos (by omega) hW).ne'
  -- the record has room for two bits a step
  have hrecord : steps * 2 ≤ BIGNUM_INT_BITS u * ((steps * 2 + BIGNUM_INT_BITS u - 1) / BIGNUM_INT_BITS u) := by
    have hceil := Nat.lt_mul_div_succ (steps * 2 + BIGNUM_INT_BITS u - 1) hW
    rw [Nat.mul_add, Nat.mul_one] at hceil
    omega
  have hrecordpos : (steps * 2 + BIGNUM_INT_BITS u - 1) / BIGNUM_INT_BITS u ≠ 0 :=
    (Nat.div_pos (by omega) hW).ne'
  have hstart : HoldsPair nw (mpCopyInto nw aIn) (mpCopyInto nw bIn) (val aIn, val bIn) :=
    ⟨length_mpCopyInto, length_mpCopyInto, val_mpCopyInto.trans (Nat.mod_eq_of_lt hafits),
      val_mpCopyInto.trans (Nat.mod_eq_of_lt hbfits)⟩
  obtain ⟨s, hs, hpair, -, hrecorded⟩ := bezoutReduce_run (n := steps)
    (s := ⟨mpCopyInto nw aIn, mpCopyInto nw bIn,
      List.replicate ((steps * 2 + BIGNUM_INT_BITS u - 1) / BIGNUM_INT_BITS u) 0⟩)
    hstart (by rw [List.length_replicate]; exact hrecord)
  rw [hend] at hpair
  obtain ⟨t, ht, c, hcoeffs, hc⟩ := bezoutUnwind_run hcop (by omega) ⟨hafits, hbfits⟩ hrecorded
    (hend ▸ holdsCoeffs_end hpair) (isUnwound_end hend)
  obtain ⟨hbezout, hA, hB⟩ := positive_spec ha hb hc
  obtain ⟨hac, hbc⟩ := val_positive hcoeffs hc ha
  have hassert : (mpCmpEq t.a aIn &&& mpCmpEq t.b bIn) ≠ 0 := by
    rw [mpCmpEq_spec hu, mpCmpEq_spec hu, if_pos hcoeffs.pair.val_a, if_pos hcoeffs.pair.val_b]
    decide
  refine ⟨_, _, hbezout, hA, hB, fun aNw bNw => ⟨mpCopyInto aNw _, mpCopyInto bNw _, ?_,
    val_mpCopyInto.trans (by rw [hac]), val_mpCopyInto.trans (by rw [hbc])⟩⟩
  rw [mpBezoutInto, ← hnw]
  dsimp only
  rw [← hsteps]
  simp only [mpMakeSized_ok hnwpos, mpMakeSized_ok (Nat.succ_ne_zero nw), mpMakeSized_ok hrecordpos, ok_bind,
    List.length_replicate, hs, ht, check, if_pos hassert]
  rfl

/-- Two coprime numbers have coefficients below each other, which are written to the outputs, and a number that
is coprime to the modulus, however large it is, has an inverse below the modulus. -/
theorem mpBezoutInto_exact (hu : 1 ≤ u ∧ u ≤ 6) :
    (∀ aIn bIn : MpInt u, (val aIn).Coprime (val bIn) → 1 ≤ val aIn → 2 ≤ val bIn →
      ∃ A B : ℕ, (A * val aIn : ℤ) - B * val bIn = 1 ∧ A < val bIn ∧ B < val aIn ∧
        ∀ aNw bNw, ∃ ra rb, mpBezoutInto aNw bNw aIn bIn = .ok (ra, rb) ∧
          val ra = A % 2 ^ (BIGNUM_INT_BITS u * aNw) ∧ val rb = B % 2 ^ (BIGNUM_INT_BITS u * bNw) ∧
          (bIn.length ≤ aNw → val ra = A) ∧ (aIn.length ≤ bNw → val rb = B)) ∧
    ∀ x m : MpInt u, 2 ≤ val m → (val x).Coprime (val m) → ∃ r, mpInvert x m = .ok r ∧ val r < val m ∧
      val r * val x % val m = 1 := by
  constructor
  · intro aIn bIn hcop ha hb
    obtain ⟨A, B, hbezout, hA, hB, hall⟩ := mpBezoutInto_spec hu hcop ha hb
    have hint : (A * val aIn : ℤ) = B * val bIn + 1 := by exact_mod_cast hbezout
    refine ⟨A, B, by omega, hA, hB, fun aNw bNw => ?_⟩
    obtain ⟨ra, rb, hok, hvala, hvalb⟩ := hall aNw bNw
    refine ⟨ra, rb, hok, hvala, hvalb, fun hle => ?_, fun hle => ?_⟩
    · rw [hvala, Nat.mod_eq_of_lt (hA.trans (val_lt_of_length_le hle))]
    · rw [hvalb, Nat.mod_eq_of_lt (hB.trans (val_lt_of_length_le hle))]
  · intro x m hm hcop
    have hx : 1 ≤ val x := by
      by_contra hzero
      rw [show val x = 0 by omega, Nat.coprime_zero_left] at hcop
      omega
    obtain ⟨A, B, hbezout, hA, hB, hall⟩ := mpBezoutInto_spec hu hcop hx hm
    obtain ⟨ra, rb, hok, hvala, -⟩ := hall m.length 0
    rw [Nat.mod_eq_of_lt (hA.trans val_lt)] at hvala
    refine ⟨ra, ?_, hvala ▸ hA, ?_⟩
    · rw [mpInvert, mpMakeSized_ok (List.length_pos_of_ne_nil (ne_nil_of_val (by omega))).ne', ok_bind,
        List.length_replicate, hok]
      rfl
    · rw [hvala, hbezout, Nat.mul_add_mod_self_right]
      exact Nat.mod_eq_of_lt hm

/-- The coefficients of 7 and 5, and the inverse of 7 modulo 5 -/
theorem mpBezoutInto_exact_five :
    (∃ A B : ℕ, (A * val [7#32] : ℤ) - B * val [5#32] = 1 ∧ A < val [5#32] ∧ B < val [7#32] ∧
      ∃ ra rb : MpInt 5, mpBezoutInto 1 1 [7] [5] = .ok (ra, rb) ∧ val ra = A ∧ val rb = B) ∧
    ∃ r : MpInt 5, mpInvert [7] [5] = .ok r ∧ val r < val [5#32] ∧ val r * val [7#32] % val [5#32] = 1 := by
  obtain ⟨hbezout, hinvert⟩ := mpBezoutInto_exact (u := 5) ⟨by decide, by decide⟩
  obtain ⟨A, B, hone, hA, hB, hall⟩ := hbezout [7#32] [5#32] (by decide) (by decide) (by decide)
  obtain ⟨ra, rb, hok, -, -, hra, hrb⟩ := hall 1 1
  exact ⟨⟨A, B, hone, hA, hB, ra, rb, hok, hra (by decide), hrb (by decide)⟩,
    hinvert [7#32] [5#32] (by decide) (by decide)⟩

/-! ## Numbers with a common factor

The steps are undone for them too, so that the check at the end never fails. The coefficients say nothing. -/

/-- Two numbers of `nw` words, with any coefficients of one word more -/
structure HoldsNumbers (nw : ℕ) (t : UnwindState u) (p : ℕ × ℕ) : Prop where
  pair : HoldsPair nw t.a t.b p
  length_ac : t.ac.length = nw + 1
  length_bc : t.bc.length = nw + 1

/-- A round of the second loop undoes a step for the numbers. -/
theorem bezoutUnwind_numbers (ht : HoldsNumbers nw t p) (m : Move)
    (hfits : 2 * p.1 + (if m.bothOdd then p.2 else 0) < 2 ^ (BIGNUM_INT_BITS u * nw))
    (hboth : mpGetBit record (step * 2) = m.bothOdd.toNat) (hswap : mpGetBit record (step * 2 + 1) = m.swap.toNat) :
    Succeeds (bezoutUnwind record t step) fun t' => HoldsNumbers nw t' (m.undo p) := by
  obtain ⟨bothOdd, swap⟩ := m
  obtain ⟨hpair, hlenac, hlenbc⟩ := ht
  dsimp only at hfits hboth hswap
  have hbit : ∀ b : Bool, b.toNat % 2 = 1 ↔ b = true := fun b => by cases b <;> decide
  have ha : val (mpCondAddInto nw (mpLshiftFixedInto nw t.a 1) t.b bothOdd.toNat) =
      2 * p.1 + (if bothOdd then p.2 else 0) := by
    rw [val_mpCondAddInto, val_mpLshiftFixedInto, hpair.val_a, hpair.val_b, pow_one, Nat.mul_comm p.1,
      Nat.mod_add_mod]
    simp only [hbit]
    exact Nat.mod_eq_of_lt hfits
  have hbefore : HoldsPair nw (mpCondAddInto nw (mpLshiftFixedInto nw t.a 1) t.b bothOdd.toNat) t.b
      (2 * p.1 + (if bothOdd then p.2 else 0), p.2) := ⟨length_mpCondAddInto, hpair.length_b, ha, hpair.val_b⟩
  obtain ⟨a', b', hab, hafter⟩ := holdsPair_sort hbefore ⟨bothOdd, swap⟩
  rw [bezoutUnwind, hboth, hswap, hlenac, hlenbc, hpair.length_a]
  dsimp only at hab ⊢
  rw [length_mpCondAddInto, length_mpCondAddInto, length_mpLshiftFixedInto,
    mpCondSwap_spec (length_mpCondAddInto.trans hpair.length_b.symm), ok_bind, hab]
  dsimp only
  rw [mpCondSwap_spec (length_mpRshiftFixedInto.trans length_mpCondAddInto.symm), ok_bind, pure_eq, succeeds_ok]
  refine ⟨hafter, ?_, ?_⟩
  · split_ifs
    · exact length_mpCondAddInto
    · exact length_mpRshiftFixedInto
  · split_ifs
    · exact length_mpRshiftFixedInto
    · exact length_mpCondAddInto

/-- The second loop leaves the numbers of the beginning. -/
theorem bezoutUnwind_numbers_run (hfits : p.1 < 2 ^ (BIGNUM_INT_BITS u * nw) ∧ p.2 < 2 ^ (BIGNUM_INT_BITS u * nw))
    (hrecord : IsRecorded record p n) (ht : HoldsNumbers nw t (reduce^[n] p)) :
    Succeeds (bezoutUnwindLoop record n t) fun t' => HoldsNumbers nw t' p := by
  induction n generalizing t with
  | zero => exact succeeds_ok.mpr ht
  | succ n ih =>
    obtain ⟨hboth, hswap⟩ := hrecord n (Nat.lt_succ_self n)
    have hback := undo_reduce (reduce^[n] p)
    rw [← Function.iterate_succ_apply' reduce n p] at hback
    have hsorted : 2 * (reduce^[n + 1] p).1 + (if (choose (reduce^[n] p)).bothOdd then (reduce^[n + 1] p).2 else 0) <
        2 ^ (BIGNUM_INT_BITS u * nw) := by
      have hle := iterate_le (n := n) (p := p) (k := 2 ^ (BIGNUM_INT_BITS u * nw) - 1) (by omega)
      have hpos := Nat.two_pow_pos (BIGNUM_INT_BITS u * nw)
      have hle' := undo_le (m := choose (reduce^[n] p)) (p := reduce^[n + 1] p) (by rw [hback]; exact hle)
      omega
    rw [bezoutUnwindLoop]
    refine .bind (bezoutUnwind_numbers ht (choose (reduce^[n] p)) hsorted hboth hswap) fun t' ht' => ?_
    rw [hback] at ht'
    exact ih (fun i hi => hrecord i (by omega)) ht'

/-- No two numbers fail the checks. -/
theorem mpBezoutInto_total (hu : 1 ≤ u ∧ u ≤ 6) (aNw bNw : ℕ) (aIn bIn : MpInt u) :
    Succeeds (mpBezoutInto aNw bNw aIn bIn) fun r => r.1.length = aNw ∧ r.2.length = bNw := by
  obtain ⟨nw, hnw⟩ : ∃ nw, nw = max 1 (max aIn.length bIn.length) := ⟨_, rfl⟩
  have hW := bits_pos (u := u)
  have hafits : val aIn < 2 ^ (BIGNUM_INT_BITS u * nw) := val_lt_of_length_le (by omega)
  have hbfits : val bIn < 2 ^ (BIGNUM_INT_BITS u * nw) := val_lt_of_length_le (by omega)
  obtain ⟨steps, hsteps⟩ : ∃ steps, steps = 2 * nw * BIGNUM_INT_BITS u := ⟨_, rfl⟩
  have hnwpos : nw ≠ 0 := by omega
  have hstepspos : steps ≠ 0 := hsteps ▸ (Nat.mul_pos (by omega) hW).ne'
  have hrecord : steps * 2 ≤ BIGNUM_INT_BITS u * ((steps * 2 + BIGNUM_INT_BITS u - 1) / BIGNUM_INT_BITS u) := by
    have hceil := Nat.lt_mul_div_succ (steps * 2 + BIGNUM_INT_BITS u - 1) hW
    rw [Nat.mul_add, Nat.mul_one] at hceil
    omega
  have hrecordpos : (steps * 2 + BIGNUM_INT_BITS u - 1) / BIGNUM_INT_BITS u ≠ 0 :=
    (Nat.div_pos (by omega) hW).ne'
  have hstart : HoldsPair nw (mpCopyInto nw aIn) (mpCopyInto nw bIn) (val aIn, val bIn) :=
    ⟨length_mpCopyInto, length_mpCopyInto, val_mpCopyInto.trans (Nat.mod_eq_of_lt hafits),
      val_mpCopyInto.trans (Nat.mod_eq_of_lt hbfits)⟩
  obtain ⟨s, hs, hpair, -, hrecorded⟩ := bezoutReduce_run (n := steps)
    (s := ⟨mpCopyInto nw aIn, mpCopyInto nw bIn,
      List.replicate ((steps * 2 + BIGNUM_INT_BITS u - 1) / BIGNUM_INT_BITS u) 0⟩)
    hstart (by rw [List.length_replicate]; exact hrecord)
  obtain ⟨t, ht, hnumbers⟩ := bezoutUnwind_numbers_run (t := ⟨s.a, s.b, mpCopyInto (nw + 1) s.a,
    mpCopyInto (nw + 1) s.b, (mpWord s.b 0).toNat % 2 ^ 32⟩) ⟨hafits, hbfits⟩ hrecorded
    ⟨hpair, length_mpCopyInto, length_mpCopyInto⟩
  have hassert : (mpCmpEq t.a aIn &&& mpCmpEq t.b bIn) ≠ 0 := by
    rw [mpCmpEq_spec hu, mpCmpEq_spec hu, if_pos hnumbers.pair.val_a, if_pos hnumbers.pair.val_b]
    decide
  rw [mpBezoutInto, ← hnw]
  dsimp only
  rw [← hsteps]
  simp only [mpMakeSized_ok hnwpos, mpMakeSized_ok (Nat.succ_ne_zero nw), mpMakeSized_ok hrecordpos, ok_bind,
    List.length_replicate, hs, ht, check, if_pos hassert]
  exact succeeds_ok.mpr ⟨length_mpCopyInto, length_mpCopyInto⟩

/-- Every modulus but one of no words has a number that is returned as an inverse, and it is one if there is one. -/
theorem mpInvert_spec (hu : 1 ≤ u ∧ u ≤ 6) (x : MpInt u) {m : MpInt u} (hm : m ≠ []) :
    Succeeds (mpInvert x m) fun r => r.length = m.length ∧
      ((val x).Coprime (val m) → 2 ≤ val m → val r < val m ∧ val r * val x % val m = 1) := by
  rw [mpInvert, mpMakeSized_ok (List.length_pos_of_ne_nil hm).ne', ok_bind, List.length_replicate]
  obtain ⟨⟨r, r'⟩, hok, hlen, -⟩ := mpBezoutInto_total hu m.length 0 x m
  rw [hok]
  refine succeeds_ok.mpr ⟨hlen, fun hcop htwo => ?_⟩
  have hx : 1 ≤ val x := by
    by_contra hzero
    rw [show val x = 0 by omega, Nat.coprime_zero_left] at hcop
    omega
  obtain ⟨A, B, hbezout, hA, -, hall⟩ := mpBezoutInto_spec hu hcop hx htwo
  obtain ⟨ra, rb, hok', hval, -⟩ := hall m.length 0
  rw [hok] at hok'
  cases hok'
  rw [Nat.mod_eq_of_lt (hA.trans val_lt)] at hval
  refine ⟨hval ▸ hA, ?_⟩
  rw [hval, hbezout, Nat.mul_add_mod_self_right]
  exact Nat.mod_eq_of_lt htwo

end PuttyNd.Mpint
