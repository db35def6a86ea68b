import PuttyNd.Mpint.Proofs.DecimalLimitProofs
import PuttyNd.Mpint.Proofs.DigitProofs
import PuttyNd.Mpint.Proofs.MultiplyProofs

/-!
# Proofs: numbers to decimal

The digits come out from the last one on. The number is divided by 10 exactly, once its last digit is
subtracted; so all digits are right, if the sum of the bytes fits in each round.
-/

namespace PuttyNd.Mpint

open Words Outcome

variable {u n k pos : ℕ} {x y : MpInt u} {digit : UInt32} {s out : List UInt8}

/-! ## Numerals -/

/-- The decimal numeral of a number -/
def numeral (n : ℕ) : List UInt8 := (Nat.toDigits 10 n).map fun c => c.toNat.toUInt8

/-- The character of a digit -/
def digitByte (d : ℕ) : UInt8 := (48 + d).toUInt8

theorem numeral_eq (n : ℕ) :
    numeral n = (if n < 10 then [] else numeral (n / 10)) ++ [digitByte (n % 10)] := by
  have hchar : ∀ d < 10, d.digitChar.toNat.toUInt8 = digitByte d := fun d hd => by
    rw [Nat.toNat_digitChar_of_lt_ten hd]
    rfl
  unfold numeral
  rw [Nat.toDigits_eq_if (by omega)]
  split_ifs with hn
  · rw [List.map_singleton, hchar n hn, Nat.mod_eq_of_lt hn]
    rfl
  · rw [List.map_append, List.map_singleton, hchar _ (Nat.mod_lt n (by omega))]

theorem toNat_digitByte {d : ℕ} (hd : d < 10) : (digitByte d).toNat = 48 + d := by
  show (48 + d) % 256 = _
  omega

theorem isDigit_digitByte {d : ℕ} (hd : d < 10) : IsDigit (digitByte d) := by
  rw [IsDigit, toNat_digitByte hd]
  omega

theorem isDigit_numeral (n : ℕ) : ∀ c ∈ numeral n, IsDigit c := by
  induction n using Nat.strong_induction_on with
  | h n ih =>
    intro c hc
    rw [numeral_eq, List.mem_append, List.mem_singleton] at hc
    rcases hc with hc | rfl
    · by_cases hn : n < 10
      · rw [if_pos hn] at hc
        exact absurd hc List.not_mem_nil
      · rw [if_neg hn] at hc
        exact ih (n / 10) (by omega) c hc
    · exact isDigit_digitByte (Nat.mod_lt n (by omega))

theorem numeral_ne_nil (n : ℕ) : numeral n ≠ [] := by
  rw [numeral_eq]
  exact List.append_ne_nil_of_right_ne_nil _ (List.cons_ne_nil _ _)

theorem denotes_append {c : UInt8} : denotes (s ++ [c]) = 10 * denotes s + (c.toNat - 48) := by
  unfold denotes denotesFrom
  rw [List.foldl_append]
  rfl

/-- A numeral denotes its number. -/
theorem denotes_numeral (n : ℕ) : denotes (numeral n) = n := by
  induction n using Nat.strong_induction_on with
  | h n ih =>
    rw [numeral_eq, denotes_append, toNat_digitByte (Nat.mod_lt n (by omega))]
    by_cases hn : n < 10
    · rw [if_pos hn]
      show 10 * 0 + _ = _
      omega
    · rw [if_neg hn, ih (n / 10) (by omega)]
      omega

/-- A numeral has no leading zero, but for that of zero. -/
theorem numeral_head (hn : n ≠ 0) : ∃ c rest, numeral n = c :: rest ∧ c ≠ 48 := by
  induction n using Nat.strong_induction_on with
  | h n ih =>
    by_cases hlt : n < 10
    · refine ⟨digitByte n, [], ?_, fun heq => ?_⟩
      · rw [numeral_eq, if_pos hlt, Nat.mod_eq_of_lt hlt]
        rfl
      · have hnat := toNat_digitByte hlt
        rw [heq] at hnat
        have hzero : (48 : UInt8).toNat = 48 := rfl
        omega
    · obtain ⟨c, rest, heq, hc⟩ := ih (n / 10) (by omega) (by omega)
      refine ⟨c, rest ++ [digitByte (n % 10)], ?_, hc⟩
      rw [numeral_eq, if_neg hlt, heq]
      rfl

/-! ## Digits with leading zeroes -/

/-- The last `k` digits of a number -/
def digitString : ℕ → ℕ → List UInt8
  | 0, _ => []
  | k + 1, n => digitString k (n / 10) ++ [digitByte (n % 10)]

theorem length_digitString : (digitString k n).length = k := by
  induction k generalizing n with
  | zero => rfl
  | succ k ih => rw [digitString, List.length_append, ih, List.length_singleton]

theorem digitString_zero : digitString k 0 = List.replicate k 48 := by
  induction k with
  | zero => rfl
  | succ k ih =>
    rw [digitString, Nat.zero_div, ih, List.replicate_succ']
    rfl

/-- Enough digits are the numeral with leading zeroes. -/
theorem digitString_numeral (hk : 0 < k) (hn : n < 10 ^ k) :
    ∃ z, digitString k n = List.replicate z 48 ++ numeral n := by
  induction k generalizing n with
  | zero => exact absurd hk (Nat.lt_irrefl 0)
  | succ k ih =>
    rw [digitString]
    by_cases hlt : n < 10
    · refine ⟨k, ?_⟩
      rw [Nat.div_eq_of_lt hlt, digitString_zero, numeral_eq, if_pos hlt]
      rfl
    · have hpow : n < 10 ^ k * 10 := by rwa [pow_succ] at hn
      have hpos : 0 < k := by
        rcases Nat.eq_zero_or_pos k with rfl | hpos
        · exact absurd (by simpa using hpow) hlt
        · exact hpos
      obtain ⟨z, hz⟩ := ih hpos (n := n / 10) (Nat.div_lt_of_lt_mul (by omega))
      refine ⟨z, ?_⟩
      rw [hz, numeral_eq n, if_neg hlt, List.append_assoc]

/-- The digits, trimmed -/
theorem trimmed_numeral (hk : 0 < k) (hn : n < 10 ^ k) :
    (trimLeadingZeroes (digitString k n ++ [0]) (k - 1)).takeWhile (· ≠ 0) = numeral n := by
  have hlen : (digitString k n ++ [0]).length = k + 1 := by
    rw [List.length_append, length_digitString, List.length_singleton]
  have hstr : 0 ∉ numeral n := fun hmem => absurd (isDigit_numeral n 0 hmem).1 (by decide)
  by_cases hzero : n = 0
  · subst hzero
    rw [digitString_zero] at hlen ⊢
    refine (@trimLeadingZeroes_zeroes _ k _ 0 [] (by decide) rfl (by omega)).takeWhile
      hstr ?_
    have hsplit : List.replicate k (48 : UInt8) = List.replicate (k - 1) 48 ++ [48] := by
      rw [← List.replicate_succ', Nat.sub_add_cancel hk]
    rw [Nat.min_eq_right (Nat.sub_le k 1), hsplit, List.append_assoc, List.drop_left' List.length_replicate]
    rfl
  · obtain ⟨z, hz⟩ := digitString_numeral hk hn
    obtain ⟨c, rest, heq, hc⟩ := numeral_head hzero
    have hle : z ≤ k - 1 := by
      have hlen' := congrArg List.length hz
      rw [length_digitString, heq, List.length_append, List.length_replicate, List.length_cons] at hlen'
      omega
    have hbuf : digitString k n ++ [0] = List.replicate z 48 ++ c :: (rest ++ [0]) := by
      rw [hz, heq, List.append_assoc]
      rfl
    refine (trimLeadingZeroes_zeroes hc hbuf (by omega)).takeWhile hstr ?_
    rw [Nat.min_eq_left hle, hz, List.append_assoc, List.drop_left' List.length_replicate]

/-! ## Dividing by 10 -/

/-- Five times the words of which `inv5` is made -/
theorem val_replicate_inv (hu : u = 5 ∨ u = 6) (n : ℕ) :
    5 * val (List.replicate n (BitVec.ofNat (BIGNUM_INT_BITS u) ((2 ^ BIGNUM_INT_BITS u - 1) / 5 * 4))) + 4 =
      4 * 2 ^ (BIGNUM_INT_BITS u * n) := by
  have hword : 5 * (BitVec.ofNat (BIGNUM_INT_BITS u) ((2 ^ BIGNUM_INT_BITS u - 1) / 5 * 4)).toNat + 4 =
      4 * 2 ^ BIGNUM_INT_BITS u := by
    rcases hu with rfl | rfl <;> rfl
  induction n with
  | zero => rfl
  | succ n ih =>
    rw [List.replicate_succ, val_cons, Nat.mul_add_one (BIGNUM_INT_BITS u), pow_add]
    generalize BitVec.ofNat (BIGNUM_INT_BITS u) ((2 ^ BIGNUM_INT_BITS u - 1) / 5 * 4) = c at *
    generalize 2 ^ (BIGNUM_INT_BITS u * n) = M at *
    generalize val (List.replicate n c) = v at *
    nlinarith

theorem val_inv5 (hu : u = 5 ∨ u = 6) (hn : n ≠ 0) :
    5 * val (inv5 n : MpInt u) = 4 * 2 ^ (BIGNUM_INT_BITS u * n) + 1 := by
  obtain ⟨n, rfl⟩ : ∃ m, n = m + 1 := ⟨n - 1, by omega⟩
  have hval := val_replicate_inv hu (n + 1)
  have hone : (BitVec.ofNat (BIGNUM_INT_BITS u) ((2 ^ BIGNUM_INT_BITS u - 1) / 5 * 4) + 1).toNat =
      (BitVec.ofNat (BIGNUM_INT_BITS u) ((2 ^ BIGNUM_INT_BITS u - 1) / 5 * 4)).toNat + 1 := by
    rcases hu with rfl | rfl <;> rfl
  rw [List.replicate_succ, val_cons] at hval
  rw [inv5, List.replicate_succ, List.modify_zero_cons, val_cons, hone]
  omega

/-- The number without its last digit -/
theorem divideOut_spec (hu : u = 5 ∨ u = 6) (hx : x ≠ []) (hdigit : digit.toNat = val x % 10) :
    ∃ r, divideOut x digit = .ok r ∧ r.length = x.length ∧ val r = val x / 10 := by
  have hlen : x.length ≠ 0 := fun h => hx (List.eq_nil_of_length_eq_zero h)
  have hW : 2 ^ 8 ≤ 2 ^ BIGNUM_INT_BITS u := Nat.pow_le_pow_right (by omega) (integer_bits hu).1
  have hlt := val_lt (l := x)
  have hsub : val (mpSubIntegerInto x.length x digit.toUInt64) = 10 * (val x / 10) := by
    have hint := @val_mpSubIntegerInto u x.length x digit.toUInt64
      (integer_bits hu).1
    have hsmall : digit.toUInt64.toNat % 2 ^ BIGNUM_INT_BITS u = val x % 10 := by
      rw [UInt32.toNat_toUInt64, hdigit]
      exact Nat.mod_eq_of_lt (by omega)
    rw [hsmall, ← Nat.cast_sub (Nat.mod_le _ _), ← Int.natCast_mod, Nat.mod_eq_of_lt (by omega)] at hint
    have hnat : val (mpSubIntegerInto x.length x digit.toUInt64) = val x - val x % 10 := by exact_mod_cast hint
    omega
  have hshift : val (mpRshiftFixedInto x.length (mpSubIntegerInto x.length x digit.toUInt64) 1) =
      5 * (val x / 10) := by
    rw [val_mpRshiftFixedInto, hsub, Nat.mod_eq_of_lt (by omega)]
    omega
  have hne : mpRshiftFixedInto x.length (mpSubIntegerInto x.length x digit.toUInt64) 1 ≠ [] := fun h => by
    have hcount := congrArg List.length h
    rw [length_mpRshiftFixedInto] at hcount
    exact hlen hcount
  obtain ⟨r, hr, hlenr, hval⟩ := mpMulInto_spec (b := inv5 x.length) hlen hne
  refine ⟨r, ?_, hlenr, ?_⟩
  · rw [divideOut, length_mpSubIntegerInto]
    exact hr
  rw [hval, hshift]
  calc 5 * (val x / 10) * val (inv5 x.length : MpInt u) % 2 ^ (BIGNUM_INT_BITS u * x.length)
      = val x / 10 * (5 * val (inv5 x.length : MpInt u)) % 2 ^ (BIGNUM_INT_BITS u * x.length) := by
        congr 1
        ring
    _ = (val x / 10 + 2 ^ (BIGNUM_INT_BITS u * x.length) * (4 * (val x / 10))) %
          2 ^ (BIGNUM_INT_BITS u * x.length) := by
        rw [val_inv5 hu hlen]
        congr 1
        ring
    _ = val x / 10 := by
        rw [Nat.add_mul_mod_self_left]
        exact Nat.mod_eq_of_lt (by omega)

/-! ## The loop -/

/-- In each of the next rounds of the loop, the sum of the bytes fits. -/
def RoundsFit : ℕ → MpInt u → Prop
  | 0, _ => True
  | pos + 1, x => SumFits x ∧ ∀ x', divideOut x (lowDigit x) = .ok x' → RoundsFit pos x'

/-- The sum of the bytes fits for a number and for what is left without its last digits. -/
def DigitsFit (pos : ℕ) (x : MpInt u) : Prop :=
  ∀ i < pos, ∀ y : MpInt u, y.length = x.length → val y = val x / 10 ^ i → SumFits y

theorem DigitsFit.first (h : DigitsFit (pos + 1) x) : SumFits x :=
  h 0 (Nat.succ_pos pos) x rfl (by rw [pow_zero, Nat.div_one])

theorem digitsFit_succ (hlen : y.length = x.length) (hval : val y = val x / 10) :
    DigitsFit (pos + 1) x ↔ SumFits x ∧ DigitsFit pos y := by
  have hdiv : ∀ i, val y / 10 ^ i = val x / 10 ^ (i + 1) := fun i => by
    rw [hval, Nat.div_div_eq_div_mul, pow_succ']
  constructor
  · refine fun h => ⟨h.first, fun i hi z hz hv => ?_⟩
    exact h (i + 1) (by omega) z (hz.trans hlen) (by rw [hv, hdiv])
  · rintro ⟨hfirst, h⟩ i hi z hz hv
    cases i with
    | zero =>
      rw [pow_zero, Nat.div_one] at hv
      rwa [val_inj hz hv]
    | succ i => exact h i (by omega) z (hz.trans hlen.symm) (by rw [hv, hdiv])

theorem roundsFit_iff (hu : u = 5 ∨ u = 6) (hx : x ≠ []) : RoundsFit pos x ↔ DigitsFit pos x := by
  induction pos generalizing x with
  | zero => exact ⟨fun _ i hi => absurd hi (Nat.not_lt_zero i), fun _ => trivial⟩
  | succ pos ih =>
    have hrest : SumFits x → ∃ y, divideOut x (lowDigit x) = .ok y ∧ y.length = x.length ∧
        val y = val x / 10 := fun hfits => divideOut_spec hu hx (toNat_lowDigit (bits_dvd hu) hfits)
    have hne : ∀ y : MpInt u, y.length = x.length → y ≠ [] := fun y hlen hy => by
      rw [hy] at hlen
      exact hx (List.eq_nil_of_length_eq_zero hlen.symm)
    constructor
    · rintro ⟨hfits, h⟩
      obtain ⟨y, hy, hlen, hval⟩ := hrest hfits
      exact (digitsFit_succ hlen hval).mpr ⟨hfits, (ih (hne y hlen)).mp (h y hy)⟩
    · intro h
      obtain ⟨y, hy, hlen, hval⟩ := hrest h.first
      refine ⟨h.first, fun x' hx' => ?_⟩
      cases hy.symm.trans hx'
      exact (ih (hne y hlen)).mpr ((digitsFit_succ hlen hval).mp h).2

/-- The loop writes the last digits, and no assertion fails. -/
theorem decimalLoop_spec (hu : u = 5 ∨ u = 6) (hx : x ≠ []) (hfits : DigitsFit pos x) :
    decimalLoop pos x out = .ok (digitString pos (val x) ++ out) := by
  induction pos generalizing x out with
  | zero => rfl
  | succ pos ih =>
    have hdigit := toNat_lowDigit (bits_dvd hu) hfits.first
    obtain ⟨y, hy, hlen, hval⟩ := divideOut_spec hu hx hdigit
    have hne : y ≠ [] := fun h => by
      rw [h] at hlen
      exact hx (List.eq_nil_of_length_eq_zero hlen.symm)
    have hchar : 48 + (lowDigit x).toUInt8 = digitByte (val x % 10) := by
      apply UInt8.toNat_inj.mp
      rw [toNat_digitByte (Nat.mod_lt _ (by omega)), UInt8.toNat_add, UInt32.toNat_toUInt8, hdigit]
      show (48 + val x % 10 % 256) % 256 = _
      omega
    have hrest := @ih _ (digitByte (val x % 10) :: out) hne ((digitsFit_succ hlen hval).mp hfits).2
    have hlt : lowDigit x < 10 := reduceDigit_lt _
    rw [decimalLoop, check, if_pos hlt, ok_bind, hy, ok_bind, hchar, hrest, digitString, hval,
      List.append_assoc]
    rfl

/-! ## The buffer -/

/-- The buffer is large enough for the digits. -/
theorem bufsize_enough (x : MpInt u) : val x < 10 ^ (decimalBufsize u x.length - 1) := by
  have hk : x.length * (146 * BIGNUM_INT_BITS u) / 485 + 1 ≤ decimalBufsize u x.length - 1 := by
    unfold decimalBufsize
    omega
  refine lt_of_lt_of_le (lt_of_lt_of_le val_lt ?_) (Nat.pow_le_pow_right (by omega) hk)
  -- 146 / 485 is greater than the logarithm of 2
  have hlog : 2 ^ 485 ≤ 10 ^ 146 := by decide +kernel
  have hmul : BIGNUM_INT_BITS u * x.length * 146 = x.length * (146 * BIGNUM_INT_BITS u) := by ring
  have hround : ∀ m : ℕ, m ≤ (m / 485 + 1) * 485 := fun m => by omega
  exact pow_le_pow_of_log hlog (by decide) (by decide) (hmul ▸ hround _)

/-- The numeral is not longer than the buffer. -/
theorem length_numeral_le (hk : 0 < k) (hn : n < 10 ^ k) : (numeral n).length ≤ k := by
  obtain ⟨z, hz⟩ := digitString_numeral hk hn
  have hlen := congrArg List.length hz
  rw [length_digitString, List.length_append] at hlen
  omega

/-! ## Conversion both ways -/

/-- No assertion fails for the size of the number. -/
abbrev SizeFits (u nw : ℕ) : Prop := nw < (2 ^ 64 - 2) / (146 * BIGNUM_INT_BITS u)

theorem mpGetDecimal_eq (hu : u = 5 ∨ u = 6) (hx : x ≠ []) : mpGetDecimal x =
    if SizeFits u x.length then do
      let outbuf ← decimalLoop (decimalBufsize u x.length - 1) x [0]
      return trimLeadingZeroes outbuf (decimalBufsize u x.length - 2)
    else .error .assertion := by
  have hlen : x.length ≠ 0 := fun h => hx (List.eq_nil_of_length_eq_zero h)
  have hsized : mpMakeSized (u := u) x.length = .ok (List.replicate x.length 0) := by
    rw [mpMakeSized, check, if_pos hlen]
    rfl
  have hbits : BIGNUM_INT_BITS u % 8 = 0 := Nat.mod_eq_zero_of_dvd (bits_dvd hu)
  rw [mpGetDecimal, hsized, ok_bind, check, if_pos hbits, ok_bind, check]
  split_ifs with hsize <;> rfl

/-- Conversion to decimal is exact. -/
structure DecimalExact (x : MpInt u) : Prop where
  fits : RoundsFit (decimalBufsize u x.length - 1) x
  string : ∃ out, mpGetDecimal x = .ok out ∧ out.takeWhile (· ≠ 0) = numeral (val x)
  back : ∃ y : MpInt u, mpFromDecimalPl (numeral (val x)) = .ok y ∧ val y = val x

theorem DecimalExact.sumFits (h : DecimalExact x) : SumFits x := by
  have hfits := h.fits
  rw [decimalBufsize] at hfits
  exact hfits.1

theorem decimalExact_iff (hu : u = 5 ∨ u = 6) (hx : x ≠ []) : DecimalExact x ↔
    SizeFits u x.length ∧ DigitsFit (decimalBufsize u x.length - 1) x := by
  have hpos : 0 < decimalBufsize u x.length - 1 := by
    unfold decimalBufsize
    omega
  constructor
  · rintro ⟨hfits, ⟨out, hout, -⟩, -⟩
    refine ⟨?_, (roundsFit_iff hu hx).mp hfits⟩
    by_contra hsize
    rw [mpGetDecimal_eq hu hx, if_neg hsize] at hout
    exact nomatch hout
  · rintro ⟨hsize, hfits⟩
    have henough := bufsize_enough x
    refine ⟨(roundsFit_iff hu hx).mpr hfits, ?_, ?_⟩
    · refine ⟨_, ?_, trimmed_numeral hpos henough⟩
      rw [mpGetDecimal_eq hu hx, if_pos hsize, decimalLoop_spec hu hx hfits]
      rfl
    · have hshort : (numeral (val x)).length < (2 ^ 64 - 1) / 196 := by
        refine lt_of_le_of_lt (length_numeral_le hpos henough) ?_
        have hmul : x.length * (146 * BIGNUM_INT_BITS u) ≤ 2 ^ 64 - 2 :=
          (Nat.mul_le_mul_right _ hsize.le).trans (Nat.div_mul_le_self _ _)
        unfold decimalBufsize
        omega
      obtain ⟨y, hy, hval⟩ := mpFromDecimalPl_spec (u := u) (integer_bits hu).1 (isDigit_numeral (val x))
        (numeral_ne_nil _) hshort
      exact ⟨y, hy, by rw [hval, denotes_numeral]⟩

/-- Digits are converted to the number that they denote. -/
def ParsesExactly (u : ℕ) (s : List UInt8) : Prop :=
  ∃ x : MpInt u, mpFromDecimalPl s = .ok x ∧ val x = denotes s

theorem parsesExactly_iff (hu : u = 5 ∨ u = 6) (hs : ∀ c ∈ s, IsDigit c) (hne : s ≠ []) :
    ParsesExactly u s ↔ s.length < (2 ^ 64 - 1) / 196 := by
  constructor
  · rintro ⟨x, hx, -⟩
    by_contra hlen
    unfold mpFromDecimalPl check at hx
    rw [if_neg hlen] at hx
    exact nomatch hx
  · exact mpFromDecimalPl_spec (integer_bits hu).1 hs hne

end PuttyNd.Mpint
