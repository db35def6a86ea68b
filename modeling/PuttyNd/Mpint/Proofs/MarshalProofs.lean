import PuttyNd.Mpint.Marshal
import PuttyNd.Mpint.Proofs.MpintProofs
import PuttyNd.Psftp.Proofs.MarshalProofs
import Mathlib.Data.Nat.Size

/-!
# Proofs: numbers on the wire

The encoder and the decoder agree for the numbers that are not zero. Zero is written as one byte, which
the decoder refuses; and it reads the empty string as zero.
-/

namespace PuttyNd.Mpint

open Words Psftp Lib

variable {u : ℕ}

/-! ## The number of bits -/

section Nbits

variable {x : MpInt u} {n h e : ℕ}

/-- The highest word below `n` that is not zero is word `h`. -/
def IsHighest (x : MpInt u) (n h : ℕ) : Prop :=
  h < n ∧ word x h ≠ 0 ∧ ∀ i, h < i → i < n → word x i = 0

theorem exists_highest (x : MpInt u) (n : ℕ) :
    (∃ h, IsHighest x n h) ∨ ∀ i < n, word x i = 0 := by
  induction n with
  | zero => exact .inr fun i hi => absurd hi (by omega)
  | succ n ih =>
    by_cases hn : word x n = 0
    · rcases ih with ⟨h, h1, h2, h3⟩ | hzero
      · refine .inl ⟨h, by omega, h2, fun i hi hin => ?_⟩
        rcases Nat.lt_succ_iff_lt_or_eq.mp hin with hlt | rfl
        · exact h3 i hi hlt
        · exact hn
      · refine .inr fun i hi => ?_
        rcases Nat.lt_succ_iff_lt_or_eq.mp hi with hlt | rfl
        · exact hzero i hlt
        · exact hn
    · exact .inl ⟨n, by omega, hn, fun i hi hin => by omega⟩

theorem IsHighest.unique {h' : ℕ} (hh : IsHighest x n h) (hh' : IsHighest x n h') : h = h' := by
  rcases Nat.lt_trichotomy h h' with hlt | heq | hlt
  · exact absurd (hh.2.2 h' hlt hh'.1) hh'.2.1
  · exact heq
  · exact absurd (hh'.2.2 h hlt hh.1) hh.2.1

/-- What is there after `n` rounds of the loop, started with `index` and `hi`. -/
structure HighestInv (x : MpInt u) (index : ℤ) (hi : BitVec 64) (n : ℕ) (s : Highest) : Prop where
  lt : s.currHi.toNat < 2 ^ BIGNUM_INT_BITS u
  found : ∀ h, IsHighest x n h → s.index = h ∧ s.hi.toNat = (word x h).toNat
  zero : (∀ i < n, word x i = 0) → s.index = index ∧ s.hi = hi

theorem highest_spec (hu : 1 ≤ u ∧ u ≤ 6) (x : MpInt u) (index : ℤ) (hi lo : BitVec 64) (n : ℕ) :
    HighestInv x index hi n ((List.range n).foldl (Highest.round x 0) ⟨0, 0, index, hi, lo⟩) := by
  have hbits : 2 ≤ BIGNUM_INT_BITS u := by
    calc 2 = 2 ^ 1 := rfl
      _ ≤ 2 ^ u := Nat.pow_le_pow_right (by omega) hu.1
  have hle : BIGNUM_INT_BITS u ≤ 64 := by
    calc 2 ^ u ≤ 2 ^ 6 := Nat.pow_le_pow_right (by omega) hu.2
      _ = 64 := rfl
  induction n with
  | zero => exact ⟨by simp, fun h hh => absurd hh.1 (by omega), fun _ => ⟨rfl, rfl⟩⟩
  | succ n ih =>
    rw [List.range_succ, List.foldl_append, List.foldl_cons, List.foldl_nil]
    generalize (List.range n).foldl (Highest.round x 0) ⟨0, 0, index, hi, lo⟩ = s at ih
    have hword : ((word x n).setWidth 64).toNat = (word x n).toNat := by
      rw [BitVec.toNat_setWidth, Nat.mod_eq_of_lt]
      exact lt_of_lt_of_le word_lt (Nat.pow_le_pow_right (by omega) hle)
    have hcurr : (Highest.round x 0 s n).currHi.toNat = (word x n).toNat := by
      have hold : (if BIGNUM_INT_BITS u < 64 then s.currHi >>> BIGNUM_INT_BITS u else 0) = 0 := by
        split
        · apply BitVec.eq_of_toNat_eq
          rw [BitVec.toNat_ushiftRight, Nat.shiftRight_eq_div_pow, Nat.div_eq_of_lt ih.lt, toNat_zero]
        · rfl
      simp only [Highest.round]
      rw [hold, BitVec.toNat_or, toNat_zero, Nat.zero_or, BitVec.shiftLeft_zero, hword]
    have hhi : (Highest.round x 0 s n).hi =
        if word x n = 0 then s.hi else (Highest.round x 0 s n).currHi := by
      simp only [Highest.round, normaliseTo1_spec hbits, select_spec]
      split <;> simp
    have hindex : (Highest.round x 0 s n).index = if word x n = 0 then s.index else n := by
      simp only [Highest.round, normaliseTo1_spec hbits]
      split <;> simp
    refine ⟨?_, ?_, ?_⟩
    · rw [hcurr]
      exact word_lt
    · intro h hh
      by_cases hn : word x n = 0
      · have hhn : IsHighest x n h := by
          refine ⟨?_, hh.2.1, fun i hi hin => hh.2.2 i hi (by omega)⟩
          rcases Nat.lt_succ_iff_lt_or_eq.mp hh.1 with hlt | rfl
          · exact hlt
          · exact absurd hn hh.2.1
        rw [hindex, hhi, if_pos hn, if_pos hn]
        exact ih.found h hhn
      · obtain rfl : h = n := hh.unique ⟨by omega, hn, fun i hi hin => by omega⟩
        rw [hindex, hhi, if_neg hn, if_neg hn]
        exact ⟨rfl, hcurr⟩
    · intro hzero
      rw [hindex, hhi, if_pos (hzero n (by omega)), if_pos (hzero n (by omega))]
      exact ih.zero fun i hi => hzero i (by omega)

/-- The loop finds the highest bit. -/
theorem hibitIndex_spec {hiword : BignumInt u} (he : e ≤ u) (hne : hiword ≠ 0)
    (hlt : hiword.toNat < 2 ^ 2 ^ e) :
    ∃ r, hibitIndex e hiword h = h + r ∧ 2 ^ r ≤ hiword.toNat ∧ hiword.toNat < 2 ^ (r + 1) := by
  induction e generalizing hiword h with
  | zero =>
    have hpos : hiword.toNat ≠ 0 := fun h => hne (BitVec.eq_of_toNat_eq (by simpa using h))
    exact ⟨0, rfl, by simp; omega, by simpa using hlt⟩
  | succ e ih =>
    have hpow : (2 : ℕ) ^ 2 ^ (e + 1) = 2 ^ 2 ^ e * 2 ^ 2 ^ e := by rw [← pow_add, pow_succ, Nat.mul_two]
    have hle : 2 ^ (e + 1) ≤ BIGNUM_INT_BITS u := Nat.pow_le_pow_right (by omega) he
    have hi : 1 <<< e = 2 ^ e := by rw [Nat.shiftLeft_eq, Nat.one_mul]
    have hpos : 0 < 2 ^ e := Nat.two_pow_pos e
    have hshift : (hiword >>> (1 <<< e)).toNat = hiword.toNat / 2 ^ 2 ^ e := by
      rw [hi, BitVec.toNat_ushiftRight, Nat.shiftRight_eq_div_pow]
    have hshifted : hiword.toNat / 2 ^ 2 ^ e < 2 ^ 2 ^ e := by
      rw [Nat.div_lt_iff_lt_mul (Nat.two_pow_pos _), ← hpow]
      exact hlt
    have hsmall : (hiword >>> (1 <<< e)).toNat < 2 ^ (BIGNUM_INT_BITS u - 1) := by
      rw [hshift]
      refine lt_of_lt_of_le hshifted (Nat.pow_le_pow_right (by omega) ?_)
      rw [pow_succ] at hle
      omega
    have hind := toNat_neg_top bits_pos hsmall
    rw [hibitIndex]
    simp only [hind, select_spec]
    by_cases hzero : hiword >>> (1 <<< e) = 0
    · have hdiv : hiword.toNat / 2 ^ 2 ^ e = 0 := by
        rw [← hshift, hzero, toNat_zero]
      simp only [if_pos hzero, Nat.zero_mod, zero_ne_one, if_false, Nat.add_zero]
      exact ih (by omega) hne ((Nat.div_eq_zero_iff_lt (Nat.two_pow_pos _)).mp hdiv)
    · obtain ⟨r, hr, hge, hlt'⟩ := ih (h := h + 1 <<< e) (by omega) hzero (by omega)
      rw [hshift] at hge hlt'
      simp only [if_neg hzero, Nat.one_mod, if_true]
      refine ⟨2 ^ e + r, by rw [hr, hi, Nat.add_assoc], ?_, ?_⟩
      · rw [pow_add]
        have h1 := (Nat.le_div_iff_mul_le (Nat.two_pow_pos _)).mp hge
        rwa [Nat.mul_comm]
      · rw [Nat.add_assoc, pow_add]
        have h1 := (Nat.div_lt_iff_lt_mul (Nat.two_pow_pos _)).mp hlt'
        rwa [Nat.mul_comm]

/-- The number of bits of a number whose highest word is known. -/
theorem size_of_highest {r : ℕ} (hh : IsHighest x x.length h) (hge : 2 ^ r ≤ (word x h).toNat)
    (hlt : (word x h).toNat < 2 ^ (r + 1)) : Nat.size (val x) = BIGNUM_INT_BITS u * h + r + 1 := by
  have hzero : ∀ i, h < i → word x i = 0 := by
    intro i hi
    rcases Nat.lt_or_ge i x.length with hlt | hge
    · exact hh.2.2 i hi hlt
    · exact word_of_le hge
  have hval := val_eq_top hzero
  have hmod : val x % 2 ^ (BIGNUM_INT_BITS u * h) < 2 ^ (BIGNUM_INT_BITS u * h) :=
    Nat.mod_lt _ (Nat.two_pow_pos _)
  apply Nat.le_antisymm
  · rw [Nat.size_le, Nat.add_assoc, pow_add, Nat.mul_comm, hval]
    calc val x % 2 ^ (BIGNUM_INT_BITS u * h) + (word x h).toNat * 2 ^ (BIGNUM_INT_BITS u * h)
        < ((word x h).toNat + 1) * 2 ^ (BIGNUM_INT_BITS u * h) := by
          rw [Nat.add_mul, Nat.one_mul]
          omega
      _ ≤ 2 ^ (r + 1) * 2 ^ (BIGNUM_INT_BITS u * h) := Nat.mul_le_mul_right _ hlt
  · rw [Nat.succ_le_iff, Nat.lt_size, pow_add, Nat.mul_comm, hval]
    calc 2 ^ r * 2 ^ (BIGNUM_INT_BITS u * h) ≤ (word x h).toNat * 2 ^ (BIGNUM_INT_BITS u * h) :=
          Nat.mul_le_mul_right _ hge
      _ ≤ _ := Nat.le_add_left _ _

theorem mpGetNbits_eq (hu : 1 ≤ u ∧ u ≤ 6) (x : MpInt u) : mpGetNbits x = Nat.size (val x) := by
  have hinv := highest_spec hu x (-1) ((~~~0 : BignumInt u).setWidth 64) 0 x.length
  have hle : BIGNUM_INT_BITS u ≤ 64 := by
    calc 2 ^ u ≤ 2 ^ 6 := Nat.pow_le_pow_right (by omega) hu.2
      _ = 64 := rfl
  simp only [mpGetNbits, mpFindHighestNonzeroWordPair]
  generalize (List.range x.length).foldl (Highest.round x 0) _ = s at hinv
  rcases exists_highest x x.length with ⟨h, hh⟩ | hzero
  · obtain ⟨hindex, hhi⟩ := hinv.found h hh
    have hword : s.hi.setWidth _ = word x h := by
      apply BitVec.eq_of_toNat_eq
      rw [BitVec.toNat_setWidth, hhi, Nat.mod_eq_of_lt word_lt]
    obtain ⟨r, hr, hge, hlt⟩ := hibitIndex_spec (h := 0) (le_refl u) hh.2.1 word_lt
    have hcast : (h : ℤ) * (BIGNUM_INT_BITS u : ℕ) + (0 + r : ℕ) + 1 =
        (BIGNUM_INT_BITS u * h + r + 1 : ℕ) := by
      push_cast
      ring
    rw [size_of_highest hh hge hlt, hword, hr, hindex, hcast, Int.toNat_natCast]
  · obtain ⟨hindex, hhi⟩ := hinv.zero hzero
    have hval : val x = 0 := val_eq_zero.mpr fun i => by
      rcases Nat.lt_or_ge i x.length with hlt | hge
      · exact hzero i hlt
      · exact word_of_le hge
    have hones : (s.hi.setWidth (BIGNUM_INT_BITS u)).toNat = 2 ^ BIGNUM_INT_BITS u - 1 := by
      have hlt : 2 ^ BIGNUM_INT_BITS u ≤ 2 ^ 64 := Nat.pow_le_pow_right (by omega) hle
      have hpos := Nat.two_pow_pos (BIGNUM_INT_BITS u)
      rw [hhi, complement_zero, BitVec.toNat_setWidth, BitVec.toNat_setWidth, BitVec.toNat_allOnes,
        Nat.mod_eq_of_lt (a := 2 ^ BIGNUM_INT_BITS u - 1) (by omega), Nat.mod_eq_of_lt (by omega)]
    have htwo : 2 ≤ 2 ^ BIGNUM_INT_BITS u := Nat.le_self_pow (Nat.ne_of_gt bits_pos) 2
    have hne : s.hi.setWidth (BIGNUM_INT_BITS u) ≠ 0 := by
      intro h
      rw [h, toNat_zero] at hones
      omega
    obtain ⟨r, hr, hge, hlt⟩ := hibitIndex_spec (h := 0) (le_refl u) hne
      (BitVec.isLt _)
    rw [hones] at hge hlt
    have hr1 : r < BIGNUM_INT_BITS u := (Nat.pow_lt_pow_iff_right (a := 2) (by omega)).mp (by omega)
    have hr2 : BIGNUM_INT_BITS u ≤ r + 1 := (Nat.pow_le_pow_iff_right (a := 2) (by omega)).mp (by omega)
    rw [hindex, hr, hval, Nat.size_zero]
    omega

end Nbits

/-! ## Bytes -/

section Bytes

variable {x : MpInt u} {n : ℕ} {bytes : List UInt8}

theorem bits_eq_bytes (hu : 3 ≤ u) : BIGNUM_INT_BITS u = 8 * BIGNUM_INT_BYTES u := by
  have hdvd : 8 ∣ BIGNUM_INT_BITS u := Nat.pow_dvd_pow 2 hu
  exact (Nat.mul_div_cancel' hdvd).symm

theorem bytes_pos (hu : 3 ≤ u) : 0 < BIGNUM_INT_BYTES u := by
  have h1 := bits_eq_bytes hu
  have h2 := bits_pos (u := u)
  omega

theorem toNat_mpGetByte (hu : 3 ≤ u) (x : MpInt u) (i : ℕ) :
    (mpGetByte x i).toNat = val x / 256 ^ i % 256 := by
  have hbits := bits_eq_bytes hu
  have hmod : i % BIGNUM_INT_BYTES u < BIGNUM_INT_BYTES u := Nat.mod_lt _ (bytes_pos hu)
  have hdiv := Nat.div_add_mod i (BIGNUM_INT_BYTES u)
  have hpos : 2 ^ (BIGNUM_INT_BITS u * (i / BIGNUM_INT_BYTES u)) *
      2 ^ (8 * (i % BIGNUM_INT_BYTES u)) = 256 ^ i := by
    rw [show (256 : ℕ) = 2 ^ 8 from rfl, ← pow_mul, ← pow_add, hbits, Nat.mul_assoc, ← Nat.mul_add, hdiv]
  have hwidth : 2 ^ BIGNUM_INT_BITS u =
      2 ^ (8 * (i % BIGNUM_INT_BYTES u)) *
        2 ^ (BIGNUM_INT_BITS u - 8 * (i % BIGNUM_INT_BYTES u)) := by
    rw [← pow_add]
    congr 1
    omega
  have hdvd : 2 ^ 8 ∣ 2 ^ (BIGNUM_INT_BITS u - 8 * (i % BIGNUM_INT_BYTES u)) :=
    Nat.pow_dvd_pow 2 (by omega)
  show ((mpWord x (i / BIGNUM_INT_BYTES u) >>> (8 * (i % BIGNUM_INT_BYTES u))).setWidth 8).toNat = _
  rw [BitVec.toNat_setWidth, BitVec.toNat_ushiftRight, Nat.shiftRight_eq_div_pow, word_eq, hwidth,
    Nat.mod_mul_right_div_self, Nat.mod_mod_of_dvd _ hdvd, Nat.div_div_eq_div_mul, hpos]
  rfl

/-- Byte `i` of the number, where the highest byte comes first. -/
def byteAt (bytes : List UInt8) (i : ℕ) : ℕ := (bytes.getD (bytes.length - 1 - i) 0).toNat

theorem byteAt_lt (bytes : List UInt8) (i : ℕ) : byteAt bytes i < 256 := UInt8.toNat_lt _

/-- The rounds of `mp_from_bytes_be`. -/
theorem fromBytes_rounds (hu : 3 ≤ u) (bytes : List UInt8) {nw : ℕ}
    (hnw : n ≤ BIGNUM_INT_BYTES u * nw) :
    let r : MpInt u := (List.range n).foldl
      (fun n i => n.modify (i / BIGNUM_INT_BYTES u) fun word =>
        word ||| (bytes.getD (bytes.length - 1 - i) 0).toBitVec.setWidth _ <<<
          (8 * (i % BIGNUM_INT_BYTES u)))
      (List.replicate nw 0)
    r.length = nw ∧ val r = num 256 (byteAt bytes) n := by
  induction n with
  | zero => exact ⟨List.length_replicate, val_replicate⟩
  | succ n ih =>
    obtain ⟨hlen, hval⟩ := ih (by omega)
    rw [List.range_succ, List.foldl_append, List.foldl_cons, List.foldl_nil]
    generalize (List.range n).foldl _ (List.replicate nw (0 : BignumInt u)) = r at hlen hval
    have hbits := bits_eq_bytes hu
    have hpos := bytes_pos hu
    have hmod : n % BIGNUM_INT_BYTES u < BIGNUM_INT_BYTES u := Nat.mod_lt _ hpos
    have hdiv := Nat.div_add_mod n (BIGNUM_INT_BYTES u)
    have hindex : n / BIGNUM_INT_BYTES u < r.length := by
      rw [hlen, Nat.div_lt_iff_lt_mul hpos, Nat.mul_comm]
      omega
    have hplace : 2 ^ (BIGNUM_INT_BITS u * (n / BIGNUM_INT_BYTES u)) *
        2 ^ (8 * (n % BIGNUM_INT_BYTES u)) = 256 ^ n := by
      rw [show (256 : ℕ) = 2 ^ 8 from rfl, ← pow_mul, ← pow_add, hbits, Nat.mul_assoc, ← Nat.mul_add,
        hdiv]
    -- the byte goes above those that are there
    have hsmall : (word r (n / BIGNUM_INT_BYTES u)).toNat < 2 ^ (8 * (n % BIGNUM_INT_BYTES u)) := by
      have hlt : val r < 256 ^ n := by
        rw [hval]
        exact num_lt fun i _ => byteAt_lt bytes i
      rw [word_eq]
      refine lt_of_le_of_lt (Nat.mod_le _ _) ((Nat.div_lt_iff_lt_mul (Nat.two_pow_pos _)).mpr ?_)
      rwa [Nat.mul_comm, hplace]
    have hbyte : ((bytes.getD (bytes.length - 1 - n) 0).toBitVec.setWidth (BIGNUM_INT_BITS u) <<<
        (8 * (n % BIGNUM_INT_BYTES u))).toNat =
        byteAt bytes n * 2 ^ (8 * (n % BIGNUM_INT_BYTES u)) := by
      have h1 : byteAt bytes n < 2 ^ 8 := byteAt_lt bytes n
      have h2 : 2 ^ 8 * 2 ^ (8 * (n % BIGNUM_INT_BYTES u)) ≤ 2 ^ BIGNUM_INT_BITS u := by
        rw [← pow_add]
        exact Nat.pow_le_pow_right (by omega) (by omega)
      have h3 : 2 ^ 8 ≤ 2 ^ BIGNUM_INT_BITS u := Nat.pow_le_pow_right (by omega) (by omega)
      have h4 : byteAt bytes n * 2 ^ (8 * (n % BIGNUM_INT_BYTES u)) <
          2 ^ 8 * 2 ^ (8 * (n % BIGNUM_INT_BYTES u)) :=
        Nat.mul_lt_mul_of_pos_right h1 (Nat.two_pow_pos _)
      rw [BitVec.toNat_shiftLeft, BitVec.toNat_setWidth, Nat.shiftLeft_eq]
      show byteAt bytes n % 2 ^ BIGNUM_INT_BITS u * _ % _ = _
      rw [Nat.mod_eq_of_lt (a := byteAt bytes n) (by omega), Nat.mod_eq_of_lt (by omega)]
    constructor
    · rw [List.length_modify, hlen]
    · have hadd := val_modify (fun word => word |||
        (bytes.getD (bytes.length - 1 - n) 0).toBitVec.setWidth (BIGNUM_INT_BITS u) <<<
          (8 * (n % BIGNUM_INT_BYTES u))) hindex
      simp only [BitVec.toNat_or, hbyte] at hadd
      have hor : (word r (n / BIGNUM_INT_BYTES u)).toNat |||
          byteAt bytes n * 2 ^ (8 * (n % BIGNUM_INT_BYTES u)) =
          byteAt bytes n * 2 ^ (8 * (n % BIGNUM_INT_BYTES u)) +
            (word r (n / BIGNUM_INT_BYTES u)).toNat := by
        rw [Nat.or_comm, ← Nat.shiftLeft_eq, ← Nat.shiftLeft_add_eq_or_of_lt hsmall]
      rw [hor, Nat.add_mul, Nat.mul_assoc, Nat.mul_comm (2 ^ (8 * (n % BIGNUM_INT_BYTES u))),
        hplace] at hadd
      rw [num_succ, ← hval]
      exact Nat.add_right_cancel (hadd.trans (by omega))

/-- The number that is read. -/
theorem val_mpFromBytesBe (hu : 3 ≤ u) (bytes : List UInt8) :
    val (mpFromBytesBe (u := u) bytes) = num 256 (byteAt bytes) bytes.length := by
  refine (fromBytes_rounds hu bytes ?_).2
  have hpos := bytes_pos hu
  have h1 := Nat.div_add_mod (bytes.length + BIGNUM_INT_BYTES u - 1) (BIGNUM_INT_BYTES u)
  have h2 := Nat.mod_lt (bytes.length + BIGNUM_INT_BYTES u - 1) hpos
  have h3 := Nat.mul_le_mul_left (BIGNUM_INT_BYTES u)
    (Nat.le_max_left ((bytes.length + BIGNUM_INT_BYTES u - 1) / BIGNUM_INT_BYTES u) 1)
  omega

end Bytes

/-! ## The round trip -/

/-- The bytes of `x` are read back as a number equal to `x`, whatever follows them, and nothing else
is read. -/
def RoundTrips (x : MpInt u) : Prop :=
  ∀ rest, ∃ y : MpInt u, getMpSsh2 ⟨putMpSsh2 x ++ rest, false⟩ = (y, ⟨rest, false⟩) ∧ val y = val x

section RoundTrip

variable {x y : MpInt u} {bytes rest data : List UInt8} {n : ℕ}

/-- The `n` lowest bytes of `x`, the highest first. -/
def bytesOf (x : MpInt u) (n : ℕ) : List UInt8 := (List.range n).reverse.map (mpGetByte x)

@[simp] theorem length_bytesOf : (bytesOf x n).length = n := by simp [bytesOf]

theorem byteAt_bytesOf (hu : 3 ≤ u) {i : ℕ} (hi : i < n) :
    byteAt (bytesOf x n) i = val x / 256 ^ i % 256 := by
  have hindex : n - 1 - (n - 1 - i) = i := by omega
  rw [byteAt, length_bytesOf, ← toNat_mpGetByte hu]
  simp [bytesOf, show n - 1 - i < n by omega, hindex]

theorem num_bytesOf (hu : 3 ≤ u) : num 256 (byteAt (bytesOf x n)) n = val x % 256 ^ n := by
  rw [← num_digits]
  exact num_congr fun i hi => byteAt_bytesOf hu hi

/-- The bytes of a number that was read are those that it was read from. -/
theorem bytesOf_mpFromBytesBe (hu : 3 ≤ u) (bytes : List UInt8) :
    bytesOf (mpFromBytesBe (u := u) bytes) bytes.length = bytes := by
  apply List.ext_getElem (by simp)
  intro k hk hk'
  rw [length_bytesOf] at hk
  have hbyte : byteAt (bytesOf (mpFromBytesBe (u := u) bytes) bytes.length) (bytes.length - 1 - k) =
      byteAt bytes (bytes.length - 1 - k) := by
    rw [byteAt_bytesOf hu (by omega), val_mpFromBytesBe hu]
    exact num_digit (fun i _ => byteAt_lt bytes i) (by omega)
  have hindex : bytes.length - 1 - (bytes.length - 1 - k) = k := by omega
  apply UInt8.toNat_inj.mp
  simpa [byteAt, hindex, hk, List.getElem?_eq_getElem] using hbyte

/-- The top bit of a byte. -/
theorem and_0x80 (p : UInt8) : p &&& 0x80 ≠ 0 ↔ 128 ≤ p.toNat := by
  have hlt := p.toNat_lt
  have hand : (p &&& 0x80).toNat = p.toNat &&& 2 ^ 7 := rfl
  have htest : p.toNat.testBit 7 = decide (p.toNat / 2 ^ 7 % 2 = 1) := Nat.testBit_eq_decide_div_mod_eq
  rw [Ne, ← UInt8.toNat_inj, hand, Nat.and_two_pow, htest]
  show ¬ _ = 0 ↔ _
  by_cases h : p.toNat / 2 ^ 7 % 2 = 1
  · rw [decide_eq_true h]
    simp
    omega
  · rw [decide_eq_false h]
    simp
    omega

/-- The encodings that the decoder refuses. -/
def Refused (bytes : List UInt8) : Prop :=
  bytes.length > 0 ∧ (128 ≤ byteAt bytes (bytes.length - 1) ∨
    (byteAt bytes (bytes.length - 1) = 0 ∧
      (bytes.length ≤ 1 ∨ byteAt bytes (bytes.length - 2) < 128)))

theorem getMpSsh2_eq (data rest : List UInt8) (y : MpInt u) :
    getMpSsh2 ⟨data, false⟩ = (y, ⟨rest, false⟩) ↔
      ∃ bytes, getString ⟨data, false⟩ = (bytes, ⟨rest, false⟩) ∧ ¬ Refused bytes ∧
        y = mpFromBytesBe bytes := by
  unfold getMpSsh2
  rcases hget : getString ⟨data, false⟩ with ⟨bytes, rest', err⟩
  cases err with
  | true => simp
  | false =>
    have hrefused : (bytes.length > 0 ∧ (bytes.getD 0 0 &&& 0x80 ≠ 0 ∨
        (bytes.getD 0 0 = 0 ∧ (bytes.length ≤ 1 ∨ ¬ bytes.getD 1 0 &&& 0x80 ≠ 0)))) ↔
        Refused bytes := by
      have hfirst : bytes.length - 1 - (bytes.length - 1) = 0 := by omega
      rw [and_0x80, and_0x80, ← UInt8.toNat_inj]
      unfold Refused byteAt
      rw [hfirst]
      rcases Nat.lt_or_ge 1 bytes.length with hlt | hge
      · have hsecond : bytes.length - 1 - (bytes.length - 2) = 1 := by omega
        rw [hsecond, Nat.not_le]
        rfl
      · simp [hge]
    simp only [Bool.false_eq_true, if_false]
    by_cases h : Refused bytes
    · rw [if_pos (hrefused.mpr h)]
      simp [h]
    · rw [if_neg fun h' => h (hrefused.mp h')]
      simp only [Prod.mk.injEq, Source.mk.injEq, and_true]
      constructor
      · rintro ⟨rfl, rfl⟩
        exact ⟨bytes, ⟨rfl, rfl⟩, h, rfl⟩
      · rintro ⟨_, ⟨rfl, rfl⟩, -, rfl⟩
        exact ⟨rfl, rfl⟩

/-- The lowest bytes, and the highest one. -/
theorem num_top (bytes : List UInt8) (n : ℕ) :
    num 256 (byteAt bytes) n < 256 ^ n ∧
      num 256 (byteAt bytes) (n + 1) = num 256 (byteAt bytes) n + byteAt bytes n * 256 ^ n :=
  ⟨num_lt fun i _ => byteAt_lt bytes i, num_succ⟩

theorem pow_256 (n : ℕ) : 256 ^ n = 2 ^ (8 * n) := by
  rw [show (256 : ℕ) = 2 ^ 8 from rfl, ← pow_mul]

/-- An encoding that is not refused is as long as the encoder makes it. -/
theorem length_of_not_refused (hne : bytes ≠ []) (h : ¬ Refused bytes) :
    (Nat.size (num 256 (byteAt bytes) bytes.length) + 8) / 8 = bytes.length := by
  obtain ⟨k, hk⟩ := Nat.exists_eq_add_of_le' (List.length_pos_of_ne_nil hne)
  have htop := num_top bytes k
  rw [pow_256] at htop
  rw [← hk] at htop
  have hsub : bytes.length - 1 = k := by omega
  rw [Refused, hsub] at h
  have hpow : 2 ^ (8 * k + 7) = 128 * 2 ^ (8 * k) := by ring
  have hupper : Nat.size (num 256 (byteAt bytes) bytes.length) ≤ 8 * k + 7 := by
    rw [Nat.size_le, hpow, htop.2]
    have h1 : (byteAt bytes k + 1) * 2 ^ (8 * k) ≤ 128 * 2 ^ (8 * k) :=
      Nat.mul_le_mul_right _ (by omega)
    rw [Nat.add_mul, Nat.one_mul] at h1
    omega
  have hlower : 8 * k ≤ Nat.size (num 256 (byteAt bytes) bytes.length) := by
    rcases Nat.eq_zero_or_pos (byteAt bytes k) with hzero | hpos
    · obtain ⟨j, rfl⟩ := Nat.exists_eq_add_of_le' (show 1 ≤ k by omega)
      have hsecond : bytes.length - 2 = j := by omega
      have hnext := num_top bytes j
      rw [pow_256] at hnext
      have hpow' : 2 ^ (8 * j + 7) = 128 * 2 ^ (8 * j) := by ring
      have hbig : 128 * 2 ^ (8 * j) ≤ byteAt bytes j * 2 ^ (8 * j) := Nat.mul_le_mul_right _ (by
        rw [hsecond] at h
        omega)
      have hlt : 8 * j + 7 < Nat.size (num 256 (byteAt bytes) bytes.length) := by
        rw [Nat.lt_size, hpow', htop.2, hzero, hnext.2]
        omega
      omega
    · have hbig : 1 * 2 ^ (8 * k) ≤ byteAt bytes k * 2 ^ (8 * k) := Nat.mul_le_mul_right _ hpos
      have hlt : 8 * k < Nat.size (num 256 (byteAt bytes) bytes.length) := by
        rw [Nat.lt_size, htop.2]
        omega
      omega
  omega

/-- The encoder makes an encoding that is not refused. -/
theorem not_refused_bytesOf (hu : 3 ≤ u) (hne : val x ≠ 0) :
    ¬ Refused (bytesOf x ((Nat.size (val x) + 8) / 8)) := by
  have hsize : 0 < Nat.size (val x) := Nat.size_pos.mpr (Nat.pos_of_ne_zero hne)
  have hlt : val x < 2 ^ Nat.size (val x) := Nat.lt_size_self _
  have hge : 2 ^ (Nat.size (val x) - 1) ≤ val x := Nat.lt_size.mp (by omega)
  obtain ⟨k, hk⟩ := Nat.exists_eq_add_of_le' (show 1 ≤ (Nat.size (val x) + 8) / 8 by omega)
  rw [hk, Refused, length_bytesOf, Nat.add_sub_cancel, byteAt_bytesOf hu (by omega), pow_256]
  have hpow : 2 ^ (8 * k + 7) = 128 * 2 ^ (8 * k) := by ring
  have htop : val x / 2 ^ (8 * k) < 128 := by
    rw [Nat.div_lt_iff_lt_mul (Nat.two_pow_pos _), ← hpow]
    exact lt_of_lt_of_le hlt (Nat.pow_le_pow_right (by omega) (by omega))
  rw [Nat.mod_eq_of_lt (a := val x / 2 ^ (8 * k)) (by omega)]
  rintro ⟨-, h | ⟨h, hsecond⟩⟩
  · omega
  · have hsmall : val x < 2 ^ (8 * k) := (Nat.div_eq_zero_iff_lt (Nat.two_pow_pos _)).mp h
    have hle : Nat.size (val x) ≤ 8 * k := Nat.size_le.mpr hsmall
    obtain ⟨j, rfl⟩ := Nat.exists_eq_add_of_le' (show 1 ≤ k by omega)
    have hj : j + 1 + 1 - 2 = j := by omega
    rcases hsecond with h1 | h1
    · omega
    · rw [hj, byteAt_bytesOf hu (by omega), pow_256] at h1
      have hpow' : 2 ^ (8 * j + 7) = 128 * 2 ^ (8 * j) := by ring
      have hpow8 : 2 ^ (8 * (j + 1)) = 256 * 2 ^ (8 * j) := by ring
      have hdiv : val x / 2 ^ (8 * j) < 256 := by
        rw [Nat.div_lt_iff_lt_mul (Nat.two_pow_pos _)]
        omega
      have hbig : 128 ≤ val x / 2 ^ (8 * j) := by
        rw [Nat.le_div_iff_mul_le (Nat.two_pow_pos _), ← hpow']
        exact (Nat.pow_le_pow_right (by omega) (by omega)).trans hge
      rw [Nat.mod_eq_of_lt hdiv] at h1
      omega

/-- A number that is not zero and whose encoding has a length of 32 bits is read back. -/
theorem roundTrips_of (hu : 3 ≤ u ∧ u ≤ 6) (hne : val x ≠ 0)
    (hlen : (Nat.size (val x) + 8) / 8 < 2 ^ 32) : RoundTrips x := by
  intro rest
  have hput : putMpSsh2 x = putUint32 (UInt32.ofNat ((Nat.size (val x) + 8) / 8)) ++
      bytesOf x ((Nat.size (val x) + 8) / 8) := by
    rw [putMpSsh2, mpGetNbits_eq (by omega)]
    rfl
  have hnot := not_refused_bytesOf hu.1 hne
  have hlt : val x < 2 ^ Nat.size (val x) := Nat.lt_size_self _
  generalize hn : (Nat.size (val x) + 8) / 8 = n at hput hnot hlen
  have hget : getString ⟨putUint32 (UInt32.ofNat n) ++ (bytesOf x n ++ rest), false⟩ =
      (bytesOf x n, ⟨rest, false⟩) := by
    apply getString_put
    rw [length_bytesOf, UInt32.toNat_ofNat', Nat.mod_eq_of_lt hlen]
  refine ⟨mpFromBytesBe (bytesOf x n), ?_, ?_⟩
  · rw [hput, List.append_assoc, getMpSsh2_eq]
    exact ⟨_, hget, hnot, rfl⟩
  · rw [val_mpFromBytesBe hu.1, length_bytesOf, num_bytesOf hu.1, Nat.mod_eq_of_lt]
    rw [pow_256]
    exact lt_of_lt_of_le hlt (Nat.pow_le_pow_right (by omega) (by omega))

theorem length_putMpSsh2 (hu : 1 ≤ u ∧ u ≤ 6) (x : MpInt u) :
    (putMpSsh2 x).length = 4 + (Nat.size (val x) + 8) / 8 := by
  simp [putMpSsh2, mpGetNbits_eq hu]

/-- Zero is written as one byte, which is refused. -/
theorem not_roundTrips_zero (hu : 3 ≤ u ∧ u ≤ 6) (hzero : val x = 0) : ¬ RoundTrips x := by
  intro h
  obtain ⟨y, hy, -⟩ := h []
  rw [getMpSsh2_eq] at hy
  obtain ⟨bytes, hget, hnot, -⟩ := hy
  obtain ⟨len, hlen, hdata⟩ := eq_of_getString hget
  have hone : bytes.length = 1 := by
    have h1 := congrArg List.length hdata
    simp only [List.append_nil, length_putMpSsh2 (u := u) (by omega), hzero, Nat.size_zero,
      List.length_append, length_putUint32] at h1
    omega
  have hput : putMpSsh2 x = putUint32 (UInt32.ofNat 1) ++ bytesOf x 1 := by
    rw [putMpSsh2, mpGetNbits_eq (by omega), hzero, Nat.size_zero]
    rfl
  have hbytes : bytes = bytesOf x 1 := by
    rw [hput, List.append_nil, List.append_nil] at hdata
    exact (List.append_inj_right hdata rfl).symm
  apply hnot
  rw [Refused, hbytes, length_bytesOf]
  refine ⟨by omega, .inr ⟨?_, .inl (le_refl 1)⟩⟩
  rw [byteAt_bytesOf hu.1 (by omega), hzero]
  simp

/-- The length of a longer encoding does not fit into its field. -/
theorem not_roundTrips_long (hu : 3 ≤ u ∧ u ≤ 6) (hlong : 2 ^ 32 ≤ (Nat.size (val x) + 8) / 8) :
    ¬ RoundTrips x := by
  intro h
  obtain ⟨y, hy, -⟩ := h []
  rw [getMpSsh2_eq] at hy
  obtain ⟨bytes, hget, -, -⟩ := hy
  obtain ⟨len, hlen, hdata⟩ := eq_of_getString hget
  have h1 := congrArg List.length hdata
  have h2 := len.toNat_lt
  simp only [List.append_nil, length_putMpSsh2 (u := u) (by omega), List.length_append,
    length_putUint32] at h1
  omega

/-- What is read is written again as it was, unless it is the empty string. -/
theorem reencode_iff (hu : 3 ≤ u ∧ u ≤ 6) (h : getMpSsh2 ⟨data, false⟩ = (y, ⟨rest, false⟩)) :
    data = putMpSsh2 y ++ rest ↔ data.take 4 ≠ [0, 0, 0, 0] := by
  rw [getMpSsh2_eq] at h
  obtain ⟨bytes, hget, hnot, rfl⟩ := h
  obtain ⟨len, hlen, rfl⟩ := eq_of_getString hget
  have htake : (putUint32 len ++ (bytes ++ rest)).take 4 = putUint32 len := rfl
  rw [htake]
  by_cases hne : bytes = []
  · subst hne
    have hval : val (mpFromBytesBe (u := u) []) = 0 := by
      rw [val_mpFromBytesBe hu.1]
      rfl
    have hzero : len = 0 := UInt32.toNat_inj.mp hlen.symm
    constructor
    · intro heq
      have h1 := congrArg List.length heq
      simp only [List.length_append, List.length_nil, length_putMpSsh2 (u := u) (by omega), hval,
        Nat.size_zero, length_putUint32] at h1
      omega
    · intro h
      rw [hzero] at h
      exact absurd rfl h
  · have hsize := length_of_not_refused hne hnot
    rw [← val_mpFromBytesBe (u := u) hu.1] at hsize
    have hput : putMpSsh2 (mpFromBytesBe (u := u) bytes) = putUint32 len ++ bytes := by
      have hbytes := bytesOf_mpFromBytesBe (u := u) hu.1 bytes
      rw [putMpSsh2, mpGetNbits_eq (by omega), hsize, hlen, UInt32.ofNat_toNat, ← hlen]
      exact congrArg _ hbytes
    constructor
    · intro _ hzeros
      have h0 := get32bit_put 0 []
      have h1 := get32bit_put len []
      rw [hzeros] at h1
      have hzero : len = 0 := h1.symm.trans h0
      rw [hzero] at hlen
      exact hne (List.eq_nil_of_length_eq_zero hlen)
    · intro _
      rw [hput, List.append_assoc]

end RoundTrip

/-- A number survives the round trip exactly if it is not zero and its encoding has fewer than `2 ^ 32`
bytes; and an encoding that is accepted is written again as it was exactly if it is not that of zero. -/
theorem mpSsh2_iff (hu : u = 5 ∨ u = 6) :
    (∀ x : OwnMpInt u, RoundTrips x.words ↔
      val x.words ≠ 0 ∧ val x.words < 2 ^ (8 * (2 ^ 32 - 1) - 1)) ∧
    ∀ (data rest : List UInt8) (y : MpInt u), getMpSsh2 ⟨data, false⟩ = (y, ⟨rest, false⟩) →
      (data = putMpSsh2 y ++ rest ↔ data.take 4 ≠ [0, 0, 0, 0]) := by
  have hu' : 3 ≤ u ∧ u ≤ 6 := by omega
  refine ⟨fun x => ?_, fun data rest y h => ?_⟩
  · rw [← Nat.size_le]
    constructor
    · intro h
      constructor
      · intro hzero
        exact not_roundTrips_zero hu' hzero h
      · by_contra hlong
        exact not_roundTrips_long hu' (by omega) h
    · rintro ⟨hne, hsize⟩
      exact roundTrips_of hu' hne (by omega)
  · exact reencode_iff hu' h

theorem mpSsh2_iff_one : ∃ y : MpInt 5,
    getMpSsh2 ⟨putMpSsh2 ([1] : MpInt 5) ++ [7], false⟩ = (y, ⟨[7], false⟩) ∧ val y = 1 := by
  have hval : val ([1] : MpInt 5) = 1 := by simp
  refine ((mpSsh2_iff (.inl rfl)).1 ⟨[1], by simp⟩).mpr ⟨?_, ?_⟩ [7]
  · rw [hval]
    exact one_ne_zero
  · rw [hval]
    exact Nat.one_lt_two_pow (by omega)

/-- Zero is written as one byte, and that is an error. -/
theorem mpSsh2_counterexample :
    putMpSsh2 ([0] : MpInt 6) = [0, 0, 0, 1, 0] ∧
      (getMpSsh2 (u := 6) ⟨[0, 0, 0, 1, 0], false⟩).2.err = true ∧
      ¬ ∀ x : OwnMpInt 6, RoundTrips x.words := by
  refine ⟨by decide, by decide, fun h => ?_⟩
  obtain ⟨y, hy, -⟩ := h ⟨[0], by simp⟩ []
  have herr : (getMpSsh2 (u := 6) ⟨putMpSsh2 ([0] : MpInt 6) ++ [], false⟩).2.err = true := by decide
  rw [hy] at herr
  exact Bool.false_ne_true herr

end PuttyNd.Mpint
