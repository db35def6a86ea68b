import PuttyNd.Mpint.Decimal
import PuttyNd.Mpint.Proofs.IntegersProofs
import PuttyNd.Mpint.Proofs.MpintProofs

/-!
# Proofs: trimming leading zeroes

A pass with a set mask shifts the characters down. The passes for the bits of the count shift them by the
count; what is left behind the end of the string does not matter.
-/

namespace PuttyNd.Mpint

variable {buf out : List UInt8} {d i m t z pos trim maxtrim : ℕ}

/-! ## The count -/

/-- The search finds the end of the zeroes, if it is in the part that is searched. -/
theorem trimCount_spec {c : UInt8} {rest : List UInt8} (hc : c ≠ 48) :
    trimCount (List.replicate z 48 ++ c :: rest) pos trim = if z < pos then z else trim := by
  induction pos generalizing trim with
  | zero => rfl
  | succ pos ih =>
    rw [trimCount, ih]
    rcases Nat.lt_trichotomy z pos with hlt | rfl | hgt
    · rw [if_pos hlt, if_pos (by omega)]
    · have hget : (List.replicate z 48 ++ c :: rest).getD z 0 = c := by
        rw [List.getD_append_right _ _ _ _ (by simp)]
        simp
      rw [if_neg (Nat.lt_irrefl z), hget, if_pos hc, if_pos (Nat.lt_succ_self z)]
    · have hget : (List.replicate z 48 ++ c :: rest).getD pos 0 = 48 := by
        rw [List.getD_append _ _ _ _ (by simpa using hgt)]
        simp [hgt]
      rw [if_neg (by omega), hget, if_neg (by decide), if_neg (by omega)]

/-! ## One pass -/

/-- `out` has the characters of `buf` from place `t` on. -/
structure Shifted (t : ℕ) (buf out : List UInt8) : Prop where
  length : out.length = buf.length
  getD : ∀ i, i + t < buf.length → out.getD i 0 = buf.getD (i + t) 0

theorem Shifted.take (h : Shifted t buf out) : out.take (buf.length - t) = buf.drop t := by
  refine List.ext_getElem ?_ fun i hi hi' => ?_
  · rw [List.length_take, List.length_drop, h.length]
    omega
  · have hlt : i + t < buf.length := by
      rw [List.length_drop] at hi'
      omega
    have hout : i < out.length := by
      rw [h.length]
      omega
    have hget := h.getD i hlt
    rw [List.getD_eq_getElem _ _ hout, List.getD_eq_getElem _ _ hlt] at hget
    rw [List.getElem_take, List.getElem_drop, hget]
    congr 1
    exact Nat.add_comm i t

theorem swapMasked_zero : swapMasked 0 d buf i = buf := by
  have hset : ∀ (l : List UInt8) (j : ℕ), l.set j (l.getD j 0) = l := fun l j => by
    by_cases hj : j < l.length
    · rw [List.getD_eq_getElem _ _ hj, List.set_getElem_self]
    · exact List.set_eq_of_length_le (Nat.le_of_not_lt hj)
  unfold swapMasked
  simp only [UInt8.zero_and, UInt8.xor_zero, hset]

theorem swapMasked_ones : swapMasked (-1) d buf i =
    (buf.set i (buf.getD (i + d) 0)).set (i + d) (buf.getD i 0) := by
  have hleft : ∀ x y : UInt8, x ^^^ (x ^^^ y) = y := fun x y => by
    rw [← UInt8.xor_assoc, UInt8.xor_self, UInt8.zero_xor]
  have hright : ∀ x y : UInt8, y ^^^ (x ^^^ y) = x := fun x y => by
    rw [UInt8.xor_comm x, hleft]
  unfold swapMasked
  simp only [UInt8.neg_one_and, hleft, hright]

theorem getD_set {l : List UInt8} {j : ℕ} {c : UInt8} (hj : j < l.length) :
    (l.set j c).getD i 0 = if j = i then c else l.getD i 0 := by
  rw [List.getD_eq_getElem?_getD, List.getD_eq_getElem?_getD, List.getElem?_set]
  split_ifs <;> rfl

/-- After some rounds of a pass, the characters before are those `d` places further on, and those that
have still to be moved are as they were. -/
structure Moved (d m : ℕ) (buf out : List UInt8) : Prop where
  length : out.length = buf.length
  before : ∀ i < m, out.getD i 0 = buf.getD (i + d) 0
  behind : ∀ i, m + d ≤ i → out.getD i 0 = buf.getD i 0

theorem moved_foldl (hd : 0 < d) (hm : m + d ≤ buf.length) :
    Moved d m buf ((List.range m).foldl (swapMasked (-1) d) buf) := by
  induction m with
  | zero => exact ⟨rfl, fun i hi => absurd hi (Nat.not_lt_zero i), fun _ _ => rfl⟩
  | succ m ih =>
    obtain ⟨hlen, hbefore, hbehind⟩ := ih (by omega)
    rw [List.range_succ, List.foldl_append, List.foldl_cons, List.foldl_nil, swapMasked_ones]
    generalize (List.range m).foldl (swapMasked (-1) d) buf = out at hlen hbefore hbehind ⊢
    refine ⟨by simp [hlen], fun i hi => ?_, fun i hi => ?_⟩
    · rw [getD_set (by rw [List.length_set]; omega), if_neg (by omega), getD_set (by omega)]
      by_cases him : m = i
      · rw [if_pos him, ← him, hbehind _ (Nat.le_refl _)]
      · rw [if_neg him]
        exact hbefore i (by omega)
    · rw [getD_set (by rw [List.length_set]; omega), if_neg (by omega), getD_set (by omega),
        if_neg (by omega)]
      exact hbehind i (by omega)

theorem shiftPass_zero : shiftPass 0 d buf = buf := by
  unfold shiftPass
  induction List.range (buf.length - d) with
  | nil => rfl
  | cons i is ih => rw [List.foldl_cons, swapMasked_zero, ih]

/-- A pass with a set mask shifts by `d` more characters. -/
theorem Shifted.pass (h : Shifted t buf out) (hd : 0 < d) (hle : d ≤ buf.length) :
    Shifted (t + d) buf (shiftPass (-1) d out) := by
  obtain ⟨hlen, hbefore, -⟩ := @moved_foldl out d (out.length - d) hd (by rw [h.length]; omega)
  refine ⟨hlen.trans h.length, fun i hi => ?_⟩
  rw [shiftPass, hbefore i (by rw [h.length]; omega), h.getD _ (by omega)]
  congr 1
  omega

/-! ## All passes -/

theorem passes_shifted (hm : m ≤ Nat.size buf.length) :
    Shifted (trim % 2 ^ m) buf ((List.range m).foldl
      (fun buf logd => shiftPass (-UInt8.ofNat ((trim >>> logd) &&& 1)) (1 <<< logd) buf) buf) := by
  induction m with
  | zero =>
    rw [pow_zero, Nat.mod_one]
    exact ⟨rfl, fun _ _ => rfl⟩
  | succ m ih =>
    have hpass := ih (by omega)
    rw [List.range_succ, List.foldl_append, List.foldl_cons, List.foldl_nil, Nat.mod_pow_succ,
      Nat.shiftRight_eq_div_pow, Nat.and_one_is_mod, Nat.one_shiftLeft]
    rcases Nat.mod_two_eq_zero_or_one (trim / 2 ^ m) with h | h
    · rw [h, Nat.mul_zero, Nat.add_zero]
      show Shifted _ _ (shiftPass 0 _ _)
      rw [shiftPass_zero]
      exact hpass
    · rw [h, Nat.mul_one]
      exact hpass.pass (Nat.two_pow_pos m) (Nat.lt_size.mp (by omega))

/-- The string is shifted by the count. -/
theorem trimLeadingZeroes_shifted (hlt : trimCount buf maxtrim maxtrim < buf.length) :
    Shifted (trimCount buf maxtrim maxtrim) buf (trimLeadingZeroes buf maxtrim) := by
  have h := @passes_shifted buf _ (trimCount buf maxtrim maxtrim) (Nat.le_refl _)
  rwa [Nat.mod_eq_of_lt (lt_trans hlt (Nat.lt_size_self _))] at h

/-- Zeroes before another character are trimmed, up to the maximum. -/
theorem trimLeadingZeroes_zeroes {c : UInt8} {rest : List UInt8} (hc : c ≠ 48)
    (hbuf : buf = List.replicate z 48 ++ c :: rest) (hmax : maxtrim < buf.length) :
    Shifted (min z maxtrim) buf (trimLeadingZeroes buf maxtrim) := by
  have hcount : trimCount buf maxtrim maxtrim = min z maxtrim := by
    rw [hbuf, trimCount_spec hc]
    split_ifs <;> omega
  rw [← hcount]
  exact trimLeadingZeroes_shifted (by omega)

/-- The string that is found at the start after a shift. -/
theorem Shifted.takeWhile {str : List UInt8} (h : Shifted t buf out) (hstr : 0 ∉ str)
    (hdrop : buf.drop t = str ++ [0]) : out.takeWhile (· ≠ 0) = str := by
  have hout : out = (str ++ [0]) ++ out.drop (buf.length - t) := by
    rw [← hdrop, ← h.take, List.take_append_drop]
  rw [hout, List.append_assoc, List.takeWhile_append_of_pos]
  · simp
  · intro c hc
    exact decide_eq_true fun hzero => hstr (hzero ▸ hc)

end PuttyNd.Mpint

/-!
## Proofs: the last digit of a number

The sum of the bytes, all but the lowest with the weight 6, is congruent to the number modulo 10, as long
as it stays below `2^32`.
-/

namespace PuttyNd.Mpint

open Words

variable {u k m n : ℕ} {s : ByteSum} {w : BignumInt u} {x xs : MpInt u}

theorem toNat_wordByte (hdvd : 8 ∣ BIGNUM_INT_BITS u) (w : BignumInt u) (j : ℕ) :
    (wordByte w j).toNat = w.toNat / 256 ^ j % 256 := by
  have hW : 2 ^ 8 ≤ 2 ^ BIGNUM_INT_BITS u :=
    Nat.pow_le_pow_right (by decide) (Nat.le_of_dvd (Nat.two_pow_pos u) hdvd)
  have hpow : 2 ^ (8 * j) = 256 ^ j := pow_mul 2 8 j
  have hmask : 0xFF % 2 ^ BIGNUM_INT_BITS u = 2 ^ 8 - 1 := Nat.mod_eq_of_lt (by omega)
  have hmod : w.toNat / 256 ^ j % 256 < 256 := Nat.mod_lt _ (by decide)
  show (BitVec.setWidth 32 ((w >>> (8 * j)) &&& BitVec.ofNat _ 0xFF)).toNat = _
  rw [BitVec.toNat_setWidth, BitVec.toNat_and, BitVec.toNat_ushiftRight, BitVec.toNat_ofNat, hmask,
    Nat.and_two_pow_sub_one_eq_mod, Nat.shiftRight_eq_div_pow, hpow]
  exact Nat.mod_eq_of_lt (by omega)

/-- The addition of a byte does not exceed the 32 bits. -/
def ByteSum.Fits (s : ByteSum) (b : UInt32) : Prop := s.lowDigit.toNat + s.mult.toNat * b.toNat < 2 ^ 32

/-- No addition of a byte exceeds the 32 bits. -/
def FitsFrom : ByteSum → MpInt u → Prop
  | _, [] => True
  | s, w :: x => (∀ j < BIGNUM_INT_BYTES u, (s.bytes w j).Fits (wordByte w j)) ∧ FitsFrom (s.word w) x

/-- The sum of the bytes of a number does not exceed the 32 bits. -/
def SumFits (x : MpInt u) : Prop := FitsFrom .init x

/-! ## The sum modulo 10 -/

/-- The sum of the first `k` bytes of a number, which make the number `n`. -/
structure SumsTo (s : ByteSum) (n k : ℕ) : Prop where
  sum : s.lowDigit.toNat ≡ n [MOD 10]
  weight : s.mult.toNat ≡ 256 ^ k [MOD 10]

theorem sumsTo_init : SumsTo .init 0 0 := ⟨rfl, rfl⟩

/-- All powers of 256 but the lowest end in 6. -/
theorem pow_succ_modEq (k : ℕ) : 6 ≡ 256 ^ (k + 1) [MOD 10] := by
  induction k with
  | zero => rfl
  | succ k ih =>
    rw [pow_succ]
    exact (show 6 ≡ 6 * 256 [MOD 10] from rfl).trans (ih.mul_right 256)

theorem SumsTo.byte {b : UInt32} (h : SumsTo s n k) (hfits : s.Fits b) :
    SumsTo (s.byte b) (n + 256 ^ k * b.toNat) (k + 1) := by
  constructor
  · have hsum : (s.byte b).lowDigit.toNat = s.lowDigit.toNat + s.mult.toNat * b.toNat := by
      show (s.lowDigit + s.mult * b).toNat = _
      rw [UInt32.toNat_add, UInt32.toNat_mul, Nat.add_mod_mod, Nat.mod_eq_of_lt hfits]
    rw [hsum]
    exact h.sum.add (h.weight.mul_right _)
  · exact pow_succ_modEq k

theorem ByteSum.bytes_succ (s : ByteSum) (w : BignumInt u) (m : ℕ) :
    s.bytes w (m + 1) = (s.bytes w m).byte (wordByte w m) := by
  unfold ByteSum.bytes
  rw [List.range_succ, List.foldl_append, List.foldl_cons, List.foldl_nil]

theorem SumsTo.bytes (hdvd : 8 ∣ BIGNUM_INT_BITS u) (h : SumsTo s n k)
    (hfits : ∀ j < m, (s.bytes w j).Fits (wordByte w j)) :
    SumsTo (s.bytes w m) (n + 256 ^ k * (w.toNat % 256 ^ m)) (k + m) := by
  induction m with
  | zero =>
    rw [pow_zero, Nat.mod_one]
    exact h
  | succ m ih =>
    have hstep := (ih fun j hj => hfits j (by omega)).byte (hfits m (Nat.lt_succ_self m))
    rw [ByteSum.bytes_succ, Nat.mod_pow_succ]
    have hsum : n + 256 ^ k * (w.toNat % 256 ^ m + 256 ^ m * (w.toNat / 256 ^ m % 256)) =
        n + 256 ^ k * (w.toNat % 256 ^ m) + 256 ^ (k + m) * (wordByte w m).toNat := by
      rw [toNat_wordByte hdvd, pow_add]
      ring
    rw [hsum]
    exact hstep

theorem toNat_folded (v : UInt32) : ((v &&& (0xFFFF : UInt32)) + (6 : UInt32) * (v >>> (16 : UInt32))).toNat =
    v.toNat % 65536 + 6 * (v.toNat / 65536) := by
  have hlt := v.toNat_lt
  have hand : v.toNat &&& 65535 = v.toNat % 65536 := Nat.and_two_pow_sub_one_eq_mod _ 16
  rw [UInt32.toNat_add, UInt32.toNat_mul, UInt32.toNat_and, UInt32.toNat_shiftRight]
  show ((v.toNat &&& 65535) + 6 * (v.toNat >>> 16) % 2 ^ 32) % 2 ^ 32 = _
  rw [hand, Nat.shiftRight_eq_div_pow]
  omega

/-- Folding does not change the last digit. -/
theorem SumsTo.fold (h : SumsTo s n k) : SumsTo (s.fold u) n k := by
  unfold ByteSum.fold
  by_cases hmax : s.maxval > 0xFFFFFFFF - UInt32.ofNat (6 * 0xFF * BIGNUM_INT_BYTES u)
  · rw [if_pos hmax]
    refine ⟨?_, h.weight⟩
    have hsame : s.lowDigit.toNat % 65536 + 6 * (s.lowDigit.toNat / 65536) ≡ s.lowDigit.toNat [MOD 10] := by
      unfold Nat.ModEq
      omega
    rw [toNat_folded]
    exact hsame.trans h.sum
  · rw [if_neg hmax]
    exact h

theorem pow_bytes (hdvd : 8 ∣ BIGNUM_INT_BITS u) : 256 ^ BIGNUM_INT_BYTES u = 2 ^ BIGNUM_INT_BITS u := by
  rw [show 256 = 2 ^ 8 from rfl, ← pow_mul, Nat.mul_div_cancel' hdvd]

theorem SumsTo.words (hdvd : 8 ∣ BIGNUM_INT_BITS u) (h : SumsTo s n k) (hfits : FitsFrom s x) :
    SumsTo (x.foldl ByteSum.word s) (n + 256 ^ k * val x) (k + BIGNUM_INT_BYTES u * x.length) := by
  induction x generalizing s n k with
  | nil => exact h
  | cons w x ih =>
    have hword : SumsTo (s.word w) (n + 256 ^ k * w.toNat) (k + BIGNUM_INT_BYTES u) := by
      have hbytes := h.bytes hdvd hfits.1
      rw [pow_bytes hdvd, Nat.mod_eq_of_lt w.isLt] at hbytes
      exact hbytes.fold
    have hrest := ih hword hfits.2
    have hsum : n + 256 ^ k * val (w :: x) = n + 256 ^ k * w.toNat + 256 ^ (k + BIGNUM_INT_BYTES u) * val x := by
      rw [val_cons, pow_add, pow_bytes hdvd]
      ring
    have hlen : k + BIGNUM_INT_BYTES u * (w :: x).length =
        k + BIGNUM_INT_BYTES u + BIGNUM_INT_BYTES u * x.length := by
      rw [List.length_cons, Nat.mul_succ]
      omega
    rw [hsum, hlen]
    exact hrest

/-- The final reduction is exact. -/
theorem toNat_reduceDigit (v : UInt32) : (reduceDigit v).toNat = v.toNat % 10 := by
  have hlt := v.toNat_lt
  have hquotient : (((0x19999999 * v.toUInt64) >>> (32 : UInt64)).toUInt32).toNat =
      429496729 * v.toNat / 2 ^ 32 := by
    rw [UInt64.toNat_toUInt32, UInt64.toNat_shiftRight, UInt64.toNat_mul, UInt32.toNat_toUInt64]
    show (429496729 * v.toNat % 2 ^ 64) >>> 32 % 2 ^ 32 = _
    rw [Nat.mod_eq_of_lt (show 429496729 * v.toNat < 2 ^ 64 by omega), Nat.shiftRight_eq_div_pow]
    omega
  unfold reduceDigit
  generalize ((0x19999999 * v.toUInt64) >>> (32 : UInt64)).toUInt32 = quotient at hquotient ⊢
  have hle : 10 * quotient.toNat ≤ v.toNat ∧ v.toNat < 10 * quotient.toNat + 20 := by omega
  have hrest : (v - 10 * quotient).toNat = v.toNat - 10 * quotient.toNat := by
    rw [UInt32.toNat_sub, UInt32.toNat_mul]
    show (2 ^ 32 - 10 * quotient.toNat % 2 ^ 32 + v.toNat) % 2 ^ 32 = _
    omega
  simp only
  generalize v - 10 * quotient = rest at hrest
  have hlow : rest.toNat < 20 ∧ v.toNat % 10 = rest.toNat % 10 := by omega
  have hbit : ((rest + 6) >>> (4 : UInt32)).toNat = (rest.toNat + 6) / 16 := by
    rw [UInt32.toNat_shiftRight, UInt32.toNat_add]
    show ((rest.toNat + 6) % 2 ^ 32) >>> 4 = _
    rw [Nat.shiftRight_eq_div_pow]
    omega
  rw [UInt32.toNat_sub, UInt32.toNat_mul, hbit, hlow.2]
  show (2 ^ 32 - 10 * ((rest.toNat + 6) / 16) % 2 ^ 32 + rest.toNat) % 2 ^ 32 = _
  by_cases hten : rest.toNat < 10
  · have hzero : (rest.toNat + 6) / 16 = 0 := by omega
    rw [hzero, Nat.mod_eq_of_lt hten]
    omega
  · have hone : (rest.toNat + 6) / 16 = 1 := by omega
    rw [hone, show rest.toNat % 10 = rest.toNat - 10 by omega]
    omega

theorem reduceDigit_lt (v : UInt32) : reduceDigit v < 10 := by
  rw [UInt32.lt_iff_toNat_lt, toNat_reduceDigit]
  exact Nat.mod_lt _ (by decide)

/-- The last digit is right, if the sum does not exceed the 32 bits. -/
theorem toNat_lowDigit (hdvd : 8 ∣ BIGNUM_INT_BITS u) (hfits : SumFits x) :
    (lowDigit x).toNat = val x % 10 := by
  have h := (sumsTo_init.words hdvd hfits).sum
  rw [pow_zero, Nat.one_mul, Nat.zero_add] at h
  rw [lowDigit, toNat_reduceDigit]
  exact h

end PuttyNd.Mpint

/-!
## Proofs: numbers from decimal

The number that a prefix of the digits denotes always fits in the words, since all of the number does.
-/

namespace PuttyNd.Mpint

open Words Outcome

variable {u nw words p : ℕ} {a x : MpInt u} {n : UInt16} {c : UInt8} {s : List UInt8}

/-! ## Multiplying by a C integer -/

theorem bignumMULADD_spec (a b c : BignumInt u) :
    (bignumMULADD a b c).1.toNat + 2 ^ BIGNUM_INT_BITS u * (bignumMULADD a b c).2.toNat =
      a.toNat * b.toNat + c.toNat := by
  have ha := a.isLt
  have hb := b.isLt
  have hc := c.isLt
  have hfits : a.toNat * b.toNat + c.toNat < 2 ^ (2 * BIGNUM_INT_BITS u) := by
    rw [two_pow_two_mul]
    nlinarith
  rw [bignumMULADD, halves_spec, BitVec.toNat_add, BitVec.toNat_mul, toNat_dbl, toNat_dbl, toNat_dbl,
    Nat.mod_add_mod, Nat.mod_eq_of_lt hfits]

theorem mulWords_spec {mult : BignumInt u} (ha : a.length ≤ nw) :
    val (mulWords nw a mult).1 + 2 ^ (BIGNUM_INT_BITS u * nw) * (mulWords nw a mult).2.toNat =
      val a * mult.toNat := by
  have hchain := num_chain (B := 2 ^ BIGNUM_INT_BITS u) (n := nw)
    (f := fun i => mult.toNat * (mpWord a i).toNat)
    (g := fun i => (bignumMULADD (mpWord a i) mult (mulCarry a mult i)).1.toNat)
    (c := fun i => (mulCarry a mult i).toNat) (fun i _ => by
      rw [mulCarry, bignumMULADD_spec, Nat.mul_comm])
  rw [num_mul_fun, num_word_of_le ha, mulCarry, toNat_zero, Nat.add_zero, ← pow_mul,
    Nat.mul_comm mult.toNat] at hchain
  rw [mulWords, val_map_range]
  exact hchain

/-- A product that fits in the words of the result is computed, and the assertion holds. -/
theorem mpMulIntegerInto_spec (hn : n.toNat < 2 ^ BIGNUM_INT_BITS u) (ha : a.length ≤ nw)
    (hfits : val a * n.toNat < 2 ^ (BIGNUM_INT_BITS u * nw)) :
    ∃ r, mpMulIntegerInto nw a n = .ok r ∧ r.length = nw ∧ val r = val a * n.toNat := by
  have hmult : (n.toBitVec.setWidth (BIGNUM_INT_BITS u)).toNat = n.toNat := by
    rw [BitVec.toNat_setWidth]
    exact Nat.mod_eq_of_lt hn
  have hspec := @mulWords_spec _ nw _ (n.toBitVec.setWidth (BIGNUM_INT_BITS u)) ha
  have hlen : (mulWords nw a (n.toBitVec.setWidth _)).1.length = nw := by simp [mulWords]
  unfold mpMulIntegerInto
  rw [hmult] at hspec
  generalize mulWords nw a (n.toBitVec.setWidth _) = result at hspec hlen ⊢
  obtain ⟨r, carry⟩ := result
  dsimp only at hspec hlen ⊢
  have hcarry : carry.toNat = 0 := by
    by_contra hne
    have hle := Nat.le_mul_of_pos_right (2 ^ (BIGNUM_INT_BITS u * nw)) (Nat.pos_of_ne_zero hne)
    omega
  have hzero : carry = 0 := BitVec.eq_of_toNat_eq (by rw [hcarry, toNat_zero])
  refine ⟨r, ?_, hlen, ?_⟩
  · rw [check, if_pos hzero]
    rfl
  · rw [hcarry, Nat.mul_zero, Nat.add_zero] at hspec
    exact hspec

/-! ## The digits -/

/-- `0` to `9` -/
def IsDigit (c : UInt8) : Prop := 48 ≤ c.toNat ∧ c.toNat ≤ 57

instance : DecidablePred IsDigit := fun c => inferInstanceAs (Decidable (48 ≤ c.toNat ∧ c.toNat ≤ 57))

/-- The number that digits denote after a number that is there -/
def denotesFrom (p : ℕ) (s : List UInt8) : ℕ := s.foldl (fun p c => 10 * p + (c.toNat - 48)) p

/-- The number that digits denote -/
def denotes (s : List UInt8) : ℕ := denotesFrom 0 s

theorem toNat_digit (hc : IsDigit c) : (c - 48).toUInt64.toNat = c.toNat - 48 := by
  have h : (48 : UInt8) ≤ c := UInt8.le_iff_toNat_le.mpr hc.1
  rw [UInt8.toNat_toUInt64, UInt8.toNat_sub_of_le _ _ h]
  rfl

theorem le_denotesFrom : p ≤ denotesFrom p s := by
  induction s generalizing p with
  | nil => exact Nat.le_refl p
  | cons c s ih =>
    calc p ≤ 10 * p + (c.toNat - 48) := by omega
      _ ≤ denotesFrom p (c :: s) := ih

theorem denotesFrom_lt (hs : ∀ c ∈ s, IsDigit c) : denotesFrom p s < (p + 1) * 10 ^ s.length := by
  induction s generalizing p with
  | nil => simp [denotesFrom]
  | cons c s ih =>
    have hc := hs c List.mem_cons_self
    have hrest := ih (p := 10 * p + (c.toNat - 48)) fun d hd => hs d (List.mem_cons_of_mem c hd)
    calc denotesFrom p (c :: s) < (10 * p + (c.toNat - 48) + 1) * 10 ^ s.length := hrest
      _ ≤ ((p + 1) * 10) * 10 ^ s.length := Nat.mul_le_mul_right _ (by
        have := hc.2
        omega)
      _ = (p + 1) * 10 ^ (c :: s).length := by rw [List.length_cons, pow_succ]; ring

theorem fromDecimalLoop_spec (hW : 8 ≤ BIGNUM_INT_BITS u) (hs : ∀ c ∈ s, IsDigit c) (hne : s ≠ [])
    (hx : x.length = words) (hp : val x = 10 * p)
    (hfits : denotesFrom p s < 2 ^ (BIGNUM_INT_BITS u * words)) :
    ∃ y, fromDecimalLoop words x s = .ok y ∧ val y = denotesFrom p s := by
  induction s generalizing x p with
  | nil => exact absurd rfl hne
  | cons c s ih =>
    have hc := hs c List.mem_cons_self
    have hword : 2 ^ 8 ≤ 2 ^ BIGNUM_INT_BITS u := Nat.pow_le_pow_right (by omega) hW
    have hnext : 10 * p + (c.toNat - 48) ≤ denotesFrom p (c :: s) := le_denotesFrom (s := s)
    have hadd : val (mpAddIntegerInto words x (c - 48).toUInt64) = 10 * p + (c.toNat - 48) := by
      rw [val_mpAddIntegerInto hW, toNat_digit hc, hp, Nat.mod_eq_of_lt (a := c.toNat - 48),
        Nat.mod_eq_of_lt (by omega)]
      have := hc.2
      omega
    rw [fromDecimalLoop]
    by_cases hend : s = []
    · rw [if_pos hend, hend]
      exact ⟨_, rfl, hadd⟩
    · rw [if_neg hend]
      have hten : (10 : UInt16).toNat = 10 := rfl
      obtain ⟨d, rest, rfl⟩ := List.exists_cons_of_ne_nil hend
      have hmore : 10 * (10 * p + (c.toNat - 48)) ≤ denotesFrom p (c :: d :: rest) :=
        Nat.le_trans (by omega) (le_denotesFrom (p := 10 * (10 * p + (c.toNat - 48)) + (d.toNat - 48))
          (s := rest))
      obtain ⟨y, hy, hlen, hval⟩ := @mpMulIntegerInto_spec u words
        (mpAddIntegerInto words x (c - 48).toUInt64) 10
        (by rw [hten]; omega) (by simp) (by rw [hadd, hten]; omega)
      rw [hy, ok_bind]
      rw [hadd, hten, Nat.mul_comm] at hval
      exact ih (fun e he => hs e (List.mem_cons_of_mem c he)) hend hlen hval hfits

/-- Powers to two bases, by a bound of the logarithm of one base to the other -/
theorem pow_le_pow_of_log {b c d e p q : ℕ} (hlog : b ^ q ≤ c ^ p) (hq : q ≠ 0) (hc : 0 < c)
    (hde : d * p ≤ e * q) : b ^ d ≤ c ^ e := by
  refine (Nat.pow_le_pow_iff_left hq).mp ?_
  calc (b ^ d) ^ q = (b ^ q) ^ d := by rw [← pow_mul, ← pow_mul, Nat.mul_comm]
    _ ≤ (c ^ p) ^ d := Nat.pow_le_pow_left hlog _
    _ = c ^ (d * p) := by rw [← pow_mul, Nat.mul_comm]
    _ ≤ c ^ (e * q) := Nat.pow_le_pow_right hc hde
    _ = (c ^ e) ^ q := by rw [← pow_mul]

/-- The words are enough for the digits. -/
theorem digits_fit (hs : ∀ c ∈ s, IsDigit c) :
    denotes s < 2 ^ (BIGNUM_INT_BITS u * (196 * s.length / 59 / BIGNUM_INT_BITS u + 1)) := by
  have hlt := denotesFrom_lt (p := 0) hs
  rw [Nat.zero_add, Nat.one_mul] at hlt
  refine lt_of_lt_of_le hlt (le_trans (b := 2 ^ (196 * s.length / 59 + 1)) ?_ ?_)
  · -- 196 / 59 is greater than the logarithm of 10
    have hlog : 10 ^ 59 ≤ 2 ^ 196 := by norm_num
    exact pow_le_pow_of_log hlog (by decide) (by decide) (by omega)
  · refine Nat.pow_le_pow_right (by omega) ?_
    have hdiv := Nat.div_add_mod (196 * s.length / 59) (BIGNUM_INT_BITS u)
    have hmod := Nat.mod_lt (196 * s.length / 59) (bits_pos (u := u))
    rw [Nat.mul_add, Nat.mul_one]
    omega

/-- Digits are converted to the number that they denote, and no assertion fails. -/
theorem mpFromDecimalPl_spec (hW : 8 ≤ BIGNUM_INT_BITS u) (hs : ∀ c ∈ s, IsDigit c) (hne : s ≠ [])
    (hlen : s.length < (2 ^ 64 - 1) / 196) :
    ∃ x : MpInt u, mpFromDecimalPl s = .ok x ∧ val x = denotes s := by
  unfold mpFromDecimalPl check mpMakeSized
  rw [if_pos hlen, ok_bind]
  dsimp only
  rw [check, if_pos (Nat.succ_ne_zero _)]
  exact fromDecimalLoop_spec hW hs hne (List.length_replicate) val_replicate (digits_fit hs)

end PuttyNd.Mpint
