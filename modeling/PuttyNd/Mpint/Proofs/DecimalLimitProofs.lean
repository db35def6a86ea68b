import PuttyNd.Mpint.Proofs.DigitProofs
import Mathlib.Algebra.Order.BigOperators.Group.Finset

/-!
# Proofs: how far the sum of the bytes fits

`maxval` is not a bound of `low_digit` any more once both are folded: what is folded into the lower half
is then less than what `low_digit` may have there. So the sum only fits up to a certain number of words.
-/

namespace PuttyNd.Mpint

open Words

variable {u k m n mv ld hi : ℕ} {s : ByteSum} {w : BignumInt u} {x xs : MpInt u}

/-- What a word adds to `maxval`. -/
def maxWeight (u : ℕ) : ℕ := 6 * 0xFF * BIGNUM_INT_BYTES u

/-- The sum of the first `m` bytes of a word. -/
def byteSum (w : BignumInt u) (m : ℕ) : ℕ := ∑ j ∈ Finset.range m, (wordByte w j).toNat

/-- What a word adds to `low_digit`, unless it is the lowest word. -/
def weight (w : BignumInt u) : ℕ := 6 * byteSum w (BIGNUM_INT_BYTES u)

def folded (v : ℕ) : ℕ := v % 65536 + 6 * (v / 65536)

/-- The sum after the lowest byte. -/
structure After (s : ByteSum) (mv ld : ℕ) : Prop where
  maxval : s.maxval.toNat = mv
  lowDigit : s.lowDigit.toNat = ld
  mult : s.mult = 6

/-! ## One word -/

theorem After.byte {b : UInt32} (h : After s mv ld) (hmv : mv + 6 * 0xFF < 2 ^ 32) :
    After (s.byte b) (mv + 6 * 0xFF) ((ld + 6 * b.toNat) % 2 ^ 32) := by
  obtain ⟨rfl, rfl, hmult⟩ := h
  refine ⟨?_, ?_, rfl⟩
  · show (s.maxval + s.mult * 0xFF).toNat = _
    rw [hmult, UInt32.toNat_add]
    exact Nat.mod_eq_of_lt hmv
  · show (s.lowDigit + s.mult * b).toNat = _
    rw [hmult, UInt32.toNat_add, UInt32.toNat_mul, Nat.add_mod_mod]
    rfl

theorem byteSum_succ (w : BignumInt u) (m : ℕ) : byteSum w (m + 1) = byteSum w m + (wordByte w m).toNat :=
  Finset.sum_range_succ _ _

theorem byteSum_mono (hmn : m ≤ n) : byteSum w m ≤ byteSum w n :=
  Finset.sum_le_sum_of_subset (Finset.range_mono hmn)

theorem After.bytes_mod (h : After s mv ld) (hmv : mv + 6 * 0xFF * m < 2 ^ 32) :
    After (s.bytes w m) (mv + 6 * 0xFF * m) ((ld + 6 * byteSum w m) % 2 ^ 32) := by
  induction m with
  | zero =>
    have hlt := s.lowDigit.toNat_lt
    rw [h.lowDigit] at hlt
    rw [byteSum, Finset.sum_range_zero, Nat.mod_eq_of_lt (show ld + 6 * 0 < 2 ^ 32 from hlt)]
    exact h
  | succ m ih =>
    rw [Nat.mul_add_one (6 * 0xFF), ← Nat.add_assoc] at hmv ⊢
    have hbyte := (ih (by omega)).byte (b := wordByte w m) hmv
    rw [Nat.mod_add_mod, Nat.add_assoc ld, ← Nat.mul_add, ← byteSum_succ] at hbyte
    rw [ByteSum.bytes_succ]
    exact hbyte

theorem After.bytes (h : After s mv ld) (hmv : mv + 6 * 0xFF * m < 2 ^ 32)
    (hld : ld + 6 * byteSum w m < 2 ^ 32) :
    After (s.bytes w m) (mv + 6 * 0xFF * m) (ld + 6 * byteSum w m) := by
  have hbytes := h.bytes_mod (w := w) hmv
  rwa [Nat.mod_eq_of_lt hld] at hbytes

theorem After.bytes_fits_iff (h : After s mv ld) (hmv : mv + 6 * 0xFF * m < 2 ^ 32) :
    (∀ j < m, (s.bytes w j).Fits (wordByte w j)) ↔ ld + 6 * byteSum w m < 2 ^ 32 := by
  constructor
  · intro hfits
    induction m with
    | zero =>
      have hlt := s.lowDigit.toNat_lt
      rw [h.lowDigit] at hlt
      exact hlt
    | succ m ih =>
      have hbytes := h.bytes (w := w) (m := m) (by omega) (ih (by omega) fun j hj => hfits j (by omega))
      have hfit := hfits m (Nat.lt_succ_self m)
      rw [ByteSum.Fits, hbytes.lowDigit, hbytes.mult] at hfit
      rw [byteSum_succ]
      have hsix : (6 : UInt32).toNat = 6 := rfl
      rw [hsix] at hfit
      omega
  · intro hld j hj
    have hmono : byteSum w (j + 1) ≤ byteSum w m := byteSum_mono hj
    rw [byteSum_succ] at hmono
    have hbytes := h.bytes (w := w) (m := j) (by omega) (by omega)
    have hsix : (6 : UInt32).toNat = 6 := rfl
    rw [ByteSum.Fits, hbytes.lowDigit, hbytes.mult, hsix]
    omega

theorem maxWeight_lt (hu : u = 5 ∨ u = 6) : maxWeight u < 2 ^ 32 := by
  rcases hu with rfl | rfl <;> decide

/-- The sum is folded if another word might exceed the 32 bits. -/
theorem fold_iff (hu : u = 5 ∨ u = 6) : s.maxval > 0xFFFFFFFF - UInt32.ofNat (6 * 0xFF * BIGNUM_INT_BYTES u) ↔
    ¬ s.maxval.toNat + maxWeight u < 2 ^ 32 := by
  have hlimit : (0xFFFFFFFF - UInt32.ofNat (6 * 0xFF * BIGNUM_INT_BYTES u)).toNat =
      2 ^ 32 - 1 - maxWeight u := by
    rcases hu with rfl | rfl <;> rfl
  have hlt := maxWeight_lt hu
  rw [gt_iff_lt, UInt32.lt_iff_toNat_lt, hlimit]
  omega

/-- What the sum is after a word -/
theorem After.word_mod (hu : u = 5 ∨ u = 6) (h : After s mv ld) (hmv : mv + maxWeight u < 2 ^ 32) :
    if mv + maxWeight u + maxWeight u < 2 ^ 32
      then After (s.word w) (mv + maxWeight u) ((ld + weight w) % 2 ^ 32)
      else After (s.word w) (folded (mv + maxWeight u)) (folded ((ld + weight w) % 2 ^ 32)) := by
  have hbytes : After (s.bytes w (BIGNUM_INT_BYTES u)) (mv + maxWeight u) ((ld + weight w) % 2 ^ 32) :=
    h.bytes_mod hmv
  have hiff := fold_iff (s := s.bytes w (BIGNUM_INT_BYTES u)) hu
  rw [hbytes.maxval] at hiff
  unfold ByteSum.word ByteSum.fold
  by_cases hnext : mv + maxWeight u + maxWeight u < 2 ^ 32
  · rw [if_pos hnext, if_neg fun hmax => hiff.mp hmax hnext]
    exact hbytes
  · rw [if_neg hnext, if_pos (hiff.mpr hnext)]
    obtain ⟨hmax, hlow, hmult⟩ := hbytes
    rw [← hmax, ← hlow]
    exact ⟨toNat_folded _, toNat_folded _, hmult⟩

theorem After.word (hu : u = 5 ∨ u = 6) (h : After s mv ld) (hmv : mv + maxWeight u < 2 ^ 32)
    (hld : ld + weight w < 2 ^ 32) : if mv + maxWeight u + maxWeight u < 2 ^ 32
      then After (s.word w) (mv + maxWeight u) (ld + weight w)
      else After (s.word w) (folded (mv + maxWeight u)) (folded (ld + weight w)) := by
  have hword := h.word_mod (w := w) hu hmv
  rwa [Nat.mod_eq_of_lt hld] at hword

theorem After.word_fits_iff (h : After s mv ld) (hmv : mv + maxWeight u < 2 ^ 32) :
    (∀ j < BIGNUM_INT_BYTES u, (s.bytes w j).Fits (wordByte w j)) ↔ ld + weight w < 2 ^ 32 :=
  h.bytes_fits_iff hmv

/-! ## A run of words -/

theorem fitsFrom_append {ys : MpInt u} : FitsFrom s (xs ++ ys) ↔
    FitsFrom s xs ∧ FitsFrom (xs.foldl ByteSum.word s) ys := by
  induction xs generalizing s with
  | nil => exact ⟨fun h => ⟨trivial, h⟩, And.right⟩
  | cons w xs ih =>
    rw [List.cons_append, FitsFrom, FitsFrom, ih, List.foldl_cons, and_assoc]

/-- Words between two folds: the sum fits if the words together do not exceed the 32 bits. -/
theorem After.run (hu : u = 5 ∨ u = 6) (h : After s mv ld) (hmv : mv + maxWeight u * (xs.length + 1) < 2 ^ 32) :
    (FitsFrom s xs ↔ ld + (xs.map weight).sum < 2 ^ 32) ∧
      (FitsFrom s xs → After (xs.foldl ByteSum.word s) (mv + maxWeight u * xs.length)
        (ld + (xs.map weight).sum)) := by
  induction xs generalizing s mv ld with
  | nil =>
    have hlt := s.lowDigit.toNat_lt
    rw [h.lowDigit] at hlt
    exact ⟨⟨fun _ => hlt, fun _ => trivial⟩, fun _ => h⟩
  | cons w xs ih =>
    have hmul : maxWeight u * ((w :: xs).length + 1) = maxWeight u + maxWeight u * (xs.length + 1) := by
      rw [List.length_cons]
      ring
    have hle : maxWeight u ≤ maxWeight u * (xs.length + 1) := Nat.le_mul_of_pos_right _ (Nat.succ_pos _)
    have hone : mv + maxWeight u + maxWeight u < 2 ^ 32 := by omega
    have hfits := h.word_fits_iff (w := w) (by omega)
    by_cases hw : ld + weight w < 2 ^ 32
    · have hword := h.word hu (by omega) hw
      rw [if_pos hone] at hword
      obtain ⟨hiff, hafter⟩ := ih hword (by omega)
      rw [FitsFrom, hfits, hiff, List.map_cons, List.sum_cons, List.foldl_cons, ← Nat.add_assoc]
      refine ⟨⟨And.right, fun hsum => ⟨hw, hsum⟩⟩, fun hboth => ?_⟩
      have hlen : mv + maxWeight u * (w :: xs).length = mv + maxWeight u + maxWeight u * xs.length := by
        rw [List.length_cons]
        ring
      rw [hlen]
      exact hafter (hiff.mpr hboth.2)
    · rw [FitsFrom, hfits, List.map_cons, List.sum_cons]
      exact ⟨⟨fun hboth => absurd hboth.1 hw, fun hsum => absurd (by omega) hw⟩, fun hboth => absurd hboth.1 hw⟩

theorem byteSum_le (w : BignumInt u) (m : ℕ) (hdvd : 8 ∣ BIGNUM_INT_BITS u) : byteSum w m ≤ 0xFF * m := by
  induction m with
  | zero => exact Nat.le_refl _
  | succ m ih =>
    have hbyte : (wordByte w m).toNat < 256 := by
      rw [toNat_wordByte hdvd]
      exact Nat.mod_lt _ (by decide)
    rw [byteSum_succ]
    omega

theorem bits_dvd (hu : u = 5 ∨ u = 6) : 8 ∣ BIGNUM_INT_BITS u := by
  rcases hu with rfl | rfl <;> decide

theorem weight_le (hu : u = 5 ∨ u = 6) (w : BignumInt u) : weight w ≤ maxWeight u := by
  have hle := byteSum_le w (BIGNUM_INT_BYTES u) (bits_dvd hu)
  unfold weight maxWeight
  omega

theorem sum_weight_le (hu : u = 5 ∨ u = 6) (xs : MpInt u) : (xs.map weight).sum ≤ maxWeight u * xs.length := by
  induction xs with
  | nil => exact Nat.zero_le _
  | cons w xs ih =>
    have hw := weight_le hu w
    rw [List.map_cons, List.sum_cons, List.length_cons, Nat.mul_add_one]
    omega

/-! ## Folds -/

theorem folded_le (hld : ld < 2 ^ 32) : folded ld ≤ 458745 := by
  unfold folded
  omega

/-- From a sum of at most `hi`, with the bound `mv`, no `n` words exceed the 32 bits. -/
def Safe (u mv hi n : ℕ) : Prop :=
  ∀ s ld, After s mv ld → ld ≤ hi → ∀ xs : MpInt u, xs.length ≤ n → FitsFrom s xs

theorem safe_words (hu : u = 5 ∨ u = 6) (hmv : mv + maxWeight u * (n + 1) < 2 ^ 32)
    (hhi : hi + maxWeight u * n < 2 ^ 32) : Safe u mv hi n := by
  intro s ld h hle xs hlen
  have hmul : maxWeight u * xs.length ≤ maxWeight u * n := Nat.mul_le_mul_left _ hlen
  have hmul' : maxWeight u * (xs.length + 1) ≤ maxWeight u * (n + 1) := Nat.mul_le_mul_left _ (by omega)
  have hsum := sum_weight_le hu xs
  exact (h.run hu (by omega)).1.mpr (by omega)

/-- After `n + 1` words the sum is folded, and it is small again. -/
theorem safe_fold (hu : u = 5 ∨ u = 6) (hmv : mv + maxWeight u * (n + 1) < 2 ^ 32)
    (hfold : 2 ^ 32 ≤ mv + maxWeight u * (n + 2)) (hhi : hi + maxWeight u * (n + 1) < 2 ^ 32)
    (hrest : Safe u (folded (mv + maxWeight u * (n + 1))) 458745 m) : Safe u mv hi (n + 1 + m) := by
  intro s ld h hle xs hlen
  by_cases hn : xs.length ≤ n
  · have hmul : maxWeight u * (n + 1) = maxWeight u * n + maxWeight u := by ring
    exact safe_words hu hmv (by omega) s ld h hle xs hn
  · have hlt : n < xs.length := by omega
    obtain ⟨ys, w, zs, rfl, rfl⟩ : ∃ ys w zs, xs = ys ++ w :: zs ∧ ys.length = n :=
      ⟨xs.take n, xs[n], xs.drop (n + 1), by rw [← List.drop_eq_getElem_cons, List.take_append_drop],
        by rw [List.length_take]; omega⟩
    have hsum := sum_weight_le hu ys
    have hw := weight_le hu w
    have hmul : maxWeight u * (ys.length + 1) = maxWeight u * ys.length + maxWeight u := by ring
    have hmul2 : maxWeight u * (ys.length + 2) = maxWeight u * ys.length + maxWeight u + maxWeight u := by ring
    obtain ⟨hiff, hafter⟩ := h.run hu hmv
    have hys : FitsFrom s ys := hiff.mpr (by omega)
    have hword := (hafter hys).word (w := w) hu (by omega) (by omega)
    rw [if_neg (by omega), Nat.add_assoc, ← hmul] at hword
    have hfits := (hafter hys).word_fits_iff (w := w) (by omega)
    rw [fitsFrom_append, FitsFrom]
    refine ⟨hys, hfits.mpr (by omega), ?_⟩
    refine hrest _ _ hword (folded_le (by omega)) zs ?_
    rw [List.length_append, List.length_cons] at hlen
    omega

/-- From a sum of `ld`, with the bound `mv`, `n` words with all bits set exceed the 32 bits. -/
def Exceeds (u mv ld n : ℕ) : Prop :=
  ∀ s, After s mv ld → ¬ FitsFrom s (List.replicate n (BitVec.allOnes _ : BignumInt u))

theorem weight_allOnes (hu : u = 5 ∨ u = 6) : weight (BitVec.allOnes _ : BignumInt u) = maxWeight u := by
  rcases hu with rfl | rfl <;> decide

theorem sum_weight_replicate (w : BignumInt u) (n : ℕ) :
    ((List.replicate n w).map weight).sum = weight w * n := by
  rw [List.map_replicate, List.sum_replicate_nat, Nat.mul_comm]

/-- Words with all bits set, without a fold -/
theorem After.ones (hu : u = 5 ∨ u = 6) (h : After s mv ld) (hmv : mv + maxWeight u * (n + 1) < 2 ^ 32)
    (hld : ld + maxWeight u * n < 2 ^ 32) :
    After ((List.replicate n (BitVec.allOnes _ : BignumInt u)).foldl ByteSum.word s) (mv + maxWeight u * n)
      (ld + maxWeight u * n) := by
  have hrun := @After.run u _ _ _ (List.replicate n (BitVec.allOnes _)) hu h
    (by rw [List.length_replicate]; exact hmv)
  rw [sum_weight_replicate, weight_allOnes hu, List.length_replicate] at hrun
  exact hrun.2 (hrun.1.mpr hld)

/-- Words with all bits set, with a fold after the last -/
theorem After.ones_fold (hu : u = 5 ∨ u = 6) (h : After s mv ld) (hmv : mv + maxWeight u * (n + 1) < 2 ^ 32)
    (hfold : 2 ^ 32 ≤ mv + maxWeight u * (n + 2)) (hld : ld + maxWeight u * (n + 1) < 2 ^ 32) :
    After ((List.replicate (n + 1) (BitVec.allOnes _ : BignumInt u)).foldl ByteSum.word s)
      (folded (mv + maxWeight u * (n + 1))) (folded (ld + maxWeight u * (n + 1))) := by
  have hmul : maxWeight u * (n + 1) = maxWeight u * n + maxWeight u := by ring
  have hmul2 : maxWeight u * (n + 2) = maxWeight u * n + maxWeight u + maxWeight u := by ring
  have hlast : ld + maxWeight u * n + weight (BitVec.allOnes _ : BignumInt u) < 2 ^ 32 := by
    rw [weight_allOnes hu]
    omega
  have hword := (h.ones hu hmv (by omega)).word hu (by omega) hlast
  rw [if_neg (by omega), weight_allOnes hu, Nat.add_assoc, ← hmul, Nat.add_assoc, ← hmul] at hword
  rw [List.replicate_succ', List.foldl_append, List.foldl_cons, List.foldl_nil]
  exact hword

theorem exceeds_run (hu : u = 5 ∨ u = 6) (hmv : mv + maxWeight u * (n + 1) < 2 ^ 32)
    (hld : 2 ^ 32 ≤ ld + maxWeight u * (n + 1)) : Exceeds u mv ld (n + 1) := by
  intro s h hfits
  rw [List.replicate_succ', fitsFrom_append, FitsFrom] at hfits
  have hmul : maxWeight u * (n + 1) = maxWeight u * n + maxWeight u := by ring
  have hrun := (h.run hu (by rw [List.length_replicate]; exact hmv)).1.mp hfits.1
  rw [sum_weight_replicate, weight_allOnes hu] at hrun
  have hlast := ((h.ones hu hmv hrun).word_fits_iff (by omega)).mp hfits.2.1
  rw [weight_allOnes hu] at hlast
  omega

theorem exceeds_fold (hu : u = 5 ∨ u = 6) (hmv : mv + maxWeight u * (n + 1) < 2 ^ 32)
    (hfold : 2 ^ 32 ≤ mv + maxWeight u * (n + 2)) (hld : ld + maxWeight u * (n + 1) < 2 ^ 32)
    (hrest : Exceeds u (folded (mv + maxWeight u * (n + 1))) (folded (ld + maxWeight u * (n + 1))) m) :
    Exceeds u mv ld (n + 1 + m) := by
  intro s h hfits
  rw [List.replicate_add, fitsFrom_append] at hfits
  exact hrest _ (h.ones_fold hu hmv hfold hld) hfits.2

/-! ## The lowest word -/

theorem bytes_init (hdvd : 8 ∣ BIGNUM_INT_BITS u) (hm : 6 * 0xFF * (m + 1) < 2 ^ 32) :
    After (ByteSum.init.bytes w (m + 1)) (0xFF + 6 * 0xFF * m)
      (6 * byteSum w (m + 1) - 5 * (wordByte w 0).toNat) := by
  induction m with
  | zero =>
    have hbyte : (wordByte w 0).toNat < 2 ^ 32 := (wordByte w 0).toNat_lt
    refine ⟨rfl, ?_, rfl⟩
    rw [byteSum_succ, byteSum, Finset.sum_range_zero, ByteSum.bytes_succ]
    show (0 + 1 * wordByte w 0).toNat = _
    rw [UInt32.one_mul, UInt32.zero_add]
    omega
  | succ m ih =>
    have hle := byteSum_le w (m + 2) hdvd
    have hfirst : (wordByte w 0).toNat ≤ byteSum w (m + 1) := by
      have hmono : byteSum w 1 ≤ byteSum w (m + 1) := byteSum_mono (by omega)
      rwa [byteSum_succ, byteSum, Finset.sum_range_zero, Nat.zero_add] at hmono
    have hmax : 0xFF + 6 * 0xFF * m + 6 * 0xFF < 2 ^ 32 := by omega
    have hbyte := (ih (by omega)).byte (b := wordByte w (m + 1)) hmax
    rw [byteSum_succ] at hle
    rw [Nat.mod_eq_of_lt (by omega)] at hbyte
    have hsum : 6 * (byteSum w (m + 1) + (wordByte w (m + 1)).toNat) - 5 * (wordByte w 0).toNat =
        6 * byteSum w (m + 1) - 5 * (wordByte w 0).toNat + 6 * (wordByte w (m + 1)).toNat := by omega
    rw [ByteSum.bytes_succ, byteSum_succ w (m + 1), hsum, Nat.mul_add_one (6 * 0xFF), ← Nat.add_assoc]
    exact hbyte

/-- The sum after the lowest word, whose lowest byte has the weight 1. -/
theorem word_init (hu : u = 5 ∨ u = 6) (w : BignumInt u) :
    (∀ j < BIGNUM_INT_BYTES u, (ByteSum.init.bytes w j).Fits (wordByte w j)) ∧
      After (ByteSum.init.word w) (maxWeight u - 1275) (weight w - 5 * (wordByte w 0).toNat) := by
  have hdvd := bits_dvd hu
  obtain ⟨m, hm, hmax⟩ : ∃ m, BIGNUM_INT_BYTES u = m + 1 ∧ m < 8 := by
    rcases hu with rfl | rfl
    · exact ⟨3, rfl, by decide⟩
    · exact ⟨7, rfl, by decide⟩
  constructor
  · intro j hj
    have hbyte := (wordByte w j).toNat_lt
    cases j with
    | zero =>
      show 0 + 1 * (wordByte w 0).toNat < _
      omega
    | succ j =>
      have hle := byteSum_le w (j + 2) hdvd
      rw [byteSum_succ] at hle
      have hsum := bytes_init (w := w) (m := j) hdvd (by omega)
      have hsix : (6 : UInt32).toNat = 6 := rfl
      rw [ByteSum.Fits, hsum.lowDigit, hsum.mult, hsix]
      omega
  · have hsum := bytes_init (w := w) (m := m) hdvd (by omega)
    have hmv : 0xFF + 6 * 0xFF * m = maxWeight u - 1275 := by
      rw [maxWeight, hm]
      omega
    rw [hmv, ← hm] at hsum
    have hkeep : maxWeight u - 1275 + maxWeight u < 2 ^ 32 := by
      rw [maxWeight, hm]
      omega
    rw [ByteSum.word, ByteSum.fold, if_neg]
    · exact hsum
    · rw [fold_iff hu, hsum.maxval]
      exact not_not_intro hkeep

theorem sumFits_of_safe (hu : u = 5 ∨ u = 6) (h : Safe u (maxWeight u - 1275) (maxWeight u) n)
    (hlen : x.length ≤ n + 1) : SumFits x := by
  cases x with
  | nil => trivial
  | cons w x =>
    obtain ⟨hfits, hafter⟩ := word_init hu w
    have hw := weight_le hu w
    exact ⟨hfits, h _ _ hafter (by omega) x (by simpa using hlen)⟩

/-- The sum after zeroes and another word -/
theorem after_zeroes (hu : u = 5 ∨ u = 6) (hm : maxWeight u * (m + 3) < 2 ^ 32) :
    After ((0 :: List.replicate m 0 ++ [w]).foldl ByteSum.word .init)
      (maxWeight u - 1275 + maxWeight u * (m + 1)) (weight w) := by
  have hafter := (word_init hu 0).2
  have hzero : weight (0 : BignumInt u) = 0 := by rcases hu with rfl | rfl <;> decide
  have hpos : 1275 ≤ maxWeight u := by rcases hu with rfl | rfl <;> decide
  have hmul : maxWeight u * (m + 3) = maxWeight u * m + maxWeight u + maxWeight u + maxWeight u := by ring
  have hmul1 : maxWeight u * (m + 1) = maxWeight u * m + maxWeight u := by ring
  have hw := weight_le hu w
  rw [hzero, Nat.zero_sub] at hafter
  have hrun := @After.run u _ _ _ (List.replicate m 0) hu hafter (by rw [List.length_replicate]; omega)
  rw [sum_weight_replicate, hzero, Nat.zero_mul, List.length_replicate] at hrun
  have hword := (hrun.2 (hrun.1.mpr (by decide))).word (w := w) hu (by omega) (by omega)
  rw [if_pos (by omega), Nat.zero_add, Nat.add_assoc, ← hmul1] at hword
  rw [List.foldl_append, List.foldl_cons, List.foldl_cons, List.foldl_nil]
  exact hword

/-- Zeroes, another word, and words with all bits set. -/
theorem not_sumFits_of_exceeds (hu : u = 5 ∨ u = 6) (hm : maxWeight u * (m + 3) < 2 ^ 32)
    (h : Exceeds u (maxWeight u - 1275 + maxWeight u * (m + 1)) (weight w) n) :
    ¬ SumFits (0 :: List.replicate m 0 ++ [w] ++ List.replicate n (BitVec.allOnes _)) := by
  intro hfits
  rw [SumFits, fitsFrom_append] at hfits
  exact h _ (after_zeroes hu hm) hfits.2

/-! ## The limit -/

/-- Below so many words the sum of the bytes fits. -/
def decimalLimit (u : ℕ) : ℕ := if u = 5 then 7017246 else 1052613

theorem safe_folds (j : ℕ) (hj : j ≤ 8) : Safe 5 (453135 + 510 * j) 458745 (701717 * (j + 1)) := by
  have hstep : maxWeight 5 = 6120 := rfl
  induction j with
  | zero => exact safe_words (.inl rfl) (by rw [hstep]; omega) (by rw [hstep]; omega)
  | succ j ih =>
    have hfold : folded (453135 + 510 * (j + 1) + maxWeight 5 * (701716 + 1)) = 453135 + 510 * j := by
      rw [hstep, folded]
      omega
    have hlen : 701717 * (j + 1 + 1) = 701716 + 1 + 701717 * (j + 1) := by ring
    rw [hlen]
    refine safe_fold (.inl rfl) (by rw [hstep]; omega) (by rw [hstep]; omega) (by rw [hstep]; omega) ?_
    rw [hfold]
    exact ih (by omega)

theorem exceeds_folds (j : ℕ) (hj : j ≤ 8) :
    Exceeds 5 (453135 + 510 * j) (454654 + 510 * j) (701717 * j + 701718) := by
  have hstep : maxWeight 5 = 6120 := rfl
  induction j with
  | zero => exact exceeds_run (.inl rfl) (by rw [hstep]; omega) (by rw [hstep]; omega)
  | succ j ih =>
    have hfold : folded (453135 + 510 * (j + 1) + maxWeight 5 * (701716 + 1)) = 453135 + 510 * j := by
      rw [hstep, folded]
      omega
    have hlow : folded (454654 + 510 * (j + 1) + maxWeight 5 * (701716 + 1)) = 454654 + 510 * j := by
      rw [hstep, folded]
      omega
    have hlen : 701717 * (j + 1) + 701718 = 701716 + 1 + (701717 * j + 701718) := by ring
    rw [hlen]
    refine exceeds_fold (.inl rfl) (by rw [hstep]; omega) (by rw [hstep]; omega) (by rw [hstep]; omega) ?_
    rw [hfold, hlow]
    exact ih (by omega)

theorem sumFits_of_lt (hu : u = 5 ∨ u = 6) (hlen : x.length < decimalLimit u) : SumFits x := by
  rcases hu with rfl | rfl
  · have hstep : maxWeight 5 = 6120 := rfl
    have hfold : folded (maxWeight 5 - 1275 + maxWeight 5 * (701790 + 1)) = 453135 + 510 * 8 := rfl
    have hrest := safe_folds 8 (Nat.le_refl 8)
    rw [← hfold] at hrest
    refine sumFits_of_safe (.inl rfl) (safe_fold (.inl rfl) ?_ ?_ ?_ hrest) (Nat.le_of_lt_succ hlen)
    all_goals
      rw [hstep]
      omega
  · have hstep : maxWeight 6 = 12240 := rfl
    have hfold : folded (maxWeight 6 - 1275 + maxWeight 6 * (350894 + 1)) = 457215 := rfl
    have hfold2 : folded (457215 + maxWeight 6 * (350857 + 1)) = 450585 := rfl
    have hlast : Safe 6 450585 458745 350858 :=
      safe_words (.inr rfl) (by rw [hstep]; omega) (by rw [hstep]; omega)
    rw [← hfold2] at hlast
    have hrest : Safe 6 457215 458745 (350857 + 1 + 350858) :=
      safe_fold (.inr rfl) (by rw [hstep]; omega) (by rw [hstep]; omega) (by rw [hstep]; omega) hlast
    rw [← hfold] at hrest
    refine sumFits_of_safe (.inr rfl) (safe_fold (.inr rfl) ?_ ?_ ?_ hrest) (Nat.le_of_lt_succ hlen)
    all_goals
      rw [hstep]
      omega

/-- A number of that many words whose sum of the bytes does not fit. -/
def exceeding : ∀ u, MpInt u
  | 5 => 0 :: List.replicate 9 0 ++ [0x54FF] ++ List.replicate 7017235 (BitVec.allOnes _)
  | 6 => 0 :: List.replicate 4 0 ++ [BitVec.allOnes _] ++ List.replicate 1052607 (BitVec.allOnes _)
  | _ => []

theorem length_exceeding (hu : u = 5 ∨ u = 6) : (exceeding u).length = decimalLimit u := by
  rcases hu with rfl | rfl
  all_goals
    rw [exceeding, List.length_append, List.length_append, List.length_cons, List.length_replicate,
      List.length_replicate]
    rfl

theorem not_sumFits_exceeding (hu : u = 5 ∨ u = 6) : ¬ SumFits (exceeding u) := by
  rcases hu with rfl | rfl
  · have hstep : maxWeight 5 = 6120 := rfl
    have hweight : weight (0x54FF : BignumInt 5) = 2034 := by decide
    have hfold : folded (66045 + maxWeight 5 * (701780 + 1)) = 453135 + 510 * 8 := rfl
    have hlow : folded (2034 + maxWeight 5 * (701780 + 1)) = 454654 + 510 * 8 := rfl
    have hrest := exceeds_folds 8 (Nat.le_refl 8)
    rw [← hfold, ← hlow] at hrest
    refine not_sumFits_of_exceeds (.inl rfl) (by decide) ?_
    rw [hweight]
    exact exceeds_fold (.inl rfl) (by rw [hstep]; omega) (by rw [hstep]; omega) (by rw [hstep]; omega) hrest
  · have hstep : maxWeight 6 = 12240 := rfl
    have hfold : folded (72165 + maxWeight 6 * (350889 + 1)) = 457215 := rfl
    have hlow : folded (12240 + maxWeight 6 * (350889 + 1)) = 397290 := rfl
    have hfold2 : folded (457215 + maxWeight 6 * (350857 + 1)) = 450585 := rfl
    have hlow2 : folded (397290 + maxWeight 6 * (350857 + 1)) = 456190 := rfl
    have hlast : Exceeds 6 450585 456190 (350858 + 1) :=
      exceeds_run (.inr rfl) (by rw [hstep]; omega) (by rw [hstep]; omega)
    rw [← hfold2, ← hlow2] at hlast
    have hrest : Exceeds 6 457215 397290 (350857 + 1 + (350858 + 1)) :=
      exceeds_fold (.inr rfl) (by rw [hstep]; omega) (by rw [hstep]; omega) (by rw [hstep]; omega) hlast
    rw [← hfold, ← hlow] at hrest
    refine not_sumFits_of_exceeds (.inr rfl) (by decide) ?_
    rw [weight_allOnes (.inr rfl)]
    exact exceeds_fold (.inr rfl) (by rw [hstep]; omega) (by rw [hstep]; omega) (by rw [hstep]; omega) hrest

/-- There the sum loses `2 ^ 32`, so its last digit is not that of the number. -/
theorem toNat_lowDigit_exceeding : (lowDigit (exceeding 6)).toNat = 4 := by
  have hu : (6 : ℕ) = 5 ∨ 6 = 6 := .inr rfl
  have hstep : maxWeight 6 = 12240 := rfl
  have hsplit : exceeding 6 = 0 :: List.replicate 4 0 ++ [BitVec.allOnes _] ++
      (List.replicate (350889 + 1) (BitVec.allOnes _) ++ (List.replicate (350857 + 1) (BitVec.allOnes _) ++
        List.replicate 350858 (BitVec.allOnes _))) ++ [BitVec.allOnes _] := by
    rw [← List.replicate_add, ← List.replicate_add, List.append_assoc (_ ++ _), ← List.replicate_succ']
    rfl
  have hfirst : After ((0 :: List.replicate 4 0 ++ [(BitVec.allOnes _ : BignumInt 6)]).foldl ByteSum.word .init)
      72165 12240 := by
    have hzeroes := after_zeroes (w := (BitVec.allOnes _ : BignumInt 6)) (m := 4) hu (by decide)
    rw [weight_allOnes hu] at hzeroes
    exact hzeroes
  have hsecond : After _ 457215 397290 :=
    hfirst.ones_fold hu (n := 350889) (by rw [hstep]; omega) (by rw [hstep]; omega) (by rw [hstep]; omega)
  have hthird : After _ 450585 456190 :=
    hsecond.ones_fold hu (n := 350857) (by rw [hstep]; omega) (by rw [hstep]; omega) (by rw [hstep]; omega)
  have hlast := hthird.ones hu (n := 350858) (by rw [hstep]; omega) (by rw [hstep]; omega)
  have hword := hlast.word_mod (w := BitVec.allOnes _) hu (by rw [hstep]; omega)
  rw [if_neg (by rw [hstep]; omega), weight_allOnes hu] at hword
  rw [lowDigit, toNat_reduceDigit, hsplit, List.foldl_append, List.foldl_append, List.foldl_append,
    List.foldl_append, List.foldl_cons, List.foldl_nil, hword.lowDigit]
  rfl

theorem val_allOnes_mod (n : ℕ) : val (List.replicate n (BitVec.allOnes _ : BignumInt 6)) % 5 = 0 := by
  have hpow : 2 ^ BIGNUM_INT_BITS 6 = 18446744073709551616 := rfl
  induction n with
  | zero => rfl
  | succ n ih =>
    rw [List.replicate_succ, val_cons, BitVec.toNat_allOnes, hpow]
    omega

theorem val_exceeding : val (exceeding 6) % 10 = 0 := by
  have hpow : 2 ^ BIGNUM_INT_BITS 6 = 18446744073709551616 := rfl
  have hsplit : exceeding 6 = 0 :: (List.replicate 4 0 ++ List.replicate (1052607 + 1) (BitVec.allOnes _)) := by
    rw [List.replicate_succ (n := 1052607), exceeding, List.append_assoc]
    rfl
  have hones := val_allOnes_mod (1052607 + 1)
  rw [hsplit, val_cons, val_append, val_replicate, List.length_replicate, pow_mul, hpow, toNat_zero]
  omega

/-- The sum of the bytes fits for all numbers of a size exactly if the size is below the limit. -/
theorem sumFits_iff_lt (hu : u = 5 ∨ u = 6) (nw : ℕ) :
    (∀ x : MpInt u, x.length = nw → SumFits x) ↔ nw < decimalLimit u := by
  constructor
  · intro hall
    by_contra hge
    have hlen := length_exceeding hu
    refine not_sumFits_exceeding hu (fitsFrom_append.mp (hall (exceeding u ++ List.replicate (nw - decimalLimit u) 0) ?_)).1
    rw [List.length_append, hlen, List.length_replicate]
    omega
  · rintro hlt x rfl
    exact sumFits_of_lt hu hlt

end PuttyNd.Mpint
