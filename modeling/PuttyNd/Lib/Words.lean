import Mathlib.Algebra.BigOperators.Group.Finset.Basic
import Mathlib.Algebra.BigOperators.Ring.Finset
import Mathlib.Data.Nat.Bitwise
import Mathlib.Data.Nat.ModEq
import Mathlib.Tactic.Ring

/-!
# Numbers in positional notation

`num B f n` is the number that has the `n` digits `f 0, …, f (n - 1)` to the base `B`, the lowest digit
first. `val l` is the number with the words of the list `l` as its digits. What an algorithm does one
digit at a time, with a carry, is described by `num_chain`.
-/

namespace Words

open Finset

/-- The number with the digits `f 0, …, f (n - 1)` to the base `B`. -/
def num (B : ℕ) (f : ℕ → ℕ) (n : ℕ) : ℕ := ∑ i ∈ range n, f i * B ^ i

section Num

variable {B : ℕ} {f g : ℕ → ℕ} {m n : ℕ}

@[simp] theorem num_zero : num B f 0 = 0 := rfl

theorem num_succ : num B f (n + 1) = num B f n + f n * B ^ n := sum_range_succ _ _

theorem num_congr (h : ∀ i < n, f i = g i) : num B f n = num B g n :=
  sum_congr rfl fun i hi => by rw [h i (mem_range.mp hi)]

theorem num_add_fun : num B (fun i => f i + g i) n = num B f n + num B g n := by
  simp only [num, add_mul, sum_add_distrib]

theorem num_mul_fun (k : ℕ) : num B (fun i => k * f i) n = k * num B f n := by
  simp only [num, mul_assoc, mul_sum]

theorem num_eq_zero (h : ∀ i < n, f i = 0) : num B f n = 0 :=
  sum_eq_zero fun i hi => by rw [h i (mem_range.mp hi), zero_mul]

/-- The digits from `m` on are those of a number of its own. -/
theorem num_split : num B f (m + n) = num B f m + B ^ m * num B (fun i => f (m + i)) n := by
  simp only [num, sum_range_add, mul_sum]
  congr 1
  refine sum_congr rfl fun i _ => ?_
  rw [pow_add]
  ring

theorem num_succ' : num B f (n + 1) = f 0 + B * num B (fun i => f (i + 1)) n := by
  rw [Nat.add_comm n 1, num_split, num_succ]
  simp [Nat.add_comm]

theorem num_lt (h : ∀ i < n, f i < B) : num B f n < B ^ n := by
  induction n with
  | zero => simp
  | succ n ih =>
    have h1 : num B f n < B ^ n := ih fun i hi => h i (by omega)
    have h2 : f n + 1 ≤ B := h n (by omega)
    calc num B f (n + 1) = num B f n + f n * B ^ n := num_succ
      _ < B ^ n + f n * B ^ n := by omega
      _ = (f n + 1) * B ^ n := by ring
      _ ≤ B * B ^ n := Nat.mul_le_mul_right _ h2
      _ = B ^ (n + 1) := by ring

/-- A number is computed one digit at a time, with the carry `c i` into digit `i`. -/
theorem num_chain {c : ℕ → ℕ} (h : ∀ i < n, g i + B * c (i + 1) = f i + c i) :
    num B g n + B ^ n * c n = num B f n + c 0 := by
  induction n with
  | zero => simp
  | succ n ih =>
    have h1 := ih fun i hi => h i (by omega)
    have h2 := h n (by omega)
    calc num B g (n + 1) + B ^ (n + 1) * c (n + 1)
        = num B g n + (g n + B * c (n + 1)) * B ^ n := by rw [num_succ]; ring
      _ = num B g n + (f n + c n) * B ^ n := by rw [h2]
      _ = (num B g n + B ^ n * c n) + f n * B ^ n := by ring
      _ = num B f (n + 1) + c 0 := by rw [h1, num_succ]; ring

theorem num_div (h : ∀ i < n, f i < B) (hmn : m ≤ n) :
    num B f n / B ^ m = num B (fun i => f (m + i)) (n - m) := by
  obtain ⟨k, rfl⟩ := Nat.exists_eq_add_of_le hmn
  have hlt : num B f m < B ^ m := num_lt fun i hi => h i (by omega)
  rw [num_split, Nat.add_mul_div_left _ _ (by omega), Nat.div_eq_of_lt hlt, Nat.zero_add,
    Nat.add_sub_cancel_left]

/-- The number whose digits are the complements. -/
theorem num_compl (h : ∀ i < n, f i < B) :
    num B (fun i => B - 1 - f i) n + num B f n + 1 = B ^ n := by
  induction n with
  | zero => simp
  | succ n ih =>
    have h1 := ih fun i hi => h i (by omega)
    have h2 := h n (by omega)
    calc num B (fun i => B - 1 - f i) (n + 1) + num B f (n + 1) + 1
        = (num B (fun i => B - 1 - f i) n + num B f n + 1) + (B - 1 - f n + f n) * B ^ n := by
          rw [num_succ, num_succ]
          ring
      _ = B ^ n + (B - 1) * B ^ n := by rw [h1, Nat.sub_add_cancel (by omega)]
      _ = (1 + (B - 1)) * B ^ n := by ring
      _ = B ^ (n + 1) := by rw [Nat.add_sub_cancel' (by omega), pow_succ, mul_comm]

/-- A digit of a number. -/
theorem num_digit (h : ∀ i < n, f i < B) (hm : m < n) : num B f n / B ^ m % B = f m := by
  rw [num_div h (by omega), ← Nat.sub_add_cancel (show 1 ≤ n - m by omega), num_succ', Nat.add_zero,
    Nat.add_mul_mod_self_left, Nat.mod_eq_of_lt (h m hm)]

/-- A number is made of its digits. -/
theorem num_digits (x : ℕ) : num B (fun i => x / B ^ i % B) n = x % B ^ n := by
  induction n with
  | zero => simp [Nat.mod_one]
  | succ n ih => rw [num_succ, ih, Nat.mod_pow_succ, Nat.mul_comm]

/-- Numbers with the same digits are equal, and the other way round. -/
theorem num_inj (hf : ∀ i < n, f i < B) (hg : ∀ i < n, g i < B) (h : num B f n = num B g n) :
    ∀ i < n, f i = g i := by
  intro i hi
  rw [← num_digit hf hi, h, num_digit hg hi]

end Num

variable {w : ℕ}

/-- The number with the words `l` as its digits. -/
def val : List (BitVec w) → ℕ
  | [] => 0
  | x :: l => x.toNat + 2 ^ w * val l

/-- The word `i`, or zero if there are not that many. -/
def word (l : List (BitVec w)) (i : ℕ) : BitVec w := l.getD i 0

section Val

variable {l l' : List (BitVec w)} {i k m n : ℕ}

@[simp] theorem val_nil : val ([] : List (BitVec w)) = 0 := rfl

@[simp] theorem val_cons (x : BitVec w) : val (x :: l) = x.toNat + 2 ^ w * val l := rfl

theorem word_of_le (h : l.length ≤ i) : word l i = 0 := by
  simp [word, List.getElem?_eq_none h]

@[simp] theorem word_cons_zero (x : BitVec w) : word (x :: l) 0 = x := rfl

@[simp] theorem word_cons_succ (x : BitVec w) : word (x :: l) (i + 1) = word l i := rfl

theorem word_lt : (word l i).toNat < 2 ^ w := (word l i).isLt

theorem val_lt : val l < 2 ^ (w * l.length) := by
  induction l with
  | nil => simp
  | cons x l ih =>
    have h1 := x.isLt
    rw [val_cons, List.length_cons, Nat.mul_add, mul_one, Nat.add_comm, pow_add, mul_comm _ (2 ^ w)]
    calc 2 ^ w * val l + x.toNat < 2 ^ w * val l + 2 ^ w := by omega
      _ = 2 ^ w * (val l + 1) := by ring
      _ ≤ 2 ^ w * 2 ^ (w * l.length) := Nat.mul_le_mul_left _ ih

theorem val_append : val (l ++ l') = val l + 2 ^ (w * l.length) * val l' := by
  induction l with
  | nil => simp
  | cons x l ih =>
    rw [List.cons_append, val_cons, ih, val_cons, List.length_cons,
      show w * (l.length + 1) = w + w * l.length by ring, pow_add]
    ring

@[simp] theorem val_replicate : val (List.replicate n (0 : BitVec w)) = 0 := by
  induction n with
  | zero => rfl
  | succ n ih => rw [List.replicate_succ, val_cons, ih]; simp

/-- The lowest `n` words. -/
theorem num_word : num (2 ^ w) (fun i => (word l i).toNat) n = val l % 2 ^ (w * n) := by
  induction l generalizing n with
  | nil =>
    rw [num_eq_zero fun i _ => by simp [word]]
    simp
  | cons x l ih =>
    cases n with
    | zero => simp [Nat.mod_one]
    | succ n =>
      have hpow : 2 ^ (w * (n + 1)) = 2 ^ w * 2 ^ (w * n) := by rw [← pow_add]; congr 1; ring
      rw [num_succ', hpow, val_cons]
      simp only [word_cons_zero, word_cons_succ]
      rw [ih, Nat.mod_mul, Nat.add_mul_mod_self_left, Nat.mod_eq_of_lt x.isLt,
        Nat.add_mul_div_left _ _ (Nat.two_pow_pos w), Nat.div_eq_of_lt x.isLt, Nat.zero_add]

theorem num_word_of_le (h : l.length ≤ n) : num (2 ^ w) (fun i => (word l i).toNat) n = val l := by
  rw [num_word, Nat.mod_eq_of_lt]
  exact lt_of_lt_of_le val_lt (Nat.pow_le_pow_right (by omega) (Nat.mul_le_mul_left _ h))

theorem word_eq : (word l i).toNat = val l / 2 ^ (w * i) % 2 ^ w := by
  have h := num_digit (B := 2 ^ w) (n := max l.length (i + 1)) (f := fun i => (word l i).toNat)
    (fun _ _ => word_lt) (show i < max l.length (i + 1) by omega)
  rw [num_word_of_le (by omega), ← pow_mul] at h
  exact h.symm

/-- Words that are not all the same make different numbers. -/
theorem val_inj (hlen : l.length = l'.length) (h : val l = val l') : l = l' := by
  induction l generalizing l' with
  | nil =>
    cases l' with
    | nil => rfl
    | cons x l' => simp at hlen
  | cons x l ih =>
    cases l' with
    | nil => simp at hlen
    | cons x' l' =>
      rw [val_cons, val_cons] at h
      have hx : x.toNat = x'.toNat := by
        have h1 := congrArg (· % 2 ^ w) h
        simpa only [Nat.add_mul_mod_self_left, Nat.mod_eq_of_lt x.isLt, Nat.mod_eq_of_lt x'.isLt]
          using h1
      have hl : val l = val l' := by
        rw [hx] at h
        exact Nat.eq_of_mul_eq_mul_left (Nat.two_pow_pos w) (by omega)
      rw [BitVec.eq_of_toNat_eq hx, ih (by simpa using hlen) hl]

theorem val_take : val (l.take n) = val l % 2 ^ (w * n) := by
  by_cases h : l.length ≤ n
  · rw [List.take_of_length_le h, Nat.mod_eq_of_lt]
    exact lt_of_lt_of_le val_lt (Nat.pow_le_pow_right (by omega) (Nat.mul_le_mul_left _ h))
  · have hlen : (l.take n).length = n := by
      rw [List.length_take]
      omega
    conv_rhs => rw [← List.take_append_drop n l]
    rw [val_append, hlen, Nat.add_mul_mod_self_left, Nat.mod_eq_of_lt]
    calc val (l.take n) < 2 ^ (w * (l.take n).length) := val_lt
      _ = 2 ^ (w * n) := by rw [hlen]

theorem val_drop : val (l.drop n) = val l / 2 ^ (w * n) := by
  by_cases h : l.length ≤ n
  · rw [List.drop_of_length_le h, Nat.div_eq_of_lt]
    · rfl
    · exact lt_of_lt_of_le val_lt (Nat.pow_le_pow_right (by omega) (Nat.mul_le_mul_left _ h))
  · have hlen : (l.take n).length = n := by
      rw [List.length_take]
      omega
    have hlt : val (l.take n) < 2 ^ (w * n) := by
      have h1 := val_lt (l := l.take n)
      rwa [hlen] at h1
    conv_rhs => rw [← List.take_append_drop n l]
    rw [val_append, hlen, Nat.add_mul_div_left _ _ (Nat.two_pow_pos _), Nat.div_eq_of_lt hlt,
      Nat.zero_add]

/-- The words that are computed one by one. -/
theorem val_map_range (f : ℕ → BitVec w) :
    val ((List.range n).map f) = num (2 ^ w) (fun i => (f i).toNat) n := by
  induction n with
  | zero => rfl
  | succ n ih =>
    rw [List.range_succ, List.map_append, val_append, ih, num_succ, List.length_map,
      List.length_range]
    simp only [List.map_cons, List.map_nil, val_cons, val_nil, Nat.mul_zero, Nat.add_zero]
    rw [pow_mul, mul_comm]

theorem word_map_range (f : ℕ → BitVec w) :
    word ((List.range n).map f) i = if i < n then f i else 0 := by
  by_cases h : i < n
  · simp [word, h]
  · rw [if_neg h]
    exact word_of_le (by simpa using Nat.le_of_not_lt h)

/-- A number is zero when all its words are. -/
theorem val_eq_zero : val l = 0 ↔ ∀ i, word l i = 0 := by
  constructor
  · intro h i
    apply BitVec.eq_of_toNat_eq
    rw [word_eq, h]
    simp
  · intro h
    rw [← num_word_of_le (le_refl l.length)]
    exact num_eq_zero fun i _ => by rw [h i]; rfl

theorem getLsbD_word {j : ℕ} :
    (word l i).getLsbD j = (decide (j < w) && (val l).testBit (w * i + j)) := by
  show (word l i).toNat.testBit j = _
  rw [word_eq, Nat.testBit_mod_two_pow, Nat.testBit_div_two_pow, Nat.add_comm j]

/-- A number is known when the bits of its words are. -/
theorem val_eq_of_bits {x : ℕ} (hx : x < 2 ^ (w * l.length))
    (h : ∀ i < l.length, ∀ j < w, (word l i).getLsbD j = x.testBit (w * i + j)) : val l = x := by
  apply Nat.eq_of_testBit_eq
  intro k
  by_cases hk : k < w * l.length
  · have hw : 0 < w := Nat.pos_of_ne_zero fun h0 => by simp [h0] at hk
    have hdiv : k / w < l.length := (Nat.div_lt_iff_lt_mul hw).mpr (by rwa [Nat.mul_comm])
    have hmod : k % w < w := Nat.mod_lt k hw
    have h1 := h (k / w) hdiv (k % w) hmod
    rwa [getLsbD_word, Nat.div_add_mod, decide_eq_true hmod, Bool.true_and] at h1
  · have hle : 2 ^ (w * l.length) ≤ 2 ^ k := Nat.pow_le_pow_right (by omega) (by omega)
    rw [Nat.testBit_lt_two_pow (lt_of_lt_of_le val_lt hle),
      Nat.testBit_lt_two_pow (lt_of_lt_of_le hx hle)]

/-- The words above `m` do not count if they are zero. -/
theorem val_eq_top (h : ∀ i, m < i → word l i = 0) :
    val l = val l % 2 ^ (w * m) + (word l m).toNat * 2 ^ (w * m) := by
  have hn : num (2 ^ w) (fun i => (word l i).toNat) (max l.length (m + 1)) =
      num (2 ^ w) (fun i => (word l i).toNat) (m + 1) := by
    obtain ⟨k, hk⟩ := Nat.exists_eq_add_of_le (show m + 1 ≤ max l.length (m + 1) by omega)
    rw [hk, num_split, num_eq_zero (f := fun i => (word l (m + 1 + i)).toNat), Nat.mul_zero,
      Nat.add_zero]
    intro i _
    rw [h _ (by omega)]
    simp
  rw [num_word_of_le (by omega), num_succ, num_word, ← pow_mul] at hn
  exact hn

theorem val_modify (f : BitVec w → BitVec w) (hm : m < l.length) :
    val (l.modify m f) + (word l m).toNat * 2 ^ (w * m) =
      val l + (f (word l m)).toNat * 2 ^ (w * m) := by
  induction l generalizing m with
  | nil => simp at hm
  | cons x l ih =>
    cases m with
    | zero =>
      simp only [List.modify_zero_cons, val_cons, word_cons_zero, Nat.mul_zero, pow_zero, Nat.mul_one]
      omega
    | succ m =>
      have h := ih (m := m) (by simpa using hm)
      have hpow : 2 ^ (w * (m + 1)) = 2 ^ w * 2 ^ (w * m) := by rw [← pow_add]; congr 1; ring
      simp only [List.modify_succ_cons, val_cons, word_cons_succ]
      rw [hpow]
      calc x.toNat + 2 ^ w * val (l.modify m f) + (word l m).toNat * (2 ^ w * 2 ^ (w * m))
          = x.toNat + 2 ^ w * (val (l.modify m f) + (word l m).toNat * 2 ^ (w * m)) := by ring
        _ = x.toNat + 2 ^ w * (val l + (f (word l m)).toNat * 2 ^ (w * m)) := by rw [h]
        _ = _ := by ring

end Val

end Words
