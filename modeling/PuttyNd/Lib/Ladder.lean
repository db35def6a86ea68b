import Mathlib.Data.Nat.Bitwise
import Mathlib.Tactic.Ring

/-!
# Multiplication by a ladder

The loop keeps the multiples `k` and `k + 1` of something, and goes from `k` to `2 * k` or `2 * k + 1` with each
bit of the exponent, from the highest one down. Until the first bit that is set, it is put back to 1 and 2.
An addition may fail, and then the loop does.
-/

namespace Lib.Ladder

variable {α : Type}

/-- The multiples `k` and `k + 1`, and whether no bit has been set yet -/
structure State (α : Type) where
  k : α
  kplus1 : α
  notStartedYet : Bool

def condSwap (x y : α) (swap : Bool) : α × α := if swap then (y, x) else (x, y)

variable (add : α → α → Option α) (double : α → α) (one two : α)

/-- The end of a round, with the sum and the double -/
def next (s : State α) (nbit : Bool) (sum other : α) : State α where
  k := if s.notStartedYet then one else (condSwap other sum nbit).1
  kplus1 := if s.notStartedYet then two else (condSwap other sum nbit).2
  notStartedYet := s.notStartedYet && !nbit

/-- A round of the loop -/
def round (nbit : Bool) (s : State α) : Option (State α) := do
  let sum ← add s.k s.kplus1
  let other := double (condSwap s.k s.kplus1 nbit).1
  return next one two s nbit sum other

/-- The rounds for the bits below `bitindex` -/
def rounds (bit : ℕ → Bool) : ℕ → State α → Option (State α)
  | 0, s => some s
  | bitindex + 1, s => do
    let s ← round add double one two (bit bitindex) s
    rounds bit bitindex s

/-- The multiple of `one` by the number that has the bits -/
def ladder (bit : ℕ → Bool) (bits : ℕ) : Option α := do
  let s ← rounds add double one two bit bits ⟨one, two, true⟩
  return s.k

/-! ## What it computes -/

/-- The multiple that is kept while the bits below `i` are left -/
def kept (n i : ℕ) : ℕ := max 1 (n / 2 ^ i)

theorem kept_pos (n i : ℕ) : 0 < kept n i := Nat.le_max_left _ _

theorem kept_zero {n : ℕ} (hn : 0 < n) : kept n 0 = n := by
  unfold kept
  rw [pow_zero, Nat.div_one, Nat.max_eq_right hn]

theorem div_succ (n i : ℕ) : n / 2 ^ i = 2 * (n / 2 ^ (i + 1)) + (n.testBit i).toNat := by
  rw [Nat.testBit_eq_decide_div_mod_eq, pow_succ, ← Nat.div_div_eq_div_mul]
  rcases Nat.mod_two_eq_zero_or_one (n / 2 ^ i) with h | h
  · rw [h]
    simp
    omega
  · rw [h]
    simp
    omega

/-- The multiples are those that the number asks for. `Is k P` is to say that `P` is the multiple by `k`. -/
structure Keeps (Is : ℕ → α → Prop) (n i : ℕ) (s : State α) : Prop where
  k : Is (kept n i) s.k
  kplus1 : Is (kept n i + 1) s.kplus1
  started : s.notStartedYet = true ↔ n / 2 ^ i = 0

section Spec

variable {add double one two} {Is : ℕ → α → Prop} {Ok : ℕ → Prop} {n i : ℕ} {s : State α} {bit : ℕ → Bool}
  (hone : Is 1 one) (htwo : Is 2 two)
  (hadd : ∀ j P Q, Ok j → Is (kept n (j + 1)) P → Is (kept n (j + 1) + 1) Q →
    ∃ S, add P Q = some S ∧ Is (2 * kept n (j + 1) + 1) S)
  (hdouble : ∀ k P, Is k P → Is (2 * k) (double P))
include hone htwo hadd hdouble

theorem round_spec (h : Keeps Is n (i + 1) s) (hok : Ok i) :
    ∃ s', round add double one two (n.testBit i) s = some s' ∧ Keeps Is n i s' := by
  obtain ⟨hk, hkplus1, hstarted⟩ := h
  obtain ⟨sum, hsum, hIs⟩ := hadd i _ _ hok hk hkplus1
  have hdiv := div_succ n i
  unfold round
  rw [hsum, Option.bind_eq_bind, Option.bind_some]
  refine ⟨_, rfl, ?_⟩
  by_cases hnot : s.notStartedYet = true
  · have hzero := hstarted.mp hnot
    have hone' : kept n i = 1 := by
      unfold kept
      rw [hdiv, hzero]
      cases n.testBit i <;> rfl
    refine ⟨?_, ?_, ?_⟩
    · unfold next
      dsimp only
      rw [hone', if_pos hnot]
      exact hone
    · unfold next
      dsimp only
      rw [hone', if_pos hnot]
      exact htwo
    · show (s.notStartedYet && !n.testBit i) = true ↔ _
      rw [hnot, hdiv, hzero]
      cases n.testBit i <;> simp
  · have hpos : 0 < n / 2 ^ (i + 1) := Nat.pos_of_ne_zero fun hzero => hnot (hstarted.mpr hzero)
    have hkept : kept n (i + 1) = n / 2 ^ (i + 1) := Nat.max_eq_right hpos
    have hkept' : kept n i = 2 * kept n (i + 1) + (n.testBit i).toNat := by
      rw [hkept, ← hdiv]
      exact Nat.max_eq_right (by omega)
    have hstarted' : (s.notStartedYet && !n.testBit i) = true ↔ n / 2 ^ i = 0 := by
      have hdpos : n / 2 ^ i ≠ 0 := by omega
      rw [Bool.eq_false_iff.mpr hnot]
      exact iff_of_false Bool.false_ne_true hdpos
    cases hbit : n.testBit i with
    | false =>
      rw [hbit] at hkept'
      refine ⟨?_, ?_, hbit ▸ hstarted'⟩
      · unfold next
        dsimp only
        rw [hkept', if_neg hnot]
        exact hdouble _ _ hk
      · unfold next
        dsimp only
        rw [hkept', if_neg hnot]
        exact hIs
    | true =>
      rw [hbit] at hkept'
      refine ⟨?_, ?_, hbit ▸ hstarted'⟩
      · unfold next
        dsimp only
        rw [hkept', if_neg hnot]
        exact hIs
      · unfold next
        dsimp only
        rw [hkept', if_neg hnot]
        exact hdouble _ _ hkplus1

theorem rounds_spec (hbit : ∀ j < i, bit j = n.testBit j) (hok : ∀ j < i, Ok j)
    (h : Keeps Is n i s) : ∃ s', rounds add double one two bit i s = some s' ∧ Keeps Is n 0 s' := by
  induction i generalizing s with
  | zero => exact ⟨s, rfl, h⟩
  | succ i ih =>
    obtain ⟨s', hround, hkeeps⟩ := round_spec hone htwo hadd hdouble h (hok i (Nat.lt_succ_self i))
    rw [rounds, hbit i (Nat.lt_succ_self i), hround]
    exact ih (fun j hj => hbit j (by omega)) (fun j hj => hok j (by omega)) hkeeps

/-- The ladder computes the multiple if every addition that it makes succeeds. -/
theorem ladder_spec {bits : ℕ} (hn : 0 < n) (hlt : n < 2 ^ bits) (hbit : ∀ j < bits, bit j = n.testBit j)
    (hok : ∀ j < bits, Ok j) : ∃ P, ladder add double one two bit bits = some P ∧ Is n P := by
  have hzero : n / 2 ^ bits = 0 := Nat.div_eq_of_lt hlt
  have hkept : kept n bits = 1 := by
    unfold kept
    rw [hzero]
    rfl
  have hstart : Keeps Is n bits ⟨one, two, true⟩ :=
    ⟨by rw [hkept]; exact hone, by rw [hkept]; exact htwo, iff_of_true rfl hzero⟩
  obtain ⟨s', hrounds, hkeeps⟩ := rounds_spec hone htwo hadd hdouble hbit hok hstart
  refine ⟨s'.k, ?_, ?_⟩
  · rw [ladder, hrounds]
    rfl
  · have hk := hkeeps.k
    rwa [kept_zero hn] at hk

variable (hfail : ∀ j P Q, ¬ Ok j → Is (kept n (j + 1)) P → Is (kept n (j + 1) + 1) Q → add P Q = none)
include hfail

theorem rounds_none (hbit : ∀ j < i, bit j = n.testBit j) (hok : ¬ ∀ j < i, Ok j)
    (h : Keeps Is n i s) : rounds add double one two bit i s = none := by
  induction i generalizing s with
  | zero => exact absurd (fun j hj => absurd hj (Nat.not_lt_zero j)) hok
  | succ i ih =>
    rw [rounds]
    by_cases hi : Ok i
    · obtain ⟨s', hround, hkeeps⟩ := round_spec hone htwo hadd hdouble h hi
      rw [hbit i (Nat.lt_succ_self i), hround]
      refine ih (fun j hj => hbit j (by omega)) (fun hall => hok fun j hj => ?_) hkeeps
      rcases Nat.lt_succ_iff_lt_or_eq.mp hj with hj | rfl
      · exact hall j hj
      · exact hi
    · rw [round, hfail _ _ _ hi h.k h.kplus1]
      rfl

/-- If an addition fails, so does the ladder. -/
theorem ladder_none {bits : ℕ} (hlt : n < 2 ^ bits) (hbit : ∀ j < bits, bit j = n.testBit j)
    (hok : ¬ ∀ j < bits, Ok j) : ladder add double one two bit bits = none := by
  have hzero : n / 2 ^ bits = 0 := Nat.div_eq_of_lt hlt
  have hkept : kept n bits = 1 := by
    unfold kept
    rw [hzero]
    rfl
  have hstart : Keeps Is n bits ⟨one, two, true⟩ :=
    ⟨by rw [hkept]; exact hone, by rw [hkept]; exact htwo, iff_of_true rfl hzero⟩
  rw [ladder, rounds_none hone htwo hadd hdouble hfail hbit hok hstart]
  rfl

end Spec

end Lib.Ladder
