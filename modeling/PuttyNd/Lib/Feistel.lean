import Mathlib.Logic.Function.Basic

/-!
# Ciphers whose rounds undo themselves

A round changes one half of a block with what a function makes of the other half and of a key, and between two
rounds the halves are swapped. The same rounds with the keys in reverse order undo this, whatever the function is.
-/

namespace Feistel

variable {κ α : Type}

/-- A block -/
@[ext]
structure Halves (α : Type) where
  left : α
  right : α
deriving DecidableEq, Repr

def swap (b : Halves α) : Halves α := ⟨b.right, b.left⟩

theorem swap_swap (b : Halves α) : swap (swap b) = b := rfl

variable (xor : α → α → α) (f : κ → α → α)

def mix (k : κ) (b : Halves α) : Halves α := { b with left := xor b.left (f k b.right) }

/-- The rounds with these keys, one after the other -/
def rounds : List κ → Halves α → Halves α
  | [], b => b
  | [k], b => mix xor f k b
  | k :: k' :: ks, b => rounds (k' :: ks) (swap (mix xor f k b))

variable {xor f} {k : κ} {ks : List κ} {b : Halves α}

theorem mix_mix (hxor : ∀ a c, xor (xor a c) c = a) : mix xor f k (mix xor f k b) = b := by
  unfold mix
  rw [hxor]

theorem rounds_cons (hks : ks ≠ []) : rounds xor f (k :: ks) b = rounds xor f ks (swap (mix xor f k b)) := by
  cases ks with
  | nil => exact absurd rfl hks
  | cons k' ks => rfl

theorem rounds_append (hks : ks ≠ []) :
    rounds xor f (ks ++ [k]) b = mix xor f k (swap (rounds xor f ks b)) := by
  induction ks generalizing b with
  | nil => exact absurd rfl hks
  | cons k' ks ih =>
    rw [List.cons_append, rounds_cons (by simp)]
    cases ks with
    | nil => rfl
    | cons k'' ks => exact ih (by simp)

/-- The keys in reverse order undo the rounds. -/
theorem rounds_reverse (hxor : ∀ a c, xor (xor a c) c = a) :
    rounds xor f ks.reverse (rounds xor f ks b) = b := by
  induction ks generalizing b with
  | nil => rfl
  | cons k ks ih =>
    by_cases hks : ks = []
    · rw [hks]
      exact mix_mix hxor
    · rw [List.reverse_cons, rounds_cons hks, rounds_append (by simpa using hks), ih, swap_swap, mix_mix hxor]

/-- A loop over indices of keys that swaps the halves after each round but the last -/
theorem foldl_eq_rounds {ι : Type} [DecidableEq ι] {key : ι → κ} {is : List ι} {last : ι} (hlast : last ∉ is) :
    (is ++ [last]).foldl (fun b i => if i ≠ last then swap (mix xor f (key i) b) else mix xor f (key i) b) b =
      rounds xor f ((is ++ [last]).map key) b := by
  induction is generalizing b with
  | nil => exact if_neg (fun h => h rfl)
  | cons i is ih =>
    have hi : i ≠ last := fun h => hlast (h ▸ List.mem_cons_self)
    rw [List.cons_append, List.foldl_cons, if_pos hi, ih fun h => hlast (List.mem_cons_of_mem i h),
      List.map_cons, rounds_cons (by simp)]

end Feistel
