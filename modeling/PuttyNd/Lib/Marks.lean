import Mathlib.Data.List.Basic

/-!
# Lists that are divided by marks

A list is the part before its first mark, and then pairs of a mark and the part after it.
-/

namespace Marks

variable {α : Type*} {mark : α → Bool} {l r : List α} {pairs : List (α × List α)}

/-- The list is divided at its marks. -/
def split (mark : α → Bool) : List α → List α × List (α × List α)
  | [] => ([], [])
  | a :: l =>
    let rest := split mark l
    if mark a then ([], (a, rest.1) :: rest.2) else (a :: rest.1, rest.2)

def join (pairs : List (α × List α)) : List α := pairs.flatMap fun p => p.1 :: p.2

/-- There is no mark in the part. -/
def Plain (mark : α → Bool) (l : List α) : Prop := ∀ a ∈ l, mark a = false

/-- A mark and a part without one -/
def Marked (mark : α → Bool) (p : α × List α) : Prop := mark p.1 = true ∧ Plain mark p.2

theorem plain_nil : Plain mark [] := fun _ h => absurd h List.not_mem_nil

theorem plain_cons {a : α} : Plain mark (a :: l) ↔ mark a = false ∧ Plain mark l := List.forall_mem_cons

theorem join_cons {p : α × List α} : join (p :: pairs) = p.1 :: (p.2 ++ join pairs) := rfl

theorem split_spec (mark : α → Bool) (l : List α) : (split mark l).1 ++ join (split mark l).2 = l ∧
    Plain mark (split mark l).1 ∧ ∀ p ∈ (split mark l).2, Marked mark p := by
  induction l with
  | nil => exact ⟨rfl, plain_nil, fun _ h => absurd h List.not_mem_nil⟩
  | cons a l ih =>
    obtain ⟨hjoin, hplain, hmarked⟩ := ih
    unfold split
    dsimp only
    by_cases ha : mark a = true
    · rw [if_pos ha]
      refine ⟨?_, plain_nil, fun p hp => ?_⟩
      · rw [join_cons, List.nil_append, hjoin]
      · rcases List.mem_cons.mp hp with rfl | hp
        · exact ⟨ha, hplain⟩
        · exact hmarked p hp
    · rw [if_neg ha]
      exact ⟨by rw [List.cons_append, hjoin], plain_cons.mpr ⟨Bool.eq_false_iff.mpr ha, hplain⟩, hmarked⟩

/-- What has no mark is put in front. -/
theorem split_append (h : Plain mark l) : split mark (l ++ r) = (l ++ (split mark r).1, (split mark r).2) := by
  induction l with
  | nil => rfl
  | cons a l ih =>
    obtain ⟨ha, hl⟩ := plain_cons.mp h
    rw [List.cons_append, split, ih hl]
    exact if_neg (Bool.eq_false_iff.mp ha)

theorem split_join (h : ∀ p ∈ pairs, Marked mark p) : split mark (join pairs) = ([], pairs) := by
  induction pairs with
  | nil => rfl
  | cons p pairs ih =>
    obtain ⟨hp, hpairs⟩ := List.forall_mem_cons.mp h
    rw [join_cons, split, split_append hp.2, ih hpairs, List.append_nil]
    exact if_pos hp.1

end Marks
