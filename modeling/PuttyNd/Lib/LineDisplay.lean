import Mathlib.Data.List.Induction
import Mathlib.Logic.Function.Iterate

/-!
# A line of cells with a cursor

What is written goes to the cell under the cursor, which then moves right; a line has no end. A backspace moves
the cursor left.
-/

namespace LineDisplay

variable {α : Type} {blank x : α} {before after cells : List α}

/-- The cells before the cursor, and those from it on that were written once -/
@[ext]
structure Line (α : Type) where
  before : List α
  after : List α
deriving DecidableEq, Repr

def put (l : Line α) (x : α) : Line α := ⟨l.before ++ [x], l.after.tail⟩

def back (l : Line α) : Line α := ⟨l.before.dropLast, l.before.getLast?.toList ++ l.after⟩

/-- A backspace, a blank and a backspace -/
def rubout (blank : α) (l : Line α) : Line α := back (put (back l) blank)

/-- Nothing but blanks is at the cursor and after it. -/
def Clear (blank : α) (l : Line α) : Prop := ∀ x ∈ l.after, x = blank

theorem clear_put {l : Line α} (h : Clear blank l) : Clear blank (put l x) :=
  fun y hy => h y (List.mem_of_mem_tail hy)

theorem rubout_concat : rubout blank ⟨before ++ [x], after⟩ = ⟨before, blank :: after⟩ := by
  unfold rubout put back
  simp

/-- Cells are rubbed out from the last one on. -/
theorem rubout_iterate (n : ℕ) (hn : n = cells.length) :
    (rubout blank)^[n] ⟨before ++ cells, after⟩ = ⟨before, List.replicate n blank ++ after⟩ := by
  subst hn
  induction cells using List.reverseRecOn generalizing after with
  | nil => simp
  | append_singleton cells x ih =>
    rw [List.length_append, List.length_singleton, Function.iterate_succ_apply, ← List.append_assoc, rubout_concat,
      ih, List.replicate_succ']
    simp

theorem clear_replicate {n : ℕ} (h : Clear blank ⟨before, after⟩) :
    Clear blank ⟨cells, List.replicate n blank ++ after⟩ := by
  intro y hy
  rcases List.mem_append.mp hy with hy | hy
  · exact List.eq_of_mem_replicate hy
  · exact h y hy

end LineDisplay
