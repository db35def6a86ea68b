import Mathlib.Data.List.Basic
import Mathlib.Tactic.Common

/-!
# Fields between separators

The fields of a list are what is between its separators, where it is not empty. A scan that passes over separators,
and then over what are none, finds them one after the other.
-/

namespace Fields

variable {α : Type*} {sep : α → Bool} {l : List α} {c : α}

def fields (sep : α → Bool) (l : List α) : List (List α) := (l.splitOnP sep).filter fun x => !x.isEmpty

theorem splitOnP_eq (sep : α → Bool) (l : List α) : l.splitOnP sep =
    l.takeWhile (fun c => !sep c) ::
      match l.dropWhile (fun c => !sep c) with
      | [] => []
      | _ :: rest => rest.splitOnP sep := by
  induction l with
  | nil => rfl
  | cons c l ih =>
    rw [List.splitOnP_cons_eq_if_modifyHead]
    by_cases hc : sep c = true
    · rw [if_pos hc, List.takeWhile_cons_of_neg (by simp [hc]), List.dropWhile_cons_of_neg (by simp [hc])]
    · rw [if_neg hc, List.takeWhile_cons_of_pos (by simp [hc]), List.dropWhile_cons_of_pos (by simp [hc]), ih]
      rfl

@[simp]
theorem fields_nil : fields sep [] = [] := rfl

theorem fields_cons (hc : sep c = true) (l : List α) : fields sep (c :: l) = fields sep l := by
  unfold fields
  rw [List.splitOnP_cons_eq_if_modifyHead, if_pos hc, List.filter_cons_of_neg (by simp)]

theorem fields_dropWhile (sep : α → Bool) (l : List α) : fields sep (l.dropWhile sep) = fields sep l := by
  induction l with
  | nil => rfl
  | cons c l ih =>
    by_cases hc : sep c = true
    · rw [List.dropWhile_cons_of_pos hc, ih, fields_cons hc]
    · rw [List.dropWhile_cons_of_neg hc]

/-- A list that does not begin with a separator begins with its first field. -/
theorem fields_cons_of_neg (hc : sep c = false) (l : List α) : fields sep (c :: l) =
    (c :: l).takeWhile (fun c => !sep c) :: fields sep ((c :: l).dropWhile fun c => !sep c) := by
  have hhead : ((c :: l).takeWhile fun c => !sep c) ≠ [] := by
    rw [List.takeWhile_cons_of_pos (by simp [hc])]
    exact List.cons_ne_nil _ _
  conv_lhs => unfold fields
  rw [splitOnP_eq, List.filter_cons_of_pos (by simpa using hhead)]
  congr 1
  cases hrest : (c :: l).dropWhile fun c => !sep c with
  | nil => rfl
  | cons d rest =>
    have hd : sep d = true := by
      have := List.head_dropWhile_not (fun c => !sep c) (by rw [hrest]; exact List.cons_ne_nil _ _)
      simp only [hrest, List.head_cons, Bool.not_eq_false'] at this
      exact this
    rw [fields_cons hd]
    rfl

end Fields
