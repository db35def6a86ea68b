import Mathlib.Data.List.Basic
import Mathlib.Order.Bounds.Defs
import Mathlib.Tactic.Common

/-!
# The first number that is not in use

A sorted list of things that have numbers from `base` on. The place of a thing tells whether all numbers before
its own are in use, so that a search that halves the list finds the first one that is not.
-/

namespace Lib.FirstFit

variable {α : Type*} {key : α → ℕ} {base : ℕ} {l : List α} {i j low high n : ℕ}

/-- Each thing has a number of its own, from `base` on. -/
structure Numbered (key : α → ℕ) (base : ℕ) (l : List α) : Prop where
  sorted : l.Pairwise (key · < key ·)
  ge : ∀ a ∈ l, base ≤ key a

namespace Numbered

/-- Between two places the numbers grow at least as fast as the places. -/
theorem gap (h : Numbered key base l) (hij : i ≤ j) (hj : j < l.length) : key l[i] + (j - i) ≤ key l[j] := by
  obtain ⟨d, rfl⟩ := Nat.exists_eq_add_of_le hij
  induction d with
  | zero => simp
  | succ d ih =>
    have hd := ih (by omega) (by omega)
    have hlt := List.pairwise_iff_getElem.mp h.sorted (i + d) (i + (d + 1)) (by omega) hj (by omega)
    omega

theorem base_le (h : Numbered key base l) (hi : i < l.length) : base + i ≤ key l[i] := by
  have hgap := h.gap (Nat.zero_le i) hi
  have hge := h.ge l[0] (List.getElem_mem _)
  omega

/-- If the number of a thing is the lowest that is possible, so are those before it. -/
theorem eq_of_le (h : Numbered key base l) (hij : i ≤ j) (hj : j < l.length) (heq : key l[j] = base + j) :
    key l[i] = base + i := by
  have hgap := h.gap hij hj
  have hle := h.base_le (Nat.lt_of_le_of_lt hij hj)
  omega

end Numbered

/-- The numbers before `low` are all in use, and that of `high` is not the lowest that is possible. -/
structure Between (key : α → ℕ) (base : ℕ) (l : List α) (low high : ℕ) : Prop where
  le : low ≤ high
  length : high ≤ l.length
  used : ∀ i, i < low → ∀ hi : i < l.length, key l[i] = base + i
  past : ∀ hhigh : high < l.length, key l[high] ≠ base + high

namespace Between

theorem start (key : α → ℕ) (base : ℕ) (l : List α) : Between key base l 0 l.length where
  le := Nat.zero_le _
  length := Nat.le_refl _
  used _ hi := absurd hi (Nat.not_lt_zero _)
  past hlt := absurd hlt (Nat.lt_irrefl _)

/-- The thing at `i` has the lowest number that is possible. -/
theorem raise (h : Between key base l low high) (hnum : Numbered key base l) (hi : i < high) (hlen : i < l.length)
    (heq : key l[i] = base + i) : Between key base l (i + 1) high where
  le := hi
  length := h.length
  used _ hj _ := hnum.eq_of_le (Nat.le_of_lt_succ hj) hlen heq
  past := h.past

/-- The thing at `i` has a greater number. -/
theorem lower (h : Between key base l low high) (hlow : low ≤ i) (hi : i < high) (hlen : i < l.length)
    (hne : key l[i] ≠ base + i) : Between key base l low i where
  le := hlow
  length := Nat.le_trans (Nat.le_of_lt hi) h.length
  used := h.used
  past _ := hne

/-- Where the search ends is the first number that is not in use. -/
theorem isLeast (h : Between key base l n n) (hnum : Numbered key base l) :
    IsLeast {id | base ≤ id ∧ ∀ a ∈ l, key a ≠ id} (base + n) := by
  constructor
  · refine ⟨Nat.le_add_right _ _, ?_⟩
    intro a ha heq
    obtain ⟨i, hi, rfl⟩ := List.getElem_of_mem ha
    by_cases hin : i < n
    · have := h.used i hin hi
      omega
    · have hn : n < l.length := by omega
      have hgap := hnum.gap (Nat.le_of_not_lt hin) hi
      have hle := hnum.base_le hn
      have hne := h.past hn
      omega
  · rintro id ⟨hge, hfree⟩
    by_contra hlt
    have hlen := h.length
    have hi : id - base < l.length := by omega
    have hused := h.used (id - base) (by omega) hi
    exact hfree _ (List.getElem_mem hi) (by omega)

end Between

end Lib.FirstFit

/-!
## The first element that is not less

The loop of `std::lower_bound` over positions. A comparison that misses some of those that are less, at a position
that it is asked about, makes the search end before them.
-/

namespace LowerBound

/-- With `count` positions from `first` on that are left -/
def search (less : ℕ → Bool) (first count : ℕ) : ℕ :=
  if count = 0 then first
  else if less (first + count / 2) then search less (first + count / 2 + 1) (count - (count / 2 + 1))
  else search less first (count / 2)
termination_by count

/-- The positions that are compared -/
def compared (less : ℕ → Bool) (first count : ℕ) : List ℕ :=
  if count = 0 then []
  else (first + count / 2) ::
    if less (first + count / 2) then compared less (first + count / 2 + 1) (count - (count / 2 + 1))
    else compared less first (count / 2)
termination_by count

variable {less less' : ℕ → Bool} {first count pos : ℕ}

theorem search_right (hne : count ≠ 0) (h : less (first + count / 2) = true) : search less first count =
    search less (first + count / 2 + 1) (count - (count / 2 + 1)) := by
  rw [search, if_neg hne, if_pos h]

theorem search_left (hne : count ≠ 0) (h : less (first + count / 2) ≠ true) :
    search less first count = search less first (count / 2) := by
  rw [search, if_neg hne, if_neg h]

theorem search_le (less : ℕ → Bool) (first count : ℕ) : search less first count ≤ first + count := by
  induction first, count using search.induct less with
  | case1 first =>
    unfold search
    simp
  | case2 first count hne hless ih =>
    rw [search_right hne hless]
    omega
  | case3 first count hne hless ih =>
    rw [search_left hne hless]
    omega

/-- If those that are less are the ones before `pos`, the search ends there. -/
theorem search_eq (hless : ∀ i, i < first + count → (less i = true ↔ i < pos)) (hfirst : first ≤ pos)
    (hpos : pos ≤ first + count) : search less first count = pos := by
  induction first, count using search.induct less with
  | case1 first =>
    unfold search
    simp only [if_true]
    omega
  | case2 first count hne hlt ih =>
    have := (hless (first + count / 2) (by omega)).mp hlt
    rw [search_right hne hlt]
    exact ih (fun i hi => hless i (by omega)) (by omega) (by omega)
  | case3 first count hne hlt ih =>
    have : ¬first + count / 2 < pos := fun h => hlt ((hless _ (by omega)).mpr h)
    rw [search_left hne hlt]
    exact ih (fun i hi => hless i (by omega)) hfirst (by omega)

/-- Only the comparisons at the positions that are compared matter. -/
theorem search_congr (h : ∀ i ∈ compared less first count, less' i = less i) :
    search less' first count = search less first count := by
  induction first, count using search.induct less with
  | case1 first =>
    unfold search
    rfl
  | case2 first count hne hlt ih =>
    rw [compared, if_neg hne, if_pos hlt] at h
    have hsame := h _ List.mem_cons_self
    rw [hlt] at hsame
    rw [search_right hne hsame, search_right hne hlt]
    exact ih fun i hi => h i (List.mem_cons_of_mem _ hi)
  | case3 first count hne hlt ih =>
    rw [compared, if_neg hne, if_neg hlt] at h
    have hsame := h _ List.mem_cons_self
    rw [search_left hne (hsame ▸ hlt), search_left hne hlt]
    exact ih fun i hi => h i (List.mem_cons_of_mem _ hi)

/-- The search ends no later than at one that is less and is missed. -/
theorem search_misled (hle : ∀ i, less' i = true → less i = true)
    (h : ¬∀ i ∈ compared less first count, less' i = less i) :
    ∃ i, i < first + count ∧ less i = true ∧ search less' first count ≤ i := by
  induction first, count using search.induct less with
  | case1 first =>
    refine absurd (fun i hi => ?_) h
    rw [compared, if_pos rfl] at hi
    exact absurd hi List.not_mem_nil
  | case2 first count hne hlt ih =>
    by_cases hsame : less' (first + count / 2) = true
    · rw [compared, if_neg hne, if_pos hlt] at h
      obtain ⟨i, hi, hless, hsearch⟩ := ih fun hall => h fun i hi => by
        rcases List.mem_cons.mp hi with rfl | hi
        · rw [hsame, hlt]
        · exact hall i hi
      refine ⟨i, by omega, hless, ?_⟩
      rw [search_right hne hsame]
      exact hsearch
    · refine ⟨first + count / 2, by omega, hlt, ?_⟩
      rw [search_left hne hsame]
      exact search_le less' first (count / 2)
  | case3 first count hne hlt ih =>
    have hsame : less' (first + count / 2) ≠ true := fun h' => hlt (hle _ h')
    rw [compared, if_neg hne, if_neg hlt] at h
    obtain ⟨i, hi, hless, hsearch⟩ := ih fun hall => h fun i hi => by
      rcases List.mem_cons.mp hi with rfl | hi
      · rw [Bool.eq_false_iff.mpr hsame, Bool.eq_false_iff.mpr hlt]
      · exact hall i hi
    refine ⟨i, by omega, hless, ?_⟩
    rw [search_left hne hsame]
    exact hsearch

/-! ## Sorted lists -/

variable {α : Type*} {R : α → α → Prop} {p : α → Bool} {l : List α}

/-- Where what is before an element with the property has it too, they are at the start. -/
theorem takeWhile_eq_filter (hsorted : l.Pairwise R)
    (hdown : ∀ a ∈ l, ∀ b ∈ l, R a b → p b = true → p a = true) : l.takeWhile p = l.filter p := by
  induction l with
  | nil => rfl
  | cons a l ih =>
    obtain ⟨hhead, htail⟩ := List.pairwise_cons.mp hsorted
    by_cases ha : p a = true
    · rw [List.takeWhile_cons_of_pos ha, List.filter_cons_of_pos ha, ih htail fun b hb c hc =>
        hdown b (List.mem_cons_of_mem a hb) c (List.mem_cons_of_mem a hc)]
    · rw [List.takeWhile_cons_of_neg ha, List.filter_cons_of_neg ha]
      refine (List.filter_eq_nil_iff.mpr fun b hb hpb => ha ?_).symm
      exact hdown a List.mem_cons_self b (List.mem_cons_of_mem a hb) (hhead b hb) hpb

theorem getElem_iff_lt_length_takeWhile (hsorted : l.Pairwise R)
    (hdown : ∀ a ∈ l, ∀ b ∈ l, R a b → p b = true → p a = true) {i : ℕ} (hi : i < l.length) :
    p l[i] = true ↔ i < (l.takeWhile p).length := by
  induction l generalizing i with
  | nil => exact absurd hi (Nat.not_lt_zero i)
  | cons a l ih =>
    obtain ⟨hhead, htail⟩ := List.pairwise_cons.mp hsorted
    have hrest := fun b hb c hc =>
      hdown b (List.mem_cons_of_mem a hb) c (List.mem_cons_of_mem a hc)
    by_cases ha : p a = true
    · rw [List.takeWhile_cons_of_pos ha, List.length_cons]
      cases i with
      | zero => exact iff_of_true ha (Nat.succ_pos _)
      | succ i =>
        rw [List.getElem_cons_succ, ih htail hrest]
        omega
    · rw [List.takeWhile_cons_of_neg ha]
      refine iff_of_false (fun hpi => ha ?_) (Nat.not_lt_zero i)
      cases i with
      | zero => exact hpi
      | succ i =>
        rw [List.getElem_cons_succ] at hpi
        have hmem := List.getElem_mem (Nat.lt_of_succ_lt_succ hi)
        exact hdown a List.mem_cons_self _ (List.mem_cons_of_mem a hmem) (hhead _ hmem) hpi

end LowerBound
