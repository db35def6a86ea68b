import Mathlib.Data.List.Basic

/-!
# Patterns of rigid fragments and stars

A pattern is a list of items: a star stands for any sequence, every other item for exactly one element
with some property. `Matches` is the language of a pattern over all ways to divide a sequence among
the items. A run of items without a star is a fragment. The lemmas say that the first place where a
fragment fits may be taken if a star follows (`matches_leftmost`), and only the last one if nothing
does (`matches_last`).
-/

namespace Glob

variable {α : Type*}

/-- An item of a pattern. -/
inductive Item (α : Type*) where
  /-- Any sequence. -/
  | star
  /-- One element with the property `p`. -/
  | one (p : α → Bool)

/-- The language of a pattern. -/
inductive Matches : List (Item α) → List α → Prop
  | nil : Matches [] []
  | one {p : α → Bool} {a : α} {is : List (Item α)} {t : List α} :
    p a = true → Matches is t → Matches (.one p :: is) (a :: t)
  | star {is : List (Item α)} (u : List α) {t : List α} :
    Matches is t → Matches (.star :: is) (u ++ t)

/-- A fragment as a pattern. -/
def rigid (fs : List (α → Bool)) : List (Item α) := fs.map .one

@[simp] theorem rigid_nil : rigid ([] : List (α → Bool)) = [] := rfl

@[simp] theorem rigid_cons (p : α → Bool) (fs : List (α → Bool)) :
    rigid (p :: fs) = .one p :: rigid fs := rfl

/-- The fragment fits at the start of the sequence: what follows it. -/
def fits : List (α → Bool) → List α → Option (List α)
  | [], t => some t
  | _ :: _, [] => none
  | p :: fs, a :: t => if p a then fits fs t else none

/-- The fragment at the start of a pattern, and what follows it. -/
def fragment : List (Item α) → List (α → Bool) × List (Item α)
  | .one p :: is => (p :: (fragment is).1, (fragment is).2)
  | is => ([], is)

variable {is : List (Item α)} {fs : List (α → Bool)} {t t' u : List α}

theorem fragment_length : (fragment is).2.length ≤ is.length := by
  fun_induction fragment is with
  | case1 p is ih => exact Nat.le_succ_of_le ih
  | case2 is => exact Nat.le_refl _

/-- A fragment ends where nothing or a star follows. -/
theorem fragment_rigid (h : is = [] ∨ ∃ is', is = .star :: is') : fragment (rigid fs ++ is) = (fs, is) := by
  induction fs with
  | nil => rcases h with rfl | ⟨is', rfl⟩ <;> rfl
  | cons p fs ih => rw [rigid_cons, List.cons_append, fragment, ih]

theorem fits_length (h : fits fs t = some t') : t.length = fs.length + t'.length := by
  induction fs generalizing t with
  | nil => simp_all [fits]
  | cons p fs ih =>
    cases t with
    | nil => simp [fits] at h
    | cons a t =>
      rw [fits] at h
      split_ifs at h
      simp [ih h]
      omega

theorem fits_drop (h : fits fs t = some t') : t' = t.drop fs.length := by
  induction fs generalizing t with
  | nil => simp_all [fits]
  | cons p fs ih =>
    cases t with
    | nil => simp [fits] at h
    | cons a t =>
      rw [fits] at h
      split_ifs at h
      simpa using ih h

theorem matches_rigid : Matches (rigid fs ++ is) t ↔ ∃ t', fits fs t = some t' ∧ Matches is t' := by
  induction fs generalizing t with
  | nil => simp [fits]
  | cons p fs ih =>
    constructor
    · intro h
      cases h with
      | one hp h =>
        obtain ⟨t', h1, h2⟩ := ih.mp h
        exact ⟨t', by rw [fits, if_pos hp, h1], h2⟩
    · rintro ⟨t', h1, h2⟩
      cases t with
      | nil => simp [fits] at h1
      | cons a t =>
        rw [fits] at h1
        split_ifs at h1 with hp
        exact .one hp (ih.mpr ⟨t', h1, h2⟩)

theorem matches_nil : Matches ([] : List (Item α)) t ↔ t = [] := by
  constructor
  · intro h
    cases h
    rfl
  · rintro rfl
    exact .nil

theorem matches_star : Matches (.star :: is) t ↔ ∃ u v, t = u ++ v ∧ Matches is v := by
  constructor
  · intro h
    cases h with
    | star u h => exact ⟨u, _, rfl, h⟩
  · rintro ⟨u, v, rfl, h⟩
    exact .star u h

theorem matches_star_star : Matches (.star :: .star :: is) t ↔ Matches (.star :: is) t := by
  constructor
  · rw [matches_star]
    rintro ⟨u, v, rfl, h⟩
    obtain ⟨u', v', rfl, h'⟩ := matches_star.mp h
    rw [← List.append_assoc]
    exact .star _ h'
  · intro h
    exact .star [] h

/-- What precedes may be given to a star. -/
theorem Matches.extend (h : Matches (.star :: is) t) (u : List α) :
    Matches (.star :: is) (u ++ t) := by
  obtain ⟨v, w, rfl, h'⟩ := matches_star.mp h
  rw [← List.append_assoc]
  exact .star _ h'

/-- A star alone stands for everything. -/
theorem matches_all (t : List α) : Matches [.star] t := by
  have h : Matches [.star] (t ++ []) := .star t .nil
  rwa [List.append_nil] at h

theorem not_matches_nil (h : fs ≠ []) : ¬ Matches (.star :: (rigid fs ++ is)) [] := by
  obtain ⟨q, fs, rfl⟩ := List.exists_cons_of_ne_nil h
  intro hm
  obtain ⟨u, v, huv, hv⟩ := matches_star.mp hm
  obtain ⟨rfl, rfl⟩ := List.append_eq_nil_iff.mp huv.symm
  cases hv

/-- An element before the first place where a fragment fits goes to the star. -/
theorem matches_skip {a : α} (h : fits fs (a :: t) = none) :
    Matches (.star :: (rigid fs ++ is)) (a :: t) ↔ Matches (.star :: (rigid fs ++ is)) t := by
  constructor
  · rw [matches_star]
    rintro ⟨u, v, huv, hv⟩
    cases u with
    | nil =>
      obtain rfl : a :: t = v := huv
      obtain ⟨t', h1, -⟩ := matches_rigid.mp hv
      rw [h] at h1
      cases h1
    | cons b u =>
      obtain ⟨rfl, rfl⟩ := List.cons.inj huv
      exact .star u hv
  · intro h
    exact h.extend [a]

/-- Where a fragment fits in a suffix, it ends in what follows the first place. -/
theorem fits_suffix (h : fits fs (u ++ t) = some t') {v : List α} (hv : fits fs t = some v) :
    t' = t'.take u.length ++ v := by
  have h1 := fits_drop h
  have h2 := fits_drop hv
  have h3 : t'.drop u.length = v := by
    rw [h1, List.drop_drop, Nat.add_comm, ← List.drop_drop, List.drop_left, h2]
  rw [← h3, List.take_append_drop]

/-- **A fragment between stars may be put at the first place where it fits.** -/
theorem matches_leftmost (h : fits fs t = some t') :
    Matches (.star :: (rigid fs ++ .star :: is)) t ↔ Matches (.star :: is) t' := by
  constructor
  · rw [matches_star]
    rintro ⟨u, v, rfl, hv⟩
    obtain ⟨v', h1, h2⟩ := matches_rigid.mp hv
    rw [fits_suffix h h1]
    exact h2.extend _
  · intro h'
    exact .star [] (matches_rigid.mpr ⟨t', h, h'⟩)

/-- **A fragment after the last star may only be put at the end.** -/
theorem matches_last (h : fits fs t = some t') :
    Matches (.star :: rigid fs) t ↔ fits fs (t.drop t'.length) = some [] := by
  have hlen := fits_length h
  constructor
  · rw [matches_star]
    rintro ⟨u, v, rfl, hv⟩
    rw [← List.append_nil (rigid fs)] at hv
    obtain ⟨v', h1, h2⟩ := matches_rigid.mp hv
    rw [matches_nil] at h2
    subst h2
    have h3 := fits_length h1
    have h4 : t'.length = u.length := by
      rw [List.length_append] at hlen
      simp only [List.length_nil] at h3
      omega
    rw [h4, List.drop_left, h1]
  · intro h'
    have h1 : Matches (rigid fs ++ []) (t.drop t'.length) := matches_rigid.mpr ⟨[], h', .nil⟩
    rw [List.append_nil] at h1
    rw [← List.take_append_drop t'.length t]
    exact .star _ h1

end Glob
