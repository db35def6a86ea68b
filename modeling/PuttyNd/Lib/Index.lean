import PuttyNd.Lib.Memory
import Mathlib.Data.List.Find
import Mathlib.Data.List.Nodup

/-!
# Indexes over a heap

An index is the list of the addresses of some of the objects, in the order of their keys. The keys are
read from the objects, so an index is right only for the objects as they are now: there are rules for
objects that are allocated, written and freed.
-/

namespace Index

open Function

variable {α κ : Type}

/-- The index has the objects that satisfy `P`, and their keys are different. -/
structure IsIndex (cell : ℕ → Option α) (key : α → κ) (P : α → Prop) (t : List ℕ) : Prop where
  mem : ∀ a, a ∈ t ↔ ∃ v, cell a = some v ∧ P v
  nodup : t.Nodup
  unique : ∀ a b v w, cell a = some v → cell b = some w → P v → P w → key v = key w → a = b

variable {cell cell' : ℕ → Option α} {key : α → κ} {P : α → Prop} {t : List ℕ} {a b : ℕ} {v w : α}
  {k : κ}

namespace IsIndex

theorem empty : IsIndex (fun _ => none) key P [] where
  mem := fun a => by simp
  nodup := List.nodup_nil
  unique := fun a b v w h => by cases h

variable (h : IsIndex cell key P t)
include h

theorem mem_of (ha : cell a = some v) (hv : P v) : a ∈ t := (h.mem a).mpr ⟨v, ha, hv⟩

theorem not_mem_of (ha : cell a = some v) (hv : ¬ P v) : a ∉ t := by
  intro hmem
  obtain ⟨w, hw, hPw⟩ := (h.mem a).mp hmem
  rw [ha] at hw
  cases hw
  exact hv hPw

theorem not_mem_of_none (ha : cell a = none) : a ∉ t := by
  intro hmem
  obtain ⟨w, hw, -⟩ := (h.mem a).mp hmem
  rw [ha] at hw
  cases hw

/-- An object is written, and its key stays as it is. -/
theorem update_same (ha : cell a = some v) (hkey : key w = key v) (hP : P w ↔ P v) :
    IsIndex (update cell a (some w)) key P t where
  mem := by
    intro b
    by_cases hba : b = a
    · simp [hba, h.mem a, ha, hP]
    · simp [hba, h.mem b]
  nodup := h.nodup
  unique := by
    intro b c x y hb hc hx hy hxy
    by_cases hba : b = a <;> by_cases hca : c = a
    · rw [hba, hca]
    · rw [hba, update_self] at hb
      rw [update_of_ne hca] at hc
      cases hb
      rw [hba]
      exact h.unique a c v y ha hc (hP.mp hx) hy (hkey ▸ hxy)
    · rw [update_of_ne hba] at hb
      rw [hca, update_self] at hc
      cases hc
      rw [hca]
      exact h.unique b a x v hb ha hx (hP.mp hy) (hkey ▸ hxy)
    · rw [update_of_ne hba] at hb
      rw [update_of_ne hca] at hc
      exact h.unique b c x y hb hc hx hy hxy

/-- An address is taken out of the index, and what is there afterwards does not belong to it. -/
theorem update_erase {o : Option α} (ho : ∀ v, o = some v → ¬ P v) :
    IsIndex (update cell a o) key P (t.erase a) where
  mem := by
    intro b
    rw [h.nodup.mem_erase_iff]
    by_cases hba : b = a
    · simpa [hba] using ho
    · simp [hba, h.mem b]
  nodup := h.nodup.erase a
  unique := by
    have hne : ∀ b x, update cell a o b = some x → P x → cell b = some x := by
      intro b x hb hx
      by_cases hba : b = a
      · rw [hba, update_self] at hb
        exact absurd hx (ho x hb)
      · rwa [update_of_ne hba] at hb
    intro b c x y hb hc hx hy hkey
    exact h.unique b c x y (hne b x hb hx) (hne c y hc hy) hx hy hkey

/-- An object that is not in the index is allocated, written or freed. -/
theorem update_out {o : Option α} (ha : a ∉ t) (ho : ∀ v, o = some v → ¬ P v) :
    IsIndex (update cell a o) key P t := by
  have := h.update_erase ho (a := a)
  rwa [List.erase_of_not_mem ha] at this

end IsIndex

/-! ## Looking up and removing -/

section Find

variable [DecidableEq κ]

/-- The object with this key. -/
def find (cell : ℕ → Option α) (key : α → κ) (k : κ) (t : List ℕ) : Option ℕ :=
  t.find? fun a => (cell a).any fun v => key v = k

/-- Removes the object with this key, if there is one. -/
def del (cell : ℕ → Option α) (key : α → κ) (k : κ) (t : List ℕ) : List ℕ :=
  match find cell key k t with
  | some b => t.erase b
  | none => t

/-- Objects that are not in the index do not matter. -/
theorem find_update (ha : a ∉ t) (o : Option α) :
    find (update cell a o) key k t = find cell key k t := by
  unfold find
  apply List.find?_congr
  intro b hb
  have hba : b ≠ a := fun hba => ha (hba ▸ hb)
  rw [update_of_ne hba]

namespace IsIndex

variable (h : IsIndex cell key P t)
include h

theorem find_none (hfind : find cell key k t = none) (ha : cell a = some v) (hv : P v) :
    key v ≠ k := by
  have := List.find?_eq_none.mp hfind a (h.mem_of ha hv)
  simpa [ha] using this

theorem find_some (hfind : find cell key k t = some a) : ∃ v, cell a = some v ∧ P v ∧ key v = k := by
  obtain ⟨v, hv, hPv⟩ := (h.mem a).mp (List.mem_of_find?_eq_some hfind)
  have := List.find?_some hfind
  exact ⟨v, hv, hPv, by simpa [hv] using this⟩

/-- An object is found by its key. -/
theorem find_self (ha : cell a = some v) (hv : P v) : find cell key (key v) t = some a := by
  cases hfind : find cell key (key v) t with
  | none => exact absurd rfl (h.find_none hfind ha hv)
  | some b =>
    obtain ⟨w, hw, hPw, hkey⟩ := h.find_some hfind
    rw [h.unique b a w v hw ha hPw hv hkey]

/-- What is removed by its own key is the object itself. -/
theorem del_self (ha : cell a = some v) (hv : P v) : del cell key (key v) t = t.erase a := by
  unfold del
  rw [h.find_self ha hv]

/-- An object is removed from the index and freed. -/
theorem free_del (ha : cell a = some v) (hv : P v) :
    IsIndex (update cell a none) key P (del cell key (key v) t) := by
  rw [h.del_self ha hv]
  exact h.update_erase fun v hv => nomatch hv

end IsIndex

end Find

/-! ## Adding -/

section Place

variable [LT κ] [DecidableLT κ]

/-- Puts `a` before the first object whose key is greater than `k`. -/
def place (cell : ℕ → Option α) (key : α → κ) (k : κ) (a : ℕ) (t : List ℕ) : List ℕ :=
  let before := fun b => (cell b).all fun w => ¬ k < key w
  t.takeWhile before ++ a :: t.dropWhile before

theorem place_perm : (place cell key k a t).Perm (a :: t) := by
  unfold place
  refine List.perm_middle.trans (List.Perm.cons a ?_)
  rw [List.takeWhile_append_dropWhile]

@[simp] theorem mem_place : b ∈ place cell key k a t ↔ b = a ∨ b ∈ t := by
  rw [place_perm.mem_iff, List.mem_cons]

variable [DecidableEq κ]

/-- Adds an object, unless there is one with its key. -/
def add (cell : ℕ → Option α) (key : α → κ) (k : κ) (a : ℕ) (t : List ℕ) : Option (List ℕ) :=
  match find cell key k t with
  | some _ => none
  | none => some (place cell key k a t)

/-- An object that is now in the index is allocated or written. -/
theorem IsIndex.update_add (h : IsIndex cell key P t) (ha : a ∉ t) (hv : P v)
    (hfind : find cell key (key v) t = none) :
    IsIndex (update cell a (some v)) key P (place (update cell a (some v)) key (key v) a t) where
  mem := by
    intro b
    rw [mem_place]
    by_cases hba : b = a
    · simp [hba, hv]
    · simp [hba, h.mem b]
  nodup := by
    rw [place_perm.nodup_iff, List.nodup_cons]
    exact ⟨ha, h.nodup⟩
  unique := by
    intro b c x y hb hc hx hy hkey
    by_cases hba : b = a <;> by_cases hca : c = a
    · rw [hba, hca]
    · rw [hba, update_self] at hb
      rw [update_of_ne hca] at hc
      cases hb
      exact absurd hkey.symm (h.find_none hfind hc hy)
    · rw [update_of_ne hba] at hb
      rw [hca, update_self] at hc
      cases hc
      exact absurd hkey (h.find_none hfind hb hx)
    · rw [update_of_ne hba] at hb
      rw [update_of_ne hca] at hc
      exact h.unique b c x y hb hc hx hy hkey

/-- An object is added that was not in the index, unless there is one with its key. -/
theorem IsIndex.add_cases (h : IsIndex cell key P t) (ha : a ∉ t) (hv : P v) :
    (add (update cell a (some v)) key (key v) a t = none ∧ find cell key (key v) t ≠ none) ∨
      ∃ t', add (update cell a (some v)) key (key v) a t = some t' ∧
        find cell key (key v) t = none ∧ IsIndex (update cell a (some v)) key P t' := by
  unfold add
  rw [find_update ha]
  cases hfind : find cell key (key v) t with
  | some b => exact Or.inl ⟨rfl, by simp⟩
  | none => exact Or.inr ⟨_, rfl, rfl, h.update_add ha hv hfind⟩

end Place

end Index
