import Mathlib.Algebra.GroupWithZero.Nat
import Mathlib.Data.List.Flatten
import Mathlib.Data.Nat.Notation

/-!
# Chains of buffers (`bufchain` in `psftp/utils.c`)
-/

namespace PuttyNd.Psftp

/-- `struct bufchain_granule`: what is between `bufpos` and `bufend`, and the space up to `bufmax` -/
structure Granule where
  data : List UInt8
  room : ℕ
deriving DecidableEq, Repr

/-- A granule is freed as soon as it is empty. -/
structure Bufchain where
  granules : List Granule
  nonempty : ∀ g ∈ granules, g.data ≠ []
deriving DecidableEq, Repr

namespace Bufchain

/-- `bufchain_init`, `bufchain_clear` -/
def empty : Bufchain := ⟨[], fun _ h => (nomatch h)⟩

/-- All the data -/
def contents (ch : Bufchain) : List UInt8 := ch.granules.flatMap Granule.data

/-- `bufchain_size` -/
def size (ch : Bufchain) : ℕ := (ch.granules.map fun g => g.data.length).sum

/-- A new granule for the data; `sizeof(struct bufchain_granule)` is 32. -/
def newGranule (data : List UInt8) : Granule :=
  ⟨data, max (32 + data.length) 512 - 32 - data.length⟩

/-- The loop of `bufchain_add`: first the last granule is filled. -/
def addData : List Granule → List UInt8 → List Granule
  | [], data => if data = [] then [] else [newGranule data]
  | [g], data =>
    let last : Granule := ⟨g.data ++ data.take g.room, g.room - (data.take g.room).length⟩
    last :: if data.drop g.room = [] then [] else [newGranule (data.drop g.room)]
  | g :: gs, data => g :: addData gs data

theorem addData_nonempty {gs : List Granule} {data : List UInt8} (h : ∀ g ∈ gs, g.data ≠ []) :
    ∀ g ∈ addData gs data, g.data ≠ [] := by
  fun_induction addData gs data with
  | case1 => exact h
  | case2 data hdata =>
    intro g hg
    rw [List.mem_singleton.mp hg]
    exact hdata
  | case3 g data last =>
    intro g' hg'
    rcases List.mem_cons.mp hg' with rfl | hg'
    · exact fun happend => h g List.mem_cons_self (List.append_eq_nil_iff.mp happend).1
    · split at hg'
      · cases hg'
      · next hdrop =>
        rw [List.mem_singleton.mp hg']
        exact hdrop
  | case4 g gs data hgs ih =>
    intro g' hg'
    rcases List.mem_cons.mp hg' with rfl | hg'
    · exact h g' List.mem_cons_self
    · exact ih (fun g'' hg'' => h g'' (List.mem_cons_of_mem _ hg'')) g' hg'

/-- `bufchain_add` -/
def add (ch : Bufchain) (data : List UInt8) : Bufchain :=
  ⟨addData ch.granules data, addData_nonempty ch.nonempty⟩

/-- The loop of `bufchain_consume` -/
def consumeData : List Granule → ℕ → List Granule
  | [], _ => []
  | g :: gs, len =>
    if g.data.length ≤ len then consumeData gs (len - g.data.length)
    else { g with data := g.data.drop len } :: gs

theorem consumeData_nonempty {gs : List Granule} {len : ℕ} (h : ∀ g ∈ gs, g.data ≠ []) :
    ∀ g ∈ consumeData gs len, g.data ≠ [] := by
  induction gs generalizing len with
  | nil => exact h
  | cons g gs ih =>
    unfold consumeData
    split
    · exact ih fun g' hg' => h g' (List.mem_cons_of_mem _ hg')
    · next hlen =>
      intro g' hg'
      rcases List.mem_cons.mp hg' with rfl | hg'
      · intro hdrop
        exact hlen (List.drop_eq_nil_iff.mp hdrop)
      · exact h g' (List.mem_cons_of_mem _ hg')

/-- `bufchain_consume` -/
def consume (ch : Bufchain) (len : ℕ) : Bufchain :=
  ⟨consumeData ch.granules len, consumeData_nonempty ch.nonempty⟩

/-- `bufchain_prefix` -/
def front (ch : Bufchain) : List UInt8 :=
  match ch.granules with
  | [] => []
  | g :: _ => g.data

/-! ## What is in a chain -/

variable {ch : Bufchain} {data : List UInt8} {len : ℕ}

theorem size_eq : ch.size = ch.contents.length := by
  unfold size contents
  rw [List.length_flatMap]

@[simp] theorem contents_empty : empty.contents = [] := rfl

theorem contents_eq_nil : ch.contents = [] ↔ ch.size = 0 := by
  rw [size_eq, List.length_eq_zero_iff]

theorem contents_addData {gs : List Granule} :
    (addData gs data).flatMap Granule.data = gs.flatMap Granule.data ++ data := by
  fun_induction addData gs data with
  | case1 => rfl
  | case2 data hdata => simp [newGranule]
  | case3 g data last =>
    have hlast : last.data = g.data ++ data.take g.room := rfl
    have hrest : (if data.drop g.room = [] then [] else [newGranule (data.drop g.room)]).flatMap
        Granule.data = data.drop g.room := by
      split
      · next hdrop => rw [hdrop]; rfl
      · simp [newGranule]
    rw [List.flatMap_cons, hlast, hrest, List.append_assoc, List.take_append_drop,
      List.flatMap_singleton]
  | case4 g gs data hgs ih => rw [List.flatMap_cons, ih, List.flatMap_cons, List.append_assoc]

@[simp] theorem contents_add : (ch.add data).contents = ch.contents ++ data := contents_addData

theorem contents_consumeData {gs : List Granule} :
    (consumeData gs len).flatMap Granule.data = (gs.flatMap Granule.data).drop len := by
  induction gs generalizing len with
  | nil => rw [List.flatMap_nil, List.drop_nil]; rfl
  | cons g gs ih =>
    unfold consumeData
    rw [List.flatMap_cons, List.drop_append]
    split
    · next hlen => rw [ih, List.drop_eq_nil_of_le hlen, List.nil_append]
    · next hlen =>
      rw [List.flatMap_cons, Nat.sub_eq_zero_of_le (Nat.le_of_not_le hlen), List.drop_zero]

@[simp] theorem contents_consume : (ch.consume len).contents = ch.contents.drop len :=
  contents_consumeData

theorem front_prefix : ch.front <+: ch.contents := by
  obtain ⟨gs, hgs⟩ := ch
  unfold front contents
  cases gs with
  | nil => exact List.prefix_refl _
  | cons g gs => exact List.prefix_append _ _

theorem front_ne_nil (h : ch.contents ≠ []) : ch.front ≠ [] := by
  obtain ⟨gs, hgs⟩ := ch
  cases gs with
  | nil => exact absurd rfl h
  | cons g gs => exact hgs g List.mem_cons_self

end Bufchain

end PuttyNd.Psftp
