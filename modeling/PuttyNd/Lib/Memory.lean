import Mathlib.Data.Nat.Notation
import Mathlib.Logic.Function.Basic
import PuttyNd.Lib.Outcome

/-!
# Memory for objects of one type

An address is never used again after it was freed, so that a pointer that is left behind can be told
from any other.
-/

structure Heap (α : Type) where
  cell : ℕ → Option α
  next : ℕ
  fresh : ∀ a, next ≤ a → cell a = none

namespace Heap

open Function

variable {α : Type}

def empty : Heap α := ⟨fun _ => none, 0, fun _ _ => rfl⟩

/-- The new object is at the address `h.next`. -/
def alloc (h : Heap α) (v : α) : Heap α where
  cell := update h.cell h.next (some v)
  next := h.next + 1
  fresh := fun a ha => by
    rw [update_of_ne (by omega)]
    exact h.fresh a (by omega)

/-- Writes to an object that is there. -/
def set (h : Heap α) (a : ℕ) (v : α) : Heap α where
  cell := fun b => if b = a then (h.cell a).map fun _ => v else h.cell b
  next := h.next
  fresh := fun b hb => by
    have := h.fresh b hb
    split
    · next hba => rw [← hba, this]; rfl
    · exact this

def free (h : Heap α) (a : ℕ) : Heap α where
  cell := update h.cell a none
  next := h.next
  fresh := fun b hb => by
    by_cases hba : b = a
    · rw [hba, update_self]
    · rw [update_of_ne hba]
      exact h.fresh b hb

variable {h : Heap α} {a b : ℕ} {v w : α}

@[simp] theorem cell_empty : (empty : Heap α).cell a = none := rfl

theorem cell_next : h.cell h.next = none := h.fresh _ (Nat.le_refl _)

theorem ne_next (ha : h.cell a = some v) : a ≠ h.next := by
  rintro rfl
  rw [cell_next] at ha
  cases ha

theorem cell_alloc : (h.alloc v).cell = update h.cell h.next (some v) := rfl

theorem cell_free : (h.free a).cell = update h.cell a none := rfl

/-- An object that is freed at once leaves nothing. -/
theorem cell_alloc_free : ((h.alloc v).free h.next).cell = h.cell := by
  rw [cell_free, cell_alloc, update_idem]
  exact update_eq_self_iff.mpr cell_next.symm

theorem cell_set (ha : h.cell a = some w) : (h.set a v).cell = update h.cell a (some v) := by
  funext b
  by_cases hba : b = a
  · rw [hba, update_self]
    simp [set, ha]
  · rw [update_of_ne hba]
    simp [set, hba]

end Heap

/-!
## Programs that use pointers

A pointer is an address or nothing; using one that is `none`, or whose object was freed, is a fault.
-/

namespace Memory

open Outcome

inductive Fault where
  /-- A pointer is used that is nothing or that points to what was freed. -/
  | badPointer
  | assertion
  /-- An access past the end of a buffer -/
  | overrun
  | endlessLoop
deriving DecidableEq, Repr

variable {α : Type} {h : Heap α} {p : Option ℕ} {a : ℕ} {v : α}

def deref (h : Heap α) (p : Option ℕ) : Except Fault (ℕ × α) :=
  match p with
  | none => .error .badPointer
  | some a =>
    match h.cell a with
    | none => .error .badPointer
    | some v => .ok (a, v)

theorem deref_eq (ha : h.cell a = some v) : deref h (some a) = .ok (a, v) := by
  unfold deref
  simp only [ha]

theorem ensures_deref : Ensures (deref h p) fun r => p = some r.1 ∧ h.cell r.1 = some r.2 := by
  unfold deref
  cases p with
  | none => exact ensures_error.mpr trivial
  | some a =>
    dsimp only
    cases hcell : h.cell a with
    | none => exact ensures_error.mpr trivial
    | some v => exact ensures_ok.mpr ⟨rfl, hcell⟩

/-- A write through a pointer, unless it is nothing -/
def writeOpt (h : Heap α) (p : Option ℕ) (f : α → α) : Except Fault (Heap α) :=
  match p with
  | none => .ok h
  | some a =>
    match h.cell a with
    | none => .error .badPointer
    | some v => .ok (h.set a (f v))

theorem writeOpt_none {f : α → α} : writeOpt h none f = .ok h := rfl

theorem writeOpt_some {f : α → α} (ha : h.cell a = some v) :
    writeOpt h (some a) f = .ok (h.set a (f v)) := by
  unfold writeOpt
  simp only [ha]

/-- A write changes the object that the pointer points to, and no other one. -/
theorem writeOpt_spec {f : α → α} (hp : ∀ b, p = some b → ∃ v, h.cell b = some v) :
    Succeeds (writeOpt h p f) fun h' => h'.next = h.next ∧
      ∀ b, h'.cell b = if p = some b then (h.cell b).map f else h.cell b := by
  cases p with
  | none => exact succeeds_ok.mpr ⟨rfl, fun b => (if_neg (by simp)).symm⟩
  | some a =>
    obtain ⟨v, hv⟩ := hp a rfl
    rw [writeOpt_some hv]
    refine succeeds_ok.mpr ⟨rfl, ?_⟩
    intro b
    rw [Heap.cell_set hv]
    by_cases hb : b = a
    · rw [hb, Function.update_self, if_pos rfl, hv]
      rfl
    · rw [Function.update_of_ne hb, if_neg fun hab => hb (Option.some.inj hab).symm]

end Memory
