import Mathlib.Data.List.Basic

/-!
# Run-length coded sequences

A run-length coded sequence is a list of segments: literals that follow each other, or one literal
that is repeated. `expand` is the sequence it stands for and `ser` its serial form, where each
segment is preceded by a header symbol. A `Coder` turns values into literals while it keeps a state;
`encs` is the sequence of literals of a list of values.
-/

namespace RunLength

variable {α β σ : Type*}

/-- A segment of a run-length coded sequence. -/
inductive Seg (α : Type*) where
  /-- The literals `xs`, one after the other. -/
  | lits (xs : List α)
  /-- The literal `x`, `k` times. -/
  | run (x : α) (k : ℕ)

namespace Seg

/-- The literals of a segment. -/
def expand : Seg α → List α
  | lits xs => xs
  | run x k => List.replicate k x

/-- The serial form of a segment whose literals are strings over `β`. -/
def ser (litHdr runHdr : ℕ → β) : Seg (List β) → List β
  | lits xs => litHdr xs.length :: xs.flatten
  | run x k => runHdr k :: x

/-- A segment of literals has `1` to `maxLits` literals, a run has `2` to `maxRun`. -/
def Fits (maxLits maxRun : ℕ) : Seg α → Prop
  | lits xs => 1 ≤ xs.length ∧ xs.length ≤ maxLits
  | run _ k => 2 ≤ k ∧ k ≤ maxRun

end Seg

/-- The sequence that a list of segments stands for. -/
def expand (segs : List (Seg α)) : List α := segs.flatMap Seg.expand

/-- The serial form of a list of segments. -/
def ser (litHdr runHdr : ℕ → β) (segs : List (Seg (List β))) : List β :=
  segs.flatMap (Seg.ser litHdr runHdr)

section Segments

variable (litHdr runHdr : ℕ → β)

@[simp] theorem expand_nil : expand ([] : List (Seg α)) = [] := rfl

@[simp] theorem expand_cons (x : Seg α) (xs : List (Seg α)) :
    expand (x :: xs) = x.expand ++ expand xs := rfl

@[simp] theorem expand_append (xs ys : List (Seg α)) :
    expand (xs ++ ys) = expand xs ++ expand ys := by simp [expand]

@[simp] theorem ser_nil : ser litHdr runHdr [] = [] := rfl

@[simp] theorem ser_cons (x : Seg (List β)) (xs : List (Seg (List β))) :
    ser litHdr runHdr (x :: xs) = x.ser litHdr runHdr ++ ser litHdr runHdr xs := rfl

@[simp] theorem ser_append (xs ys : List (Seg (List β))) :
    ser litHdr runHdr (xs ++ ys) = ser litHdr runHdr xs ++ ser litHdr runHdr ys := by simp [ser]

end Segments

/-- A coder: the literal of a value in a state, and the state after it. -/
structure Coder (α σ β : Type*) where
  enc : σ → α → List β
  next : σ → α → σ

namespace Coder

variable (k : Coder α σ β)

/-- The literals of a list of values. -/
def encs : σ → List α → List (List β)
  | _, [] => []
  | s, a :: as => k.enc s a :: encs (k.next s a) as

/-- The state after a list of values. -/
def final : σ → List α → σ
  | s, [] => s
  | s, a :: as => final (k.next s a) as

@[simp] theorem encs_nil (s : σ) : k.encs s [] = [] := rfl

@[simp] theorem encs_cons (s : σ) (a : α) (as : List α) :
    k.encs s (a :: as) = k.enc s a :: k.encs (k.next s a) as := rfl

@[simp] theorem final_nil (s : σ) : k.final s [] = s := rfl

@[simp] theorem final_cons (s : σ) (a : α) (as : List α) :
    k.final s (a :: as) = k.final (k.next s a) as := rfl

theorem encs_append (s : σ) (xs ys : List α) :
    k.encs s (xs ++ ys) = k.encs s xs ++ k.encs (k.final s xs) ys := by
  induction xs generalizing s with
  | nil => rfl
  | cons x xs ih => simp [ih]

theorem final_append (s : σ) (xs ys : List α) :
    k.final s (xs ++ ys) = k.final (k.final s xs) ys := by
  induction xs generalizing s with
  | nil => rfl
  | cons x xs ih => simp [ih]

@[simp] theorem length_encs (s : σ) (xs : List α) : (k.encs s xs).length = xs.length := by
  induction xs generalizing s with
  | nil => rfl
  | cons x xs ih => simp [ih]

end Coder

end RunLength
