import PuttyNd.Tree.Tree234
import Mathlib.Data.List.Basic

/-!
# Operations on a tree and on a plain list

What a counted tree is for: it is a list, sorted if there is a comparison, and each operation does to the
list what its comment in `tree234.h` says.
-/

namespace PuttyNd.Tree234

variable {α : Type*}

/-- The operations that change a tree. -/
inductive Op (α : Type*) where
  | add (e : α)
  | addpos (e : α) (index : ℤ)
  | del (e : α)
  | delpos (index : ℤ)
deriving DecidableEq, Repr

/-- An operation on the tree: the tree and the pointer that is returned. -/
def treeOp (t : Tree α) : Op α → Option (Tree α × Option α)
  | .add e => add234 t e
  | .addpos e index => addpos234 t e index
  | .del e => del234 t e
  | .delpos index => delpos234 t index

/-- A run of operations on the tree, with the pointers that are returned. -/
def treeRun (t : Tree α) : List (Op α) → Option (Tree α × List (Option α))
  | [] => some (t, [])
  | op :: ops => do
    let (t, r) ← treeOp t op
    let (t, rs) ← treeRun t ops
    pure (t, r :: rs)

/-- To add to a sorted list: behind the elements before it, if there is no equal element. -/
def listAdd (cmp : α → α → Ordering) (e : α) (l : List α) : List α × Option α :=
  match l.find? (cmp e · = .eq) with
  | some a => (l, some a)
  | none => (l.takeWhile (cmp e · = .gt) ++ e :: l.dropWhile (cmp e · = .gt), some e)

/-- To remove the equal element from a sorted list. -/
def listDel (cmp : α → α → Ordering) (e : α) (l : List α) : List α × Option α :=
  (l.eraseP (cmp e · = .eq), l.find? (cmp e · = .eq))

/-- What a relation asks of the comparison of what is looked for with an element. -/
def Rel.holds : Rel → Ordering → Bool
  | .eq, c => c = .eq
  | .lt, c => c = .gt
  | .le, c => c ≠ .lt
  | .ge, c => c ≠ .gt
  | .gt, c => c = .lt

/-- The last element below or not above what is looked for, else the first of those for which the relation
holds, with its index. -/
def listFindrel (key : α → Ordering) (relation : Rel) (l : List α) : Option (α × ℕ) :=
  let meets := l.zipIdx.filter fun p => relation.holds (key p.1)
  match relation with
  | .lt | .le => meets.getLast?
  | .eq | .ge | .gt => meets.head?

/-- An operation on a plain list, none if it is not meant for the kind of tree, or if the position to add
at is not in the list. -/
def listOp (cmp : Option (α → α → Ordering)) (l : List α) : Op α → Option (List α × Option α)
  | .add e => cmp.map fun cmp => listAdd cmp e l
  | .del e => cmp.map fun cmp => listDel cmp e l
  | .addpos e index =>
    if cmp.isNone ∧ 0 ≤ index ∧ index ≤ l.length then some (l.insertIdx index.toNat e, some e)
    else none
  | .delpos index =>
    if 0 ≤ index then some (l.eraseIdx index.toNat, l[index.toNat]?) else some (l, none)

/-- A run of operations on a plain list. -/
def listRun (cmp : Option (α → α → Ordering)) (l : List α) :
    List (Op α) → Option (List α × List (Option α))
  | [] => some (l, [])
  | op :: ops => do
    let (l, r) ← listOp cmp l op
    let (l, rs) ← listRun cmp l ops
    pure (l, r :: rs)

end PuttyNd.Tree234
