import Mathlib.Data.Nat.Notation
import Mathlib.Data.Int.Notation

/-!
# Counted 2-3-4 trees (`tree234.c`)

A pointer to a node is `null` or the node with its fields. A node has an identity, which is what the
parent pointers of its kids refer to. Where the code goes up along parent pointers, the nodes on the
way down are kept in a list, and the parent pointer has to lead to the first of them.

A result `none` of a loop stands for the use of a pointer that is `NULL` or leads elsewhere.
-/

namespace PuttyNd.Tree234

/-- A pointer to a `node234`: its identity, the parent pointer, `kids`, `counts` and `elems`. -/
inductive Node (α : Type*) where
  | null
  | node (id : ℕ) (parent : Option ℕ) (k0 k1 k2 k3 : Node α) (c0 c1 c2 c3 : ℕ) (e0 e1 e2 : Option α)
deriving DecidableEq, Repr

variable {α : Type*}

namespace Node

def isNull : Node α → Bool
  | null => true
  | node .. => false

def id : Node α → Option ℕ
  | null => none
  | node i .. => some i

def parent : Node α → Option ℕ
  | null => none
  | node _ p .. => p

/-- `kids[j]`. -/
def kid : Node α → ℕ → Node α
  | node _ _ k0 _ _ _ _ _ _ _ _ _ _, 0 => k0
  | node _ _ _ k1 _ _ _ _ _ _ _ _ _, 1 => k1
  | node _ _ _ _ k2 _ _ _ _ _ _ _ _, 2 => k2
  | node _ _ _ _ _ k3 _ _ _ _ _ _ _, 3 => k3
  | _, _ => null

/-- `counts[j]`. -/
def count : Node α → ℕ → ℕ
  | node _ _ _ _ _ _ c0 _ _ _ _ _ _, 0 => c0
  | node _ _ _ _ _ _ _ c1 _ _ _ _ _, 1 => c1
  | node _ _ _ _ _ _ _ _ c2 _ _ _ _, 2 => c2
  | node _ _ _ _ _ _ _ _ _ c3 _ _ _, 3 => c3
  | _, _ => 0

/-- `elems[j]`. -/
def elem : Node α → ℕ → Option α
  | node _ _ _ _ _ _ _ _ _ _ e0 _ _, 0 => e0
  | node _ _ _ _ _ _ _ _ _ _ _ e1 _, 1 => e1
  | node _ _ _ _ _ _ _ _ _ _ _ _ e2, 2 => e2
  | _, _ => none

/-- `parent = p`, if the pointer is not `NULL`. -/
def setParent (p : Option ℕ) : Node α → Node α
  | null => null
  | node i _ k0 k1 k2 k3 c0 c1 c2 c3 e0 e1 e2 => node i p k0 k1 k2 k3 c0 c1 c2 c3 e0 e1 e2

/-- `kids[j] = k`. -/
def setKid : Node α → ℕ → Node α → Node α
  | node i p _ k1 k2 k3 c0 c1 c2 c3 e0 e1 e2, 0, k => node i p k k1 k2 k3 c0 c1 c2 c3 e0 e1 e2
  | node i p k0 _ k2 k3 c0 c1 c2 c3 e0 e1 e2, 1, k => node i p k0 k k2 k3 c0 c1 c2 c3 e0 e1 e2
  | node i p k0 k1 _ k3 c0 c1 c2 c3 e0 e1 e2, 2, k => node i p k0 k1 k k3 c0 c1 c2 c3 e0 e1 e2
  | node i p k0 k1 k2 _ c0 c1 c2 c3 e0 e1 e2, 3, k => node i p k0 k1 k2 k c0 c1 c2 c3 e0 e1 e2
  | n, _, _ => n

/-- `counts[j] = c`. -/
def setCount : Node α → ℕ → ℕ → Node α
  | node i p k0 k1 k2 k3 _ c1 c2 c3 e0 e1 e2, 0, c => node i p k0 k1 k2 k3 c c1 c2 c3 e0 e1 e2
  | node i p k0 k1 k2 k3 c0 _ c2 c3 e0 e1 e2, 1, c => node i p k0 k1 k2 k3 c0 c c2 c3 e0 e1 e2
  | node i p k0 k1 k2 k3 c0 c1 _ c3 e0 e1 e2, 2, c => node i p k0 k1 k2 k3 c0 c1 c c3 e0 e1 e2
  | node i p k0 k1 k2 k3 c0 c1 c2 _ e0 e1 e2, 3, c => node i p k0 k1 k2 k3 c0 c1 c2 c e0 e1 e2
  | n, _, _ => n

/-- `elems[j] = e`. -/
def setElem : Node α → ℕ → Option α → Node α
  | node i p k0 k1 k2 k3 c0 c1 c2 c3 _ e1 e2, 0, e => node i p k0 k1 k2 k3 c0 c1 c2 c3 e e1 e2
  | node i p k0 k1 k2 k3 c0 c1 c2 c3 e0 _ e2, 1, e => node i p k0 k1 k2 k3 c0 c1 c2 c3 e0 e e2
  | node i p k0 k1 k2 k3 c0 c1 c2 c3 e0 e1 _, 2, e => node i p k0 k1 k2 k3 c0 c1 c2 c3 e0 e1 e
  | n, _, _ => n

/-- The number of levels. -/
def depth : Node α → ℕ
  | null => 0
  | node _ _ k0 k1 k2 k3 _ _ _ _ _ _ _ =>
    max (max k0.depth k1.depth) (max k2.depth k3.depth) + 1

end Node

open Node

/-- `tree234`: `cmp` is `NULL` for an unsorted tree. `next` is the identity of the next new node. -/
structure Tree (α : Type*) where
  root : Node α
  cmp : Option (α → α → Ordering)
  next : ℕ

/-- `newtree234`. -/
def newtree234 (cmp : Option (α → α → Ordering)) : Tree α := { root := null, cmp := cmp, next := 0 }

/-- `countnode234`. -/
def countnode234 (n : Node α) : ℕ :=
  n.count 0 + n.count 1 + n.count 2 + n.count 3 +
    ((n.elem 0).toList.length + (n.elem 1).toList.length + (n.elem 2).toList.length)

/-- `count234`. -/
def count234 (t : Tree α) : ℕ := countnode234 t.root

/-- The index of the kid of `parent` that is `n`. -/
def childnum (parent n : Node α) : ℕ :=
  if (parent.kid 0).id = n.id then 0
  else if (parent.kid 1).id = n.id then 1
  else if (parent.kid 2).id = n.id then 2
  else 3

/-- The parent pointer of `n` leads to the last node on the way down, or is `NULL` at the root. -/
def leadsUp (n : Node α) (path : List (Node α)) : Prop := n.parent = path.head?.bind Node.id

instance (n : Node α) (path : List (Node α)) : Decidable (leadsUp n path) := by
  unfold leadsUp
  infer_instance

/-! ## Adding -/

/-- The first or last thing to do in a node: go to a kid, with a new index; an equal element; or the
index is out of range. -/
inductive Pick (α : Type*) where
  | child (j : ℕ) (index : Option ℕ)
  | exists (a : α)
  | fail
deriving DecidableEq, Repr

/-- The choice of `childnum` in `add234_internal`. There is no index in a sorted tree. -/
def addPick (cmp : α → α → Ordering) (e : α) (n : Node α) : Option ℕ → Pick α
  | some index =>
    if (n.kid 0).isNull then .child index (some index)
    else if index ≤ n.count 0 then .child 0 (some index)
    else
      let index := index - (n.count 0 + 1)
      if index ≤ n.count 1 then .child 1 (some index)
      else
        let index := index - (n.count 1 + 1)
        if index ≤ n.count 2 then .child 2 (some index)
        else
          let index := index - (n.count 2 + 1)
          if index ≤ n.count 3 then .child 3 (some index) else .fail
  | none =>
    match n.elem 0 with
    | none => .fail
    | some a =>
      match cmp e a, n.elem 1 with
      | .lt, _ => .child 0 none
      | .eq, _ => .exists a
      | .gt, none => .child 1 none
      | .gt, some b =>
        match cmp e b, n.elem 2 with
        | .lt, _ => .child 1 none
        | .eq, _ => .exists b
        | .gt, none => .child 2 none
        | .gt, some c =>
          match cmp e c with
          | .lt => .child 2 none
          | .eq => .exists c
          | .gt => .child 3 none

/-- The end of the way down: the place for the element and the way to it, or an equal element. -/
inductive Descent (α : Type*) where
  | slot (np : ℕ) (path : List (Node α))
  | exists (a : α)
  | fail
deriving DecidableEq, Repr

/-- The loop `while (*np)`. -/
def addDescend (cmp : α → α → Ordering) (e : α) :
    Node α → Option ℕ → ℕ → List (Node α) → Descent α
  | null, _, np, path => .slot np path
  | node i p k0 k1 k2 k3 c0 c1 c2 c3 e0 e1 e2, index, _, path =>
    let n := node i p k0 k1 k2 k3 c0 c1 c2 c3 e0 e1 e2
    match addPick cmp e n index with
    | .child 0 index => addDescend cmp e k0 index 0 (n :: path)
    | .child 1 index => addDescend cmp e k1 index 1 (n :: path)
    | .child 2 index => addDescend cmp e k2 index 2 (n :: path)
    | .child 3 index => addDescend cmp e k3 index 3 (n :: path)
    | .child j _ => .slot j (n :: path)
    | .exists a => .exists a
    | .fail => .fail

/-- What is to be inserted at `np`: an element, and what goes to its left and right with its counts. -/
structure Insertion (α : Type*) where
  left : Node α
  lcount : ℕ
  e : Option α
  right : Node α
  rcount : ℕ

/-- Make the node the parent of all its kids. -/
def adopt : Node α → Node α
  | null => null
  | node i p k0 k1 k2 k3 c0 c1 c2 c3 e0 e1 e2 =>
    node i p (k0.setParent (some i)) (k1.setParent (some i)) (k2.setParent (some i))
      (k3.setParent (some i)) c0 c1 c2 c3 e0 e1 e2

/-- Insert in a 2-node. -/
def insert2 : Node α → ℕ → Insertion α → Node α
  | node i p _ k1 _ k3 _ c1 _ c3 e0 _ e2, 0, x =>
    adopt (node i p x.left x.right k1 k3 x.lcount x.rcount c1 c3 x.e e0 e2)
  | node i p k0 _ _ k3 c0 _ _ c3 e0 _ e2, _, x =>
    adopt (node i p k0 x.left x.right k3 c0 x.lcount x.rcount c3 e0 x.e e2)
  | null, _, _ => null

/-- Insert in a 3-node. -/
def insert3 : Node α → ℕ → Insertion α → Node α
  | node i p _ k1 k2 _ _ c1 c2 _ e0 e1 _, 0, x =>
    adopt (node i p x.left x.right k1 k2 x.lcount x.rcount c1 c2 x.e e0 e1)
  | node i p k0 _ k2 _ c0 _ c2 _ e0 e1 _, 1, x =>
    adopt (node i p k0 x.left x.right k2 c0 x.lcount x.rcount c2 e0 x.e e1)
  | node i p k0 k1 _ _ c0 c1 _ _ e0 e1 _, _, x =>
    adopt (node i p k0 k1 x.left x.right c0 c1 x.lcount x.rcount e0 e1 x.e)
  | null, _, _ => null

/-- Insert in a 4-node: the new node `m` with three kids, the element for the level above, and the
node with two kids. -/
def split4 (m : ℕ) : Node α → ℕ → Insertion α → Node α × Option α × Node α
  | node i p _ k1 k2 k3 _ c1 c2 c3 e0 e1 e2, 0, x =>
    (adopt (node m p x.left x.right k1 null x.lcount x.rcount c1 0 x.e e0 none), e1,
      adopt (node i p k2 k3 null null c2 c3 0 0 e2 none none))
  | node i p k0 _ k2 k3 c0 _ c2 c3 e0 e1 e2, 1, x =>
    (adopt (node m p k0 x.left x.right null c0 x.lcount x.rcount 0 e0 x.e none), e1,
      adopt (node i p k2 k3 null null c2 c3 0 0 e2 none none))
  | node i p k0 k1 _ k3 c0 c1 _ c3 e0 e1 e2, 2, x =>
    (adopt (node m p k0 k1 x.left null c0 c1 x.lcount 0 e0 e1 none), x.e,
      adopt (node i p x.right k3 null null x.rcount c3 0 0 e2 none none))
  | node i p k0 k1 k2 _ c0 c1 c2 _ e0 e1 e2, _, x =>
    (adopt (node m p k0 k1 k2 null c0 c1 c2 0 e0 e1 none), e2,
      adopt (node i p x.left x.right null null x.lcount x.rcount 0 0 x.e none none))
  | null, _, _ => (null, none, null)

/-- The way up from `n`, on which the counts are updated: the root. -/
def addCounts (n : Node α) : List (Node α) → Option (Node α)
  | [] => if leadsUp n [] then some n else none
  | f :: path =>
    if leadsUp n (f :: path) then
      addCounts ((f.setKid (childnum f n) n).setCount (childnum f n) (countnode234 n)) path
    else none

/-- The new root that is needed when the old one has split. -/
def newRoot (i : ℕ) (x : Insertion α) : Node α :=
  adopt (node i none x.left x.right null null x.lcount x.rcount 0 0 x.e none none)

/-- The loop `while (n)`: insert at `np` in the first node of the path, which is split if it is full.
The new root and the identity of the next new node. -/
def addLoop (next np : ℕ) (x : Insertion α) : List (Node α) → Option (Node α × ℕ)
  | [] => some (newRoot next x, next + 1)
  | n :: path =>
    if n.elem 1 = none then (addCounts (insert2 n np x) path).map (·, next)
    else if n.elem 2 = none then (addCounts (insert3 n np x) path).map (·, next)
    else if leadsUp n path then
      let (left, e, right) := split4 next n np x
      let np := (path.head?.map (childnum · n)).getD 0
      addLoop (next + 1) np ⟨left, countnode234 left, e, right, countnode234 right⟩ path
    else none

/-- `add234_internal`: the tree, and the element or one that equals it. The comparison is not used if
there is an index. -/
def add234Internal (t : Tree α) (cmp : α → α → Ordering) (e : α) (index : Option ℕ) :
    Option (Tree α × Option α) :=
  if t.root.isNull then
    some ({ t with
      root := node t.next none null null null null 0 0 0 0 (some e) none none
      next := t.next + 1 }, some e)
  else
    match addDescend cmp e t.root index 0 [] with
    | .slot np path =>
      (addLoop t.next np ⟨null, 0, some e, null, 0⟩ path).map fun r =>
        ({ t with root := r.1, next := r.2 }, some e)
    | .exists a => some (t, some a)
    | .fail => some (t, none)

/-- `add234`. -/
def add234 (t : Tree α) (e : α) : Option (Tree α × Option α) :=
  match t.cmp with
  | none => some (t, none)
  | some cmp => add234Internal t cmp e none

/-- `addpos234`. -/
def addpos234 (t : Tree α) (e : α) (index : ℤ) : Option (Tree α × Option α) :=
  if index < 0 ∨ t.cmp.isSome then some (t, none)
  else add234Internal t (fun _ _ => .eq) e (some index.toNat)

/-! ## Looking up -/

/-- Where the element with an index is: in a kid, with the index there, or in the node. -/
inductive Place where
  | kid (ki index : ℕ)
  | elem (ei : ℕ)
deriving DecidableEq, Repr

/-- The comparisons of an index with the counts of a node. -/
def locate (n : Node α) (index : ℕ) : Place :=
  if index < n.count 0 then .kid 0 index
  else if index < n.count 0 + 1 then .elem 0
  else
    let index := index - (n.count 0 + 1)
    if index < n.count 1 then .kid 1 index
    else if index < n.count 1 + 1 then .elem 1
    else
      let index := index - (n.count 1 + 1)
      if index < n.count 2 then .kid 2 index
      else if index < n.count 2 + 1 then .elem 2
      else .kid 3 (index - (n.count 2 + 1))

/-- The loop of `index234`. -/
def indexLoop : Node α → ℕ → Option α
  | null, _ => none
  | node i p k0 k1 k2 k3 c0 c1 c2 c3 e0 e1 e2, index =>
    match locate (node i p k0 k1 k2 k3 c0 c1 c2 c3 e0 e1 e2) index with
    | .kid 0 index => indexLoop k0 index
    | .kid 1 index => indexLoop k1 index
    | .kid 2 index => indexLoop k2 index
    | .kid _ index => indexLoop k3 index
    | .elem 0 => e0
    | .elem 1 => e1
    | .elem _ => e2

/-- `index234`. -/
def index234 (t : Tree α) (index : ℤ) : Option α :=
  if index < 0 ∨ index ≥ countnode234 t.root then none else indexLoop t.root index.toNat

/-- The relations of `findrelpos234`. -/
inductive Rel where
  | eq | lt | le | ge | gt
deriving DecidableEq, Repr

/-- The loop over the elements of a node: the kid to go to, or the element that is equal, with its
index. -/
inductive Scan where
  | child (kcount idx : ℕ)
  | found (ecount idx : ℕ)
deriving DecidableEq, Repr

def findScan (key : α → Ordering) (n : Node α) : List ℕ → ℕ → Scan
  | [], idx => .child 3 idx
  | kcount :: ks, idx =>
    match n.elem kcount with
    | none => .child kcount idx
    | some a =>
      let idx' := if (n.kid kcount).isNull then idx else idx + n.count kcount
      match key a with
      | .lt => .child kcount idx
      | .eq => .found kcount idx'
      | .gt => findScan key n ks (idx' + 1)

/-- The loop `while (1)` of `findrelpos234`: the element that is equal, or none, and the index. -/
def findLoop (key : α → Ordering) : Node α → ℕ → Option α × ℕ
  | null, idx => (none, idx)
  | node i p k0 k1 k2 k3 c0 c1 c2 c3 e0 e1 e2, idx =>
    let n := node i p k0 k1 k2 k3 c0 c1 c2 c3 e0 e1 e2
    match findScan key n [0, 1, 2] idx with
    | .found ecount idx => (n.elem ecount, idx)
    | .child 0 idx => findLoop key k0 idx
    | .child 1 idx => findLoop key k1 idx
    | .child 2 idx => findLoop key k2 idx
    | .child _ idx => findLoop key k3 idx

/-- `findrelpos234`, with the comparison of the element that is looked for: the element and its index.
If `e` is `NULL`, the comparison is constant. -/
def findrelpos234 (t : Tree α) (key : α → Ordering) (relation : Rel) : Option (α × ℤ) :=
  if t.root.isNull then none
  else
    let (found, idx) := findLoop key t.root 0
    match found, relation with
    | some a, .eq | some a, .le | some a, .ge => some (a, idx)
    | some _, .lt => (index234 t ((idx : ℤ) - 1)).map (·, (idx : ℤ) - 1)
    | some _, .gt => (index234 t ((idx : ℤ) + 1)).map (·, (idx : ℤ) + 1)
    | none, .eq => none
    | none, .lt | none, .le => (index234 t ((idx : ℤ) - 1)).map (·, (idx : ℤ) - 1)
    | none, .ge | none, .gt => (index234 t idx).map (·, (idx : ℤ))

/-- The comparison in the loop of `findrelpos234`: with `e`, or the fake result if `e` is `NULL`. There is
none where the assertion fails. -/
def findKey {β : Type*} (cmp : β → α → Ordering) (relation : Rel) : Option β → Option (α → Ordering)
  | some e => some (cmp e)
  | none =>
    match relation with
    | .lt => some fun _ => .gt
    | .gt => some fun _ => .lt
    | _ => none

/-- `findrelpos234` with the pointer `e` and the function `cmp`, for which the caller may pass `NULL` to
mean `t->cmp`. None is the failed assertion. -/
def findrelpos234With {β : Type*} (t : Tree α) (e : Option β) (cmp : β → α → Ordering) (relation : Rel) :
    Option (Option (α × ℤ)) :=
  if t.root.isNull then some none
  else (findKey cmp relation e).map (findrelpos234 t · relation)

/-- `find234`. -/
def find234 (t : Tree α) (key : α → Ordering) : Option α := (findrelpos234 t key .eq).map (·.1)

/-! ## Deleting -/

/-- The nodes `n` and `sub` and the index after a step down to the kid `ki`. -/
structure Down (α : Type*) where
  n : Node α
  sub : Node α
  index : ℕ

/-- `sub` with the subtree `k` and the element `e` in front. -/
def putFirst (sub : Node α) (e : Option α) (k : Node α) (c : ℕ) : Node α :=
  let sub := ((sub.setKid 2 (sub.kid 1)).setCount 2 (sub.count 1)).setElem 1 (sub.elem 0)
  let sub := ((sub.setKid 1 (sub.kid 0)).setCount 1 (sub.count 0)).setElem 0 e
  (sub.setKid 0 (k.setParent sub.id)).setCount 0 c

/-- `lastelem` -/
def lastelem (sib : Node α) : ℕ := if sib.elem 2 ≠ none then 2 else if sib.elem 1 ≠ none then 1 else 0

/-- `sib` without its last element and its last kid. -/
def dropLast (sib : Node α) : Node α :=
  ((sib.setKid (lastelem sib + 1) null).setCount (lastelem sib + 1) 0).setElem (lastelem sib) none

/-- Case 3a, left-handed: a subtree moves from the kid `ki - 1` to the kid `ki`. -/
def moveRight (n : Node α) (ki index : ℕ) : Down α :=
  let sib := n.kid (ki - 1)
  let sub := putFirst (n.kid ki) (n.elem (ki - 1)) (sib.kid (lastelem sib + 1))
    (sib.count (lastelem sib + 1))
  let n := n.setElem (ki - 1) (sib.elem (lastelem sib))
  let sib := dropLast sib
  let index := index + n.count (ki - 1) - countnode234 sib
  let n := (n.setCount ki (countnode234 sub)).setCount (ki - 1) (countnode234 sib)
  ⟨(n.setKid (ki - 1) sib).setKid ki sub, sub, index⟩

/-- `sub` with the element `e` and the subtree `k` behind. -/
def putLast (sub : Node α) (e : Option α) (k : Node α) (c : ℕ) : Node α :=
  ((sub.setElem 1 e).setKid 2 (k.setParent sub.id)).setCount 2 c

/-- The loop over `j` in `dropFirst`. -/
def shiftLeft (sib : Node α) : List ℕ → Node α
  | [] => sib
  | j :: js =>
    if j < 2 ∧ sib.elem (j + 1) ≠ none then
      shiftLeft (((sib.setKid (j + 1) (sib.kid (j + 2))).setCount (j + 1) (sib.count (j + 2))).setElem j
        (sib.elem (j + 1))) js
    else ((sib.setKid (j + 1) null).setCount (j + 1) 0).setElem j none

/-- `sib` without its first element and its first kid. -/
def dropFirst (sib : Node α) : Node α :=
  shiftLeft ((sib.setKid 0 (sib.kid 1)).setCount 0 (sib.count 1)) [0, 1, 2]

/-- Case 3a, right-handed: a subtree moves from the kid `ki + 1` to the kid `ki`. -/
def moveLeft (n : Node α) (ki index : ℕ) : Down α :=
  let sib := n.kid (ki + 1)
  let sub := putLast (n.kid ki) (n.elem ki) (sib.kid 0) (sib.count 0)
  let n := n.setElem ki (sib.elem 0)
  let sib := dropFirst sib
  let n := (n.setCount ki (countnode234 sub)).setCount (ki + 1) (countnode234 sib)
  ⟨(n.setKid (ki + 1) sib).setKid ki sub, sub, index⟩

/-- `sub` with all of `sib` and the element `e` in front. -/
def mergeInto (sub : Node α) (sib : Node α) (e : Option α) : Node α :=
  let sub := ((sub.setKid 3 (sub.kid 1)).setCount 3 (sub.count 1)).setElem 2 (sub.elem 0)
  let sub := ((sub.setKid 2 (sub.kid 0)).setCount 2 (sub.count 0)).setElem 1 e
  let sub := (sub.setKid 1 ((sib.kid 1).setParent sub.id)).setCount 1 (sib.count 1)
  let sub := sub.setElem 0 (sib.elem 0)
  (sub.setKid 0 ((sib.kid 0).setParent sub.id)).setCount 0 (sib.count 0)

/-- The loop over `j` in case 3b that removes the kid `j` of `n`. -/
def removeKid (n : Node α) : List ℕ → Node α
  | [] => n
  | j :: js =>
    if j < 3 ∧ ¬ (n.kid (j + 1)).isNull then
      removeKid (((n.setKid j (n.kid (j + 1))).setCount j (n.count (j + 1))).setElem j
        (if j < 2 then n.elem (j + 1) else none)) js
    else ((n.setKid j null).setCount j 0).setElem j none

/-- Case 3b: the kid `ki` and a neighbour with one element each are merged. -/
def mergeKids (n : Node α) (ki index : ℕ) : Down α :=
  let index := if ki > 0 then index + (n.count (ki - 1) + 1) else index
  let ki := if ki > 0 then ki - 1 else ki
  let sub := mergeInto (n.kid (ki + 1)) (n.kid ki) (n.elem ki)
  let n := (n.setCount (ki + 1) (countnode234 sub)).setKid (ki + 1) sub
  ⟨removeKid n ((List.range 4).drop ki), sub, index⟩

/-- The state of the loops of `delpos234_internal`: the way to `n`, the index in `n`, and what is to be
returned. -/
structure Del (α : Type*) where
  path : List (Node α)
  n : Node α
  index : ℕ
  retval : Option α

/-- The loop over `i` in case 1 that removes the element `i` of a leaf. -/
def removeElem (n : Node α) : List ℕ → Node α
  | [] => n
  | i :: is =>
    if i < 2 ∧ n.elem (i + 1) ≠ none then removeElem (n.setElem i (n.elem (i + 1))) is
    else n.setElem i none

/-- The way up from `n`, on which the counts are decremented: the root. -/
def delCounts (n : Node α) : List (Node α) → Option (Node α)
  | [] => if leadsUp n [] then some n else none
  | f :: path =>
    if leadsUp n (f :: path) then
      delCounts ((f.setKid (childnum f n) n).setCount (childnum f n) (f.count (childnum f n) - 1)) path
    else none

/-- The last element below `m`. -/
def lastBelow : Node α → Option α
  | null => none
  | node _ _ k0 k1 k2 k3 _ _ _ _ e0 e1 e2 =>
    if k0.isNull then if e2 ≠ none then e2 else if e1 ≠ none then e1 else e0
    else if ¬ k3.isNull then lastBelow k3
    else if ¬ k2.isNull then lastBelow k2
    else if ¬ k1.isNull then lastBelow k1
    else lastBelow k0

/-- The first element below `m`. -/
def firstBelow : Node α → Option α
  | null => none
  | node _ _ k0 _ _ _ _ _ _ _ e0 _ _ => if k0.isNull then e0 else firstBelow k0

/-- The loop over `j` in case 2c that removes the element `j` and the kid after it. -/
def removePair (n : Node α) : List ℕ → Node α
  | [] => n
  | j :: js =>
    if j < 2 ∧ n.elem (j + 1) ≠ none then
      removePair (((n.setElem j (n.elem (j + 1))).setKid (j + 1) (n.kid (j + 2))).setCount (j + 1)
        (n.count (j + 2))) js
    else ((n.setElem j none).setKid (j + 1) null).setCount (j + 1) 0

/-- `a` with the element `e` and all of `b` behind. -/
def mergeBehind (a : Node α) (e : Option α) (b : Node α) : Node α :=
  let a := a.setElem 1 e
  let a := ((a.setKid 2 ((b.kid 0).setParent a.id)).setCount 2 (b.count 0)).setElem 2 (b.elem 0)
  (a.setKid 3 ((b.kid 1).setParent a.id)).setCount 3 (b.count 1)

/-- Case 2c: the kids beside the element `ei` are merged with it. -/
def mergeAround (n : Node α) (ei : ℕ) : Down α :=
  let a := mergeBehind (n.kid ei) (n.elem ei) (n.kid (ei + 1))
  let n := (n.setCount ei (countnode234 a)).setKid ei a
  ⟨removePair n ((List.range 3).drop ei), a, a.count 0 + a.count 1 + 1⟩

/-- What one round of the loops of `delpos234_internal` ends with. -/
inductive DelStep (α : Type*) where
  | done (root : Node α) (retval : Option α)
  | go (d : Del α)

/-- Go on in `sub` below `n`. -/
def goSub (path : List (Node α)) (d : Down α) (retval : Option α) : DelStep α :=
  .go ⟨d.n :: path, d.sub, d.index, retval⟩

/-- Go on in the merged node; it becomes the root if no element is left above it. -/
def goMerged (path : List (Node α)) (d : Down α) (retval : Option α) : DelStep α :=
  if d.n.elem 0 = none then .go ⟨[], d.sub.setParent none, d.index, retval⟩
  else goSub path d retval

/-- The step down to the kid `ki`, which has at least two elements afterwards. -/
def goDown (path : List (Node α)) (n : Node α) (ki index : ℕ) (retval : Option α) :
    Option (DelStep α) :=
  if (n.kid ki).isNull then none
  else if (n.kid ki).elem 1 ≠ none then some (goSub path ⟨n, n.kid ki, index⟩ retval)
  else if ki > 0 ∧ (n.kid (ki - 1)).isNull then none
  else if ki > 0 ∧ (n.kid (ki - 1)).elem 1 ≠ none then
    some (goSub path (moveRight n ki index) retval)
  else if ki < 3 ∧ ¬ (n.kid (ki + 1)).isNull ∧ (n.kid (ki + 1)).elem 1 ≠ none then
    some (goSub path (moveLeft n ki index) retval)
  else if ki = 0 ∧ (n.kid 1).isNull then none
  else some (goMerged path (mergeKids n ki index) retval)

/-- The cases for the element `ei` of the node `n`, which is to be deleted. -/
def delElem (path : List (Node α)) (n : Node α) (ei : ℕ) (retval : Option α) : Option (DelStep α) :=
  if n.parent = none ∧ n.elem 1 = none ∧ (n.kid 0).isNull then some (.done null retval)
  else if (n.kid 0).isNull ∧ n.elem 1 ≠ none then
    (delCounts (removeElem n ((List.range 3).drop ei)) path).map (.done · retval)
  else if (n.kid ei).isNull then none
  else if (n.kid ei).elem 1 ≠ none then
    let n := n.setElem ei (lastBelow (n.kid ei))
    some (goSub path ⟨n, n.kid ei, n.count ei - 1⟩ retval)
  else if (n.kid (ei + 1)).isNull then none
  else if (n.kid (ei + 1)).elem 1 ≠ none then
    let n := n.setElem ei (firstBelow (n.kid (ei + 1)))
    some (goSub path ⟨n, n.kid (ei + 1), 0⟩ retval)
  else some (goMerged path (mergeAround n ei) retval)

/-- One round: a step down, or the treatment of the element that was found. -/
def delStep (d : Del α) : Option (DelStep α) :=
  if d.n.isNull then none
  else
    match locate d.n d.index with
    | .kid ki index => goDown d.path d.n ki index d.retval
    | .elem ei => delElem d.path d.n ei (d.retval.or (d.n.elem ei))

/-- The loops of `delpos234_internal`, for at most `fuel` rounds. -/
def delLoop : ℕ → Del α → Option (Node α × Option α)
  | 0, _ => none
  | fuel + 1, d =>
    match delStep d with
    | none => none
    | some (.done root retval) => some (root, retval)
    | some (.go d) => delLoop fuel d

/-- `delpos234_internal`. There are at most as many rounds as levels. -/
def delpos234Internal (t : Tree α) (index : ℕ) : Option (Tree α × Option α) :=
  (delLoop t.root.depth ⟨[], t.root, index, none⟩).map fun r => ({ t with root := r.1 }, r.2)

/-- `delpos234`. -/
def delpos234 (t : Tree α) (index : ℤ) : Option (Tree α × Option α) :=
  if index < 0 ∨ index ≥ countnode234 t.root then some (t, none)
  else delpos234Internal t index.toNat

/-- `del234`. -/
def del234 (t : Tree α) (e : α) : Option (Tree α × Option α) :=
  match t.cmp with
  | none => none
  | some cmp =>
    match findrelpos234 t (cmp e) .eq with
    | none => some (t, none)
    | some (_, index) => delpos234Internal t index.toNat

/-! ## The checks -/

/-- The check that all elements lie strictly between the bounds, in order. -/
def chkorder (cmp : α → α → Ordering) : Option α → List α → Option α → Bool
  | some lower, [], some higher => cmp lower higher = .lt
  | _, [], _ => true
  | none, a :: as, high => chkorder cmp (some a) as high
  | some lower, a :: as, high => cmp lower a = .lt && chkorder cmp (some a) as high

/-- The check of the order, which an unsorted tree does not have. -/
def chkbounds (cmp : Option (α → α → Ordering)) (low : Option α) (elems : List α) (high : Option α) :
    Bool :=
  match cmp with
  | none => true
  | some cmp => chkorder cmp low elems high

/-- The number of entries before the first that is `NULL`. -/
def leading (present : List Bool) : ℕ := (present.takeWhile id).length

/-- `nkids`: the kids before the first that is `NULL`. -/
def nkids (n : Node α) : ℕ :=
  leading [¬ (n.kid 0).isNull, ¬ (n.kid 1).isNull, ¬ (n.kid 2).isNull, ¬ (n.kid 3).isNull]

/-- `nelems`: the elements before the first that is `NULL`. -/
def leadingElems (n : Node α) : ℕ :=
  leading [(n.elem 0).isSome, (n.elem 1).isSome, (n.elem 2).isSome]

/-- What `chknode` checks of the node itself, apart from the depth: no error is reported. -/
def chkfields (cmp : Option (α → α → Ordering)) (n : Node α) (lowbound highbound : Option α) : Bool :=
  ([0, 1, 2, 3].all fun j => j < nkids n || (n.kid j).isNull && n.count j = 0) &&
    ([0, 1, 2].all fun j => j < leadingElems n || (n.elem j).isNone) &&
    (nkids n = 0 || nkids n = if leadingElems n ≠ 0 then leadingElems n + 1 else 0) &&
    leadingElems n ≠ 0 &&
    chkbounds cmp lowbound ((n.elem 0).toList ++ (n.elem 1).toList ++ (n.elem 2).toList) highbound &&
    ([0, 1, 2, 3].all fun j => nkids n ≤ j || (n.kid j).parent = n.id)

/-- The check of the depth at a leaf: `ctx->treedepth` afterwards. -/
def chkdepth (n : Node α) (level : ℕ) : Option ℕ → Option (Option ℕ)
  | none => if nkids n = 0 then some (some level) else some none
  | some d => if nkids n = 0 ∧ d ≠ level then none else some (some d)

/-- A round of the loop over the kids, with what `chknode` says of the kid: `count` and
`ctx->treedepth`. -/
def chkkid (n : Node α) (j : ℕ) (chk : Option ℕ → Option (ℕ × Option ℕ)) (r : ℕ × Option ℕ) :
    Option (ℕ × Option ℕ) :=
  if j < nkids n then
    match chk r.2 with
    | none => none
    | some (subcount, treedepth) =>
      if n.count j = subcount then some (r.1 + subcount, treedepth) else none
  else some r

/-- The upper bound for the kid `j`. -/
def higher (n : Node α) (highbound : Option α) (j : ℕ) : Option α :=
  if j ≥ leadingElems n then highbound else n.elem j

/-- `chknode`: the number of elements and `ctx->treedepth`, none if an error is reported. -/
def chknode (cmp : Option (α → α → Ordering)) :
    Node α → ℕ → Option ℕ → Option α → Option α → Option (ℕ × Option ℕ)
  | null, _, _, _, _ => none
  | node i p k0 k1 k2 k3 c0 c1 c2 c3 e0 e1 e2, level, treedepth, lowbound, highbound => do
    let n := node i p k0 k1 k2 k3 c0 c1 c2 c3 e0 e1 e2
    guard (chkfields cmp n lowbound highbound)
    let treedepth ← chkdepth n level treedepth
    let r ← chkkid n 0 (chknode cmp k0 (level + 1) · lowbound (higher n highbound 0))
      (leadingElems n, treedepth)
    let r ← chkkid n 1 (chknode cmp k1 (level + 1) · e0 (higher n highbound 1)) r
    let r ← chkkid n 2 (chknode cmp k2 (level + 1) · e1 (higher n highbound 2)) r
    chkkid n 3 (chknode cmp k3 (level + 1) · e2 (higher n highbound 3)) r

/-- `verify`: the tree has no error, and its elements are those of the array. -/
structure Verified (t : Tree α) (array : List α) : Prop where
  parent : t.root.parent = none
  chknode : t.root.isNull = false →
    ∃ treedepth, chknode t.cmp t.root 0 none none none = some (array.length, treedepth)
  enum : ∀ i : ℕ, index234 t i = array[i]?

end PuttyNd.Tree234
