import Mathlib.Algebra.GroupWithZero.Nat
import PuttyNd.Tree.Tree234

/-!
# The search by steps (`search234_start`, `search234_step`)

The caller is shown an element and says in which direction to go on. A result `none` is the assertion.
-/

namespace PuttyNd.Tree234

variable {α : Type}

open Node

/-- `elements234` -/
def elements234 (n : Node α) : ℕ :=
  if (n.elem 0).isNone then 0
  else if (n.elem 1).isNone then 1
  else if (n.elem 2).isNone then 2
  else 3

/-- `search234_state` -/
structure Search234State (α : Type) where
  element : Option α
  index : ℤ
  lo : ℤ
  hi : ℤ
  last : ℤ
  base : ℤ
  node : Node α
deriving DecidableEq, Repr

/-- The sum of `1 + counts[i]` for the kids before the kid `j` -/
def countsBefore (n : Node α) : ℕ → ℕ
  | 0 => 0
  | j + 1 => countsBefore n j + (1 + n.count j)

/-- The sum of `counts[i]` for the kids before the kid `j` -/
def sumCounts (n : Node α) : ℕ → ℕ
  | 0 => 0
  | j + 1 => sumCounts n j + n.count j

namespace Search234State

/-- The search goes down to the only kid that is left. -/
def descend (state : Search234State α) : Search234State α where
  element := state.element
  index := state.index
  lo := state.lo
  hi := state.hi
  last := -1
  base := state.base + countsBefore state.node state.lo.toNat
  node := state.node.kid state.lo.toNat

/-- All of a node that was just entered is left. -/
def enter (state : Search234State α) : Search234State α :=
  if state.last = -1 then
    { state with lo := 0, hi := if state.node.isNull then 0 else (elements234 state.node : ℤ) - 1 }
  else state

/-- What is returned -/
def point (state : Search234State α) : Search234State α :=
  if state.node.isNull then { state with element := none, index := state.base }
  else
    let last := (state.lo + state.hi) / 2
    { state with
      last := last
      element := state.node.elem last.toNat
      index := state.base + last + sumCounts state.node (last.toNat + 1) }

end Search234State

def search234Step (state : Search234State α) (direction : ℤ) : Option (Search234State α) :=
  if state.node.isNull then some { state with element := none, index := 0 }
  else if state.last ≠ -1 then
    if direction = 0 then none
    else
      let state :=
        if direction > 0 then { state with lo := state.last + 1 } else { state with hi := state.last - 1 }
      let state := if state.lo > state.hi then state.descend else state
      some state.enter.point
  else some state.enter.point

/-- `search234_start`; what is not set has any value before. -/
def search234Start (state : Search234State α) (t : Tree α) : Option (Search234State α) :=
  search234Step { state with node := t.root, base := 0, last := -1 } 0

/-! ## Allocating the id of a channel (`alloc_channel_id_general` of `sshcommon.c`) -/

def CHANNEL_NUMBER_OFFSET : UInt32 := 256

/-- The loop `while (ss.element)`; each round leaves fewer elements. -/
def allocLoop (localid : α → UInt32) : ℕ → Search234State α → Option (Search234State α)
  | 0, _ => none
  | rounds + 1, ss =>
    match ss.element with
    | none => some ss
    | some c => do
      let ss ← search234Step ss (if localid c = UInt32.ofInt ss.index + CHANNEL_NUMBER_OFFSET then 1 else -1)
      allocLoop localid rounds ss

/-- `alloc_channel_id_general`; the uninitialised `ss` is a parameter. -/
def allocChannelIdGeneral (ss : Search234State α) (channels : Tree α) (localid : α → UInt32) : Option UInt32 := do
  let ss ← search234Start ss channels
  let ss ← allocLoop localid (count234 channels + 1) ss
  return UInt32.ofInt ss.index + CHANNEL_NUMBER_OFFSET

end PuttyNd.Tree234

/-!
## Searching a tree (`psftp/tree234.c`)

`psftp/tree234.c` has the functions of `tree234.c` that add, delete and look up by index. It looks up an
element by bisection, with `search234_start` and `search234_step`.
-/

namespace PuttyNd.Psftp

open Tree234 Tree234.Node

variable {α : Type*}

/-- `elements234` -/
def elements234 (n : Node α) : ℕ :=
  if n.elem 0 = none then 0 else if n.elem 1 = none then 1 else if n.elem 2 = none then 2 else 3

/-- What the rounds of `search234_step` in one node end with: the element `_last` that is equal, or the
kid `_lo` to go to. -/
inductive Bisect where
  | found (last : ℕ)
  | kid (lo : ℕ)
deriving DecidableEq, Repr

/-- The rounds of `search234_step` in one node, for the elements from `_lo` to `_hi`. -/
def bisect (key : α → Ordering) (n : Node α) : ℕ → ℤ → ℤ → Bisect
  | 0, lo, _ => .kid lo.toNat
  | fuel + 1, lo, hi =>
    if lo > hi then .kid lo.toNat
    else
      let last := ((lo + hi) / 2).toNat
      match n.elem last with
      | none => .kid lo.toNat
      | some a =>
        match key a with
        | .eq => .found last
        | .gt => bisect key n fuel (last + 1) hi
        | .lt => bisect key n fuel lo (last - 1)

/-- `base` with the elements before the kid `lo`. -/
def baseOf (n : Node α) (base : ℕ) : ℕ → ℕ
  | 0 => base
  | lo + 1 => baseOf n base lo + (1 + n.count lo)

/-- The search for an element that is equal, with its index: the loop `while (ss.element)` of
`findrelpos234`. A node has at most three elements, so three rounds and the last test are enough. -/
def search234 (key : α → Ordering) : Node α → ℕ → Option (α × ℕ)
  | null, _ => none
  | node i p k0 k1 k2 k3 c0 c1 c2 c3 e0 e1 e2, base =>
    let n := node i p k0 k1 k2 k3 c0 c1 c2 c3 e0 e1 e2
    match bisect key n 4 0 (elements234 n - 1) with
    | .found last => (n.elem last).map (·, baseOf n base last + n.count last)
    | .kid 0 => search234 key k0 base
    | .kid 1 => search234 key k1 (baseOf n base 1)
    | .kid 2 => search234 key k2 (baseOf n base 2)
    | .kid _ => search234 key k3 (baseOf n base 3)

/-- `find234` -/
def find234 (t : Tree234.Tree α) (key : α → Ordering) : Option α := (search234 key t.root 0).map (·.1)

/-- `del234` -/
def del234 (t : Tree234.Tree α) (e : α) : Option (Tree234.Tree α × Option α) :=
  match t.cmp with
  | none => none
  | some cmp =>
    match search234 (cmp e) t.root 0 with
    | none => some (t, none)
    | some (_, index) => delpos234Internal t index

end PuttyNd.Psftp
