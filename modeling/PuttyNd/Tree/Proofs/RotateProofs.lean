import PuttyNd.Tree.Proofs.FindProofs

/-!
# Proofs: moving and merging subtrees

What the steps of the deletion do to a node and two neighbouring kids. `putPair` puts two kids and the
element between them in place of others, and `joinPair` puts one kid in their place.
-/

namespace PuttyNd.Tree234

open Node

variable {α : Type*} {h i j c c' index : ℕ} {p q : Option ℕ} {n k k' sub sib : Node α} {a b e : α}

/-! ## Two kids and the element between them -/

/-- The node with the kids `j` and `j + 1` and the element between them replaced. -/
def putPair (n : Node α) (j : ℕ) (k : Node α) (c : ℕ) (e : Option α) (k' : Node α) (c' : ℕ) : Node α :=
  ((((n.setElem j e).setKid j k).setCount j c).setKid (j + 1) k').setCount (j + 1) c'

/-- What becomes of a node when two kids and the element between them are replaced. -/
structure Paired (h : ℕ) (p : Option ℕ) (n : Node α) (j : ℕ) (k : Node α) (e : α) (k' n' : Node α) :
    Prop where
  wf : Wf (h + 1) p n'
  id : n'.id = n.id
  left : n'.kid j = k
  right : n'.kid (j + 1) = k'
  elem : n'.elem j = some e
  nelems : nelems n' = nelems n
  before : before n' j = before n j
  after : after n' (j + 1) = after n (j + 1)
  occ : ∀ x, n'.occ x + (n.kid j).occ x + (n.kid (j + 1)).occ x = n.occ x + k.occ x + k'.occ x

theorem putPair_spec (hn : Wf (h + 1) p n) (hj : j + 1 ≤ nelems n) (hk : Wf h n.id k)
    (hk' : Wf h n.id k') (hc : c = k.toList.length) (hc' : c' = k'.toList.length) (e : α) :
    Paired h p n j k e k' (putPair n j k c (some e) k' c') := by
  cases hn with
  | two h0 h1 g0 g1 =>
    obtain rfl : j = 0 := by
      simp [Tree234.nelems, Node.elem] at hj
      omega
    refine ⟨.two hk hk' hc hc', rfl, rfl, rfl, rfl, rfl, rfl, rfl, fun x => ?_⟩
    simp [putPair, setElem, setKid, setCount, Node.kid]
    omega
  | three h0 h1 h2 g0 g1 g2 =>
    have : j = 0 ∨ j = 1 := by
      simp [Tree234.nelems, Node.elem] at hj
      omega
    rcases this with rfl | rfl
    · refine ⟨.three hk hk' h2 hc hc' g2, rfl, rfl, rfl, rfl, rfl, rfl, rfl, fun x => ?_⟩
      simp [putPair, setElem, setKid, setCount, Node.kid]
      omega
    · refine ⟨.three h0 hk hk' g0 hc hc', rfl, rfl, rfl, rfl, rfl, rfl, rfl, fun x => ?_⟩
      simp [putPair, setElem, setKid, setCount, Node.kid]
      omega
  | four h0 h1 h2 h3 g0 g1 g2 g3 =>
    have : j = 0 ∨ j = 1 ∨ j = 2 := by
      simp [Tree234.nelems, Node.elem] at hj
      omega
    rcases this with rfl | rfl | rfl
    · refine ⟨.four hk hk' h2 h3 hc hc' g2 g3, rfl, rfl, rfl, rfl, rfl, rfl, rfl, fun x => ?_⟩
      simp [putPair, setElem, setKid, setCount, Node.kid]
      omega
    · refine ⟨.four h0 hk hk' h3 g0 hc hc' g3, rfl, rfl, rfl, rfl, rfl, rfl, rfl, fun x => ?_⟩
      simp [putPair, setElem, setKid, setCount, Node.kid]
      omega
    · refine ⟨.four h0 h1 hk hk' g0 g1 hc hc', rfl, rfl, rfl, rfl, rfl, rfl, rfl, fun x => ?_⟩
      simp [putPair, setElem, setKid, setCount, Node.kid]
      omega

variable {n' : Node α}

theorem Paired.toList (hp : Paired h p n j k e k' n') (hj : j + 1 ≤ Tree234.nelems n) :
    n'.toList = Tree234.before n j ++ (k.toList ++ e :: (k'.toList ++ Tree234.after n (j + 1))) := by
  have h1 := toList_elem hp.wf (by rw [hp.nelems]; exact hj) hp.elem
  rw [h1, hp.before, hp.after, hp.left, hp.right]

/-- The node with one kid in place of the kids `j` and `j + 1`, without the element between them. -/
def joinPair : Node α → ℕ → Node α → ℕ → Node α
  | node i p _ _ k2 k3 _ _ c2 c3 _ e1 e2, 0, k, c => node i p k k2 k3 null c c2 c3 0 e1 e2 none
  | node i p k0 _ _ k3 c0 _ _ c3 e0 _ e2, 1, k, c => node i p k0 k k3 null c0 c c3 0 e0 e2 none
  | node i p k0 k1 _ _ c0 c1 _ _ e0 e1 _, _, k, c => node i p k0 k1 k null c0 c1 c 0 e0 e1 none
  | null, _, _, _ => null

/-- What becomes of a node when one kid is put in the place of two. -/
structure Joined (h : ℕ) (p : Option ℕ) (n : Node α) (j : ℕ) (k n' : Node α) : Prop where
  wf : Wf (h + 1) p n'
  id : n'.id = n.id
  kid : n'.kid j = k
  le : j ≤ nelems n'
  before : before n' j = before n j
  after : after n' j = after n (j + 1)
  occ : ∀ x, n'.occ x + (n.kid j).occ x + (n.kid (j + 1)).occ x = n.occ x + k.occ x

theorem joinPair_spec (hn : Wf (h + 1) p n) (hj : j + 1 ≤ nelems n) (he : n.elem 1 ≠ none)
    (hk : Wf h n.id k) (hc : c = k.toList.length) : Joined h p n j k (joinPair n j k c) := by
  cases hn with
  | two => simp [Node.elem] at he
  | three h0 h1 h2 g0 g1 g2 =>
    have : j = 0 ∨ j = 1 := by
      simp [nelems, Node.elem] at hj
      omega
    rcases this with rfl | rfl
    · refine ⟨.two hk h2 hc g2, rfl, rfl, Nat.zero_le _, rfl, rfl, fun x => ?_⟩
      simp [joinPair, Node.kid]
      omega
    · refine ⟨.two h0 hk g0 hc, rfl, rfl, Nat.le_refl _, rfl, rfl, fun x => ?_⟩
      simp [joinPair, Node.kid]
      omega
  | four h0 h1 h2 h3 g0 g1 g2 g3 =>
    have : j = 0 ∨ j = 1 ∨ j = 2 := by
      simp [nelems, Node.elem] at hj
      omega
    rcases this with rfl | rfl | rfl
    · refine ⟨.three hk h2 h3 hc g2 g3, rfl, rfl, Nat.zero_le _, rfl, ?_, fun x => ?_⟩
      · simp [joinPair, Tree234.after, Node.kid, Node.elem]
      · simp [joinPair, Node.kid]
        omega
    · refine ⟨.three h0 hk h3 g0 hc g3, rfl, rfl, ?_, rfl, ?_, fun x => ?_⟩
      · simp [joinPair, nelems, Node.elem]
      · simp [joinPair, Tree234.after, Node.kid, Node.elem]
      · simp [joinPair, Node.kid]
        omega
    · refine ⟨.three h0 h1 hk g0 g1 hc, rfl, rfl, Nat.le_refl _, rfl, rfl, fun x => ?_⟩
      simp [joinPair, Node.kid]
      omega

/-- A node with one element has none left. -/
theorem joinPair_elem (hn : Wf (h + 1) p n) (hj : j + 1 ≤ nelems n) (he : n.elem 1 = none) :
    j = 0 ∧ (joinPair n j k c).elem 0 = none := by
  cases hn with
  | two =>
    obtain rfl : j = 0 := by
      simp [nelems, Node.elem] at hj
      omega
    exact ⟨rfl, rfl⟩
  | three => simp [Node.elem] at he
  | four => simp [Node.elem] at he

/-! ## Kids that grow and shrink -/

/-- What becomes of a kid with one element when something is added to it. -/
structure Grown (h : ℕ) (p : Option ℕ) (sub k : Node α) (l : List α) (s' : Node α) : Prop where
  wf : Wf (h + 1) p s'
  id : s'.id = sub.id
  two : s'.elem 1 ≠ none
  toList : s'.toList = l
  occ : ∀ x, s'.occ x ≤ sub.occ x + k.occ x

theorem putFirst_spec (hs : Wf (h + 1) p sub) (he : sub.elem 1 = none) (hk : Wf h q k)
    (hc : c = k.toList.length) (e : α) :
    Grown h p sub k (k.toList ++ e :: sub.toList) (putFirst sub (some e) k c) := by
  cases hs with
  | two h0 h1 g0 g1 =>
    refine ⟨.three (hk.setParent _) h0 h1 (by simp [hc]) g0 g1, rfl, by simp [putFirst, Node.elem,
      setElem, setKid, setCount], ?_, fun x => ?_⟩
    · simp [putFirst, setElem, setKid, setCount, Node.kid, Node.elem]
    · simp [putFirst, setElem, setKid, setCount, Node.kid]
      omega
  | three => simp [Node.elem] at he
  | four => simp [Node.elem] at he

theorem putLast_spec (hs : Wf (h + 1) p sub) (he : sub.elem 1 = none) (hk : Wf h q k)
    (hc : c = k.toList.length) (e : α) :
    Grown h p sub k (sub.toList ++ e :: k.toList) (putLast sub (some e) k c) := by
  cases hs with
  | two h0 h1 g0 g1 =>
    refine ⟨.three h0 h1 (hk.setParent _) g0 g1 (by simp [hc]), rfl, by simp [putLast, Node.elem,
      setElem, setKid, setCount], ?_, fun x => ?_⟩
    · simp [putLast, setElem, setKid, setCount]
    · simp [putLast, setElem, setKid, setCount]
  | three => simp [Node.elem] at he
  | four => simp [Node.elem] at he

theorem mergeInto_spec (hs : Wf (h + 1) p sub) (he : sub.elem 1 = none) (hk : Wf (h + 1) q sib)
    (he' : sib.elem 1 = none) (e : α) :
    Grown h p sub sib (sib.toList ++ e :: sub.toList) (mergeInto sub sib (some e)) := by
  cases hs with
  | two h0 h1 g0 g1 =>
    cases hk with
    | two h0' h1' g0' g1' =>
      refine ⟨.four (h0'.setParent _) (h1'.setParent _) h0 h1 (by rw [toList_setParent]; exact g0')
        (by rw [toList_setParent]; exact g1') g0 g1, rfl, by simp [mergeInto, Node.elem, setElem, setKid,
        setCount], ?_, fun x => ?_⟩
      · simp [mergeInto, setElem, setKid, setCount, Node.kid, Node.elem]
      · simp [mergeInto, setElem, setKid, setCount, Node.kid]
        omega
    | three => simp [Node.elem] at he'
    | four => simp [Node.elem] at he'
  | three => simp [Node.elem] at he
  | four => simp [Node.elem] at he

theorem mergeBehind_spec (hs : Wf (h + 1) p sub) (he : sub.elem 1 = none) (hk : Wf (h + 1) q sib)
    (he' : sib.elem 1 = none) (e : α) :
    Grown h p sub sib (sub.toList ++ e :: sib.toList) (mergeBehind sub (some e) sib) := by
  cases hs with
  | two h0 h1 g0 g1 =>
    cases hk with
    | two h0' h1' g0' g1' =>
      refine ⟨.four h0 h1 (h0'.setParent _) (h1'.setParent _) g0 g1 (by rw [toList_setParent]; exact g0')
        (by rw [toList_setParent]; exact g1'), rfl, by simp [mergeBehind, Node.elem, setElem, setKid,
        setCount], ?_, fun x => ?_⟩
      · simp [mergeBehind, setElem, setKid, setCount, Node.kid, Node.elem]
      · simp [mergeBehind, setElem, setKid, setCount, Node.kid]
        omega
    | three => simp [Node.elem] at he'
    | four => simp [Node.elem] at he'
  | three => simp [Node.elem] at he
  | four => simp [Node.elem] at he

/-- The element comes after all of the first node. -/
theorem mergeBehind_index (hs : Wf (h + 1) p sub) (he : sub.elem 1 = none) {e : Option α} :
    (mergeBehind sub e sib).count 0 + (mergeBehind sub e sib).count 1 + 1 = sub.toList.length := by
  cases hs with
  | two h0 h1 g0 g1 =>
    simp [mergeBehind, setElem, setKid, setCount, Node.count, g0, g1]
    omega
  | three => simp [Node.elem] at he
  | four => simp [Node.elem] at he

/-- What becomes of a kid with more than one element when an element and a subtree `k` are taken. -/
structure Shrunk (h : ℕ) (p : Option ℕ) (sib k : Node α) (c : ℕ) (s' : Node α) : Prop where
  wf : Wf (h + 1) p s'
  kid : ∃ q, Wf h q k
  count : c = k.toList.length
  id : s'.id = sib.id
  occ : ∀ x, s'.occ x + k.occ x = sib.occ x

theorem dropLast_spec (hs : Wf (h + 1) p sib) (he : sib.elem 1 ≠ none) :
    Shrunk h p sib (sib.kid (lastelem sib + 1)) (sib.count (lastelem sib + 1)) (dropLast sib) ∧
      ∃ b, sib.elem (lastelem sib) = some b ∧
        sib.toList = (dropLast sib).toList ++ b :: (sib.kid (lastelem sib + 1)).toList := by
  cases hs with
  | two => simp [Node.elem] at he
  | @three _ _ _ _ _ _ _ _ _ _ b h0 h1 h2 g0 g1 g2 =>
    refine ⟨⟨.two h0 h1 g0 g1, ⟨_, h2⟩, g2, rfl, fun x => ?_⟩, b, rfl, ?_⟩
    · simp [dropLast, lastelem, setElem, setKid, setCount, Node.kid, Node.elem]
    · simp [dropLast, lastelem, setElem, setKid, setCount, Node.kid, Node.elem]
  | @four _ _ _ _ _ _ _ _ _ _ _ _ _ d h0 h1 h2 h3 g0 g1 g2 g3 =>
    refine ⟨⟨.three h0 h1 h2 g0 g1 g2, ⟨_, h3⟩, g3, rfl, fun x => ?_⟩, d, rfl, ?_⟩
    · simp [dropLast, lastelem, setElem, setKid, setCount, Node.kid, Node.elem]
    · simp [dropLast, lastelem, setElem, setKid, setCount, Node.kid, Node.elem]

theorem dropFirst_spec (hs : Wf (h + 1) p sib) (he : sib.elem 1 ≠ none) :
    Shrunk h p sib (sib.kid 0) (sib.count 0) (dropFirst sib) ∧
      ∃ b, sib.elem 0 = some b ∧ sib.toList = (sib.kid 0).toList ++ b :: (dropFirst sib).toList := by
  cases hs with
  | two => simp [Node.elem] at he
  | @three _ _ _ _ _ _ _ _ _ a _ h0 h1 h2 g0 g1 g2 =>
    refine ⟨⟨.two h1 h2 g1 g2, ⟨_, h0⟩, g0, rfl, fun x => ?_⟩, a, rfl, ?_⟩
    · simp [dropFirst, shiftLeft, setElem, setKid, setCount, Node.kid, Node.elem]
      omega
    · simp [dropFirst, shiftLeft, setElem, setKid, setCount, Node.kid, Node.elem]
  | @four _ _ _ _ _ _ _ _ _ _ _ a _ _ h0 h1 h2 h3 g0 g1 g2 g3 =>
    refine ⟨⟨.three h1 h2 h3 g1 g2 g3, ⟨_, h0⟩, g0, rfl, fun x => ?_⟩, a, rfl, ?_⟩
    · simp [dropFirst, shiftLeft, setElem, setKid, setCount, Node.kid, Node.elem]
      omega
    · simp [dropFirst, shiftLeft, setElem, setKid, setCount, Node.kid, Node.elem]

/-! ## The steps down -/

/-- The step down to the kid `j` leaves the list as it is, and the index leads to the same element. -/
structure Lowered (h : ℕ) (p : Option ℕ) (n : Node α) (index j : ℕ) (d : Down α) : Prop where
  wf : Wf (h + 1) p d.n
  stands : Stands n d.n
  le : j ≤ nelems d.n
  sub : d.n.kid j = d.sub
  two : d.sub.elem 1 ≠ none
  toList : d.n.toList = n.toList
  index : index = (before d.n j).length + d.index
  lt : d.index < d.sub.toList.length

variable {idx : ℕ}

theorem moveRight_n (hn : n.isNull = false) (hj : j ≤ 2) :
    (moveRight n (j + 1) idx).n = putPair n j (dropLast (n.kid j)) (countnode234 (dropLast (n.kid j)))
      ((n.kid j).elem (lastelem (n.kid j))) (moveRight n (j + 1) idx).sub
      (countnode234 (moveRight n (j + 1) idx).sub) := by
  cases n with
  | null => cases hn
  | node =>
    rcases j with _ | _ | _ | j
    · rfl
    · rfl
    · rfl
    · omega

/-- The index of an element in a kid, seen from the kid before. -/
theorem before_length_succ (hn : Wf (h + 1) p n) (hj : j + 1 ≤ nelems n) (ha : n.elem j = some a) :
    (before n (j + 1)).length = (before n j).length + (n.kid j).toList.length + 1 := by
  have hle := (hn.focus hj).le
  rw [before_succ (by omega) ha]
  simp
  omega

/-- A subtree moves to the right. -/
theorem moveRight_spec (hn : Wf (h + 2) p n) (hj : j + 1 ≤ nelems n)
    (he : (n.kid (j + 1)).elem 1 = none) (he' : (n.kid j).elem 1 ≠ none)
    (hi : idx < (n.kid (j + 1)).toList.length) :
    Lowered (h + 1) p n ((before n (j + 1)).length + idx) (j + 1) (moveRight n (j + 1) idx) := by
  have hfocus := hn.focus (Nat.le_of_succ_le hj)
  have hfocus' := hn.focus hj
  have hle := hfocus'.le
  obtain ⟨a, ha⟩ := exists_elem hn hj
  obtain ⟨hshrunk, b, hb, hsib⟩ := dropLast_spec hfocus.kid he'
  obtain ⟨q, hk⟩ := hshrunk.kid
  have hgrown := putFirst_spec hfocus'.kid he hk hshrunk.count a
  have hsub : (moveRight n (j + 1) idx).sub = putFirst (n.kid (j + 1)) (some a)
      ((n.kid j).kid (lastelem (n.kid j) + 1)) ((n.kid j).count (lastelem (n.kid j) + 1)) := by
    simp [moveRight, ha]
  rw [← hsub] at hgrown
  have hindex : (moveRight n (j + 1) idx).index =
      idx + (n.kid j).toList.length - (dropLast (n.kid j)).toList.length := by
    have h1 : (n.setElem j ((n.kid j).elem (lastelem (n.kid j)))).count j = n.count j := by
      cases n with
      | null => rfl
      | node => rcases j with _ | _ | _ | j <;> rfl
    simp only [moveRight, Nat.add_sub_cancel]
    rw [h1, hfocus.count, hshrunk.wf.countnode]
  have hpair := putPair_spec hn hj hshrunk.wf hgrown.wf hshrunk.wf.countnode hgrown.wf.countnode b
  rw [← hb, ← moveRight_n hn.isNull (by omega)] at hpair
  have hlist : (moveRight n (j + 1) idx).n.toList = n.toList := by
    rw [hpair.toList hj, hgrown.toList, toList_elem hn hj ha, hsib]
    simp
  refine ⟨hpair.wf, ⟨hpair.id, hpair.wf.parent_eq.trans hn.parent_eq.symm, by rw [hlist], fun x => ?_⟩,
    by rw [hpair.nelems]; exact hj, hpair.right, hgrown.two, hlist, ?_, ?_⟩
  · have h1 := hpair.occ x
    have h2 := hgrown.occ x
    have h3 := hshrunk.occ x
    omega
  · have h1 := congrArg List.length hsib
    simp only [List.length_append, List.length_cons] at h1
    rw [before_length_succ hpair.wf (by rw [hpair.nelems]; exact hj) hpair.elem, hpair.before,
      hpair.left, hindex, before_length_succ hn hj ha]
    omega
  · have h1 := congrArg List.length hsib
    simp only [List.length_append, List.length_cons] at h1
    rw [hindex, hgrown.toList, List.length_append, List.length_cons]
    omega

theorem moveLeft_n (hn : n.isNull = false) (hj : j ≤ 2) :
    (moveLeft n j idx).n = putPair n j (moveLeft n j idx).sub (countnode234 (moveLeft n j idx).sub)
      ((n.kid (j + 1)).elem 0) (dropFirst (n.kid (j + 1)))
      (countnode234 (dropFirst (n.kid (j + 1)))) := by
  cases n with
  | null => cases hn
  | node =>
    rcases j with _ | _ | _ | j
    · rfl
    · rfl
    · rfl
    · omega

/-- A subtree moves to the left. -/
theorem moveLeft_spec (hn : Wf (h + 2) p n) (hj : j + 1 ≤ nelems n) (he : (n.kid j).elem 1 = none)
    (he' : (n.kid (j + 1)).elem 1 ≠ none) (hi : idx < (n.kid j).toList.length) :
    Lowered (h + 1) p n ((before n j).length + idx) j (moveLeft n j idx) := by
  have hfocus := hn.focus (Nat.le_of_succ_le hj)
  have hfocus' := hn.focus hj
  have hle := hfocus'.le
  obtain ⟨a, ha⟩ := exists_elem hn hj
  obtain ⟨hshrunk, b, hb, hsib⟩ := dropFirst_spec hfocus'.kid he'
  obtain ⟨q, hk⟩ := hshrunk.kid
  have hgrown := putLast_spec hfocus.kid he hk hshrunk.count a
  have hsub : (moveLeft n j idx).sub =
      putLast (n.kid j) (some a) ((n.kid (j + 1)).kid 0) ((n.kid (j + 1)).count 0) := by
    simp [moveLeft, ha]
  rw [← hsub] at hgrown
  have hpair := putPair_spec hn hj hgrown.wf hshrunk.wf hgrown.wf.countnode hshrunk.wf.countnode b
  rw [← hb, ← moveLeft_n hn.isNull (by omega)] at hpair
  have hlist : (moveLeft n j idx).n.toList = n.toList := by
    rw [hpair.toList hj, hgrown.toList, toList_elem hn hj ha, hsib]
    simp
  refine ⟨hpair.wf, ⟨hpair.id, hpair.wf.parent_eq.trans hn.parent_eq.symm, by rw [hlist], fun x => ?_⟩,
    by rw [hpair.nelems]; exact Nat.le_of_succ_le hj, hpair.left, hgrown.two, hlist, ?_, ?_⟩
  · have h1 := hpair.occ x
    have h2 := hgrown.occ x
    have h3 := hshrunk.occ x
    omega
  · rw [hpair.before]
    rfl
  · rw [hgrown.toList, List.length_append]
    show idx < _
    omega

/-- The kids `j` and `j + 1` are merged with the element between them. -/
structure Merged (h : ℕ) (n : Node α) (index j : ℕ) (d : Down α) : Prop where
  sub : Wf (h + 1) n.id d.sub
  two : d.sub.elem 1 ≠ none
  toList : ∃ b, n.elem j = some b ∧
    d.sub.toList = (n.kid j).toList ++ b :: (n.kid (j + 1)).toList
  occ : ∀ x, d.sub.occ x ≤ (n.kid j).occ x + (n.kid (j + 1)).occ x
  eq : d.n = joinPair n j d.sub d.sub.toList.length
  index : index = (before n j).length + d.index
  lt : d.index < d.sub.toList.length

/-- If the node has other kids, this is a step down. -/
theorem Merged.lowered {d : Down α} (hd : Merged h n index j d) (hn : Wf (h + 2) p n)
    (hj : j + 1 ≤ nelems n) (he : n.elem 1 ≠ none) : Lowered (h + 1) p n index j d := by
  have hjoined := joinPair_spec hn hj he hd.sub rfl
  rw [← hd.eq] at hjoined
  obtain ⟨b, hb, hsub⟩ := hd.toList
  have hlist : d.n.toList = n.toList := by
    rw [toList_kid hjoined.wf.isNull (hjoined.wf.focus hjoined.le).le, hjoined.before, hjoined.kid,
      hjoined.after, toList_elem hn hj hb, hsub]
    simp
  refine ⟨hjoined.wf, ⟨hjoined.id, hjoined.wf.parent_eq.trans hn.parent_eq.symm, by rw [hlist],
    fun x => ?_⟩, hjoined.le, hjoined.kid, hd.two, hlist, ?_, hd.lt⟩
  · have h1 := hjoined.occ x
    have h2 := hd.occ x
    omega
  · rw [hjoined.before]
    exact hd.index

/-- If it has no others, nothing else is left. -/
theorem Merged.root {d : Down α} (hd : Merged h n index j d) (hn : Wf (h + 2) p n)
    (hj : j + 1 ≤ nelems n) (he : n.elem 1 = none) :
    d.n.elem 0 = none ∧ d.sub.toList = n.toList ∧ d.index = index ∧
      ∀ x, d.sub.occ x ≤ n.occ x := by
  obtain ⟨rfl, h1⟩ := joinPair_elem (k := d.sub) (c := d.sub.toList.length) hn hj he
  obtain ⟨b, hb, hsub⟩ := hd.toList
  refine ⟨by rw [hd.eq, h1], ?_, ?_, fun x => ?_⟩
  · have h2 : after n 1 = [] := after_of_none hn.shape (by omega) he
    rw [toList_elem hn hj hb, hsub, h2]
    simp [before]
  · simpa [before] using hd.index.symm
  · have h2 := hd.occ x
    cases n with
    | null => simpa [Node.kid] using h2
    | node =>
      simp only [Node.kid, Nat.zero_add] at h2
      simp only [occ_node]
      omega

theorem removeKid_eq (hn : Wf (h + 2) p n) (hj : j + 1 ≤ nelems n) (hk : k.isNull = false) :
    removeKid ((n.setCount (j + 1) c).setKid (j + 1) k) ((List.range 4).drop j) = joinPair n j k c := by
  cases hn with
  | two h0 h1 g0 g1 =>
    obtain rfl : j = 0 := by
      simp [nelems, Node.elem] at hj
      omega
    simp [removeKid, List.range_succ, setCount, setKid, setElem, Node.kid, Node.count, Node.elem, hk,
      joinPair]
  | three h0 h1 h2 g0 g1 g2 =>
    have : j = 0 ∨ j = 1 := by
      simp [nelems, Node.elem] at hj
      omega
    rcases this with rfl | rfl
    · simp [removeKid, List.range_succ, setCount, setKid, setElem, Node.kid, Node.count, Node.elem, hk,
        joinPair, h2.isNull]
    · simp [removeKid, List.range_succ, setCount, setKid, setElem, Node.kid, Node.count, Node.elem, hk,
        joinPair]
  | four h0 h1 h2 h3 g0 g1 g2 g3 =>
    have : j = 0 ∨ j = 1 ∨ j = 2 := by
      simp [nelems, Node.elem] at hj
      omega
    rcases this with rfl | rfl | rfl
    · simp [removeKid, List.range_succ, setCount, setKid, setElem, Node.kid, Node.count, Node.elem, hk,
        joinPair, h2.isNull, h3.isNull]
    · simp [removeKid, List.range_succ, setCount, setKid, setElem, Node.kid, Node.count, Node.elem, hk,
        joinPair, h3.isNull]
    · simp [removeKid, List.range_succ, setCount, setKid, setElem, Node.kid, Node.count, hk, joinPair]

theorem removePair_eq (hn : Wf (h + 2) p n) (hj : j + 1 ≤ nelems n) :
    removePair ((n.setCount j c).setKid j k) ((List.range 3).drop j) = joinPair n j k c := by
  cases hn with
  | two h0 h1 g0 g1 =>
    obtain rfl : j = 0 := by
      simp [nelems, Node.elem] at hj
      omega
    simp [removePair, List.range_succ, setCount, setKid, setElem, Node.elem, joinPair]
  | three h0 h1 h2 g0 g1 g2 =>
    have : j = 0 ∨ j = 1 := by
      simp [nelems, Node.elem] at hj
      omega
    rcases this with rfl | rfl
    · simp [removePair, List.range_succ, setCount, setKid, setElem, Node.kid, Node.count, Node.elem,
        joinPair]
    · simp [removePair, List.range_succ, setCount, setKid, setElem, Node.elem, joinPair]
  | four h0 h1 h2 h3 g0 g1 g2 g3 =>
    have : j = 0 ∨ j = 1 ∨ j = 2 := by
      simp [nelems, Node.elem] at hj
      omega
    rcases this with rfl | rfl | rfl
    · simp [removePair, List.range_succ, setCount, setKid, setElem, Node.kid, Node.count, Node.elem,
        joinPair]
    · simp [removePair, List.range_succ, setCount, setKid, setElem, Node.kid, Node.count, Node.elem,
        joinPair]
    · simp [removePair, List.range_succ, setCount, setKid, setElem, Node.elem, joinPair]

/-- Case 3b, at the kid `j` and the next one. -/
theorem mergeKids_spec (hn : Wf (h + 2) p n) (hj : j + 1 ≤ nelems n)
    (he : (n.kid j).elem 1 = none) (he' : (n.kid (j + 1)).elem 1 = none) {ki : ℕ}
    (hki : ki = j + 1 ∧ idx < (n.kid (j + 1)).toList.length ∨
      ki = 0 ∧ j = 0 ∧ idx < (n.kid 0).toList.length) :
    Merged h n ((before n ki).length + idx) j (mergeKids n ki idx) := by
  have hfocus := hn.focus (Nat.le_of_succ_le hj)
  have hfocus' := hn.focus hj
  obtain ⟨a, ha⟩ := exists_elem hn hj
  have hgrown := mergeInto_spec hfocus'.kid he' hfocus.kid he a
  have hlower : (if ki > 0 then ki - 1 else ki) = j := by
    rcases hki with ⟨rfl, -⟩ | ⟨rfl, rfl, -⟩
    · rw [if_pos (Nat.succ_pos _)]
      rfl
    · rfl
  have hindex : (mergeKids n ki idx).index =
      if ki > 0 then idx + ((n.kid j).toList.length + 1) else idx := by
    rcases hki with ⟨rfl, -⟩ | ⟨rfl, rfl, -⟩
    · simp only [mergeKids, Nat.add_sub_cancel, hfocus.count]
    · rfl
  have hsub : (mergeKids n ki idx).sub = mergeInto (n.kid (j + 1)) (n.kid j) (some a) := by
    simp only [mergeKids, hlower, ha]
  rw [← hsub] at hgrown
  refine ⟨hgrown.wf, hgrown.two, ⟨a, ha, hgrown.toList⟩, fun x => ?_, ?_, ?_, ?_⟩
  · have h1 := hgrown.occ x
    omega
  · have h1 := hgrown.wf.countnode
    rw [← h1, ← removeKid_eq hn hj hgrown.wf.isNull]
    simp only [mergeKids, hlower]
  · rw [hindex]
    rcases hki with ⟨rfl, -⟩ | ⟨rfl, rfl, -⟩
    · rw [if_pos (Nat.succ_pos _), before_length_succ hn hj ha]
      omega
    · rfl
  · rw [hindex, hgrown.toList, List.length_append, List.length_cons]
    rcases hki with ⟨rfl, h1⟩ | ⟨rfl, rfl, h1⟩
    · rw [if_pos (Nat.succ_pos _)]
      omega
    · rw [if_neg (Nat.lt_irrefl 0)]
      omega

/-- Case 2c. -/
theorem mergeAround_spec (hn : Wf (h + 2) p n) (hj : j + 1 ≤ nelems n)
    (he : (n.kid j).elem 1 = none) (he' : (n.kid (j + 1)).elem 1 = none) :
    Merged h n ((before n j).length + (n.kid j).toList.length) j (mergeAround n j) := by
  have hfocus := hn.focus (Nat.le_of_succ_le hj)
  have hfocus' := hn.focus hj
  obtain ⟨a, ha⟩ := exists_elem hn hj
  have hgrown := mergeBehind_spec hfocus.kid he hfocus'.kid he' a
  have hsub : (mergeAround n j).sub = mergeBehind (n.kid j) (some a) (n.kid (j + 1)) := by
    simp only [mergeAround, ha]
  rw [← hsub] at hgrown
  have hindex : (mergeAround n j).index = (n.kid j).toList.length := by
    have h1 : (mergeAround n j).index =
        (mergeAround n j).sub.count 0 + (mergeAround n j).sub.count 1 + 1 := rfl
    rw [h1, hsub, mergeBehind_index hfocus.kid he]
  refine ⟨hgrown.wf, hgrown.two, ⟨a, ha, hgrown.toList⟩, hgrown.occ, ?_, ?_, ?_⟩
  · have h1 := hgrown.wf.countnode
    rw [← h1, ← removePair_eq hn hj]
    rfl
  · rw [hindex]
  · rw [hindex, hgrown.toList, List.length_append, List.length_cons]
    omega

end PuttyNd.Tree234
