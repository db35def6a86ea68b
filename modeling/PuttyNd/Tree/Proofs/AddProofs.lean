import PuttyNd.Tree.Proofs.FindProofs

/-!
# Proofs: adding an element

The way down ends at a place that splits the elements as the index or the comparison says; on the way
up the element is put there, nodes that are full are split, and the counts are put right.
-/

namespace PuttyNd.Tree234

open Node

variable {α : Type*} {h i j np next : ℕ} {p q q' : Option ℕ} {n f : Node α} {x : Insertion α}
  {a e : α} {path : List (Node α)} {L R : List α} {m occ : ℕ → ℕ}

/-! ## Insertion in a node -/

/-- The trees to the left and to the right of the element are of height `h`, and their counts are right. -/
structure Fits (h : ℕ) (x : Insertion α) (e : α) : Prop where
  left : ∃ q, Wf h q x.left
  right : ∃ q, Wf h q x.right
  lcount : x.lcount = x.left.toList.length
  rcount : x.rcount = x.right.toList.length
  elem : x.e = some e

/-- What is inserted, as a list. -/
def Insertion.toList (x : Insertion α) : List α := x.left.toList ++ (x.e.toList ++ x.right.toList)

theorem Fits.wf_left (hx : Fits h x e) (q : Option ℕ) : Wf h q (x.left.setParent q) := by
  obtain ⟨q', hq⟩ := hx.left
  exact hq.setParent q

theorem Fits.wf_right (hx : Fits h x e) (q : Option ℕ) : Wf h q (x.right.setParent q) := by
  obtain ⟨q', hq⟩ := hx.right
  exact hq.setParent q

/-- What becomes of a node `n` of height `h + 1` when something is inserted at its kid `np`. -/
structure Inserted (h : ℕ) (n : Node α) (np : ℕ) (x : Insertion α) (n' : Node α) : Prop where
  replaces : Replaces h n n'
  toList : n'.toList = before n np ++ (x.toList ++ after n np)
  occ : ∀ y, n'.occ y + (n.kid np).occ y = n.occ y + (x.left.occ y + x.right.occ y)

theorem insert2_spec (hn : Wf (h + 1) p n) (he : n.elem 1 = none) (hnp : np ≤ nelems n)
    (hx : Fits h x e) : Inserted h n np x (insert2 n np x) := by
  obtain ⟨left, lcount, el, right, rcount⟩ := x
  obtain rfl : el = some e := hx.elem
  cases hn with
  | two h0 h1 g0 g1 =>
    have : np = 0 ∨ np = 1 := by
      simp [nelems, Node.elem] at hnp
      omega
    rcases this with rfl | rfl
    · refine ⟨⟨?_, rfl⟩, ?_, fun y => ?_⟩
      · exact .three (hx.wf_left _) (hx.wf_right _) (h1.setParent _) (by simp [← hx.lcount])
          (by simp [← hx.rcount]) (by simp [g1])
      · simp [insert2, before, after, Insertion.toList, Node.kid, Node.elem]
      · simp [insert2, Node.kid]
        omega
    · refine ⟨⟨?_, rfl⟩, ?_, fun y => ?_⟩
      · exact .three (h0.setParent _) (hx.wf_left _) (hx.wf_right _) (by simp [g0])
          (by simp [← hx.lcount]) (by simp [← hx.rcount])
      · simp [insert2, before, after, Insertion.toList, Node.kid, Node.elem]
      · simp [insert2, Node.kid]
        omega
  | three => simp [Node.elem] at he
  | four => simp [Node.elem] at he

theorem insert3_spec (hn : Wf (h + 1) p n) (he : n.elem 1 ≠ none) (he' : n.elem 2 = none)
    (hnp : np ≤ nelems n) (hx : Fits h x e) : Inserted h n np x (insert3 n np x) := by
  obtain ⟨left, lcount, el, right, rcount⟩ := x
  obtain rfl : el = some e := hx.elem
  cases hn with
  | two => simp [Node.elem] at he
  | three h0 h1 h2 g0 g1 g2 =>
    have : np = 0 ∨ np = 1 ∨ np = 2 := by
      simp [nelems, Node.elem] at hnp
      omega
    rcases this with rfl | rfl | rfl
    · refine ⟨⟨?_, rfl⟩, ?_, fun y => ?_⟩
      · exact .four (hx.wf_left _) (hx.wf_right _) (h1.setParent _) (h2.setParent _)
          (by simp [← hx.lcount]) (by simp [← hx.rcount]) (by simp [g1]) (by simp [g2])
      · simp [insert3, before, after, Insertion.toList, Node.kid, Node.elem]
      · simp [insert3, Node.kid]
        omega
    · refine ⟨⟨?_, rfl⟩, ?_, fun y => ?_⟩
      · exact .four (h0.setParent _) (hx.wf_left _) (hx.wf_right _) (h2.setParent _) (by simp [g0])
          (by simp [← hx.lcount]) (by simp [← hx.rcount]) (by simp [g2])
      · simp [insert3, before, after, Insertion.toList, Node.kid, Node.elem]
      · simp [insert3, Node.kid]
        omega
    · refine ⟨⟨?_, rfl⟩, ?_, fun y => ?_⟩
      · exact .four (h0.setParent _) (h1.setParent _) (hx.wf_left _) (hx.wf_right _) (by simp [g0])
          (by simp [g1]) (by simp [← hx.lcount]) (by simp [← hx.rcount])
      · simp [insert3, before, after, Insertion.toList, Node.kid, Node.elem]
      · simp [insert3, Node.kid]
        omega
  | four => simp [Node.elem] at he'

/-- What becomes of a full node: two nodes, and an element for the level above. -/
structure Split (h m : ℕ) (n : Node α) (np : ℕ) (x : Insertion α) (l r : Node α) (e' : Option α) :
    Prop where
  left : Wf (h + 1) n.parent l
  right : Wf (h + 1) n.parent r
  elem : ∃ e, e' = some e
  toList : l.toList ++ (e'.toList ++ r.toList) = before n np ++ (x.toList ++ after n np)
  occ : ∀ y, l.occ y + r.occ y + (n.kid np).occ y =
    n.occ y + (x.left.occ y + x.right.occ y) + if m = y then 1 else 0

theorem split4_spec (hn : Wf (h + 1) p n) (he : n.elem 2 ≠ none) (hnp : np ≤ nelems n)
    (hx : Fits h x e) (m : ℕ) :
    Split h m n np x (split4 m n np x).1 (split4 m n np x).2.2 (split4 m n np x).2.1 := by
  obtain ⟨left, lcount, el, right, rcount⟩ := x
  obtain rfl : el = some e := hx.elem
  cases hn with
  | two => simp [Node.elem] at he
  | three => simp [Node.elem] at he
  | four h0 h1 h2 h3 g0 g1 g2 g3 =>
    have : np = 0 ∨ np = 1 ∨ np = 2 ∨ np = 3 := by
      simp [nelems, Node.elem] at hnp
      omega
    rcases this with rfl | rfl | rfl | rfl
    · refine ⟨.three (hx.wf_left _) (hx.wf_right _) (h1.setParent _) (by simp [← hx.lcount])
        (by simp [← hx.rcount]) (by simp [g1]), .two (h2.setParent _) (h3.setParent _) (by simp [g2])
        (by simp [g3]), ⟨_, rfl⟩, ?_, fun y => ?_⟩
      · simp [split4, before, after, Insertion.toList, Node.kid, Node.elem]
      · simp [split4, Node.kid]
        omega
    · refine ⟨.three (h0.setParent _) (hx.wf_left _) (hx.wf_right _) (by simp [g0])
        (by simp [← hx.lcount]) (by simp [← hx.rcount]), .two (h2.setParent _) (h3.setParent _)
        (by simp [g2]) (by simp [g3]), ⟨_, rfl⟩, ?_, fun y => ?_⟩
      · simp [split4, before, after, Insertion.toList, Node.kid, Node.elem]
      · simp [split4, Node.kid]
        omega
    · refine ⟨.three (h0.setParent _) (h1.setParent _) (hx.wf_left _) (by simp [g0]) (by simp [g1])
        (by simp [← hx.lcount]), .two (hx.wf_right _) (h3.setParent _) (by simp [← hx.rcount])
        (by simp [g3]), ⟨_, rfl⟩, ?_, fun y => ?_⟩
      · simp [split4, before, after, Insertion.toList, Node.kid, Node.elem]
      · simp [split4, Node.kid]
        omega
    · refine ⟨.three (h0.setParent _) (h1.setParent _) (h2.setParent _) (by simp [g0]) (by simp [g1])
        (by simp [g2]), .two (hx.wf_left _) (hx.wf_right _) (by simp [← hx.lcount])
        (by simp [← hx.rcount]), ⟨_, rfl⟩, ?_, fun y => ?_⟩
      · simp [split4, before, after, Insertion.toList, Node.kid, Node.elem]
      · simp [split4, Node.kid]
        omega

/-! ## The way up -/

/-- A tree that holds `l`, in which the identities occur at most as often as `occ` says, and each of
`base, …, next - 1` once more. -/
structure Built (root : Node α) (l : List α) (occ : ℕ → ℕ) (base next : ℕ) : Prop where
  wf : ∃ h, Wf (h + 1) none root
  toList : root.toList = l
  occ : ∀ y, root.occ y ≤ occ y + if base ≤ y ∧ y < next then 1 else 0

theorem newRoot_spec (hx : Fits h x e) (i : ℕ) :
    Wf (h + 1) none (newRoot i x) ∧ (newRoot i x).toList = x.toList ∧
      ∀ y, (newRoot i x).occ y = x.left.occ y + x.right.occ y + if i = y then 1 else 0 := by
  refine ⟨?_, by simp [newRoot, Insertion.toList], fun y => ?_⟩
  · rw [newRoot, hx.elem]
    exact .two (hx.wf_left _) (hx.wf_right _) (by simp [hx.lcount]) (by simp [hx.rcount])
  · simp [newRoot]
    omega

/-- A node with room takes the element, and the counts above it are put right. -/
theorem addLoop_room (hm : ∀ y, m y ≤ 1) (hpath : Path m (h + 1) n path L R occ)
    (hn : Wf (h + 1) p n) (hd : ∀ y, occ y + n.occ y ≤ m y) (he : n.elem 2 = none)
    (hnp : np ≤ nelems n) (hx : Fits h x e) {base : ℕ}
    (hocc : ∀ y, x.left.occ y + x.right.occ y ≤
      (n.kid np).occ y + if base ≤ y ∧ y < next then 1 else 0) :
    ∃ root, addLoop next np x (n :: path) = some (root, next) ∧
      Built root (L ++ (before n np ++ (x.toList ++ (after n np ++ R)))) m base next := by
  have hins : ∃ n', addLoop next np x (n :: path) = (addCounts n' path).map (·, next) ∧
      Inserted h n np x n' := by
    rw [addLoop]
    by_cases he1 : n.elem 1 = none
    · exact ⟨_, by rw [if_pos he1], insert2_spec hn he1 hnp hx⟩
    · exact ⟨_, by rw [if_neg he1, if_pos he], insert3_spec hn he1 he hnp hx⟩
  obtain ⟨n', h1, hins⟩ := hins
  obtain ⟨h', root, h2, h3, h4, h5⟩ := addCounts_spec hm hpath hins.replaces
  refine ⟨root, by rw [h1, h2]; rfl, ⟨h', h3⟩, by simp [h4, hins.toList], fun y => ?_⟩
  have h6 := hins.occ y
  have h7 := hocc y
  have h8 := hd y
  rw [h5]
  omega

variable (next) in
/-- A full node is split, and the loop goes on above it. -/
theorem addLoop_full (hn : Wf (h + 1) p n) (he : n.elem 2 ≠ none) (hup : leadsUp n path)
    (hnp : np ≤ nelems n) (hx : Fits h x e) :
    ∃ l e' r, addLoop next np x (n :: path) =
        addLoop (next + 1) ((path.head?.map (childnum · n)).getD 0)
          ⟨l, countnode234 l, some e', r, countnode234 r⟩ path ∧
      Split h next n np x l r (some e') := by
  have hs := split4_spec hn he hnp hx next
  obtain ⟨e', he'⟩ := hs.elem
  have he1 : n.elem 1 ≠ none := by
    cases hn with
    | two => simp [Node.elem] at he
    | _ => simp [Node.elem]
  rw [he'] at hs
  refine ⟨_, e', _, ?_, hs⟩
  rw [addLoop, if_neg he1, if_neg he, if_pos hup, ← he']

/-- **The loop puts the element into its place, whatever nodes have to be split.** -/
theorem addLoop_spec (hm : ∀ y, m y ≤ 1) (hpath : Path m (h + 1) n path L R occ) (hn : Wf (h + 1) p n)
    (hd : ∀ y, occ y + n.occ y ≤ m y) (hnp : np ≤ nelems n) (hx : Fits h x e) {base : ℕ}
    (hbase : base ≤ next)
    (hocc : ∀ y, x.left.occ y + x.right.occ y ≤
      (n.kid np).occ y + if base ≤ y ∧ y < next then 1 else 0) :
    ∃ root next', addLoop next np x (n :: path) = some (root, next') ∧ next ≤ next' ∧
      Built root (L ++ (before n np ++ (x.toList ++ (after n np ++ R)))) m base next' := by
  induction path generalizing h n p L R occ np x e next with
  | nil =>
    by_cases he : n.elem 2 = none
    · obtain ⟨root, h1, h2⟩ := addLoop_room hm hpath hn hd he hnp hx hocc
      exact ⟨root, next, h1, Nat.le_refl _, h2⟩
    · have hup := hpath.leadsUp (by omega)
      obtain ⟨l, e', r, h1, hs⟩ := addLoop_full next hn he hup hnp hx
      have hx' : Fits (h + 1) ⟨l, countnode234 l, some e', r, countnode234 r⟩ e' :=
        ⟨⟨_, hs.left⟩, ⟨_, hs.right⟩, hs.left.countnode, hs.right.countnode, rfl⟩
      obtain ⟨h2, h3, h4⟩ := newRoot_spec hx' (next + 1)
      cases hpath with
      | nil _ =>
        refine ⟨_, next + 1 + 1, h1, by omega, ⟨_, h2⟩, ?_, fun y => ?_⟩
        · rw [h3, Insertion.toList, hs.toList]
          simp
        · have h5 := hs.occ y
          have h6 := hocc y
          have h7 := hd y
          simp only [Nat.zero_add] at h7
          rw [h4]
          show l.occ y + r.occ y + _ ≤ _
          split_ifs at * <;> omega
  | cons f path ih =>
    by_cases he : n.elem 2 = none
    · obtain ⟨root, h1, h2⟩ := addLoop_room hm hpath hn hd he hnp hx hocc
      exact ⟨root, next, h1, Nat.le_refl _, h2⟩
    · have hup := hpath.leadsUp (by omega)
      obtain ⟨l, e', r, h1, hs⟩ := addLoop_full next hn he hup hnp hx
      have hx' : Fits (h + 1) ⟨l, countnode234 l, some e', r, countnode234 r⟩ e' :=
        ⟨⟨_, hs.left⟩, ⟨_, hs.right⟩, hs.left.countnode, hs.right.countnode, rfl⟩
      cases hpath with
      | @cons _ j q _ _ _ L R occ0 _ hf hj hst hpath hdf hoccf =>
        have hnum : childnum f n = j :=
          childnum_eq hf (fun y => by have := hdf y; have := hm y; omega) hj hst.id
        have hocc' : ∀ y, l.occ y + r.occ y ≤
            (f.kid j).occ y + if base ≤ y ∧ y < next + 1 then 1 else 0 := by
          intro y
          have h5 := hs.occ y
          have h6 := hocc y
          have h7 := hst.occ y
          split_ifs at * <;> omega
        obtain ⟨root, next', h2, h3, h4, h5, h6⟩ := ih hpath hf hdf hj hx' (by omega) hocc'
        refine ⟨root, next', ?_, by omega, h4, ?_, h6⟩
        · rw [h1]
          simpa [hnum] using h2
        · have h7 : Insertion.toList ⟨l, countnode234 l, some e', r, countnode234 r⟩ =
              before n np ++ (x.toList ++ after n np) := hs.toList
          rw [h5, h7]
          simp only [List.append_assoc]

/-! ## The way down -/

/-- How the place of the element splits the elements: at the index, or between those that come before
and those that come after it. -/
structure Splits (cmp : α → α → Ordering) (e : α) (index : Option ℕ) (l l1 l2 : List α) : Prop where
  append : l = l1 ++ l2
  length : ∀ i, index = some i → i = l1.length
  sorted : index = none → (∀ a ∈ l1, cmp e a = .gt) ∧ ∀ a ∈ l2, cmp e a = .lt

variable {cmp : α → α → Ordering} {index : Option ℕ} {l l1 l2 : List α}

theorem splits_none : Splits cmp e none l l1 l2 ↔ Sought (cmp e) l l1 none l2 := by
  constructor
  · intro hs
    exact ⟨hs.append, (hs.sorted rfl).1, by simp, (hs.sorted rfl).2⟩
  · intro hs
    exact ⟨hs.append, by simp, fun _ => ⟨hs.left, hs.right⟩⟩

/-- The choice of a kid: the place of the element is in it. -/
structure Picked (cmp : α → α → Ordering) (e : α) (n : Node α) (l1 l2 : List α) (j : ℕ)
    (index : Option ℕ) (m1 m2 : List α) : Prop where
  le : j ≤ nelems n
  splits : Splits cmp e index (n.kid j).toList m1 m2
  left : l1 = before n j ++ m1
  right : l2 = m2 ++ after n j

/-- In a node with kids, an index is compared with their lengths. -/
theorem addPick_counts {i : ℕ} (hn : Wf (h + 2) p n) : addPick cmp e n (some i) =
    if i ≤ (n.kid 0).toList.length then .child 0 (some i)
    else if i - ((n.kid 0).toList.length + 1) ≤ (n.kid 1).toList.length then
      .child 1 (some (i - ((n.kid 0).toList.length + 1)))
    else if i - ((n.kid 0).toList.length + 1) - ((n.kid 1).toList.length + 1) ≤
        (n.kid 2).toList.length then
      .child 2 (some (i - ((n.kid 0).toList.length + 1) - ((n.kid 1).toList.length + 1)))
    else if i - ((n.kid 0).toList.length + 1) - ((n.kid 1).toList.length + 1) -
        ((n.kid 2).toList.length + 1) ≤ (n.kid 3).toList.length then
      .child 3 (some (i - ((n.kid 0).toList.length + 1) - ((n.kid 1).toList.length + 1) -
        ((n.kid 2).toList.length + 1)))
    else .fail := by
  have hk : (n.kid 0).isNull = false := (hn.focus (Nat.zero_le _)).kid.isNull
  rw [addPick, hk]
  simp only [hn.shape.count]
  rfl

variable (cmp e) in
/-- The kid in which an index is, and the index there. -/
theorem addPick_index {i : ℕ} (hn : Wf (h + 1) p n) (hi : i ≤ n.toList.length) :
    ∃ j i', j ≤ nelems n ∧ i = (before n j).length + i' ∧ i' ≤ (n.kid j).toList.length ∧
      (0 < h → addPick cmp e n (some i) = .child j (some i')) := by
  have hs := hn.shape
  have hlist := congrArg List.length (toList_kid hn.isNull (j := 0) (Nat.zero_le _))
  obtain ⟨a, ha⟩ := hs.elem0
  simp only [before, after, ha, List.length_append, Option.toList_some, List.length_nil,
    List.length_singleton] at hlist
  have hpick : 0 < h → addPick cmp e n (some i) =
      if i ≤ (n.kid 0).toList.length then .child 0 (some i)
      else if i - ((n.kid 0).toList.length + 1) ≤ (n.kid 1).toList.length then
        .child 1 (some (i - ((n.kid 0).toList.length + 1)))
      else if i - ((n.kid 0).toList.length + 1) - ((n.kid 1).toList.length + 1) ≤
          (n.kid 2).toList.length then
        .child 2 (some (i - ((n.kid 0).toList.length + 1) - ((n.kid 1).toList.length + 1)))
      else if i - ((n.kid 0).toList.length + 1) - ((n.kid 1).toList.length + 1) -
          ((n.kid 2).toList.length + 1) ≤ (n.kid 3).toList.length then
        .child 3 (some (i - ((n.kid 0).toList.length + 1) - ((n.kid 1).toList.length + 1) -
          ((n.kid 2).toList.length + 1)))
      else .fail := by
    intro hpos
    obtain ⟨h', rfl⟩ : ∃ h', h = h' + 1 := ⟨h - 1, by omega⟩
    exact addPick_counts hn
  by_cases h0 : i ≤ (n.kid 0).toList.length
  · exact ⟨0, i, Nat.zero_le _, by simp [before], h0, fun hpos => (hpick hpos).trans (if_pos h0)⟩
  by_cases h1 : i - ((n.kid 0).toList.length + 1) ≤ (n.kid 1).toList.length
  · refine ⟨1, _, by simp [nelems, ha]; omega, by simp [before, ha]; omega, h1, fun hpos => ?_⟩
    rw [hpick hpos, if_neg h0, if_pos h1]
  rcases hs.elem1 with ⟨b, hb⟩ | ⟨hb, hd, hk⟩
  swap
  · rcases hs.elem2 with ⟨d, hd'⟩ | ⟨-, hk'⟩
    · rw [hd] at hd'
      cases hd'
    · simp [hb, hd, hk, hk'] at hlist
      omega
  by_cases h2 : i - ((n.kid 0).toList.length + 1) - ((n.kid 1).toList.length + 1) ≤
      (n.kid 2).toList.length
  · refine ⟨2, _, by simp [nelems, ha, hb], by simp [before, ha, hb]; omega, h2, fun hpos => ?_⟩
    rw [hpick hpos, if_neg h0, if_neg h1, if_pos h2]
  rcases hs.elem2 with ⟨d, hd⟩ | ⟨hd, hk⟩
  swap
  · simp [hb, hd, hk] at hlist
    omega
  simp only [hb, hd, Option.toList_some, List.length_singleton] at hlist
  have h3 : i - ((n.kid 0).toList.length + 1) - ((n.kid 1).toList.length + 1) -
      ((n.kid 2).toList.length + 1) ≤ (n.kid 3).toList.length := by omega
  refine ⟨3, _, by simp [nelems, ha, hb, hd], by simp [before, ha, hb, hd]; omega, h3,
    fun hpos => ?_⟩
  rw [hpick hpos, if_neg h0, if_neg h1, if_neg h2, if_pos h3]

/-- In a sorted tree, the choice is that of the search for the element. -/
theorem addPick_none (hn : Shape n) :
    addPick cmp e n none =
      match findScan (cmp e) n [0, 1, 2] 0 with
      | .child j _ => .child j none
      | .found j _ => (n.elem j).elim .fail .exists := by
  obtain ⟨a, ha⟩ := hn.elem0
  simp only [addPick, findScan, ha]
  cases cmp e a with
  | lt => rfl
  | eq => simp [ha]
  | gt =>
    cases hb : n.elem 1 with
    | none => rfl
    | some b =>
      simp only
      cases cmp e b with
      | lt => rfl
      | eq => simp [hb]
      | gt =>
        cases hd : n.elem 2 with
        | none => rfl
        | some d =>
          simp only
          cases cmp e d with
          | lt => rfl
          | eq => simp [hd]
          | gt => rfl

/-- The choice in a sorted tree: a kid in which the place of the element is, or an equal element. -/
theorem addPick_sought (hn : Wf (h + 1) p n) {o : Option α} (hs : Sought (cmp e) n.toList l1 o l2) :
    (∃ j m1 m2, j ≤ nelems n ∧ Sought (cmp e) (n.kid j).toList m1 o m2 ∧ l1 = before n j ++ m1 ∧
      l2 = m2 ++ after n j ∧ addPick cmp e n none = .child j none) ∨
    ∃ a, o = some a ∧ addPick cmp e n none = .exists a := by
  rw [addPick_none hn.shape]
  generalize hscan : findScan (cmp e) n [0, 1, 2] 0 = scan
  have hspec : Scanned (cmp e) n o l1 l2 0 scan := by
    rw [← hscan]
    exact findScan_spec hn hs
  cases hspec with
  | child hle hs' h1 h2 => exact Or.inl ⟨_, _, _, hle, hs', h1, h2, rfl⟩
  | found hle ha ho => exact Or.inr ⟨_, ho, by simp [ha]⟩

/-- The comparisons of the index with the counts, or of the element with those of the node. -/
theorem addPick_spec (hn : Wf (h + 1) p n) (hs : Splits cmp e index n.toList l1 l2) :
    ∃ j index' m1 m2, Picked cmp e n l1 l2 j index' m1 m2 ∧ (index' = none ↔ index = none) ∧
      (index = none ∨ 0 < h → addPick cmp e n index = .child j index') := by
  cases index with
  | none =>
    rcases addPick_sought hn (splits_none.mp hs) with ⟨j, m1, m2, h1, h2, h3, h4, h5⟩ | ⟨a, h1, -⟩
    · exact ⟨j, none, m1, m2, ⟨h1, splits_none.mpr h2, h3, h4⟩, Iff.rfl, fun _ => h5⟩
    · cases h1
  | some i =>
    have hlen := hs.length i rfl
    have hi : i ≤ n.toList.length := by
      rw [hs.append, List.length_append]
      omega
    obtain ⟨j, i', h1, h2, h3, h4⟩ := addPick_index e cmp hn hi
    have hfocus := hn.focus h1
    have happend : l1 ++ l2 = (before n j ++ (n.kid j).toList.take i') ++
        ((n.kid j).toList.drop i' ++ after n j) := by
      rw [← hs.append, toList_kid hn.isNull hfocus.le, List.append_assoc (before n j),
        ← List.append_assoc (List.take _ _), List.take_append_drop]
    obtain ⟨h5, h6⟩ := List.append_inj happend (by simp; omega)
    refine ⟨j, some i', _, _, ⟨h1, ⟨(List.take_append_drop i' _).symm, ?_, by simp⟩, h5, h6⟩, by simp,
      fun hpos => h4 (hpos.resolve_left (by simp))⟩
    intro k hk
    cases hk
    simp
    omega

theorem addDescend_child (hn : n.isNull = false) (hj : j ≤ 3) {index' : Option ℕ}
    (hpick : addPick cmp e n index = .child j index') :
    addDescend cmp e n index np path = addDescend cmp e (n.kid j) index' j (n :: path) := by
  cases n with
  | null => cases hn
  | node =>
    rw [addDescend]
    rcases j with _ | _ | _ | _ | j
    · rw [hpick]
      rfl
    · rw [hpick]
      rfl
    · rw [hpick]
      rfl
    · rw [hpick]
      rfl
    · omega

/-- The place in a leaf at which the way down ends. -/
structure Landed (m : ℕ → ℕ) (np : ℕ) (n : Node α) (path : List (Node α)) (l1 l2 : List α) : Prop where
  wf : ∃ p, Wf 1 p n
  le : np ≤ nelems n
  way : ∃ L R occ, Path m 1 n path L R occ ∧ (∀ y, occ y + n.occ y ≤ m y) ∧
    L ++ before n np = l1 ∧ after n np ++ R = l2

/-- **The way down ends in a leaf, at the place of the element.** -/
theorem addDescend_spec (hpath : Path m (h + 1) n path L R occ) (hn : Wf (h + 1) p n)
    (hd : ∀ y, occ y + n.occ y ≤ m y) (hs : Splits cmp e index n.toList l1 l2) :
    ∃ np' n' path', addDescend cmp e n index np path = .slot np' (n' :: path') ∧
      Landed m np' n' path' (L ++ l1) (l2 ++ R) := by
  obtain ⟨j, index', m1, m2, hpicked, hidx, hpick⟩ := addPick_spec hn hs
  have hfocus := hn.focus hpicked.le
  induction h generalizing n p path L R occ index np l1 l2 j index' m1 m2 with
  | zero =>
    have hkid : n.kid j = null := hfocus.kid.of_zero
    have hnil : m1 = [] ∧ m2 = [] := by
      have h1 := hpicked.splits.append
      rw [hkid] at h1
      simpa using h1.symm
    have hl1 : l1 = before n j := by simpa [hnil.1] using hpicked.left
    have hl2 : l2 = after n j := by simpa [hnil.2] using hpicked.right
    have hland : Landed m j n path (L ++ l1) (l2 ++ R) :=
      ⟨⟨p, hn⟩, hpicked.le, L, R, occ, hpath, hd, by rw [hl1], by rw [hl2]⟩
    refine ⟨j, n, path, ?_, hland⟩
    have hpick' : addPick cmp e n index = .child j index := by
      cases hi : index with
      | none =>
        have h1 := hpick (Or.inl hi)
        rwa [hi, hidx.mpr hi] at h1
      | some i =>
        -- the counts of a leaf are not looked at
        have h1 : i = j := by
          rw [hs.length i hi, hl1, before_length hn hpicked.le]
        have h2 : n.kid 0 = null := (hn.focus (Nat.zero_le _)).kid.of_zero
        rw [addPick, h2, h1]
        rfl
    rw [addDescend_child hn.isNull hfocus.le hpick', hkid, addDescend]
  | succ h ih =>
    obtain ⟨occ', hpath', hd'⟩ := hpath.down hn hpicked.le hd
    obtain ⟨j', index'', m1', m2', hpicked', hidx', hpick'⟩ :=
      addPick_spec hfocus.kid hpicked.splits
    obtain ⟨np', n', path', h1, h2⟩ := ih hpath' hfocus.kid hd' hpicked.splits _ _ _ _
      hpicked' hidx' hpick' (hfocus.kid.focus hpicked'.le)
    refine ⟨np', n', path', ?_, ?_⟩
    · rw [addDescend_child hn.isNull hfocus.le (hpick (Or.inr (by omega))), h1]
    · rw [hpicked.left, hpicked.right]
      simpa using h2

/-- In a sorted tree, the way down ends at an equal element if there is one. -/
theorem addDescend_exists (hn : Wf h p n) (hs : Sought (cmp e) n.toList l1 (some a) l2) :
    addDescend cmp e n none np path = .exists a := by
  induction h generalizing n p l1 l2 np path with
  | zero =>
    obtain rfl := hn.of_zero
    have h1 := hs.append
    simp at h1
  | succ h ih =>
    rcases addPick_sought hn hs with ⟨j, m1, m2, hle, hs', -, -, hpick⟩ | ⟨a', h1, hpick⟩
    · have hfocus := hn.focus hle
      rw [addDescend_child hn.isNull hfocus.le hpick, ih hfocus.kid hs']
    · cases h1
      cases hn <;> (rw [addDescend, hpick])

/-! ## The whole addition -/

/-- The tree `t` holds the list `l`, and all its identities are used up. -/
structure Holds (t : Tree α) (l : List α) : Prop where
  wf : ∃ h, Wf h none t.root
  toList : t.root.toList = l
  occ : ∀ y, t.root.occ y ≤ if y < t.next then 1 else 0

theorem Holds.isNull_iff {t : Tree α} (ht : Holds t l) : t.root.isNull = true ↔ l = [] := by
  obtain ⟨h, hn⟩ := ht.wf
  rw [hn.null_iff, ← ht.toList]
  constructor
  · rintro rfl
    rw [hn.of_zero]
    rfl
  · intro hl
    cases h with
    | zero => rfl
    | succ h =>
      obtain ⟨a, ha⟩ := hn.shape.elem0
      rw [toList_kid hn.isNull (j := 0) (Nat.zero_le _)] at hl
      simp [after, ha] at hl

theorem add234Internal_null {t : Tree α} (hroot : t.root = null) (e : α) :
    ∃ t', add234Internal t cmp e index = some (t', some e) ∧ t'.cmp = t.cmp ∧ Holds t' [e] := by
  refine ⟨⟨node t.next none null null null null 0 0 0 0 (some e) none none, t.cmp, t.next + 1⟩,
    by rw [add234Internal, hroot]; rfl, rfl, ⟨1, ?_⟩, rfl, fun y => ?_⟩
  · exact .two .null .null rfl rfl
  · show (if t.next = y then 1 else 0) + 0 + 0 + 0 + 0 ≤ if y < t.next + 1 then 1 else 0
    split_ifs <;> omega

/-- **The element is put where the index or the comparison says.** -/
theorem add234Internal_spec {t : Tree α} (ht : Holds t l) (hs : Splits cmp e index l l1 l2) :
    ∃ t', add234Internal t cmp e index = some (t', some e) ∧ t'.cmp = t.cmp ∧
      Holds t' (l1 ++ e :: l2) := by
  obtain ⟨h, hn⟩ := ht.wf
  cases h with
  | zero =>
    have hroot := hn.of_zero
    have hnil : l = [] := by
      rw [← ht.toList, hroot]
      rfl
    have h1 := hs.append
    rw [hnil] at h1
    obtain ⟨rfl, rfl⟩ := List.append_eq_nil_iff.mp h1.symm
    exact add234Internal_null hroot e
  | succ h =>
    have hm : ∀ y, (if y < t.next then 1 else 0) ≤ 1 := by
      intro y
      split_ifs <;> omega
    have hpath : Path (fun y => if y < t.next then 1 else 0) (h + 1) t.root [] [] [] fun _ => 0 :=
      .nil hn.parent_eq
    obtain ⟨np, n, path, h1, ⟨p, hwf⟩, hle, L, R, occ, hpath', hd', hL, hR⟩ :=
      addDescend_spec hpath hn (fun y => by simpa using ht.occ y) (ht.toList ▸ hs)
    have hfits : Fits 0 ⟨null, 0, some e, null, 0⟩ e := ⟨⟨none, .null⟩, ⟨none, .null⟩, rfl, rfl, rfl⟩
    have hnext : t.next ≤ t.next := Nat.le_refl _
    obtain ⟨root, next', h2, h3, h4⟩ := addLoop_spec hm hpath' hwf hd' hle hfits hnext (by simp)
    refine ⟨{ t with root := root, next := next' }, ?_, rfl, ?_, ?_, fun y => ?_⟩
    · rw [add234Internal, hn.isNull, h1]
      simp [h2]
    · obtain ⟨h', hwf'⟩ := h4.wf
      exact ⟨_, hwf'⟩
    · rw [List.nil_append] at hL
      rw [List.append_nil] at hR
      simp [h4.toList, Insertion.toList, ← hL, ← hR]
    · have h5 := h4.occ y
      show root.occ y ≤ if y < next' then 1 else 0
      split_ifs at * <;> omega

/-- An equal element is left where it is. -/
theorem add234Internal_exists {t : Tree α} (ht : Holds t l)
    (hs : Sought (cmp e) l l1 (some a) l2) : add234Internal t cmp e none = some (t, some a) := by
  obtain ⟨h, hn⟩ := ht.wf
  have hnull : t.root.isNull = false := by
    rw [Bool.eq_false_iff, Ne, ht.isNull_iff, hs.append]
    simp
  rw [add234Internal, hnull, addDescend_exists hn (ht.toList ▸ hs)]
  rfl

end PuttyNd.Tree234
