import PuttyNd.Tree.Proofs.RefinementProofs

/-!
# Proofs: the relative search

In a sorted tree, `findrelpos234` returns what a scan of the elements in order does, for all five
relations.
-/

namespace PuttyNd.Tree234

open Node

variable {α β : Type*} {t : Tree α} {l l1 l2 : List α} {o : Option α} {key : α → Ordering}

/-- A comparison with what is looked for agrees with the order of the elements: what is not after an
element is before all that come later. -/
def Consistent (order : α → α → Ordering) (key : α → Ordering) : Prop :=
  ∀ a b, order a b = .lt → key a ≠ .gt → key b = .lt

/-- The order of the tree, with one of its elements to look for. -/
theorem consistent_order {order : α → α → Ordering} [Std.TransCmp order] (e : α) :
    Consistent order (order e) := by
  intro a b hab hne
  cases hc : order e a with
  | lt => exact Std.TransCmp.lt_trans hc hab
  | eq => exact Std.TransCmp.lt_of_eq_of_lt hc hab
  | gt => exact absurd hc hne

theorem index234_eq {h : ℕ} {p : Option ℕ} (hn : Wf h p t.root) (i : ℤ) :
    index234 t i = if 0 ≤ i ∧ i < count234 t then t.root.toList[i.toNat]? else none := by
  have hcount : count234 t = t.root.toList.length := hn.countnode
  rw [hcount]
  by_cases hi : 0 ≤ i ∧ i < t.root.toList.length
  · rw [if_pos hi]
    obtain ⟨n, rfl⟩ := Int.eq_ofNat_of_zero_le hi.1
    exact index234_spec hn n
  · rw [if_neg hi, index234, if_pos]
    rw [hn.countnode]
    omega

/-! ## The scan of a list that is split -/

theorem filter_zipIdx_of_all {p : α → Bool} (hl : ∀ a ∈ l, p a = true) (i : ℕ) :
    (l.zipIdx i).filter (fun x => p x.1) = l.zipIdx i := by
  rw [List.filter_eq_self]
  intro x hx
  exact hl x.1 (List.fst_mem_of_mem_zipIdx hx)

theorem filter_zipIdx_of_none {p : α → Bool} (hl : ∀ a ∈ l, p a = false) (i : ℕ) :
    (l.zipIdx i).filter (fun x => p x.1) = [] := by
  rw [List.filter_eq_nil_iff]
  intro x hx
  simp [hl x.1 (List.fst_mem_of_mem_zipIdx hx)]

/-- What the relation holds for, in the three parts of the list. -/
def kept (relation : Rel) (c : Ordering) (l : List α) (i : ℕ) : List (α × ℕ) :=
  if relation.holds c then l.zipIdx i else []

theorem filter_kept {relation : Rel} {c : Ordering} (hl : ∀ a ∈ l, key a = c) (i : ℕ) :
    (l.zipIdx i).filter (fun x => relation.holds (key x.1)) = kept relation c l i := by
  unfold kept
  by_cases hc : relation.holds c = true
  · rw [if_pos hc, filter_zipIdx_of_all (p := fun a => relation.holds (key a))]
    intro a ha
    rw [hl a ha, hc]
  · rw [if_neg hc, filter_zipIdx_of_none (p := fun a => relation.holds (key a))]
    intro a ha
    rw [hl a ha]
    simpa using hc

theorem Sought.filter_eq (hs : Sought key l l1 o l2) (relation : Rel) :
    l.zipIdx.filter (fun x => relation.holds (key x.1)) =
      kept relation .gt l1 0 ++ (kept relation .eq o.toList l1.length ++
        kept relation .lt l2 (l1.length + o.toList.length)) := by
  rw [hs.append, List.zipIdx_append, List.zipIdx_append, List.filter_append, List.filter_append,
    filter_kept hs.left, filter_kept (fun a ha => hs.eq a (Option.mem_toList.mp ha)),
    filter_kept hs.right]
  simp

theorem getLast?_zipIdx (l : List α) :
    l.zipIdx.getLast? = (l[l.length - 1]?).map (·, l.length - 1) := by
  rw [List.getLast?_eq_getElem?, List.length_zipIdx, List.getElem?_zipIdx]
  simp

theorem head?_zipIdx (l : List α) (i : ℕ) : (l.zipIdx i).head? = l.head?.map (·, i) := by
  cases l with
  | nil => rfl
  | cons => rfl

/-! ## The search -/

section Search

variable {h : ℕ} {p : Option ℕ}

/-- The element before what is looked for. -/
theorem index234_left (hn : Wf h p t.root) (hs : Sought key t.root.toList l1 o l2) :
    (index234 t ((l1.length : ℤ) - 1)).map (·, (l1.length : ℤ) - 1) =
      (l1.zipIdx.getLast?).map fun p => (p.1, (p.2 : ℤ)) := by
  have hcount : count234 t = l1.length + (o.toList.length + l2.length) := by
    rw [count234, hn.countnode, hs.append, List.length_append, List.length_append]
  rw [index234_eq hn, hcount, getLast?_zipIdx]
  by_cases hl : l1.length = 0
  · rw [if_neg (by omega), List.length_eq_zero_iff.mp hl]
    rfl
  · have hpos : ((l1.length : ℤ) - 1).toNat = l1.length - 1 := by omega
    have hcast : ((l1.length - 1 : ℕ) : ℤ) = (l1.length : ℤ) - 1 := by omega
    rw [if_pos (by omega), hpos, hs.append, List.getElem?_append_left (by omega), Option.map_map]
    simp only [Function.comp_def, hcast]

/-- The element that follows what is looked for. -/
theorem index234_right (hn : Wf h p t.root) (hs : Sought key t.root.toList l1 o l2) :
    (index234 t ((l1.length + o.toList.length : ℕ) : ℤ)).map (·, ((l1.length + o.toList.length : ℕ) : ℤ)) =
      ((l2.zipIdx (l1.length + o.toList.length)).head?).map fun p => (p.1, (p.2 : ℤ)) := by
  have hidx : t.root.toList[l1.length + o.toList.length]? = l2.head? := by
    rw [hs.append, ← List.append_assoc, List.getElem?_append_right (by simp), List.length_append,
      Nat.sub_self, List.head?_eq_getElem?]
  rw [index234_spec hn, hidx, head?_zipIdx, Option.map_map]
  rfl

theorem findrelpos234_spec (hn : Wf h p t.root) (hs : Sought key t.root.toList l1 o l2) (relation : Rel) :
    findrelpos234 t key relation =
      (listFindrel key relation t.root.toList).map fun p => (p.1, (p.2 : ℤ)) := by
  unfold findrelpos234
  by_cases hnull : t.root.isNull = true
  · have hl : t.root.toList = [] := by
      cases hroot : t.root with
      | null => rfl
      | node => simp [hroot, Node.isNull] at hnull
    rw [if_pos hnull, hl]
    cases relation <;> rfl
  have hleft := index234_left hn hs
  have hright := index234_right hn hs
  rw [if_neg hnull, findLoop_spec hn hs, Nat.zero_add]
  unfold listFindrel
  simp only [hs.filter_eq]
  cases o with
  | none =>
    cases relation with
    | eq => simp [kept, Rel.holds]
    | lt => simpa [kept, Rel.holds] using hleft
    | le => simpa [kept, Rel.holds] using hleft
    | ge => simpa [kept, Rel.holds] using hright
    | gt => simpa [kept, Rel.holds] using hright
  | some a =>
    cases relation with
    | eq => simp [kept, Rel.holds]
    | lt => simpa [kept, Rel.holds] using hleft
    | le => simp [kept, Rel.holds]
    | ge => simp [kept, Rel.holds]
    | gt => simpa [kept, Rel.holds] using hright

end Search

/-- What is looked for splits the elements of a sorted tree. -/
theorem exists_sought_of_findKey {order : α → α → Ordering} {cmp : β → α → Ordering} {relation : Rel}
    {e : Option β} (hl : l.Pairwise (order · · = .lt)) (hcmp : ∀ b ∈ e, Consistent order (cmp b))
    (hkey : findKey cmp relation e = some key) : ∃ l1 o l2, Sought key l l1 o l2 := by
  refine exists_sought_of hl ?_
  cases e with
  | some b =>
    cases hkey
    exact hcmp b rfl
  | none =>
    cases relation with
    | lt =>
      cases hkey
      intro a b _ hne
      exact absurd rfl hne
    | gt =>
      cases hkey
      intro a b _ _
      rfl
    | _ => cases hkey

/-- **The relative search is exact**: in a sorted tree, it returns what a scan of the elements in order
does, and so does the search by index. -/
theorem findrelpos234_exact {order : α → α → Ordering} {h : ℕ} (hn : Wf h none t.root)
    (hsorted : t.root.toList.Pairwise (order · · = .lt)) {e : Option β} {cmp : β → α → Ordering}
    (hcmp : ∀ b ∈ e, Consistent order (cmp b)) {relation : Rel}
    (he : e = none → relation = .lt ∨ relation = .gt) :
    (∃ key, findKey cmp relation e = some key ∧
      findrelpos234With t e cmp relation =
        some ((listFindrel key relation t.root.toList).map fun p => (p.1, (p.2 : ℤ)))) ∧
    ∀ i : ℤ, index234 t i = if 0 ≤ i ∧ i < count234 t then t.root.toList[i.toNat]? else none := by
  refine ⟨?_, index234_eq hn⟩
  obtain ⟨key, hkey⟩ : ∃ key, findKey cmp relation e = some key := by
    cases e with
    | some b => exact ⟨cmp b, rfl⟩
    | none =>
      rcases he rfl with rfl | rfl
      · exact ⟨_, rfl⟩
      · exact ⟨_, rfl⟩
  obtain ⟨l1, o, l2, hs⟩ := exists_sought_of_findKey hsorted hcmp hkey
  have hspec := findrelpos234_spec hn hs relation
  refine ⟨key, hkey, ?_⟩
  unfold findrelpos234With
  by_cases hnull : t.root.isNull = true
  · rw [if_pos hnull, ← hspec, findrelpos234, if_pos hnull]
  · rw [if_neg hnull, hkey, Option.map_some, hspec]

/-- A tree with the elements 10, 20 and 30: the last one below 20. -/
theorem findrelpos234_exact_twenty :
    let t : Tree ℕ := ⟨.node 0 none .null .null .null .null 0 0 0 0 (some 10) (some 20) (some 30),
      some (compare · ·), 1⟩
    (∃ key, findKey (compare · ·) .lt (some 20) = some key ∧
      findrelpos234With t (some 20) (compare · ·) .lt =
        some ((listFindrel key .lt t.root.toList).map fun p => (p.1, (p.2 : ℤ)))) ∧
    ∀ i : ℤ, index234 t i = if 0 ≤ i ∧ i < count234 t then t.root.toList[i.toNat]? else none :=
  findrelpos234_exact (.four .null .null .null .null rfl rfl rfl rfl)
    (by decide : List.Pairwise (fun a b : ℕ => compare a b = .lt) [10, 20, 30])
    (by rintro b ⟨⟩; exact consistent_order 20) (by intro h; cases h)

end PuttyNd.Tree234

/-!
## Proofs: positions out of range

The upper bound of a position is checked on the way down only, by the counts of the kids. A leaf has no
such check, and a missing kid of the root lets through the position that would be in it.
-/

namespace PuttyNd.Tree234

open Node

variable {α : Type*} {t : Tree α} {l : List α} {h i : ℕ} {p : Option ℕ} {n : Node α} {e : α}
  {cmp : α → α → Ordering} {index : ℤ}

/-! ## The way down -/

/-- In a leaf, the way down ends at any index. -/
theorem addDescend_leaf (hn : Wf 1 p n) (i : ℕ) :
    ∃ np path, addDescend cmp e n (some i) 0 [] = .slot np path := by
  cases hn with
  | two h0 h1 =>
    obtain rfl := h0.of_zero
    obtain rfl := h1.of_zero
    rcases i with _ | _ | _ | _ | i <;> exact ⟨_, _, rfl⟩
  | three h0 h1 h2 =>
    obtain rfl := h0.of_zero
    obtain rfl := h1.of_zero
    obtain rfl := h2.of_zero
    rcases i with _ | _ | _ | _ | i <;> exact ⟨_, _, rfl⟩
  | four h0 h1 h2 h3 =>
    obtain rfl := h0.of_zero
    obtain rfl := h1.of_zero
    obtain rfl := h2.of_zero
    obtain rfl := h3.of_zero
    rcases i with _ | _ | _ | _ | i <;> exact ⟨_, _, rfl⟩

/-- The way down ends at a kid that is missing. -/
theorem addDescend_missing {j : ℕ} {index' : Option ℕ} (hn : n.isNull = false) (hj : j ≤ 3)
    (hkid : n.kid j = null) (hpick : addPick cmp e n (some i) = .child j index') :
    ∃ np path, addDescend cmp e n (some i) 0 [] = .slot np path := by
  rw [addDescend_child hn hj hpick, hkid]
  exact ⟨_, _, rfl⟩

theorem addDescend_refused (hn : n.isNull = false) (hpick : addPick cmp e n (some i) = .fail) :
    addDescend cmp e n (some i) 0 [] = .fail := by
  cases n with
  | null => cases hn
  | node => rw [addDescend, hpick]

/-- In a node with kids, the way down ends at a kid that is missing, or the index is refused. -/
theorem addDescend_beyond (hn : Wf (h + 2) p n) (hi : n.toList.length < i) :
    (i ≤ n.toList.length + (3 - nelems n) →
      ∃ np path, addDescend cmp e n (some i) 0 [] = .slot np path) ∧
    (n.toList.length + (3 - nelems n) < i → addDescend cmp e n (some i) 0 [] = .fail) := by
  have hpick := @addPick_counts _ _ _ _ e cmp i hn
  have hnull := hn.isNull
  cases hn with
  | two h0 h1 g0 g1 =>
    simp only [Node.kid, toList_node, toList_null, Option.toList_some, Option.toList_none,
      List.length_append, List.length_nil, List.length_singleton, List.append_nil] at hi hpick ⊢
    rw [if_neg (by omega), if_neg (by omega)] at hpick
    constructor
    · intro hle
      simp only [nelems, Node.elem, Option.toList_some, Option.toList_none, List.length_singleton,
        List.length_nil] at hle
      split_ifs at hpick with h2 h3
      · exact addDescend_missing hnull (by omega) rfl hpick
      · exact addDescend_missing hnull (Nat.le_refl _) rfl hpick
      · omega
    · intro hgt
      simp only [nelems, Node.elem, Option.toList_some, Option.toList_none, List.length_singleton,
        List.length_nil] at hgt
      rw [if_neg (by omega), if_neg (by omega)] at hpick
      exact addDescend_refused hnull hpick
  | three h0 h1 h2 g0 g1 g2 =>
    simp only [Node.kid, toList_node, toList_null, Option.toList_some, Option.toList_none,
      List.length_append, List.length_nil, List.length_singleton, List.append_nil] at hi hpick ⊢
    rw [if_neg (by omega), if_neg (by omega), if_neg (by omega)] at hpick
    constructor
    · intro hle
      simp only [nelems, Node.elem, Option.toList_some, Option.toList_none, List.length_singleton,
        List.length_nil] at hle
      rw [if_pos (by omega)] at hpick
      exact addDescend_missing hnull (Nat.le_refl _) rfl hpick
    · intro hgt
      simp only [nelems, Node.elem, Option.toList_some, Option.toList_none, List.length_singleton,
        List.length_nil] at hgt
      rw [if_neg (by omega)] at hpick
      exact addDescend_refused hnull hpick
  | four h0 h1 h2 h3 g0 g1 g2 g3 =>
    simp only [Node.kid, toList_node, Option.toList_some, List.length_append,
      List.length_singleton] at hi hpick ⊢
    rw [if_neg (by omega), if_neg (by omega), if_neg (by omega), if_neg (by omega)] at hpick
    refine ⟨fun hle => ?_, fun _ => addDescend_refused hnull hpick⟩
    simp only [nelems, Node.elem, Option.toList_some, List.length_singleton] at hle
    omega

/-! ## Adding and deleting -/

/-- The element is added at this position if it is in range; otherwise the tree is left as it is. -/
def AddsAt (t : Tree α) (l : List α) (e : α) (index : ℤ) : Prop :=
  (0 ≤ index ∧ index ≤ l.length → ∃ t', addpos234 t e index = some (t', some e) ∧
    Represents none t' (l.insertIdx index.toNat e)) ∧
  (¬ (0 ≤ index ∧ index ≤ l.length) → addpos234 t e index = some (t, none))

/-- The element at this position is deleted if there is one; otherwise the tree is left as it is. -/
def DeletesAt (t : Tree α) (l : List α) (index : ℤ) : Prop :=
  (0 ≤ index ∧ index < l.length → ∃ t' a, l[index.toNat]? = some a ∧
    delpos234 t index = some (t', some a) ∧ Represents none t' (l.eraseIdx index.toNat)) ∧
  (¬ (0 ≤ index ∧ index < l.length) → delpos234 t index = some (t, none))

/-- The position is in range, or it is beyond the kids that the root lacks. -/
def BoundFound (t : Tree α) (index : ℤ) : Prop :=
  index ≤ count234 t ∨
    (t.root.kid 0).isNull = false ∧ (count234 t + (3 - nelems t.root) : ℕ) < index

theorem deletesAt (ht : Represents none t l) (index : ℤ) : DeletesAt t l index := by
  obtain ⟨h, hn⟩ := ht.holds.wf
  constructor
  · rintro ⟨hpos, hlt⟩
    have hget : l[index.toNat]? = some l[index.toNat] := List.getElem?_eq_getElem (by omega)
    obtain ⟨t', hdel, ht'⟩ := delpos234_spec ht (by rw [listOp, if_pos hpos])
    rw [hget] at hdel
    exact ⟨t', _, hget, hdel, ht'⟩
  · intro hout
    rw [delpos234, hn.countnode, ht.holds.toList, if_pos (by omega)]

theorem addsAt_of_le (ht : Represents none t l) (hle : index ≤ l.length) : AddsAt t l e index := by
  constructor
  · intro hin
    exact addpos234_spec ht (by rw [listOp, if_pos ⟨rfl, hin⟩])
  · intro hout
    rw [addpos234, if_pos (Or.inl (by omega))]

/-- What is added at a place is returned. -/
theorem add234Internal_slot {np : ℕ} {path : List (Node α)}
    (hslot : addDescend cmp e t.root (some i) 0 [] = .slot np path) (hnull : t.root.isNull = false) :
    add234Internal t cmp e (some i) ≠ some (t, none) := by
  intro h
  rw [add234Internal, hnull, hslot] at h
  obtain ⟨r, -, hr⟩ := Option.map_eq_some_iff.mp h
  cases (Prod.mk.inj hr).2

/-- Beyond the range, nothing is added exactly if the position is beyond the kids that the root lacks. -/
theorem addpos234_beyond (ht : Represents none t l) (hgt : (l.length : ℤ) < index) :
    addpos234 t e index = some (t, none) ↔ BoundFound t index := by
  obtain ⟨h, hn⟩ := ht.holds.wf
  have hcount : count234 t = l.length := by
    rw [count234, hn.countnode, ht.holds.toList]
  have hlist := ht.holds.toList
  have hinternal : addpos234 t e index =
      add234Internal t (fun _ _ => .eq) e (some index.toNat) := by
    rw [addpos234, if_neg (by rw [ht.same]; simp; omega)]
  unfold BoundFound
  rw [hinternal, hcount, or_iff_right (by omega)]
  cases h with
  | zero =>
    rw [add234Internal, hn.of_zero]
    constructor
    · intro h
      cases (Prod.mk.inj (Option.some.inj h)).2
    · rintro ⟨h, -⟩
      cases h
  | succ h =>
    have hnull := hn.isNull
    cases h with
    | zero =>
      obtain ⟨np, path, hslot⟩ := @addDescend_leaf _ _ _ e (fun _ _ => .eq) hn index.toNat
      have hkid : t.root.kid 0 = null := (hn.focus (Nat.zero_le _)).kid.of_zero
      refine ⟨fun h => absurd h (add234Internal_slot hslot hnull), ?_⟩
      rintro ⟨h, -⟩
      rw [hkid] at h
      cases h
    | succ h =>
      have hkid : (t.root.kid 0).isNull = false := (hn.focus (Nat.zero_le _)).kid.isNull
      obtain ⟨hslot, hfail⟩ := @addDescend_beyond _ _ index.toNat _ _ e (fun _ _ => .eq) hn
        (by rw [hlist]; omega)
      rw [hlist] at hslot hfail
      constructor
      · intro h
        refine ⟨hkid, ?_⟩
        by_contra hle
        obtain ⟨np, path, hslot⟩ := hslot (by omega)
        exact add234Internal_slot hslot hnull h
      · rintro ⟨-, hgt⟩
        rw [add234Internal, hnull, hfail (by omega)]
        rfl

/-- A position is deleted as it should be, and added at as it should be exactly if it is in range or
beyond the kids that the root lacks. -/
theorem positions_iff (ht : Represents none t l) (e : α) (index : ℤ) :
    AddsAt t l e index ∧ DeletesAt t l index ↔ BoundFound t index := by
  obtain ⟨h, hn⟩ := ht.holds.wf
  have hcount : count234 t = l.length := by
    rw [count234, hn.countnode, ht.holds.toList]
  rw [and_iff_left (deletesAt ht index)]
  by_cases hle : index ≤ l.length
  · exact ⟨fun _ => Or.inl (hcount ▸ hle), fun _ => addsAt_of_le ht hle⟩
  · rw [← addpos234_beyond (e := e) ht (by omega)]
    refine ⟨fun h => h.2 (by omega), fun h => ⟨fun hin => absurd hin.2 hle, fun _ => h⟩⟩

/-- An element is added to an empty tree, and nothing is deleted from it. -/
theorem positions_iff_empty :
    AddsAt (newtree234 none) [] 7 0 ∧ DeletesAt (newtree234 (none : Option (ℕ → ℕ → Ordering))) [] 0 :=
  (positions_iff (represents_newtree234 none) 7 0).mpr (Or.inl (Int.le_refl 0))

/-- An element is added to an empty tree at position 1. In a tree with four elements in two leaves, one
that is added at position 5 takes the place of the second leaf. -/
theorem beyond_added : ¬ AddsAt (newtree234 none) [] 7 1 ∧
    ∃ t t', treeRun (newtree234 none) [.addpos 1 0, .addpos 2 1, .addpos 3 2, .addpos 4 3] =
        some (t, [some 1, some 2, some 3, some 4]) ∧
      t.root.toList = [1, 2, 3, 4] ∧ addpos234 t 5 5 = some (t', some 5) ∧
      t'.root.toList = [1, 2, 3, 5] := by
  refine ⟨fun h => ?_, _, _, rfl, rfl, rfl, rfl⟩
  cases h.2 (by decide)

end PuttyNd.Tree234
