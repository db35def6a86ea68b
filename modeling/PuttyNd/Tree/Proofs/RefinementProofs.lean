import PuttyNd.Tree.Operations
import PuttyNd.Tree.Proofs.CheckProofs
import PuttyNd.Tree.Proofs.DeleteProofs

/-!
# Proofs: a counted 2-3-4 tree refines a list

Every operation on a tree that holds a list does to the list what `listOp` says, and the tree passes
`verify` afterwards.
-/

namespace PuttyNd.Tree234

open Node

variable {α : Type*} {t : Tree α} {l l1 l2 : List α} {o : Option α} {e : α} {key : α → Ordering}

/-! ## Sorted lists -/

section Sorted

variable {cmp : α → α → Ordering}

/-- What is looked for splits a list that is sorted in the same way. -/
theorem exists_sought_of (hl : l.Pairwise (cmp · · = .lt))
    (hkey : ∀ a b, cmp a b = .lt → key a ≠ .gt → key b = .lt) : ∃ l1 o l2, Sought key l l1 o l2 := by
  induction l with
  | nil => exact ⟨[], none, [], rfl, by simp, by simp, by simp⟩
  | cons a l ih =>
    obtain ⟨h1, h2⟩ := List.pairwise_cons.mp hl
    cases hc : key a with
    | lt =>
      refine ⟨[], none, a :: l, rfl, by simp, by simp, ?_⟩
      intro b hb
      rcases List.mem_cons.mp hb with rfl | hb
      · exact hc
      · exact hkey a b (h1 b hb) (by simp [hc])
    | eq =>
      refine ⟨[], some a, l, rfl, by simp, by simpa using hc, ?_⟩
      intro b hb
      exact hkey a b (h1 b hb) (by simp [hc])
    | gt =>
      obtain ⟨l1, o, l2, hs⟩ := ih h2
      refine ⟨a :: l1, o, l2, by rw [hs.append]; rfl, ?_, hs.eq, hs.right⟩
      intro b hb
      rcases List.mem_cons.mp hb with rfl | hb
      · exact hc
      · exact hs.left b hb

variable [Std.TransCmp cmp]

theorem exists_sought (hl : l.Pairwise (cmp · · = .lt)) (e : α) :
    ∃ l1 o l2, Sought (cmp e) l l1 o l2 := by
  refine exists_sought_of hl fun a b hab hne => ?_
  cases hc : cmp e a with
  | lt => exact Std.TransCmp.lt_trans hc hab
  | eq => exact Std.TransCmp.lt_of_eq_of_lt hc hab
  | gt => exact absurd hc hne

/-- An element that is put in its place leaves the list sorted. -/
theorem Sought.pairwise (hs : Sought (cmp e) l l1 none l2) (hl : l.Pairwise (cmp · · = .lt)) :
    (l1 ++ e :: l2).Pairwise (cmp · · = .lt) := by
  have happend : l = l1 ++ l2 := hs.append
  rw [happend, List.pairwise_append] at hl
  rw [List.pairwise_append, List.pairwise_cons]
  refine ⟨hl.1, ⟨hs.right, hl.2.1⟩, ?_⟩
  intro a ha b hb
  rcases List.mem_cons.mp hb with rfl | hb
  · exact Std.OrientedCmp.lt_of_gt (hs.left a ha)
  · exact hl.2.2 a ha b hb

end Sorted

theorem Sought.find?_eq (hs : Sought key l l1 o l2) : l.find? (key · = .eq) = o := by
  have h1 : l1.find? (key · = .eq) = none := by
    rw [List.find?_eq_none]
    intro a ha
    simp [hs.left a ha]
  have h2 : l2.find? (key · = .eq) = none := by
    rw [List.find?_eq_none]
    intro a ha
    simp [hs.right a ha]
  rw [hs.append, List.find?_append, List.find?_append, h1, h2]
  cases ho : o with
  | none => rfl
  | some a => simp [hs.eq a ho]

theorem Sought.takeWhile_eq (hs : Sought key l l1 none l2) :
    l.takeWhile (key · = .gt) = l1 ∧ l.dropWhile (key · = .gt) = l2 := by
  have happend : l = l1 ++ l2 := hs.append
  have h1 : ∀ a ∈ l1, decide (key a = .gt) = true := fun a ha => by simp [hs.left a ha]
  rw [happend, List.takeWhile_append_of_pos h1, List.dropWhile_append_of_pos h1]
  cases l2 with
  | nil => simp
  | cons b l2 => simp [hs.right b (by simp)]

theorem Sought.eraseP_eq (hs : Sought key l l1 o l2) : l.eraseP (key · = .eq) = l1 ++ l2 := by
  have h1 : ∀ a ∈ l1, ¬ decide (key a = .eq) = true := fun a ha => by simp [hs.left a ha]
  rw [hs.append, List.eraseP_append_right _ h1]
  cases ho : o with
  | none =>
    have h2 : ∀ a ∈ l2, ¬ decide (key a = .eq) = true := fun a ha => by simp [hs.right a ha]
    rw [Option.toList_none, List.nil_append, List.eraseP_of_forall_not h2]
  | some a => simp [hs.eq a ho]

/-! ## One operation -/

/-- The tree holds the list, and the list is sorted. -/
structure Represents (cmp : Option (α → α → Ordering)) (t : Tree α) (l : List α) : Prop where
  same : t.cmp = cmp
  holds : Holds t l
  sorted : Sorted cmp l

variable {cmp : Option (α → α → Ordering)}

/-- An element that is not there is put in its place. -/
theorem add234_none {c : α → α → Ordering} [Std.TransCmp c] (ht : Represents (some c) t l)
    (hs : Sought (c e) l l1 none l2) :
    ∃ t', add234 t e = some (t', some e) ∧ Represents (some c) t' (l1 ++ e :: l2) := by
  obtain ⟨t', h1, h2, h3⟩ := add234Internal_spec ht.holds (splits_none.mpr hs)
  refine ⟨t', by rw [add234, ht.same]; exact h1, h2.trans ht.same, h3, ?_⟩
  rintro c' ⟨⟩
  exact hs.pairwise (ht.sorted c rfl)

/-- An equal element is returned. -/
theorem add234_some {c : α → α → Ordering} {a : α} (ht : Represents (some c) t l)
    (hs : Sought (c e) l l1 (some a) l2) : add234 t e = some (t, some a) := by
  rw [add234, ht.same]
  exact add234Internal_exists ht.holds hs

/-- The element that is equal is removed. -/
theorem delpos234_sought {c : α → α → Ordering} {a : α} (ht : Represents (some c) t l)
    (hs : Sought key l l1 (some a) l2) :
    ∃ t', delpos234Internal t l1.length = some (t', some a) ∧ Represents (some c) t' (l1 ++ l2) := by
  have happend : l = l1 ++ a :: l2 := hs.append
  have hlt : l1.length < l.length := by
    rw [happend]
    simp
  obtain ⟨t', h1, h2, h3⟩ := delpos234Internal_spec ht.holds hlt
  have hget : l[l1.length]? = some a := by
    rw [happend]
    simp
  have herase : l.eraseIdx l1.length = l1 ++ l2 := by
    rw [happend, List.eraseIdx_append_of_length_le (Nat.le_refl _)]
    simp
  rw [hget] at h1
  rw [herase] at h3
  refine ⟨t', h1, h2.trans ht.same, h3, ht.sorted.sublist ?_⟩
  rw [happend]
  exact List.Sublist.append_left (List.sublist_cons_self a l2) l1

theorem add234_spec (hcmp : ∀ c ∈ cmp, Std.TransCmp c) (ht : Represents cmp t l) {l' : List α}
    {r : Option α} (hop : listOp cmp l (.add e) = some (l', r)) :
    ∃ t', add234 t e = some (t', r) ∧ Represents cmp t' l' := by
  cases cmp with
  | none => cases hop
  | some c =>
    have := hcmp c rfl
    obtain ⟨l1, o, l2, hs⟩ := exists_sought (ht.sorted c rfl) e
    simp only [listOp, Option.map_some, listAdd, hs.find?_eq, Option.some.injEq] at hop
    cases o with
    | some a =>
      cases hop
      exact ⟨t, add234_some ht hs, ht⟩
    | none =>
      obtain ⟨h1, h2⟩ := hs.takeWhile_eq
      simp only [h1, h2] at hop
      cases hop
      exact add234_none ht hs

theorem insertIdx_eq {i : ℕ} (hi : i ≤ l.length) : l.insertIdx i e = l.take i ++ e :: l.drop i := by
  induction l generalizing i with
  | nil =>
    obtain rfl : i = 0 := by simpa using hi
    rfl
  | cons a l ih =>
    cases i with
    | zero => rfl
    | succ i => simp [ih (Nat.le_of_succ_le_succ hi)]

theorem addpos234_spec (ht : Represents cmp t l) {index : ℤ} {l' : List α} {r : Option α}
    (hop : listOp cmp l (.addpos e index) = some (l', r)) :
    ∃ t', addpos234 t e index = some (t', r) ∧ Represents cmp t' l' := by
  rw [listOp] at hop
  split_ifs at hop with hif
  cases hop
  obtain ⟨hnone, hpos, hle⟩ := hif
  rw [Option.isNone_iff_eq_none] at hnone
  subst hnone
  have hlen : (l.take index.toNat).length = index.toNat := by
    rw [List.length_take]
    omega
  have hs : Splits (fun _ _ => .eq) e (some index.toNat) l (l.take index.toNat)
      (l.drop index.toNat) := by
    refine ⟨(List.take_append_drop _ l).symm, ?_, by simp⟩
    rintro i ⟨⟩
    exact hlen.symm
  obtain ⟨t', h1, h2, h3⟩ := add234Internal_spec ht.holds hs
  refine ⟨t', ?_, h2.trans ht.same, ?_, by simp [Sorted]⟩
  · rw [addpos234, if_neg (by rw [ht.same]; simp; omega)]
    exact h1
  · rw [insertIdx_eq (by omega)]
    exact h3

theorem delpos234_spec (ht : Represents cmp t l) {index : ℤ} {l' : List α} {r : Option α}
    (hop : listOp cmp l (.delpos index) = some (l', r)) :
    ∃ t', delpos234 t index = some (t', r) ∧ Represents cmp t' l' := by
  obtain ⟨h, hn⟩ := ht.holds.wf
  rw [delpos234, hn.countnode, ht.holds.toList]
  rw [listOp] at hop
  split_ifs at hop with hpos
  · cases hop
    rcases Nat.lt_or_ge index.toNat l.length with hlt | hge
    · obtain ⟨t', h1, h2, h3⟩ := delpos234Internal_spec ht.holds hlt
      rw [if_neg (by omega)]
      exact ⟨t', h1, h2.trans ht.same, h3, ht.sorted.sublist (List.eraseIdx_sublist l _)⟩
    · rw [if_pos (by omega), List.getElem?_eq_none hge, List.eraseIdx_of_length_le hge]
      exact ⟨t, rfl, ht⟩
  · cases hop
    rw [if_pos (by omega)]
    exact ⟨t, rfl, ht⟩

/-- The element that is looked for, with its index. -/
theorem findrelpos234_eq (ht : Holds t l) (hs : Sought key l l1 o l2) :
    findrelpos234 t key .eq = o.map (·, (l1.length : ℤ)) := by
  obtain ⟨h, hn⟩ := ht.wf
  rw [findrelpos234, findLoop_spec hn (ht.toList ▸ hs), Nat.zero_add]
  cases o with
  | none =>
    split_ifs
    · rfl
    · rfl
  | some a =>
    have hnull : ¬ t.root.isNull = true := by
      rw [ht.isNull_iff, hs.append]
      simp
    rw [if_neg hnull]
    rfl

theorem del234_spec (hcmp : ∀ c ∈ cmp, Std.TransCmp c) (ht : Represents cmp t l) {l' : List α}
    {r : Option α} (hop : listOp cmp l (.del e) = some (l', r)) :
    ∃ t', del234 t e = some (t', r) ∧ Represents cmp t' l' := by
  cases cmp with
  | none => cases hop
  | some c =>
    have := hcmp c rfl
    obtain ⟨l1, o, l2, hs⟩ := exists_sought (ht.sorted c rfl) e
    simp only [listOp, Option.map_some, listDel, hs.find?_eq, hs.eraseP_eq, Option.some.injEq] at hop
    cases hop
    rw [del234, ht.same]
    simp only
    rw [findrelpos234_eq ht.holds hs]
    cases r with
    | none =>
      refine ⟨t, rfl, ?_⟩
      have happend : l = l1 ++ l2 := hs.append
      exact happend ▸ ht
    | some a => exact delpos234_sought ht hs

/-! ## Runs -/

/-- **Every operation does to the list what it is meant to do.** -/
theorem treeOp_spec (hcmp : ∀ c ∈ cmp, Std.TransCmp c) (ht : Represents cmp t l) {op : Op α}
    {l' : List α} {r : Option α} (hop : listOp cmp l op = some (l', r)) :
    ∃ t', treeOp t op = some (t', r) ∧ Represents cmp t' l' := by
  cases op with
  | add e => exact add234_spec hcmp ht hop
  | addpos e index => exact addpos234_spec ht hop
  | del e => exact del234_spec hcmp ht hop
  | delpos index => exact delpos234_spec ht hop

/-- A run on the list is one on the tree. -/
theorem treeRun_spec (hcmp : ∀ c ∈ cmp, Std.TransCmp c) (ht : Represents cmp t l) {ops : List (Op α)}
    {l' : List α} {rs : List (Option α)} (hrun : listRun cmp l ops = some (l', rs)) :
    ∃ t', treeRun t ops = some (t', rs) ∧ Represents cmp t' l' := by
  induction ops generalizing t l rs with
  | nil =>
    cases hrun
    exact ⟨t, rfl, ht⟩
  | cons op ops ih =>
    simp only [listRun, Option.bind_eq_bind, Option.bind_eq_some_iff, Prod.exists, Option.pure_def,
      Option.some.injEq, Prod.mk.injEq] at hrun
    obtain ⟨l1, r, hop, l2, rs', hrun, rfl, rfl⟩ := hrun
    obtain ⟨t1, h1, ht1⟩ := treeOp_spec hcmp ht hop
    obtain ⟨t2, h2, ht2⟩ := ih ht1 hrun
    refine ⟨t2, ?_, ht2⟩
    simp [treeRun, h1, h2]

/-- A tree that holds a sorted list passes `verify`. -/
theorem Represents.verified (ht : Represents cmp t l) : Verified t l := by
  obtain ⟨h, hn⟩ := ht.holds.wf
  have hlist := ht.holds.toList
  refine ⟨?_, fun hnull => ?_, fun i => by rw [index234_spec hn, hlist]⟩
  · cases h with
    | zero =>
      rw [hn.of_zero]
      rfl
    | succ h => exact hn.parent_eq
  · cases h with
    | zero =>
      rw [hn.of_zero] at hnull
      cases hnull
    | succ h =>
      refine ⟨some (0 + h), ?_⟩
      have hsorted : Sorted t.cmp ((none : Option α).toList ++ (t.root.toList ++ (none : Option α).toList)) := by
        rw [ht.same, hlist]
        simpa using ht.sorted
      rw [chknode_spec hn (Or.inl rfl) hsorted, hlist]

theorem represents_newtree234 (cmp : Option (α → α → Ordering)) :
    Represents cmp (newtree234 cmp) [] :=
  ⟨rfl, ⟨⟨0, .null⟩, rfl, fun _ => Nat.zero_le _⟩, fun _ _ => List.Pairwise.nil⟩

/-- The first operations of a run are a run. -/
theorem listRun_take {ops : List (Op α)} {l' : List α} {rs : List (Option α)}
    (hrun : listRun cmp l ops = some (l', rs)) (k : ℕ) :
    ∃ lk, listRun cmp l (ops.take k) = some (lk, rs.take k) := by
  induction ops generalizing l rs k with
  | nil =>
    cases hrun
    exact ⟨l', by simp [listRun]⟩
  | cons op ops ih =>
    cases k with
    | zero => exact ⟨l, by simp [listRun]⟩
    | succ k =>
      simp only [listRun, Option.bind_eq_bind, Option.bind_eq_some_iff, Prod.exists, Option.pure_def,
        Option.some.injEq, Prod.mk.injEq] at hrun
      obtain ⟨l1, r, hop, l2, rs', hrun, rfl, rfl⟩ := hrun
      obtain ⟨lk, hk⟩ := ih hrun k
      exact ⟨lk, by simp [listRun, hop, hk]⟩

/-- **A counted tree refines a list: after every operation of a run, it passes `verify` with the elements
of the list, and the same elements have been returned.** -/
theorem tree_refines_list {cmp : Option (α → α → Ordering)} (hcmp : ∀ c ∈ cmp, Std.TransCmp c)
    {ops : List (Op α)} {l : List α} {rs : List (Option α)} (hrun : listRun cmp [] ops = some (l, rs))
    (k : ℕ) :
    ∃ t lk, treeRun (newtree234 cmp) (ops.take k) = some (t, rs.take k) ∧
      listRun cmp [] (ops.take k) = some (lk, rs.take k) ∧ t.root.toList = lk ∧ Verified t lk := by
  obtain ⟨lk, hk⟩ := listRun_take hrun k
  obtain ⟨t, h1, h2⟩ := treeRun_spec hcmp (represents_newtree234 cmp) hk
  exact ⟨t, lk, h1, hk, h2.holds.toList, h2.verified⟩

/-- A run on a sorted tree: an equal element is not added again, and one that is not there is not
removed. -/
theorem tree_refines_list_sorted :
    ∃ t lk, treeRun (newtree234 (some fun a b : ℕ => compare a b))
        ([.add 3, .add 1, .add 2, .add 3, .add 4, .del 2, .del 5].take 7) =
          some (t, [some 3, some 1, some 2, some 3, some 4, some 2, none].take 7) ∧
      listRun (some fun a b : ℕ => compare a b) []
        ([.add 3, .add 1, .add 2, .add 3, .add 4, .del 2, .del 5].take 7) =
          some (lk, [some 3, some 1, some 2, some 3, some 4, some 2, none].take 7) ∧
      t.root.toList = lk ∧ Verified t lk :=
  tree_refines_list (l := [1, 3, 4]) (by rintro c ⟨⟩; exact inferInstance) rfl 7

end PuttyNd.Tree234
