import PuttyNd.Tree.Proofs.FindProofs

/-!
# Proofs: the checks of `verify`

A 2-3-4 tree whose elements are in order passes `chknode`.
-/

namespace PuttyNd.Tree234

open Node

variable {α : Type*} {h level : ℕ} {p : Option ℕ} {n : Node α} {low high : Option α} {l : List α}

/-- The elements are in strictly increasing order. There is no order in an unsorted tree. -/
def Sorted (cmp : Option (α → α → Ordering)) (l : List α) : Prop :=
  ∀ c ∈ cmp, l.Pairwise (c · · = .lt)

theorem chkorder_spec {cmp : α → α → Ordering}
    (hl : (low.toList ++ (l ++ high.toList)).Pairwise (cmp · · = .lt)) :
    chkorder cmp low l high = true := by
  induction l generalizing low with
  | nil =>
    cases low with
    | none => rfl
    | some lower =>
      cases high with
      | none => rfl
      | some higher => simpa [chkorder] using hl
  | cons a l ih =>
    cases low with
    | none =>
      show chkorder cmp (some a) l high = true
      apply ih
      simpa using hl
    | some lower =>
      have h1 := List.pairwise_cons.mp hl
      have h2 : chkorder cmp (some a) l high = true := ih h1.2
      rw [chkorder, h1.1 a (by simp), h2]
      rfl

section

variable {cmp : Option (α → α → Ordering)} {td : Option ℕ} {l' : List α} {a b d : α} {k0 k1 k2 k3 : List α}

theorem Sorted.sublist (hl : Sorted cmp l) (hs : l'.Sublist l) : Sorted cmp l' :=
  fun c hc => (hl c hc).sublist hs

theorem chkbounds_spec (hl : Sorted cmp (low.toList ++ (l ++ high.toList))) :
    chkbounds cmp low l high = true := by
  cases cmp with
  | none => rfl
  | some c => exact chkorder_spec (hl c rfl)

variable {level : ℕ} {r : ℕ × Option ℕ} {j c : ℕ} {chk : Option ℕ → Option (ℕ × Option ℕ)}

theorem chkkid_some (hj : j < nkids n) (hchk : chk r.2 = some (n.count j, td)) :
    chkkid n j chk r = some (r.1 + n.count j, td) := by
  rw [chkkid, if_pos hj, hchk]
  exact if_pos rfl

theorem chkkid_none (hj : nkids n ≤ j) : chkkid n j chk r = some r :=
  if_neg (Nat.not_lt.mpr hj)

/-- The number of elements, the number of kids and the check of the node itself. -/
structure Checked (cmp : Option (α → α → Ordering)) (h : ℕ) (n : Node α) (low high : Option α) : Prop
    where
  elems : leadingElems n = nelems n
  kids : nkids n = if h = 0 then 0 else nelems n + 1
  fields : chkfields cmp n low high = true

/-- The check of the node itself, given the numbers of kids and elements. -/
theorem chkfields_eq {nk ne : ℕ} (hk : nkids n = nk) (he : leadingElems n = ne)
    (hkids : ∀ j ∈ [0, 1, 2, 3], nk ≤ j → (n.kid j).isNull = true ∧ n.count j = 0)
    (helems : ∀ j ∈ [0, 1, 2], ne ≤ j → n.elem j = none) (hnum : nk = 0 ∨ nk = ne + 1) (hpos : 0 < ne)
    (horder : chkbounds cmp low ((n.elem 0).toList ++ (n.elem 1).toList ++ (n.elem 2).toList) high = true)
    (hparent : ∀ j ∈ [0, 1, 2, 3], j < nk → (n.kid j).parent = n.id) :
    chkfields cmp n low high = true := by
  have h1 : ([0, 1, 2, 3].all fun j => j < nk || (n.kid j).isNull && n.count j = 0) = true := by
    rw [List.all_eq_true]
    intro j hj
    rcases Nat.lt_or_ge j nk with h | h
    · simp [h]
    · simp [hkids j hj h]
  have h2 : ([0, 1, 2].all fun j => j < ne || (n.elem j).isNone) = true := by
    rw [List.all_eq_true]
    intro j hj
    rcases Nat.lt_or_ge j ne with h | h
    · simp [h]
    · simp [helems j hj h]
  have h3 : ([0, 1, 2, 3].all fun j => nk ≤ j || (n.kid j).parent = n.id) = true := by
    rw [List.all_eq_true]
    intro j hj
    rcases Nat.lt_or_ge j nk with h | h
    · simp [hparent j hj h]
    · simp [h]
  have h4 : ne ≠ 0 := by omega
  rw [chkfields, hk, he, h1, h2, h3, horder]
  rcases hnum with rfl | rfl
  · simp [h4]
  · simp [h4]

/-- Which kids and elements there are. -/
structure Filled (h : ℕ) (n : Node α) : Prop where
  range : nelems n = 1 ∨ nelems n = 2 ∨ nelems n = 3
  kid : ∀ j ≤ 3, (n.kid j).isNull = true ↔ h = 0 ∨ nelems n < j
  count : ∀ j ≤ 3, (n.kid j).isNull = true → n.count j = 0
  elem : ∀ j ≤ 2, n.elem j = none ↔ nelems n ≤ j
  parent : ∀ j ≤ nelems n, h ≠ 0 → (n.kid j).parent = n.id

theorem Wf.filled (hn : Wf (h + 1) p n) : Filled h n := by
  have hle := fun j hj => (hn.focus (j := j) hj).le
  have hcount := hn.shape.count
  have hnull := fun j hj => (hn.focus (j := j) hj).kid.null_iff
  have hkid := fun j (hk : (n.kid j).isNull = false) => le_nelems_of_kid hn hk
  have helem := fun j hj => exists_elem (j := j) hn hj
  have hpos : 1 ≤ nelems n := by
    obtain ⟨a, ha⟩ := hn.shape.elem0
    exact succ_le_nelems hn.shape (by omega) ha
  have hmax := hle _ (Nat.le_refl (nelems n))
  refine ⟨by omega, fun j hj => ?_, fun j hj hk => ?_, fun j hj => ?_, fun j hj hh => ?_⟩
  · rcases Nat.lt_or_ge (nelems n) j with h1 | h1
    · have h2 : (n.kid j).isNull = true := by
        by_contra h2
        have h3 := hkid j (by simpa using h2)
        omega
      simp [h1, h2]
    · rw [hnull j h1]
      omega
  · rw [hcount]
    cases hk' : n.kid j with
    | null => rfl
    | node =>
      rw [hk'] at hk
      cases hk
  · constructor
    · intro h1
      by_contra h2
      obtain ⟨a, ha⟩ := helem j (by omega)
      rw [h1] at ha
      cases ha
    · intro h1
      by_contra h2
      obtain ⟨a, ha⟩ := Option.ne_none_iff_exists'.mp h2
      have h3 := succ_le_nelems hn.shape hj ha
      omega
  · obtain ⟨h', rfl⟩ : ∃ h', h = h' + 1 := ⟨h - 1, by omega⟩
    exact (hn.focus hj).kid.parent_eq

theorem Filled.nkids_eq (hf : Filled h n) : nkids n = if h = 0 then 0 else nelems n + 1 := by
  have hkid : ∀ j ≤ 3, (n.kid j).isNull = decide (h = 0 ∨ nelems n < j) := by
    intro j hj
    rw [Bool.eq_iff_iff, decide_eq_true_iff]
    exact hf.kid j hj
  simp only [nkids, hkid 0 (by omega), hkid 1 (by omega), hkid 2 (by omega), hkid 3 (by omega)]
  by_cases hh : h = 0
  · simp [hh, leading]
  · rcases hf.range with h1 | h1 | h1
    · simp [hh, h1, leading]
    · simp [hh, h1, leading]
    · simp [hh, h1, leading]

theorem Filled.leadingElems_eq (hf : Filled h n) : leadingElems n = nelems n := by
  have helem : ∀ j ≤ 2, (n.elem j).isSome = decide (j < nelems n) := by
    intro j hj
    rw [Bool.eq_iff_iff, decide_eq_true_iff, Option.isSome_iff_ne_none, Ne, hf.elem j hj, Nat.not_le]
  simp only [leadingElems, helem 0 (by omega), helem 1 (by omega), helem 2 (by omega)]
  rcases hf.range with h1 | h1 | h1
  · simp [h1, leading]
  · simp [h1, leading]
  · simp [h1, leading]

theorem chkfields_spec (hn : Wf (h + 1) p n)
    (horder : chkbounds cmp low ((n.elem 0).toList ++ (n.elem 1).toList ++ (n.elem 2).toList) high =
      true) : Checked cmp h n low high := by
  have hf := hn.filled
  have hrange := hf.range
  refine ⟨hf.leadingElems_eq, hf.nkids_eq, chkfields_eq hf.nkids_eq hf.leadingElems_eq ?_ ?_ ?_
    (by omega) horder ?_⟩
  · intro j hj hle
    have hj' : j ≤ 3 := by
      simp at hj
      omega
    have hnull : (n.kid j).isNull = true := by
      rw [hf.kid j hj']
      split_ifs at hle <;> omega
    exact ⟨hnull, hf.count j hj' hnull⟩
  · intro j hj hle
    refine (hf.elem j ?_).mpr hle
    simp at hj
    omega
  · split_ifs
    · exact Or.inl rfl
    · exact Or.inr rfl
  · intro j hj hlt
    split_ifs at hlt with hh
    · omega
    · exact hf.parent j (by omega) hh

theorem chkdepth_spec (hn : Wf (h + 1) p n) (htd : td = none ∨ td = some (level + h)) :
    chkdepth n level td = if h = 0 then some (some level) else some td := by
  have hkids := hn.filled.nkids_eq
  rcases htd with rfl | rfl
  · rw [chkdepth, hkids]
    split_ifs <;> simp_all
  · rw [chkdepth, hkids]
    split_ifs <;> simp_all

/-! ## The recursion -/

/-- The lower bound for the kid `j`. -/
def lower (n : Node α) (low : Option α) : ℕ → Option α
  | 0 => low
  | j + 1 => n.elem j

theorem chknode_eq (hn : n.isNull = false) :
    chknode cmp n level td low high = (do
      guard (chkfields cmp n low high = true)
      let td ← chkdepth n level td
      let r ← chkkid n 0 (chknode cmp (n.kid 0) (level + 1) · (lower n low 0) (higher n high 0))
        (leadingElems n, td)
      let r ← chkkid n 1 (chknode cmp (n.kid 1) (level + 1) · (lower n low 1) (higher n high 1)) r
      let r ← chkkid n 2 (chknode cmp (n.kid 2) (level + 1) · (lower n low 2) (higher n high 2)) r
      chkkid n 3 (chknode cmp (n.kid 3) (level + 1) · (lower n low 3) (higher n high 3)) r) := by
  cases n with
  | null => cases hn
  | node => rfl

theorem before_lower (hn : Wf (h + 1) p n) (hj : j ≤ nelems n) :
    (lower n low j).toList.Sublist (low.toList ++ before n j) := by
  have hle := (hn.focus hj).le
  cases j with
  | zero => simp [lower, before]
  | succ j =>
    obtain ⟨a, ha⟩ := exists_elem hn hj
    rw [before_succ (by omega) ha, lower, ha, ← List.append_assoc, ← List.append_assoc]
    exact List.sublist_append_right _ _

theorem after_higher (hn : Wf (h + 1) p n) (hj : j ≤ nelems n) :
    (higher n high j).toList.Sublist (after n j ++ high.toList) := by
  have hle := (hn.focus hj).le
  rw [higher, hn.filled.leadingElems_eq]
  split_ifs with h1
  · exact List.sublist_append_right _ _
  · obtain ⟨a, ha⟩ := exists_elem hn (j := j) (by omega)
    have hj2 := (hn.focus (j := j + 1) (by omega)).le
    rw [after_of_some (by omega) ha, ha]
    simp

/-- The elements of a kid are in order, between its bounds. -/
theorem Sorted.kid (hl : Sorted cmp (low.toList ++ (n.toList ++ high.toList))) (hn : Wf (h + 1) p n)
    (hj : j ≤ nelems n) :
    Sorted cmp ((lower n low j).toList ++ ((n.kid j).toList ++ (higher n high j).toList)) := by
  have hle := (hn.focus hj).le
  rw [toList_kid hn.isNull hle] at hl
  have h1 : (lower n low j).toList.Sublist (low.toList ++ before n j) := before_lower hn hj
  have h2 : (higher n high j).toList.Sublist (after n j ++ high.toList) := after_higher hn hj
  have h3 := h1.append ((List.Sublist.refl (n.kid j).toList).append h2)
  refine hl.sublist ?_
  simpa using h3

/-- The elements of the node are in order. -/
theorem Sorted.elems (hl : Sorted cmp (low.toList ++ (n.toList ++ high.toList))) :
    chkbounds cmp low ((n.elem 0).toList ++ (n.elem 1).toList ++ (n.elem 2).toList) high = true := by
  refine chkbounds_spec (hl.sublist (List.Sublist.append_left (List.Sublist.append_right ?_ _) _))
  cases n with
  | null => simp [Node.elem]
  | node i p k0 k1 k2 k3 c0 c1 c2 c3 e0 e1 e2 =>
    simp only [Node.elem, toList_node, List.append_assoc]
    refine List.sublist_append_of_sublist_right (List.Sublist.append_left ?_ _)
    refine List.sublist_append_of_sublist_right (List.Sublist.append_left ?_ _)
    exact List.sublist_append_of_sublist_right (List.sublist_append_left _ _)

/-- **A 2-3-4 tree whose elements are in order passes the check.** -/
theorem chknode_spec (hn : Wf (h + 1) p n) (htd : td = none ∨ td = some (level + h))
    (hl : Sorted cmp (low.toList ++ (n.toList ++ high.toList))) :
    chknode cmp n level td low high = some (n.toList.length, some (level + h)) := by
  induction h generalizing p n level td low high with
  | zero =>
    have hchk := chkfields_spec hn hl.elems
    have hlen : n.toList.length = nelems n := by
      have h1 := (hn.focus (Nat.le_refl _)).le
      have h2 : n.kid (nelems n) = null := (hn.focus (Nat.le_refl _)).kid.of_zero
      have h3 : after n (nelems n) = [] := by
        rcases Nat.lt_or_ge 2 (nelems n) with h4 | h4
        · have h5 : nelems n = 3 := by omega
          rw [h5]
          rfl
        · exact after_of_none hn.shape h4 ((hn.filled.elem _ h4).mpr (Nat.le_refl _))
      rw [toList_kid hn.isNull h1, h2, h3, List.length_append, before_length hn (Nat.le_refl _)]
      rfl
    have hkids : nkids n = 0 := hchk.kids
    have hguard : (guard (true = true) : Option Unit) = some () := rfl
    rw [chknode_eq hn.isNull, hchk.fields, chkdepth_spec hn htd, hchk.elems, hlen, hguard]
    simp [chkkid_none, hkids]
  | succ h ih =>
    have hchk := chkfields_spec hn hl.elems
    have hkids : nkids n = nelems n + 1 := hchk.kids
    have hlevel : level + (h + 1) = level + 1 + h := by omega
    have hstep : ∀ j ≤ 3, ∀ r : ℕ × Option ℕ,
        (j = 0 ∧ r.2 = td ∨ r.2 = some (level + 1 + h)) →
        chkkid n j (chknode cmp (n.kid j) (level + 1) · (lower n low j) (higher n high j)) r =
          some (r.1 + n.count j, some (level + 1 + h)) := by
      intro j hj r hr
      rcases Nat.lt_or_ge (nelems n) j with hlt | hle
      · -- there is no such kid
        have hcount : n.count j = 0 :=
          hn.filled.count j hj ((hn.filled.kid j hj).mpr (Or.inr hlt))
        have hr2 : r.2 = some (level + 1 + h) := by
          rcases hr with ⟨rfl, -⟩ | hr
          · exact absurd hlt (Nat.not_lt_zero _)
          · exact hr
        rw [chkkid_none (by omega), hcount, ← hr2]
        rfl
      · have hfocus := hn.focus hle
        refine chkkid_some (by omega) ?_
        rw [hfocus.count]
        refine ih hfocus.kid ?_ (hl.kid hn hle)
        rcases hr with ⟨-, hr⟩ | hr
        · rw [hr, ← hlevel]
          exact htd
        · exact Or.inr hr
    have hcount := hn.countnode
    have hsum : nelems n + n.count 0 + n.count 1 + n.count 2 + n.count 3 = n.toList.length := by
      rw [← hcount, countnode234, nelems]
      omega
    have hguard : (guard (true = true) : Option Unit) = some () := rfl
    rw [chknode_eq hn.isNull, hchk.fields, chkdepth_spec hn htd, hchk.elems, hlevel, hguard]
    simp [hstep, hsum]

end

end PuttyNd.Tree234
