import PuttyNd.Tree.Proofs.Tree234Proofs

/-!
# Proofs: looking up an element

The element with an index is that of the list; in a sorted list, an element that is looked for is found
with its index, if it is there.
-/

namespace PuttyNd.Tree234

open Node

variable {α : Type*} {h i j index idx : ℕ} {p : Option ℕ} {n : Node α} {a b : α} {l k r l1 l2 : List α}
  {o : Option α}

/-! ## By index -/

/-- Where the element with an index is in a node. -/
inductive Located (n : Node α) (index : ℕ) : Place → Prop
  | kid {ki idx : ℕ} : ki ≤ nelems n → index = (before n ki).length + idx →
    idx < (n.kid ki).toList.length → Located n index (.kid ki idx)
  | elem {ei : ℕ} {a : α} : ei + 1 ≤ nelems n → index = (before n ei).length + (n.kid ei).toList.length →
    n.elem ei = some a → Located n index (.elem ei)

/-- What all nodes have in common: the counts are right, and there is nothing after the last element
and the kid that follows it. -/
structure Shape (n : Node α) : Prop where
  count : ∀ j, n.count j = (n.kid j).toList.length
  elem0 : ∃ a, n.elem 0 = some a
  elem1 : (∃ b, n.elem 1 = some b) ∨ n.elem 1 = none ∧ n.elem 2 = none ∧ (n.kid 2).toList = []
  elem2 : (∃ d, n.elem 2 = some d) ∨ n.elem 2 = none ∧ (n.kid 3).toList = []

theorem Wf.shape (hn : Wf (h + 1) p n) : Shape n := by
  cases hn with
  | two h0 h1 g0 g1 =>
    refine ⟨fun j => ?_, ⟨_, rfl⟩, Or.inr ⟨rfl, rfl, rfl⟩, Or.inr ⟨rfl, rfl⟩⟩
    rcases j with _ | _ | _ | _ | j
    · exact g0
    · exact g1
    · rfl
    · rfl
    · rfl
  | three h0 h1 h2 g0 g1 g2 =>
    refine ⟨fun j => ?_, ⟨_, rfl⟩, Or.inl ⟨_, rfl⟩, Or.inr ⟨rfl, rfl⟩⟩
    rcases j with _ | _ | _ | _ | j
    · exact g0
    · exact g1
    · exact g2
    · rfl
    · rfl
  | four h0 h1 h2 h3 g0 g1 g2 g3 =>
    refine ⟨fun j => ?_, ⟨_, rfl⟩, Or.inl ⟨_, rfl⟩, Or.inl ⟨_, rfl⟩⟩
    rcases j with _ | _ | _ | _ | j
    · exact g0
    · exact g1
    · exact g2
    · exact g3
    · rfl

theorem locate_spec (hn : Wf (h + 1) p n) (hi : index < n.toList.length) :
    Located n index (locate n index) := by
  have hs := hn.shape
  have hlist := congrArg List.length (toList_kid hn.isNull (j := 0) (Nat.zero_le _))
  obtain ⟨a, ha⟩ := hs.elem0
  simp only [before, after, ha, List.length_append, Option.toList_some, List.length_nil,
    List.length_singleton] at hlist
  unfold locate
  simp only [hs.count]
  by_cases h0 : index < (n.kid 0).toList.length
  · rw [if_pos h0]
    exact .kid (Nat.zero_le _) (by simp [before]) h0
  rw [if_neg h0]
  by_cases h0' : index < (n.kid 0).toList.length + 1
  · rw [if_pos h0']
    exact .elem (by simp [nelems, ha]; omega) (by simp [before]; omega) ha
  rw [if_neg h0']
  by_cases h1 : index - ((n.kid 0).toList.length + 1) < (n.kid 1).toList.length
  · rw [if_pos h1]
    exact .kid (by simp [nelems, ha]; omega) (by simp [before, ha]; omega) h1
  rw [if_neg h1]
  rcases hs.elem1 with ⟨b, hb⟩ | ⟨hb, hd, hk⟩
  swap
  · rcases hs.elem2 with ⟨d, hd'⟩ | ⟨-, hk'⟩
    · rw [hd] at hd'
      cases hd'
    · simp [hb, hd, hk, hk'] at hlist
      omega
  by_cases h1' : index - ((n.kid 0).toList.length + 1) < (n.kid 1).toList.length + 1
  · rw [if_pos h1']
    exact .elem (by simp [nelems, ha, hb]) (by simp [before, ha]; omega) hb
  rw [if_neg h1']
  by_cases h2 : index - ((n.kid 0).toList.length + 1) - ((n.kid 1).toList.length + 1) <
      (n.kid 2).toList.length
  · rw [if_pos h2]
    exact .kid (by simp [nelems, ha, hb]) (by simp [before, ha, hb]; omega) h2
  rw [if_neg h2]
  rcases hs.elem2 with ⟨d, hd⟩ | ⟨hd, hk⟩
  swap
  · simp [hb, hd, hk] at hlist
    omega
  simp only [hb, hd, Option.toList_some, List.length_singleton] at hlist
  by_cases h2' : index - ((n.kid 0).toList.length + 1) - ((n.kid 1).toList.length + 1) <
      (n.kid 2).toList.length + 1
  · rw [if_pos h2']
    exact .elem (by simp [nelems, ha, hb, hd]) (by simp [before, ha, hb]; omega) hd
  · rw [if_neg h2']
    exact .kid (by simp [nelems, ha, hb, hd]) (by simp [before, ha, hb, hd]; omega) (by omega)

/-- A node with an element as the elements around it. -/
theorem toList_elem (hn : Wf (h + 1) p n) (hj : j + 1 ≤ nelems n) (ha : n.elem j = some a) :
    n.toList = before n j ++ ((n.kid j).toList ++ a :: ((n.kid (j + 1)).toList ++ after n (j + 1))) := by
  have hle := (hn.focus hj).le
  rw [toList_kid hn.isNull (j := j) (by omega)]
  rcases j with _ | _ | _ | j
  · simp [after, ha]
  · simp [after, ha]
  · simp [after, ha]
  · omega

theorem exists_elem (hn : Wf (h + 1) p n) (hj : j + 1 ≤ nelems n) : ∃ a, n.elem j = some a := by
  have hle := (hn.focus hj).le
  cases hn with
  | two =>
    obtain rfl : j = 0 := by
      simp [nelems, Node.elem] at hj
      omega
    exact ⟨_, rfl⟩
  | three =>
    have : j = 0 ∨ j = 1 := by
      simp [nelems, Node.elem] at hj
      omega
    rcases this with rfl | rfl
    · exact ⟨_, rfl⟩
    · exact ⟨_, rfl⟩
  | four =>
    have : j = 0 ∨ j = 1 ∨ j = 2 := by omega
    rcases this with rfl | rfl | rfl
    · exact ⟨_, rfl⟩
    · exact ⟨_, rfl⟩
    · exact ⟨_, rfl⟩

theorem le_nelems_of_kid (hn : Wf (h + 1) p n) (hk : (n.kid j).isNull = false) : j ≤ nelems n := by
  cases hn with
  | two => rcases j with _ | _ | _ | _ | j <;> simp [Node.kid, nelems, Node.elem] at *
  | three => rcases j with _ | _ | _ | _ | j <;> simp [Node.kid, nelems, Node.elem] at *
  | four => rcases j with _ | _ | _ | _ | j <;> simp [Node.kid, nelems, Node.elem] at *

/-- There is nothing but elements in a leaf. -/
theorem before_length (hn : Wf 1 p n) (hj : j ≤ nelems n) : (before n j).length = j := by
  have hle := (hn.focus hj).le
  have hkid : ∀ j ≤ nelems n, n.kid j = null := fun j hj => (hn.focus hj).kid.of_zero
  cases hn with
  | two h0 h1 =>
    obtain rfl := h0.of_zero
    obtain rfl := h1.of_zero
    have : j = 0 ∨ j = 1 := by
      simp [nelems, Node.elem] at hj
      omega
    rcases this with rfl | rfl
    · rfl
    · rfl
  | three h0 h1 h2 =>
    obtain rfl := h0.of_zero
    obtain rfl := h1.of_zero
    have : j = 0 ∨ j = 1 ∨ j = 2 := by
      simp [nelems, Node.elem] at hj
      omega
    rcases this with rfl | rfl | rfl
    · rfl
    · rfl
    · rfl
  | four h0 h1 h2 h3 =>
    obtain rfl := h0.of_zero
    obtain rfl := h1.of_zero
    obtain rfl := h2.of_zero
    have : j = 0 ∨ j = 1 ∨ j = 2 ∨ j = 3 := by omega
    rcases this with rfl | rfl | rfl | rfl
    · rfl
    · rfl
    · rfl
    · rfl

theorem indexLoop_kid (hn : n.isNull = false) (hj : j ≤ 3) (hl : locate n index = .kid j idx) :
    indexLoop n index = indexLoop (n.kid j) idx := by
  cases n with
  | null => cases hn
  | node =>
    rw [indexLoop, hl]
    rcases j with _ | _ | _ | _ | j
    · rfl
    · rfl
    · rfl
    · rfl
    · omega

theorem indexLoop_elem (hn : n.isNull = false) (hj : j ≤ 2) (hl : locate n index = .elem j) :
    indexLoop n index = n.elem j := by
  cases n with
  | null => cases hn
  | node =>
    rw [indexLoop, hl]
    rcases j with _ | _ | _ | j
    · rfl
    · rfl
    · rfl
    · omega

/-- **The element with an index is that of the list.** -/
theorem indexLoop_spec (hn : Wf h p n) (hi : index < n.toList.length) :
    indexLoop n index = n.toList[index]? := by
  induction h generalizing p n index with
  | zero =>
    rw [hn.of_zero] at hi
    exact absurd hi (Nat.not_lt_zero _)
  | succ h ih =>
    cases hl : locate n index with
    | kid ki idx =>
      have hloc := hl ▸ locate_spec hn hi
      cases hloc with
      | kid hle hidx hlt =>
        have hfocus := hn.focus hle
        rw [indexLoop_kid hn.isNull hfocus.le hl, ih hfocus.kid hlt, toList_kid hn.isNull hfocus.le,
          hidx, List.getElem?_append_right (by omega), List.getElem?_append_left (by omega)]
        simp
    | elem ei =>
      have hloc := hl ▸ locate_spec hn hi
      cases hloc with
      | elem hle hidx ha =>
        have hfocus := hn.focus hle
        have h3 := hfocus.le
        rw [indexLoop_elem hn.isNull (by omega) hl, toList_elem hn hle ha, hidx, ha,
          List.getElem?_append_right (by omega), List.getElem?_append_right (by omega)]
        simp

theorem index234_spec {t : Tree α} (hn : Wf h p t.root) (i : ℕ) : index234 t i = t.root.toList[i]? := by
  unfold index234
  rw [hn.countnode]
  by_cases hi : i < t.root.toList.length
  · rw [if_neg (by omega)]
    exact indexLoop_spec hn hi
  · rw [if_pos (by omega), List.getElem?_eq_none (by omega)]

/-! ## By comparison -/

/-- How a list is split by what is looked for: what comes before it, the element that equals it, and
what comes after it. -/
structure Sought (key : α → Ordering) (l l1 : List α) (o : Option α) (l2 : List α) : Prop where
  append : l = l1 ++ (o.toList ++ l2)
  left : ∀ a ∈ l1, key a = .gt
  eq : ∀ a ∈ o, key a = .eq
  right : ∀ a ∈ l2, key a = .lt

variable {key : α → Ordering}

theorem Sought.key_of_mem (hs : Sought key l l1 o l2) (ha : a ∈ l) :
    a ∈ l1 ∧ key a = .gt ∨ o = some a ∧ key a = .eq ∨ a ∈ l2 ∧ key a = .lt := by
  rw [hs.append, List.mem_append, List.mem_append, Option.mem_toList] at ha
  rcases ha with ha | ha | ha
  · exact Or.inl ⟨ha, hs.left a ha⟩
  · exact Or.inr (Or.inl ⟨ha, hs.eq a ha⟩)
  · exact Or.inr (Or.inr ⟨ha, hs.right a ha⟩)

/-- It is to the left of `a`. -/
theorem Sought.lt (hs : Sought key (k ++ a :: r) l1 o l2) (hc : key a = .lt) :
    ∃ m, l2 = m ++ a :: r ∧ Sought key k l1 o m := by
  have happend := hs.append
  rw [← List.append_assoc] at happend
  rcases List.append_eq_append_iff.mp happend with ⟨u, h1, h2⟩ | ⟨u, h1, h2⟩
  · cases u with
    | nil =>
      refine ⟨[], by simpa using h2.symm, ⟨by simpa using h1.symm, hs.left, hs.eq, by simp⟩⟩
    | cons b u =>
      -- `a` is not after what is looked for
      obtain ⟨rfl, -⟩ := List.cons.inj h2
      have h3 : a ∈ l1 ++ o.toList := by simp [h1]
      rcases List.mem_append.mp h3 with h3 | h3
      · rw [hs.left a h3] at hc
        cases hc
      · rw [hs.eq a (Option.mem_toList.mp h3)] at hc
        cases hc
  · refine ⟨u, h2, ⟨by rw [h1, List.append_assoc], hs.left, hs.eq, fun b hb => hs.right b ?_⟩⟩
    simp [h2, hb]

/-- It is to the right of `a`. -/
theorem Sought.gt (hs : Sought key (k ++ a :: r) l1 o l2) (hc : key a = .gt) :
    ∃ m, l1 = k ++ a :: m ∧ Sought key r m o l2 := by
  rcases List.append_eq_append_iff.mp hs.append with ⟨u, h1, h2⟩ | ⟨u, h1, h2⟩
  · cases u with
    | nil =>
      have h3 : a ∈ o.toList ++ l2 := by
        have h4 : a ∈ a :: r := by simp
        rw [h2] at h4
        exact h4
      rcases List.mem_append.mp h3 with h3 | h3
      · rw [hs.eq a (Option.mem_toList.mp h3)] at hc
        cases hc
      · rw [hs.right a h3] at hc
        cases hc
    | cons b u =>
      obtain ⟨rfl, h3⟩ := List.cons.inj h2
      refine ⟨u, h1, ⟨h3, fun b hb => hs.left b ?_, hs.eq, hs.right⟩⟩
      simp [h1, hb]
  · have h3 : a ∈ o.toList ++ l2 := by simp [h2]
    rcases List.mem_append.mp h3 with h3 | h3
    · rw [hs.eq a (Option.mem_toList.mp h3)] at hc
      cases hc
    · rw [hs.right a h3] at hc
      cases hc

/-- It is `a`. -/
theorem Sought.found (hs : Sought key (k ++ a :: r) l1 o l2) (hc : key a = .eq) :
    o = some a ∧ l1.length = k.length := by
  have ho : o = some a := by
    rcases hs.key_of_mem (a := a) (by simp) with ⟨-, h1⟩ | ⟨h1, -⟩ | ⟨-, h1⟩
    · rw [hc] at h1
      cases h1
    · exact h1
    · rw [hc] at h1
      cases h1
  refine ⟨ho, ?_⟩
  have happend := hs.append
  rcases Nat.lt_trichotomy l1.length k.length with h1 | h1 | h1
  · -- `a` would be in `l2`
    have h2 : a ∈ l2 := by
      have h3 := congrArg (List.drop (l1.length + 1)) happend
      rw [ho, List.drop_append_of_le_length (by omega)] at h3
      have h4 : (l1 ++ ((some a).toList ++ l2)).drop (l1.length + 1) = l2 := by
        simp [List.drop_append]
      rw [h4] at h3
      simp [← h3]
    rw [hs.right a h2] at hc
    cases hc
  · exact h1
  · have h2 : a ∈ l1 := by
      have h3 := congrArg (List.take l1.length) happend
      rw [List.take_left, List.take_append] at h3
      rw [← h3]
      obtain ⟨d, hd⟩ : ∃ d, l1.length - k.length = d + 1 := ⟨l1.length - k.length - 1, by omega⟩
      simp [hd]
    rw [hs.left a h2] at hc
    cases hc

/-- What a node says about the place of what is looked for. -/
inductive Scanned (key : α → Ordering) (n : Node α) (o : Option α) (l1 l2 : List α) (idx : ℕ) :
    Scan → Prop
  | child {j : ℕ} {m1 m2 : List α} : j ≤ nelems n → Sought key (n.kid j).toList m1 o m2 →
    l1 = before n j ++ m1 → l2 = m2 ++ after n j →
    Scanned key n o l1 l2 idx (.child j (idx + (before n j).length))
  | found {j : ℕ} {a : α} : j + 1 ≤ nelems n → n.elem j = some a → o = some a →
    Scanned key n o l1 l2 idx (.found j (idx + l1.length))

theorem after_of_none (hs : Shape n) (hj : j ≤ 2) (he : n.elem j = none) : after n j = [] := by
  obtain ⟨a, ha⟩ := hs.elem0
  rcases j with _ | _ | _ | j
  · rw [ha] at he
    cases he
  · rcases hs.elem1 with ⟨b, hb⟩ | ⟨hb, hd, hk⟩
    · rw [hb] at he
      cases he
    · rcases hs.elem2 with ⟨d, hd'⟩ | ⟨-, hk'⟩
      · rw [hd] at hd'
        cases hd'
      · simp [after, hb, hd, hk, hk']
  · rcases hs.elem2 with ⟨d, hd⟩ | ⟨hd, hk⟩
    · rw [hd] at he
      cases he
    · simp [after, hd, hk]
  · omega

theorem after_of_some (hj : j ≤ 2) (ha : n.elem j = some a) :
    after n j = a :: ((n.kid (j + 1)).toList ++ after n (j + 1)) := by
  rcases j with _ | _ | _ | j
  · simp [after, ha]
  · simp [after, ha]
  · simp [after, ha]
  · omega

theorem before_succ (hj : j ≤ 2) (ha : n.elem j = some a) :
    before n (j + 1) = before n j ++ ((n.kid j).toList ++ [a]) := by
  rcases j with _ | _ | _ | j
  · simp [before, ha]
  · simp [before, ha]
  · simp [before, ha]
  · omega

theorem succ_le_nelems (hs : Shape n) (hj : j ≤ 2) (ha : n.elem j = some a) : j + 1 ≤ nelems n := by
  obtain ⟨a0, ha0⟩ := hs.elem0
  rcases j with _ | _ | _ | j
  · simp [nelems, ha0]
    omega
  · simp [nelems, ha0, ha]
  · rcases hs.elem1 with ⟨b, hb⟩ | ⟨-, hd, -⟩
    · simp [nelems, ha0, ha, hb]
    · rw [ha] at hd
      cases hd
  · omega

/-- One comparison. If it does not decide, the element is to the right of the element `j`. -/
theorem findScan_step (hn : Shape n) (hj : j ≤ 2) (hle : j ≤ nelems n) {m1 : List α} {js : List ℕ}
    (hs : Sought key ((n.kid j).toList ++ after n j) m1 o l2) (hl : l1 = before n j ++ m1)
    (hnext : ∀ m, j + 1 ≤ nelems n →
      Sought key ((n.kid (j + 1)).toList ++ after n (j + 1)) m o l2 → l1 = before n (j + 1) ++ m →
      Scanned key n o l1 l2 idx (findScan key n js (idx + (before n (j + 1)).length))) :
    Scanned key n o l1 l2 idx (findScan key n (j :: js) (idx + (before n j).length)) := by
  rw [findScan]
  cases ha : n.elem j with
  | none =>
    have hafter := after_of_none hn hj ha
    rw [hafter, List.append_nil] at hs
    exact .child hle hs hl (by rw [hafter, List.append_nil])
  | some a =>
    have hsucc := succ_le_nelems hn hj ha
    have hidx : (if (n.kid j).isNull = true then idx + (before n j).length
        else idx + (before n j).length + n.count j) =
        idx + (before n j).length + (n.kid j).toList.length := by
      rw [hn.count]
      cases hk : n.kid j with
      | null => simp
      | node => rfl
    simp only [hidx]
    rw [after_of_some hj ha] at hs
    cases hc : key a with
    | lt =>
      obtain ⟨m, h1, h2⟩ := hs.lt hc
      exact .child hle h2 hl (by rw [h1, after_of_some hj ha])
    | eq =>
      obtain ⟨h1, h2⟩ := hs.found hc
      have h3 : idx + (before n j).length + (n.kid j).toList.length = idx + l1.length := by
        rw [hl, List.length_append, h2]
        omega
      show Scanned key n o l1 l2 idx (.found j _)
      rw [h3]
      exact .found hsucc ha h1
    | gt =>
      obtain ⟨m, h1, h2⟩ := hs.gt hc
      have h3 : idx + (before n j).length + (n.kid j).toList.length + 1 =
          idx + (before n (j + 1)).length := by
        rw [before_succ hj ha]
        simp
        omega
      show Scanned key n o l1 l2 idx (findScan key n js _)
      rw [h3]
      exact hnext m hsucc h2 (by rw [hl, h1, before_succ hj ha]; simp)

theorem findScan_spec (hn : Wf (h + 1) p n) (hs : Sought key n.toList l1 o l2) :
    Scanned key n o l1 l2 idx (findScan key n [0, 1, 2] idx) := by
  have hshape := hn.shape
  rw [toList_kid hn.isNull (j := 0) (Nat.zero_le _)] at hs
  refine findScan_step hshape (Nat.zero_le _) (Nat.zero_le _) hs rfl ?_
  intro m0 hle0 hs0 hl0
  refine findScan_step hshape (by omega) hle0 hs0 hl0 ?_
  intro m1 hle1 hs1 hl1
  refine findScan_step hshape (by omega) hle1 hs1 hl1 ?_
  intro m2 hle2 hs2 hl2
  have hnil : after n 3 = [] := rfl
  rw [hnil, List.append_nil] at hs2
  exact .child hle2 hs2 hl2 (by rw [hnil, List.append_nil])

theorem findLoop_child (hn : n.isNull = false) (hj : j ≤ 3) {idx' : ℕ}
    (hscan : findScan key n [0, 1, 2] idx = .child j idx') :
    findLoop key n idx = findLoop key (n.kid j) idx' := by
  cases n with
  | null => cases hn
  | node =>
    rw [findLoop, hscan]
    rcases j with _ | _ | _ | _ | j
    · rfl
    · rfl
    · rfl
    · rfl
    · omega

/-- **What is looked for is found with its index, if it is there.** -/
theorem findLoop_spec (hn : Wf h p n) (hs : Sought key n.toList l1 o l2) :
    findLoop key n idx = (o, idx + l1.length) := by
  induction h generalizing p n l1 l2 idx with
  | zero =>
    obtain rfl := hn.of_zero
    have h1 := hs.append
    simp at h1
    simp [findLoop, h1.1, h1.2.1]
  | succ h ih =>
    generalize hscan : findScan key n [0, 1, 2] idx = scan
    have hspec : Scanned key n o l1 l2 idx scan := by
      rw [← hscan]
      exact findScan_spec hn hs
    cases hspec with
    | child hle hs' h1 h2 =>
      have hfocus := hn.focus hle
      rw [findLoop_child hn.isNull hfocus.le hscan, ih hfocus.kid hs', h1, List.length_append]
      simp
      omega
    | found hle ha ho =>
      cases hn <;> (rw [findLoop, hscan]; simp [ha, ho])

end PuttyNd.Tree234
