import PuttyNd.Tree.Proofs.AddProofs
import PuttyNd.Tree.Proofs.RotateProofs

/-!
# Proofs: deleting an element

Every round of the loops of `delpos234_internal` goes one level down. `Going` is what holds before a
round: the list with the element left out is the same in every round, and so is the element that is to be
returned.
-/

namespace PuttyNd.Tree234

open Node

variable {α : Type*} {h i j index idx : ℕ} {p : Option ℕ} {n n' k : Node α} {a b : α}
  {path : List (Node α)} {L R l : List α} {m occ : ℕ → ℕ} {d : Down α} {r ret : Option α}

/-! ## Removing an element of a leaf -/

/-- What becomes of a leaf when an element is removed. -/
structure Removed (n : Node α) (j : ℕ) (n' : Node α) : Prop where
  replaces : Replaces 0 n n'
  toList : n'.toList = n.toList.eraseIdx j
  occ : ∀ x, n'.occ x = n.occ x

theorem removeElem_spec (hn : Wf 1 p n) (hj : j + 1 ≤ nelems n) (he : n.elem 1 ≠ none) :
    Removed n j (removeElem n ((List.range 3).drop j)) := by
  cases hn with
  | two => simp [Node.elem] at he
  | three h0 h1 h2 g0 g1 g2 =>
    obtain rfl := h0.of_zero
    obtain rfl := h1.of_zero
    obtain rfl := h2.of_zero
    subst g2
    have : j = 0 ∨ j = 1 := by
      simp [nelems, Node.elem] at hj
      omega
    rcases this with rfl | rfl
    · exact ⟨⟨.two h0 h1 g0 g1, rfl⟩, rfl, fun _ => rfl⟩
    · exact ⟨⟨.two h0 h1 g0 g1, rfl⟩, rfl, fun _ => rfl⟩
  | four h0 h1 h2 h3 g0 g1 g2 g3 =>
    obtain rfl := h0.of_zero
    obtain rfl := h1.of_zero
    obtain rfl := h2.of_zero
    obtain rfl := h3.of_zero
    subst g3
    have : j = 0 ∨ j = 1 ∨ j = 2 := by
      simp [nelems, Node.elem] at hj
      omega
    rcases this with rfl | rfl | rfl
    · exact ⟨⟨.three h0 h1 h2 g0 g1 g2, rfl⟩, rfl, fun _ => rfl⟩
    · exact ⟨⟨.three h0 h1 h2 g0 g1 g2, rfl⟩, rfl, fun _ => rfl⟩
    · exact ⟨⟨.three h0 h1 h2 g0 g1 g2, rfl⟩, rfl, fun _ => rfl⟩

/-- On the way up, decrementing the counts puts them right, since there is one element less. -/
theorem delCounts_eq (hm : ∀ x, m x ≤ 1) (hpath : Path m (h + 1) n path L R occ)
    (hr : Replaces h n n') (hlen : n'.toList.length + 1 = n.toList.length) :
    delCounts n' path = addCounts n' path := by
  induction path generalizing h n n' L R occ with
  | nil => rw [delCounts, addCounts]
  | cons f path ih =>
    cases hpath with
    | @cons _ j q _ _ _ L R occ0 _ hf hj hst hpath hdf hocc =>
      have hfocus := hf.focus hj
      have hparent : n.parent = f.id := hst.parent.trans hfocus.kid.parent_eq
      have hnum : childnum f n' = j :=
        childnum_eq hf (fun x => by have := hdf x; have := hm x; omega) hj (hr.id.trans hst.id)
      have hkid : Wf (h + 1) f.id n' := hparent ▸ hr.wf
      have hcount : f.count j - 1 = countnode234 n' := by
        rw [hfocus.count, hr.wf.countnode, ← hst.length]
        omega
      have hr' : Replaces (h + 1) f (putKid f j n' n'.toList.length) :=
        ⟨hf.parent_eq ▸ hfocus.wf n' hkid, id_putKid hf.isNull hfocus.le _ _⟩
      have hlen' : (putKid f j n' n'.toList.length).toList.length + 1 = f.toList.length := by
        rw [toList_putKid hf.isNull hfocus.le, toList_kid hf.isNull hfocus.le]
        simp only [List.length_append, ← hst.length]
        omega
      rw [delCounts, addCounts, hnum, hcount]
      rw [hr.wf.countnode]
      show (if _ then delCounts (putKid f j n' _) path else none) = _
      rw [ih hpath hr' hlen']
      rfl

/-! ## The neighbours of an element -/

theorem lastBelow_spec (hn : Wf (h + 1) p n) : ∃ l b, lastBelow n = some b ∧ n.toList = l ++ [b] := by
  induction h generalizing p n with
  | zero =>
    cases hn with
    | two h0 h1 =>
      obtain rfl := h0.of_zero
      obtain rfl := h1.of_zero
      exact ⟨[], _, rfl, rfl⟩
    | three h0 h1 h2 =>
      obtain rfl := h0.of_zero
      obtain rfl := h1.of_zero
      obtain rfl := h2.of_zero
      exact ⟨[_], _, rfl, rfl⟩
    | four h0 h1 h2 h3 =>
      obtain rfl := h0.of_zero
      obtain rfl := h1.of_zero
      obtain rfl := h2.of_zero
      obtain rfl := h3.of_zero
      exact ⟨[_, _], _, rfl, rfl⟩
  | succ h ih =>
    cases hn with
    | @two _ _ _ _ _ k0 k1 a h0 h1 =>
      obtain ⟨l, b, h2, h3⟩ := ih h1
      refine ⟨k0.toList ++ a :: l, b, ?_, by simp [h3]⟩
      rw [lastBelow, h0.isNull, h1.isNull]
      exact h2
    | @three _ _ _ _ _ _ k0 k1 k2 a a' h0 h1 h2 =>
      obtain ⟨l, b, h3, h4⟩ := ih h2
      refine ⟨k0.toList ++ a :: (k1.toList ++ a' :: l), b, ?_, by simp [h4]⟩
      rw [lastBelow, h0.isNull, h2.isNull]
      exact h3
    | @four _ _ _ _ _ _ _ k0 k1 k2 k3 a a' a'' h0 h1 h2 h3 =>
      obtain ⟨l, b, h4, h5⟩ := ih h3
      refine ⟨k0.toList ++ a :: (k1.toList ++ a' :: (k2.toList ++ a'' :: l)), b, ?_, by simp [h5]⟩
      rw [lastBelow, h0.isNull, h3.isNull]
      exact h4

theorem firstBelow_spec (hn : Wf (h + 1) p n) : ∃ b l, firstBelow n = some b ∧ n.toList = b :: l := by
  induction h generalizing p n with
  | zero =>
    obtain ⟨a, ha⟩ := hn.shape.elem0
    have hkid : n.kid 0 = null := (hn.focus (Nat.zero_le _)).kid.of_zero
    refine ⟨a, (after n 0).tail, ?_, ?_⟩
    · cases n with
      | null => cases ha
      | node =>
        rw [firstBelow, ← ha]
        simp only [Node.kid] at hkid
        rw [hkid]
        rfl
    · rw [toList_kid hn.isNull (j := 0) (Nat.zero_le _), hkid, after_of_some (by omega) ha]
      rfl
  | succ h ih =>
    have hfocus := hn.focus (Nat.zero_le _)
    obtain ⟨b, l, h1, h2⟩ := ih hfocus.kid
    refine ⟨b, l ++ after n 0, ?_, ?_⟩
    · cases n with
      | null => cases hn
      | node =>
        have h3 := hfocus.kid.isNull
        simp only [Node.kid] at h1 h3
        rw [firstBelow, h3]
        exact h1
    · rw [toList_kid hn.isNull (j := 0) (Nat.zero_le _), h2]
      rfl

/-! ## The steps down -/

/-- The step down to the kid `j` leads to an element without which the list is the same as without the
element with the index. -/
structure Goes (h : ℕ) (p : Option ℕ) (n : Node α) (index j : ℕ) (d : Down α) : Prop where
  wf : Wf (h + 1) p d.n
  stands : Stands n d.n
  le : j ≤ nelems d.n
  sub : d.n.kid j = d.sub
  two : d.sub.elem 1 ≠ none
  erase : before d.n j ++ (d.sub.toList.eraseIdx d.index ++ after d.n j) = n.toList.eraseIdx index
  lt : d.index < d.sub.toList.length

theorem eraseIdx_middle (l1 : List α) {l2 : List α} (l3 : List α) {i : ℕ} (hi : i < l2.length) :
    (l1 ++ (l2 ++ l3)).eraseIdx (l1.length + i) = l1 ++ (l2.eraseIdx i ++ l3) := by
  rw [List.eraseIdx_append_of_length_le (Nat.le_add_right _ _), Nat.add_sub_cancel_left,
    List.eraseIdx_append_of_lt_length hi]

theorem Lowered.goes (hd : Lowered h p n index j d) : Goes h p n index j d := by
  refine ⟨hd.wf, hd.stands, hd.le, hd.sub, hd.two, ?_, hd.lt⟩
  rw [← hd.toList, toList_kid hd.wf.isNull (hd.wf.focus hd.le).le, hd.sub, hd.index,
    eraseIdx_middle _ _ hd.lt]

theorem Lowered.get (hd : Lowered h p n index j d) : d.sub.toList[d.index]? = n.toList[index]? := by
  have h1 := hd.lt
  rw [← hd.toList, toList_kid hd.wf.isNull (hd.wf.focus hd.le).le, hd.sub, hd.index,
    List.getElem?_append_right (by omega), List.getElem?_append_left (by omega)]
  simp

/-- A step down that moves nothing. -/
theorem lowered_self (hn : Wf (h + 1) p n) (hj : j ≤ nelems n) (he : (n.kid j).elem 1 ≠ none)
    (hi : idx < (n.kid j).toList.length) :
    Lowered h p n ((before n j).length + idx) j ⟨n, n.kid j, idx⟩ :=
  ⟨hn, .rfl, hj, rfl, he, rfl, rfl, hi⟩

theorem setElem_eq (hn : n.isNull = false) (hj : j ≤ 2) (e : Option α) :
    n.setElem j e = putPair n j (n.kid j) (n.count j) e (n.kid (j + 1)) (n.count (j + 1)) := by
  cases n with
  | null => cases hn
  | node =>
    rcases j with _ | _ | _ | j
    · rfl
    · rfl
    · rfl
    · omega

/-- A node with another element in the place of one. -/
theorem setElem_spec (hn : Wf (h + 1) p n) (hj : j + 1 ≤ nelems n) (b : α) :
    Paired h p n j (n.kid j) b (n.kid (j + 1)) (n.setElem j (some b)) := by
  have hfocus := hn.focus (Nat.le_of_succ_le hj)
  have hfocus' := hn.focus hj
  have hle := hfocus'.le
  rw [setElem_eq hn.isNull (by omega)]
  exact putPair_spec hn hj hfocus.kid hfocus'.kid hfocus.count hfocus'.count b

theorem setElem_stands (hn : Wf (h + 1) p n) (hj : j + 1 ≤ nelems n) (b : α) :
    Stands n (n.setElem j (some b)) := by
  have hpair := setElem_spec hn hj b
  obtain ⟨a, ha⟩ := exists_elem hn hj
  refine ⟨hpair.id, hpair.wf.parent_eq.trans hn.parent_eq.symm, ?_, fun x => ?_⟩
  · rw [hpair.toList hj, toList_elem hn hj ha]
    simp
  · have h1 := hpair.occ x
    omega

/-- Case 2a: the element is overwritten by its predecessor, which is then to be deleted. -/
theorem pred_goes (hn : Wf (h + 2) p n) (hj : j + 1 ≤ nelems n) (he : (n.kid j).elem 1 ≠ none) :
    Goes (h + 1) p n ((before n j).length + (n.kid j).toList.length) j
      ⟨n.setElem j (lastBelow (n.kid j)), (n.setElem j (lastBelow (n.kid j))).kid j,
        (n.setElem j (lastBelow (n.kid j))).count j - 1⟩ := by
  have hfocus := hn.focus (Nat.le_of_succ_le hj)
  obtain ⟨a, ha⟩ := exists_elem hn hj
  obtain ⟨l, b, hb, hl⟩ := lastBelow_spec hfocus.kid
  have hpair := setElem_spec hn hj b
  have hle : j ≤ nelems (n.setElem j (some b)) := by
    rw [hpair.nelems]
    omega
  have hcount : (n.setElem j (some b)).count j - 1 = l.length := by
    rw [(hpair.wf.focus hle).count, hpair.left, hl]
    simp
  rw [hb, hcount, hpair.left]
  refine ⟨hpair.wf, setElem_stands hn hj b, hle, hpair.left, he, ?_, by simp [hl]⟩
  have hafter : after (n.setElem j (some b)) j =
      b :: ((n.kid (j + 1)).toList ++ after n (j + 1)) := by
    have h1 := (hpair.wf.focus (by rewrite [hpair.nelems]; exact hj)).le
    rw [after_of_some (by omega) hpair.elem, hpair.right, hpair.after]
  show before (n.setElem j (some b)) j ++
    ((n.kid j).toList.eraseIdx l.length ++ after (n.setElem j (some b)) j) = _
  rw [hpair.before, hafter, toList_elem hn hj ha, hl]
  have hpos : 0 < (a :: ((n.kid (j + 1)).toList ++ after n (j + 1))).length := by simp
  have h2 := eraseIdx_middle (before n j ++ (l ++ [b])) [] hpos
  simp only [List.append_assoc, List.append_nil, List.length_append, Nat.add_zero] at h2
  simp only [List.append_assoc, List.length_append]
  rw [h2]
  have h3 : (l ++ [b]).eraseIdx l.length = l := by
    rw [List.eraseIdx_append_of_length_le (Nat.le_refl _)]
    simp
  rw [h3]
  simp

/-- Case 2b: the element is overwritten by its successor. -/
theorem succ_goes (hn : Wf (h + 2) p n) (hj : j + 1 ≤ nelems n)
    (he : (n.kid (j + 1)).elem 1 ≠ none) :
    Goes (h + 1) p n ((before n j).length + (n.kid j).toList.length) (j + 1)
      ⟨n.setElem j (firstBelow (n.kid (j + 1))),
        (n.setElem j (firstBelow (n.kid (j + 1)))).kid (j + 1), 0⟩ := by
  have hfocus' := hn.focus hj
  have hle := hfocus'.le
  obtain ⟨a, ha⟩ := exists_elem hn hj
  obtain ⟨b, l, hb, hl⟩ := firstBelow_spec hfocus'.kid
  have hpair := setElem_spec hn hj b
  rw [hb, hpair.right]
  refine ⟨hpair.wf, setElem_stands hn hj b, by rw [hpair.nelems]; exact hj, hpair.right, he, ?_,
    by simp [hl]⟩
  show before (n.setElem j (some b)) (j + 1) ++
    ((n.kid (j + 1)).toList.eraseIdx 0 ++ after (n.setElem j (some b)) (j + 1)) = _
  rw [before_succ (by omega) hpair.elem, hpair.before, hpair.left, hpair.after, toList_elem hn hj ha, hl]
  have hpos : 0 < (a :: b :: l).length := by simp
  have h2 := eraseIdx_middle (before n j ++ (n.kid j).toList) (after n (j + 1)) hpos
  simp only [List.append_assoc, List.length_append, Nat.add_zero, List.cons_append] at h2
  simp only [List.append_assoc, List.cons_append]
  rw [h2]
  simp

/-! ## A round -/

/-- What holds before a round: without the element with the index, the whole list is `l`, and `ret` is to
be returned. Below the root, there is an element to spare. -/
structure Going (m : ℕ → ℕ) (h : ℕ) (l : List α) (ret : Option α) (d : Del α) : Prop where
  wf : ∃ p, Wf h p d.n
  lt : d.index < d.n.toList.length
  two : d.path = [] ∨ d.n.elem 1 ≠ none
  way : ∃ L R occ, Path m h d.n d.path L R occ ∧ (∀ x, occ x + d.n.occ x ≤ m x) ∧
    L ++ (d.n.toList.eraseIdx d.index ++ R) = l
  ret : d.retval.or d.n.toList[d.index]? = ret

/-- What a round ends with. -/
inductive Rounded (m : ℕ → ℕ) (h : ℕ) (l : List α) (ret : Option α) : DelStep α → Prop
  | done {h' : ℕ} {root : Node α} : Wf h' none root → root.toList = l → (∀ x, root.occ x ≤ m x) →
    Rounded m h l ret (.done root ret)
  | go {d : Del α} : Going m h l ret d → Rounded m h l ret (.go d)

theorem goSub_rounded {r' : Option α} (hd : Going m (h + 1) l ret ⟨path, n, index, r⟩)
    (hg : Goes h p n index j d) (hret : r'.or d.sub.toList[d.index]? = ret) :
    Rounded m h l ret (goSub path d r') := by
  obtain ⟨L, R, occ, hpath, hocc, hl⟩ := hd.way
  have hocc' : ∀ x, occ x + d.n.occ x ≤ m x := by
    intro x
    have h1 := hocc x
    have h2 := hg.stands.occ x
    show occ x + d.n.occ x ≤ m x
    simp only at h1
    omega
  obtain ⟨occ', hpath', hocc''⟩ := (hpath.stands hg.stands).down hg.wf hg.le hocc'
  rw [hg.sub] at hpath' hocc''
  refine .go ⟨⟨_, hg.sub ▸ (hg.wf.focus hg.le).kid⟩, hg.lt, Or.inr hg.two,
    ⟨_, _, occ', hpath', hocc'', ?_⟩, hret⟩
  rw [← hl]
  show _ = L ++ (n.toList.eraseIdx index ++ R)
  rw [← hg.erase]
  simp

theorem goMerged_rounded {r' : Option α} (hd : Going m (h + 2) l ret ⟨path, n, index, r⟩)
    (hn : Wf (h + 2) p n) (hj : j + 1 ≤ nelems n) (hg : Merged h n index j d)
    (hret : r'.or n.toList[index]? = ret) : Rounded m (h + 1) l ret (goMerged path d r') := by
  unfold goMerged
  by_cases he : n.elem 1 = none
  · -- the merged node is the new root
    obtain ⟨h1, h2, h3, h4⟩ := hg.root hn hj he
    rw [if_pos h1]
    obtain ⟨L, R, occ, hpath, hocc, hl⟩ := hd.way
    obtain rfl : path = [] := hd.two.resolve_right (fun h5 => h5 he)
    cases hpath with
    | nil hp =>
      have hsub := hg.sub.setParent none
      refine .go ⟨⟨_, hsub⟩, by simpa using hg.lt, Or.inl rfl, ⟨[], [], fun _ => 0,
        .nil hsub.parent_eq, fun x => ?_, ?_⟩, ?_⟩
      · have h5 := hocc x
        have h6 := h4 x
        simp only [occ_setParent, Nat.zero_add] at h5 ⊢
        omega
      · rw [← hl]
        simp only [toList_setParent, h2, h3]
      · simp only [toList_setParent, h2, h3]
        exact hret
  · have hlow := hg.lowered hn hj he
    obtain ⟨a, ha⟩ := hlow.wf.shape.elem0
    rw [if_neg (by rw [ha]; exact Option.some_ne_none a)]
    exact goSub_rounded hd hlow.goes (by rw [hlow.get]; exact hret)

/-- The step down to the kid in which the index is. -/
theorem goDown_rounded {ki : ℕ}
    (hd : Going m (h + 2) l ret ⟨path, n, (before n ki).length + idx, r⟩) (hn : Wf (h + 2) p n)
    (hki : ki ≤ nelems n) (hi : idx < (n.kid ki).toList.length) :
    ∃ s, goDown path n ki idx r = some s ∧ Rounded m (h + 1) l ret s := by
  have hnull : ∀ j ≤ nelems n, (n.kid j).isNull = false := fun j hj => (hn.focus hj).kid.isNull
  have hmerge : ∀ j, j + 1 ≤ nelems n → (n.kid j).elem 1 = none → (n.kid (j + 1)).elem 1 = none →
      (ki = j + 1 ∧ idx < (n.kid (j + 1)).toList.length ∨ ki = 0 ∧ j = 0 ∧ idx < (n.kid 0).toList.length) →
      Rounded m (h + 1) l ret (goMerged path (mergeKids n ki idx) r) := by
    intro j hj h1 h2 h3
    exact goMerged_rounded hd hn hj (mergeKids_spec hn hj h1 h2 h3) hd.ret
  have hlower : ∀ d, Lowered (h + 1) p n ((before n ki).length + idx) ki d →
      Rounded m (h + 1) l ret (goSub path d r) := by
    intro d hlow
    exact goSub_rounded hd hlow.goes (by rw [hlow.get]; exact hd.ret)
  unfold goDown
  rw [if_neg (by rw [hnull ki hki]; exact Bool.false_ne_true)]
  by_cases he : (n.kid ki).elem 1 = none
  swap
  · rw [if_pos he]
    exact ⟨_, rfl, hlower _ (lowered_self hn hki he hi)⟩
  rw [if_neg (not_not_intro he)]
  have hle := (hn.focus hki).le
  have hleft : ∀ j, ki = j + 1 → (n.kid j).isNull = false := fun j hj => hnull j (by omega)
  rw [if_neg (by
    rintro ⟨h1, h2⟩
    rw [hleft (ki - 1) (by omega)] at h2
    cases h2)]
  by_cases h1 : ki > 0 ∧ (n.kid (ki - 1)).elem 1 ≠ none
  · obtain ⟨j, rfl⟩ : ∃ j, ki = j + 1 := ⟨ki - 1, by omega⟩
    rw [if_pos h1]
    exact ⟨_, rfl, hlower _ (moveRight_spec hn hki he h1.2 hi)⟩
  rw [if_neg h1]
  by_cases h2 : ki < 3 ∧ ¬ (n.kid (ki + 1)).isNull = true ∧ (n.kid (ki + 1)).elem 1 ≠ none
  · rw [if_pos h2]
    have h3 := le_nelems_of_kid hn (j := ki + 1) (by simpa using h2.2.1)
    exact ⟨_, rfl, hlower _ (moveLeft_spec hn h3 he h2.2.2 hi)⟩
  rw [if_neg h2]
  have hone : 1 ≤ nelems n := by
    obtain ⟨a, ha⟩ := hn.shape.elem0
    exact succ_le_nelems hn.shape (by omega) ha
  rw [if_neg (by
    rintro ⟨-, h3⟩
    rw [hnull 1 hone] at h3
    cases h3)]
  refine ⟨_, rfl, ?_⟩
  cases ki with
  | zero =>
    have h3 : (n.kid (0 + 1)).elem 1 = none := by
      by_contra h4
      exact h2 ⟨by omega, by rw [hnull 1 hone]; exact Bool.false_ne_true, h4⟩
    exact hmerge 0 hone he h3 (Or.inr ⟨rfl, rfl, hi⟩)
  | succ j =>
    have h3 : (n.kid j).elem 1 = none := by
      by_contra h4
      exact h1 ⟨Nat.succ_pos j, h4⟩
    exact hmerge j hki h3 he (Or.inl ⟨rfl, hi⟩)

theorem Path.nil_of_parent (hpath : Path m (h + 1) n path L R occ) (hp : n.parent = none) :
    path = [] ∧ L = [] ∧ R = [] := by
  cases hpath with
  | nil => exact ⟨rfl, rfl, rfl⟩
  | cons hf hj hst _ _ _ =>
    obtain ⟨i, hi⟩ := hf.exists_id
    have h1 := hst.parent.trans (hf.focus hj).kid.parent_eq
    rw [hp, hi] at h1
    cases h1

/-- A leaf with one element. -/
theorem leaf_single (hn : Wf 1 p n) (he : n.elem 1 = none) (hj : j + 1 ≤ nelems n) :
    j = 0 ∧ n.kid 0 = null ∧ ∃ a, n.toList = [a] := by
  cases hn with
  | two h0 h1 =>
    obtain rfl := h0.of_zero
    obtain rfl := h1.of_zero
    obtain rfl : j = 0 := by
      simp [nelems, Node.elem] at hj
      omega
    exact ⟨rfl, rfl, _, rfl⟩
  | three => simp [Node.elem] at he
  | four => simp [Node.elem] at he

/-- An element of a leaf with more than one is removed, and the counts are put right. -/
theorem removeElem_rounded (hm : ∀ x, m x ≤ 1)
    (hd : Going m 1 l ret ⟨path, n, (before n j).length + (n.kid j).toList.length, r⟩)
    (hn : Wf 1 p n) (hj : j + 1 ≤ nelems n) (he : n.elem 1 ≠ none) :
    ∃ s, (delCounts (removeElem n ((List.range 3).drop j)) path).map (.done · ret) = some s ∧
      Rounded m 0 l ret s := by
  obtain ⟨L, R, occ, hpath, hocc, hl⟩ := hd.way
  have hkid : n.kid j = null := (hn.focus (Nat.le_of_succ_le hj)).kid.of_zero
  have hidx : (before n j).length + (n.kid j).toList.length = j := by
    rw [hkid, before_length hn (Nat.le_of_succ_le hj)]
    rfl
  have hlt : j < n.toList.length := by
    have h1 := hd.lt
    simp only [hidx] at h1
    exact h1
  have hrem := removeElem_spec hn hj he
  obtain ⟨h', root, h1, h2, h3, h4⟩ := addCounts_spec hm hpath hrem.replaces
  have hcounts := delCounts_eq hm hpath hrem.replaces (by
    rw [hrem.toList, List.length_eraseIdx_of_lt hlt]
    show n.toList.length - 1 + 1 = n.toList.length
    omega)
  refine ⟨.done root ret, by rw [hcounts, h1]; rfl, .done h2 ?_ fun x => ?_⟩
  · rw [h3, hrem.toList, ← hl]
    simp only [hidx]
  · have h5 := hocc x
    have h6 := hrem.occ x
    rw [h4, h6]
    exact h5

/-- The treatment of the element that is to be deleted. -/
theorem delElem_rounded (hm : ∀ x, m x ≤ 1)
    (hd : Going m (h + 1) l ret ⟨path, n, (before n j).length + (n.kid j).toList.length, r⟩)
    (hn : Wf (h + 1) p n) (hj : j + 1 ≤ nelems n) :
    ∃ s, delElem path n j (r.or (n.elem j)) = some s ∧ Rounded m h l ret s := by
  obtain ⟨a, ha⟩ := exists_elem hn hj
  obtain ⟨L, R, occ, hpath, hocc, hl⟩ := hd.way
  have hget : n.toList[(before n j).length + (n.kid j).toList.length]? = some a := by
    rw [toList_elem hn hj ha, List.getElem?_append_right (by omega),
      List.getElem?_append_right (by omega)]
    simp
  have hret : r.or (n.elem j) = ret := by
    rw [ha, ← hget]
    exact hd.ret
  have hret' : ∀ o, (r.or (n.elem j)).or o = ret := by
    intro o
    rw [← hret, ha]
    simp
  have hnull : ∀ j ≤ nelems n, (n.kid j).isNull = true ↔ h = 0 :=
    fun j hj => (hn.focus hj).kid.null_iff
  unfold delElem
  simp only [hnull 0 (Nat.zero_le _), hnull j (Nat.le_of_succ_le hj), hnull (j + 1) hj]
  by_cases h1 : n.parent = none ∧ n.elem 1 = none ∧ h = 0
  · -- the only element of the tree
    obtain ⟨hp, he, rfl⟩ := h1
    rw [if_pos ⟨hp, he, rfl⟩]
    obtain ⟨rfl, rfl, rfl⟩ := hpath.nil_of_parent hp
    obtain ⟨rfl, h2, b, h3⟩ := leaf_single hn he hj
    rw [hret]
    refine ⟨_, rfl, .done .null ?_ fun x => Nat.zero_le _⟩
    rw [← hl]
    simp [h2, h3, before]
  rw [if_neg h1]
  by_cases h2 : h = 0 ∧ n.elem 1 ≠ none
  · obtain ⟨rfl, he⟩ := h2
    rw [if_pos ⟨rfl, he⟩, hret]
    exact removeElem_rounded hm hd hn hj he
  rw [if_neg h2]
  have hpos : h ≠ 0 := by
    rintro rfl
    have he : n.elem 1 = none := by
      by_contra he
      exact h2 ⟨rfl, he⟩
    obtain rfl : path = [] := hd.two.resolve_right fun h3 => h3 he
    cases hpath with
    | nil hp => exact h1 ⟨hp, he, rfl⟩
  obtain ⟨h, rfl⟩ : ∃ h', h = h' + 1 := ⟨h - 1, by omega⟩
  rw [if_neg hpos, if_neg hpos]
  by_cases h3 : (n.kid j).elem 1 = none
  swap
  · rw [if_pos h3]
    exact ⟨_, rfl, goSub_rounded hd (pred_goes hn hj h3) (hret' _)⟩
  rw [if_neg (not_not_intro h3)]
  by_cases h4 : (n.kid (j + 1)).elem 1 = none
  swap
  · rw [if_pos h4]
    exact ⟨_, rfl, goSub_rounded hd (succ_goes hn hj h4) (hret' _)⟩
  rw [if_neg (not_not_intro h4)]
  exact ⟨_, rfl, goMerged_rounded hd hn hj (mergeAround_spec hn hj h3 h4) (hret' _)⟩

/-- **A round leads one level down, or to the tree without the element.** -/
theorem delStep_spec (hm : ∀ x, m x ≤ 1) {d : Del α} (hd : Going m (h + 1) l ret d) :
    ∃ s, delStep d = some s ∧ Rounded m h l ret s := by
  obtain ⟨path, n, index, r⟩ := d
  obtain ⟨p, hwf⟩ := hd.wf
  have hn : Wf (h + 1) p n := hwf
  have hlt : index < n.toList.length := hd.lt
  have hnull : ¬ n.isNull = true := by
    rw [hn.isNull]
    exact Bool.false_ne_true
  unfold delStep
  rw [if_neg hnull]
  have hloc := locate_spec hn hlt
  dsimp only
  generalize locate n index = place at hloc
  cases hloc with
  | @kid ki idx hki hindex hi =>
    subst hindex
    cases h with
    | zero =>
      have h1 : n.kid ki = null := (hn.focus hki).kid.of_zero
      rw [h1] at hi
      exact absurd hi (Nat.not_lt_zero _)
    | succ h => exact goDown_rounded hd hn hki hi
  | elem hj hindex ha =>
    subst hindex
    exact delElem_rounded hm hd hn hj

/-- **The loops end, with the tree without the element.** -/
theorem delLoop_spec (hm : ∀ x, m x ≤ 1) {d : Del α} (hd : Going m h l ret d) :
    ∃ h' root, delLoop h d = some (root, ret) ∧ Wf h' none root ∧ root.toList = l ∧
      ∀ x, root.occ x ≤ m x := by
  induction h generalizing d with
  | zero =>
    obtain ⟨p, hn⟩ := hd.wf
    have h1 := hd.lt
    rw [hn.of_zero] at h1
    exact absurd h1 (Nat.not_lt_zero _)
  | succ h ih =>
    obtain ⟨s, h1, h2⟩ := delStep_spec hm hd
    cases h2 with
    | @done h' root h3 h4 h5 =>
      exact ⟨h', root, by rw [delLoop, h1], h3, h4, h5⟩
    | @go d' h3 =>
      obtain ⟨h', root, h4, h5⟩ := ih h3
      exact ⟨h', root, by rw [delLoop, h1]; exact h4, h5⟩

/-- **The element with the index is removed and returned.** -/
theorem delpos234Internal_spec {t : Tree α} (ht : Holds t l) (hi : index < l.length) :
    ∃ t', delpos234Internal t index = some (t', l[index]?) ∧ t'.cmp = t.cmp ∧
      Holds t' (l.eraseIdx index) := by
  obtain ⟨h, hn⟩ := ht.wf
  have hm : ∀ y, (if y < t.next then 1 else 0) ≤ 1 := by
    intro y
    split_ifs <;> omega
  have hparent : t.root.parent = none := by
    cases h with
    | zero =>
      rw [hn.of_zero]
      rfl
    | succ h => exact hn.parent_eq
  have hgoing : Going (fun y => if y < t.next then 1 else 0) h (l.eraseIdx index) l[index]?
      ⟨[], t.root, index, none⟩ := by
    refine ⟨⟨_, hn⟩, by rw [ht.toList]; exact hi, Or.inl rfl, ⟨[], [], fun _ => 0, .nil hparent,
      fun y => ?_, ?_⟩, ?_⟩
    · simpa using ht.occ y
    · simp [ht.toList]
    · simp [ht.toList]
  obtain ⟨h', root, h1, h2, h3, h4⟩ := delLoop_spec hm hgoing
  refine ⟨{ t with root := root }, ?_, rfl, ⟨_, h2⟩, h3, h4⟩
  rw [delpos234Internal, hn.depth_eq, h1]
  rfl

end PuttyNd.Tree234
