import PuttyNd.Lib.Search
import PuttyNd.Tree.Proofs.FindProofs
import PuttyNd.Tree.Proofs.RefinementProofs
import PuttyNd.Tree.Search234

/-!
# Proofs: the search by steps

The elements that are left are a range of the list. A step to the right leaves those after the element that
was shown, a step to the left those before it.
-/

namespace PuttyNd.Tree234

open Node

variable {α : Type} {t : Tree α} {l pre post : List α} {a b h i j lo hi last : ℕ} {p : Option ℕ} {n : Node α}
  {s : Search234State α}

/-! ## Counts -/

theorem elements234_eq (hn : Wf (h + 1) p n) : elements234 n = nelems n := by
  cases hn <;> rfl

theorem nelems_pos (hn : Wf (h + 1) p n) : 0 < nelems n := by
  cases hn <;> exact Nat.succ_pos _

theorem length_before_succ (hn : Wf (h + 1) p n) (hj : j + 1 ≤ nelems n) :
    (before n (j + 1)).length = (before n j).length + (n.kid j).toList.length + 1 := by
  obtain ⟨x, hx⟩ := exists_elem hn hj
  have hle := (hn.focus hj).le
  rw [before_succ (by omega) hx, List.length_append, List.length_append, List.length_singleton]
  omega

theorem after_nelems (hn : Wf (h + 1) p n) : after n (nelems n) = [] := by
  cases hn <;> rfl

theorem length_before_mono (hn : Wf (h + 1) p n) (hij : i ≤ j) (hj : j ≤ nelems n) :
    (before n i).length ≤ (before n j).length := by
  induction j with
  | zero =>
    obtain rfl : i = 0 := by omega
    exact Nat.le_refl _
  | succ j ih =>
    rcases Nat.lt_or_eq_of_le hij with hlt | rfl
    · have hle := ih (Nat.le_of_lt_succ hlt) (by omega)
      rw [length_before_succ hn hj]
      omega
    · exact Nat.le_refl _

theorem countsBefore_eq (hn : Wf (h + 1) p n) (hj : j ≤ nelems n) : countsBefore n j = (before n j).length := by
  induction j with
  | zero => rfl
  | succ j ih =>
    rw [countsBefore, ih (by omega), length_before_succ hn hj, (hn.focus (by omega)).count]
    omega

theorem sumCounts_eq (n : Node α) (j : ℕ) : j + sumCounts n j = countsBefore n j := by
  induction j with
  | zero => rfl
  | succ j ih =>
    rw [sumCounts, countsBefore]
    omega

/-- The place of an element in the list of its node -/
theorem sumCounts_elem (hn : Wf (h + 1) p n) (hj : j + 1 ≤ nelems n) :
    j + sumCounts n (j + 1) = (before n j).length + (n.kid j).toList.length := by
  have hsum := sumCounts_eq n (j + 1)
  rw [countsBefore_eq hn hj, length_before_succ hn hj] at hsum
  omega

/-! ## The range that is left -/

/-- The search is at an element of a node, where the elements from `lo` to `hi` are left. -/
structure AtNode (l : List α) (a b : ℕ) (s : Search234State α) (pre post : List α) (lo hi last : ℕ) : Prop where
  wf : ∃ h p, Wf (h + 1) p s.node
  list : l = pre ++ (s.node.toList ++ post)
  base : s.base = pre.length
  lo_eq : s.lo = lo
  hi_eq : s.hi = hi
  last_eq : s.last = last
  le_last : lo ≤ last
  last_le : last ≤ hi
  hi_lt : hi + 1 ≤ nelems s.node
  left : a = pre.length + (before s.node lo).length
  right : b = pre.length + (before s.node (hi + 1)).length + (s.node.kid (hi + 1)).toList.length
  element : s.element = s.node.elem last
  index : s.index = pre.length + (before s.node last).length + (s.node.kid last).toList.length

/-- The elements from `a` to `b` are left, and one of them is shown if there is any. -/
inductive Shows (l : List α) (a b : ℕ) (s : Search234State α) : Prop where
  | node {pre post : List α} {lo hi last : ℕ} : AtNode l a b s pre post lo hi last → Shows l a b s
  | done : a = b → s.element = none → s.index = a → Shows l a b s

/-- Another element of the node is shown. -/
theorem shows_point (hn : Wf (h + 1) p s.node) (hlist : l = pre ++ (s.node.toList ++ post))
    (hbase : s.base = pre.length) (hlo : s.lo = lo) (hhi : s.hi = hi) (hle : lo ≤ hi) (hlt : hi + 1 ≤ nelems s.node)
    (ha : a = pre.length + (before s.node lo).length)
    (hb : b = pre.length + (before s.node (hi + 1)).length + (s.node.kid (hi + 1)).toList.length) :
    Shows l a b s.point := by
  have hlast : (s.lo + s.hi) / 2 = ((lo + hi) / 2 : ℕ) := by
    rw [hlo, hhi]
    omega
  have hle1 : lo ≤ (lo + hi) / 2 := by omega
  have hle2 : (lo + hi) / 2 ≤ hi := by omega
  generalize (lo + hi) / 2 = last at hlast hle1 hle2
  have hpoint : s.point = { s with
      last := last
      element := s.node.elem last
      index := s.base + last + sumCounts s.node (last + 1) } := by
    unfold Search234State.point
    rw [hn.isNull, if_neg Bool.false_ne_true, hlast]
    rfl
  have hsum := sumCounts_elem hn (j := last) (by omega)
  rw [hpoint]
  refine .node ⟨⟨h, p, hn⟩, hlist, hbase, hlo, hhi, rfl, hle1, hle2, hlt, ha, hb, rfl, ?_⟩
  show s.base + last + sumCounts s.node (last + 1) = _
  rw [hbase]
  push_cast at hsum ⊢
  omega

/-- All of a node that was entered is left. -/
theorem shows_enter (hn : Wf h p s.node) (hlist : l = pre ++ (s.node.toList ++ post)) (hbase : s.base = pre.length)
    (hlast : s.last = -1) : Shows l pre.length (pre.length + s.node.toList.length) s.enter.point := by
  unfold Search234State.enter
  rw [if_pos hlast]
  cases h with
  | zero =>
    have hnull : s.node.isNull = true := hn.null_iff.mpr rfl
    have hempty : s.node.toList = [] := by rw [hn.of_zero, toList_null]
    have hpoint : (Search234State.point { s with
        lo := 0, hi := if s.node.isNull = true then 0 else (elements234 s.node : ℤ) - 1 }) =
        { s with lo := 0, hi := 0, element := none, index := s.base } := by
      unfold Search234State.point
      rw [if_pos hnull, if_pos hnull]
    rw [hpoint, hempty]
    exact .done rfl rfl hbase
  | succ h =>
    have hpos := nelems_pos hn
    have hlen := congrArg List.length (toList_kid hn.isNull (hn.focus (Nat.le_refl _)).le)
    rw [after_nelems hn, List.length_append, List.length_append, List.length_nil] at hlen
    rw [hn.isNull, if_neg Bool.false_ne_true, elements234_eq hn]
    have hhi : (nelems s.node : ℤ) - 1 = (nelems s.node - 1 : ℕ) := by omega
    refine shows_point hn hlist hbase rfl hhi (Nat.zero_le _) (by show _ ≤ nelems s.node; omega) ?_ ?_
    · rfl
    · show _ = _ + (before s.node (nelems s.node - 1 + 1)).length +
        (s.node.kid (nelems s.node - 1 + 1)).toList.length
      rw [Nat.sub_add_cancel hpos]
      omega

/-! ## Steps -/

namespace AtNode

/-- The element that is shown is that at the index. -/
theorem shown (hs : AtNode l a b s pre post lo hi last) :
    ∃ i : ℕ, s.index = i ∧ a ≤ i ∧ i < b ∧ ∃ x, s.element = some x ∧ l[i]? = some x := by
  obtain ⟨⟨h, p, hn⟩, hlist, hbase, -, -, -, hle, hlast, hlt, ha, hb, helement, hindex⟩ := hs
  obtain ⟨x, hx⟩ := exists_elem hn (j := last) (by omega)
  have hleft := length_before_mono hn hle (by omega)
  have hright := length_before_mono hn (i := last + 1) (j := hi + 1) (by omega) hlt
  rw [length_before_succ hn (by omega)] at hright
  refine ⟨pre.length + ((before s.node last).length + (s.node.kid last).toList.length), ?_, ?_, ?_, x, ?_, ?_⟩
  · rw [hindex]
    push_cast
    omega
  · omega
  · omega
  · rw [helement, hx]
  · rw [hlist, toList_elem hn (by omega) hx]
    rw [List.getElem?_append_right (Nat.le_add_right _ _), Nat.add_sub_cancel_left, List.append_assoc,
      List.getElem?_append_right (Nat.le_add_right _ _), Nat.add_sub_cancel_left, List.append_assoc,
      List.getElem?_append_right (Nat.le_refl _), Nat.sub_self]
    rfl

/-- The only kid that is left is entered. -/
theorem descended (hs : AtNode l a b s pre post lo hi last) {s' : Search234State α} (hnode : s'.node = s.node)
    (hbase : s'.base = s.base) (hlo : s'.lo = j) (hj : j ≤ nelems s.node) :
    Shows l (pre.length + (before s.node j).length)
      (pre.length + (before s.node j).length + (s.node.kid j).toList.length) s'.descend.enter.point := by
  obtain ⟨⟨h, p, hn⟩, hlist, hpre, -⟩ := hs
  have hcounts := countsBefore_eq hn hj
  have hkid : s'.descend.node = s.node.kid j := by
    show s'.node.kid s'.lo.toNat = _
    rw [hnode, hlo]
    rfl
  have hwf : Wf h s.node.id s'.descend.node := by
    rw [hkid]
    exact (hn.focus hj).kid
  have hsplit : l = (pre ++ before s.node j) ++ (s'.descend.node.toList ++ (after s.node j ++ post)) := by
    rw [hkid, hlist, toList_kid hn.isNull (hn.focus hj).le]
    simp only [List.append_assoc]
  have hbase' : s'.descend.base = (pre ++ before s.node j).length := by
    show s'.base + countsBefore s'.node s'.lo.toNat = _
    rw [hnode, hbase, hlo, hpre, Int.toNat_natCast, hcounts, List.length_append]
    push_cast
    rfl
  have hshows := shows_enter hwf hsplit hbase' rfl
  rw [List.length_append, hkid] at hshows
  exact hshows

/-- A node that was entered before is not entered again. -/
theorem enter_eq {s' : Search234State α} (hlast : s'.last = last) : s'.enter = s' := by
  unfold Search234State.enter
  rw [if_neg (by omega)]

/-- Those after the element are left. -/
theorem step_right (hs : AtNode l a b s pre post lo hi last) (hshown : s.index = i) :
    ∃ s', search234Step s 1 = some s' ∧ Shows l (i + 1) b s' := by
  obtain ⟨⟨h, p, hn⟩, hlist, hbase, hlo, hhi, hlast, hle, hlast', hlt, ha, hb, helement, hindex⟩ := id hs
  have hstep : search234Step s 1 = some (if s.last + 1 > s.hi then
      Search234State.descend { s with lo := s.last + 1 } else { s with lo := s.last + 1 }).enter.point := by
    unfold search234Step
    rw [hn.isNull, if_neg Bool.false_ne_true, if_pos (by omega), if_neg (by omega), if_pos (by omega)]
  have hsucc := length_before_succ hn (j := last) (by omega)
  have hleft : i + 1 = pre.length + (before s.node (last + 1)).length := by omega
  have hnext : ((last + 1 : ℕ) : ℤ) = s.last + 1 := by omega
  refine ⟨_, hstep, ?_⟩
  by_cases hend : s.last + 1 > s.hi
  · obtain rfl : last = hi := by omega
    rw [if_pos hend, hleft, hb]
    exact hs.descended rfl rfl hnext.symm hlt
  · rw [if_neg hend]
    have henter : (Search234State.enter { s with lo := s.last + 1 }) = { s with lo := s.last + 1 } := enter_eq hlast
    rw [henter]
    exact shows_point hn hlist hbase hnext.symm hhi (by omega) hlt hleft hb

/-- Those before the element are left. -/
theorem step_left (hs : AtNode l a b s pre post lo hi last) (hshown : s.index = i) :
    ∃ s', search234Step s (-1) = some s' ∧ Shows l a i s' := by
  obtain ⟨⟨h, p, hn⟩, hlist, hbase, hlo, hhi, hlast, hle, hlast', hlt, ha, hb, helement, hindex⟩ := id hs
  have hstep : search234Step s (-1) = some (if s.lo > s.last - 1 then
      Search234State.descend { s with hi := s.last - 1 } else { s with hi := s.last - 1 }).enter.point := by
    unfold search234Step
    rw [hn.isNull, if_neg Bool.false_ne_true, if_pos (by omega), if_neg (by omega), if_neg (by omega)]
  have hright : i = pre.length + (before s.node last).length + (s.node.kid last).toList.length := by omega
  refine ⟨_, hstep, ?_⟩
  by_cases hend : s.lo > s.last - 1
  · obtain rfl : lo = last := by omega
    rw [if_pos hend, hright, ha]
    exact hs.descended rfl rfl hlo (by omega)
  · rw [if_neg hend]
    have henter : (Search234State.enter { s with hi := s.last - 1 }) = { s with hi := s.last - 1 } := enter_eq hlast
    have hprev : s.last - 1 = ((last - 1 : ℕ) : ℤ) := by omega
    have hsucc : last - 1 + 1 = last := by omega
    rw [henter]
    exact shows_point hn hlist hbase hlo hprev (by omega) (by show _ ≤ nelems s.node; omega) ha (by rw [hsucc]; exact hright)

end AtNode

theorem search234Start_spec (hn : Wf h p t.root) (s : Search234State α) :
    ∃ s', search234Start s t = some s' ∧ Shows t.root.toList 0 t.root.toList.length s' := by
  unfold search234Start search234Step
  by_cases hnull : t.root.isNull = true
  · have hempty : t.root.toList = [] := by
      obtain rfl := hn.null_iff.mp hnull
      rw [hn.of_zero, toList_null]
    exact ⟨_, if_pos hnull, by rw [hempty]; exact .done rfl rfl rfl⟩
  · refine ⟨_, by rw [if_neg hnull, if_neg (by simp)], ?_⟩
    have hshows := @shows_enter α t.root.toList [] [] h p { s with node := t.root, base := 0, last := -1 } hn
      (by simp) rfl rfl
    rw [List.length_nil, Nat.zero_add] at hshows
    exact hshows

/-! ## Allocating an id -/

open Lib.FirstFit

variable {localid : α → UInt32}

theorem toNat_offset {n : ℕ} (hn : n < 2 ^ 31) : (UInt32.ofInt n + CHANNEL_NUMBER_OFFSET).toNat = 256 + n := by
  have hofInt : UInt32.ofInt (n : ℤ) = UInt32.ofNat n := by
    unfold UInt32.ofInt
    rw [Int.emod_eq_of_lt (by omega) (by omega), Int.toNat_natCast]
  have htoNat : (UInt32.ofNat n).toNat = n := UInt32.toNat_ofNat_of_lt' (by simp only [UInt32.size]; omega)
  have hoffset : CHANNEL_NUMBER_OFFSET.toNat = 256 := rfl
  rw [hofInt, UInt32.toNat_add, htoNat, hoffset, Nat.mod_eq_of_lt (by omega), Nat.add_comm]

theorem allocLoop_spec (hnum : Numbered (fun c => (localid c).toNat) 256 l) (hlen : l.length < 2 ^ 31) {rounds : ℕ}
    (hs : Shows l a b s) (hbetween : Between (fun c => (localid c).toNat) 256 l a b) (hrounds : b - a < rounds) :
    ∃ s', ∃ n : ℕ, allocLoop localid rounds s = some s' ∧ s'.index = n ∧ Between (fun c => (localid c).toNat) 256 l n n := by
  induction rounds generalizing a b s with
  | zero => exact absurd hrounds (Nat.not_lt_zero _)
  | succ rounds ih =>
    rw [allocLoop]
    cases hs with
    | done hab hnone hindex =>
      subst hab
      rw [hnone]
      exact ⟨s, a, rfl, hindex, hbetween⟩
    | node hs =>
      obtain ⟨i, hindex, hai, hib, x, hx, hget⟩ := hs.shown
      have hilen : i < l.length := by
        have := hbetween.length
        omega
      rw [List.getElem?_eq_getElem hilen] at hget
      have hid : localid x = UInt32.ofInt s.index + CHANNEL_NUMBER_OFFSET ↔ (localid l[i]).toNat = 256 + i := by
        rw [hindex, ← UInt32.toNat_inj, toNat_offset (by omega), Option.some.inj hget]
      rw [hx]
      by_cases heq : (localid l[i]).toNat = 256 + i
      · obtain ⟨s', hstep, hs'⟩ := hs.step_right hindex
        simp only [if_pos (hid.mpr heq), hstep, Option.bind_eq_bind, Option.bind_some]
        exact ih hs' (hbetween.raise hnum hib hilen heq) (by omega)
      · obtain ⟨s', hstep, hs'⟩ := hs.step_left hindex
        simp only [if_neg (hid.not.mpr heq), hstep, Option.bind_eq_bind, Option.bind_some]
        exact ih hs' (hbetween.lower hai hib hilen heq) (by omega)

/-- The id is the least one that is not in use. -/
theorem allocChannelIdGeneral_spec (hn : Wf h p t.root)
    (hnum : Numbered (fun c => (localid c).toNat) 256 t.root.toList) (hlen : t.root.toList.length < 2 ^ 31)
    (ss : Search234State α) : ∃ id, allocChannelIdGeneral ss t localid = some id ∧
      IsLeast {id | 256 ≤ id ∧ ∀ c ∈ t.root.toList, (localid c).toNat ≠ id} id.toNat := by
  obtain ⟨s, hstart, hs⟩ := search234Start_spec hn ss
  have hcount : count234 t = t.root.toList.length := hn.countnode
  obtain ⟨s', n, hloop, hindex, hbetween⟩ := @allocLoop_spec α _ _ _ _ localid hnum hlen (count234 t + 1) hs (.start _ _ _) (by omega)
  have hle := hbetween.length
  have hid : (UInt32.ofInt s'.index + CHANNEL_NUMBER_OFFSET).toNat = 256 + n := by
    rw [hindex, toNat_offset (by omega)]
  refine ⟨_, by rw [allocChannelIdGeneral, hstart, Option.bind_eq_bind, Option.bind_some, hloop]; rfl, ?_⟩
  rw [hid]
  exact hbetween.isLeast hnum

end PuttyNd.Tree234

/-!
## Proofs: searching a tree by bisection

The bisection finds what the comparison with one element after the other finds.
-/

namespace PuttyNd.Psftp

open Tree234 Tree234.Node

variable {α : Type*} {h j base : ℕ} {p : Option ℕ} {n : Node α} {l l1 l2 : List α} {o : Option α}
  {key : α → Ordering} {a : α}

theorem elements234_eq (hn : Wf (h + 1) p n) : elements234 n = nelems n := by
  cases hn <;> simp [elements234, nelems, Node.elem]

theorem baseOf_eq (hn : Wf (h + 1) p n) (hj : j ≤ nelems n) :
    baseOf n base j = base + (before n j).length := by
  induction j with
  | zero => rfl
  | succ j ih =>
    obtain ⟨a, ha⟩ := exists_elem hn hj
    rw [baseOf, ih (by omega), before_length_succ hn hj ha, hn.shape.count]
    omega

theorem after_nelems (hn : Wf (h + 1) p n) : after n (nelems n) = [] := by
  have hle := (hn.focus (Nat.le_refl _)).le
  rcases Nat.lt_or_ge 2 (nelems n) with h1 | h1
  · have h2 : nelems n = 3 := by omega
    rw [h2]
    rfl
  · exact after_of_none hn.shape h1 ((hn.filled.elem _ h1).mpr (Nat.le_refl _))

/-- The comparisons on both sides of a kid lead to it. -/
theorem sought_kid (hn : Wf (h + 1) p n) (hs : Sought key n.toList l1 o l2) (hj : j ≤ nelems n)
    (hleft : ∀ i, j = i + 1 → ∃ a, n.elem i = some a ∧ key a = .gt)
    (hright : j < nelems n → ∃ a, n.elem j = some a ∧ key a = .lt) :
    ∃ m1 m2, Sought key (n.kid j).toList m1 o m2 ∧ l1 = before n j ++ m1 ∧ l2 = m2 ++ after n j := by
  have hle := (hn.focus hj).le
  have hgt : ∃ m1, Sought key ((n.kid j).toList ++ after n j) m1 o l2 ∧ l1 = before n j ++ m1 := by
    cases j with
    | zero =>
      rw [toList_kid hn.isNull (j := 0) (Nat.zero_le _)] at hs
      exact ⟨l1, hs, rfl⟩
    | succ i =>
      obtain ⟨a, ha, hc⟩ := hleft i rfl
      rw [toList_elem hn hj ha, ← List.append_assoc] at hs
      obtain ⟨m, h1, h2⟩ := hs.gt hc
      refine ⟨m, h2, ?_⟩
      rw [h1, before_succ (by omega) ha]
      simp
  obtain ⟨m1, hs', h1⟩ := hgt
  rcases Nat.lt_or_ge j (nelems n) with h2 | h2
  · obtain ⟨a, ha, hc⟩ := hright h2
    have hle' := (hn.focus (j := j + 1) h2).le
    rw [after_of_some (by omega) ha] at hs' ⊢
    obtain ⟨m2, h3, h4⟩ := hs'.lt hc
    exact ⟨m1, m2, h4, h1, h3⟩
  · obtain rfl : j = nelems n := by omega
    rw [after_nelems hn, List.append_nil] at hs'
    rw [after_nelems hn]
    exact ⟨m1, l2, hs', h1, by simp⟩

/-- What the bisection in a node ends with. -/
inductive Bisected (key : α → Ordering) (n : Node α) (o : Option α) (l1 l2 : List α) : Bisect → Prop
  | kid {j : ℕ} {m1 m2 : List α} : j ≤ nelems n → Sought key (n.kid j).toList m1 o m2 →
    l1 = before n j ++ m1 → l2 = m2 ++ after n j → Bisected key n o l1 l2 (.kid j)
  | found {j : ℕ} {a : α} : j + 1 ≤ nelems n → n.elem j = some a → o = some a →
    l1.length = (before n j).length + (n.kid j).toList.length → Bisected key n o l1 l2 (.found j)

/-- The elements before `_lo` come before what is looked for, and those after `_hi` come after it. -/
theorem bisect_spec (hn : Wf (h + 1) p n) (hs : Sought key n.toList l1 o l2) {fuel lo : ℕ} {hi : ℤ}
    (hlo : (lo : ℤ) ≤ hi + 1) (hhi : hi < nelems n) (hfuel : hi + 1 - lo < fuel)
    (hleft : ∀ i, lo = i + 1 → ∃ a, n.elem i = some a ∧ key a = .gt)
    (hright : ∀ i : ℕ, i = hi + 1 → i < nelems n → ∃ a, n.elem i = some a ∧ key a = .lt) :
    Bisected key n o l1 l2 (bisect key n fuel lo hi) := by
  induction fuel generalizing lo hi with
  | zero => omega
  | succ fuel ih =>
    rw [bisect]
    by_cases hend : (lo : ℤ) > hi
    · rw [if_pos hend, Int.toNat_natCast]
      have hle : lo ≤ nelems n := by omega
      obtain ⟨m1, m2, h1, h2, h3⟩ := sought_kid hn hs hle hleft (hright lo (by omega))
      exact .kid hle h1 h2 h3
    · rw [if_neg hend]
      obtain ⟨last, hlast⟩ : ∃ last : ℕ, ((lo + hi) / 2 : ℤ).toNat = last := ⟨_, rfl⟩
      have hlt : last < nelems n := by omega
      obtain ⟨a, ha⟩ := exists_elem hn hlt
      simp only [hlast, ha]
      cases hc : key a with
      | eq =>
        have hlist := toList_elem hn hlt ha
        rw [hlist, ← List.append_assoc] at hs
        obtain ⟨h1, h2⟩ := hs.found hc
        exact .found hlt ha h1 (by rw [h2, List.length_append])
      | gt =>
        have hlo' : ((last + 1 : ℕ) : ℤ) ≤ hi + 1 := by omega
        have hleft' : ∀ i, last + 1 = i + 1 → ∃ a, n.elem i = some a ∧ key a = .gt := by
          rintro i hi'
          obtain rfl : last = i := by omega
          exact ⟨a, ha, hc⟩
        have hrec := ih hlo' hhi (by omega) hleft' hright
        exact hrec
      | lt =>
        refine ih (by omega) (by omega) (by omega) hleft ?_
        intro i hi' _
        obtain rfl : i = last := by omega
        exact ⟨a, ha, hc⟩

theorem search234_kid (hn : n.isNull = false) (hj : j ≤ 3)
    (hb : bisect key n 4 0 (elements234 n - 1) = .kid j) :
    search234 key n base = search234 key (n.kid j) (baseOf n base j) := by
  cases n with
  | null => cases hn
  | node =>
    rw [search234, hb]
    rcases j with _ | _ | _ | _ | j
    · rfl
    · rfl
    · rfl
    · rfl
    · omega

/-- **What is looked for is found with its index, if it is there.** -/
theorem search234_spec (hn : Wf h p n) (hs : Sought key n.toList l1 o l2) :
    search234 key n base = o.map (·, base + l1.length) := by
  induction h generalizing p n l1 l2 base with
  | zero =>
    obtain rfl := hn.of_zero
    have h1 := hs.append
    simp at h1
    rw [h1.2.1]
    rfl
  | succ h ih =>
    have hrange := hn.filled.range
    generalize hb : bisect key n 4 0 (elements234 n - 1) = b
    have hspec : Bisected key n o l1 l2 b := by
      rw [← hb, elements234_eq hn]
      have hlo : ((0 : ℕ) : ℤ) ≤ (nelems n : ℤ) - 1 + 1 := by omega
      refine bisect_spec hn hs hlo (by omega) (by omega) (by simp) ?_
      intro i hi hlt
      omega
    cases hspec with
    | kid hle hs' h1 h2 =>
      have hfocus := hn.focus hle
      rw [search234_kid hn.isNull hfocus.le hb, ih hfocus.kid hs', baseOf_eq hn hle, h1,
        List.length_append, Nat.add_assoc]
    | @found j a hle ha ho hlen =>
      have h1 : search234 key n base = (n.elem j).map (·, baseOf n base j + n.count j) := by
        cases n with
        | null => cases ha
        | node => rw [search234, hb]
      rw [h1, ha, ho, baseOf_eq hn (by omega), hn.shape.count, hlen, Nat.add_assoc]

theorem find234_sought {t : Tree234.Tree α} (ht : Holds t l) (hs : Sought key l l1 o l2) :
    find234 t key = o := by
  obtain ⟨h, hn⟩ := ht.wf
  rw [find234, search234_spec hn (ht.toList ▸ hs)]
  cases o with
  | none => rfl
  | some a => rfl

theorem del234_sought {t : Tree234.Tree α} {c : α → α → Ordering} (ht : Represents (some c) t l) {e : α}
    (hs : Sought (c e) l l1 (some a) l2) :
    ∃ t', del234 t e = some (t', some a) ∧ Represents (some c) t' (l1 ++ l2) := by
  obtain ⟨h, hn⟩ := ht.holds.wf
  rw [del234, ht.same]
  simp only
  rw [search234_spec hn (ht.holds.toList ▸ hs), Nat.zero_add]
  exact delpos234_sought ht hs

end PuttyNd.Psftp
