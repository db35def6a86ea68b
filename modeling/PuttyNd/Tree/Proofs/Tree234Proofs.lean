import PuttyNd.Tree.Tree234
import Mathlib.Data.List.Basic
import Mathlib.Tactic.Common

/-!
# Proofs: the shape of a counted 2-3-4 tree

`Wf h p n` says that `n` is a 2-3-4 tree of height `h` whose root has the parent pointer `p`: all leaves
are on one level, and the counts and the parent pointers are right. `before` and `after` are what lies to
the left and to the right of a kid, and `Wf.focus` says what becomes of a node when a kid is replaced.
-/

namespace PuttyNd.Tree234

open Node

variable {α : Type*} {h i j c c0 c1 c2 c3 : ℕ} {p q : Option ℕ} {n k k0 k1 k2 k3 f : Node α}
  {e0 e1 e2 : Option α} {a b d : α}

/-- The elements in order. -/
def Node.toList : Node α → List α
  | null => []
  | node _ _ k0 k1 k2 k3 _ _ _ _ e0 e1 e2 =>
    k0.toList ++ (e0.toList ++ (k1.toList ++ (e1.toList ++ (k2.toList ++ (e2.toList ++ k3.toList)))))

/-- How often the identity `x` occurs. -/
def Node.occ (x : ℕ) : Node α → ℕ
  | null => 0
  | node i _ k0 k1 k2 k3 _ _ _ _ _ _ _ =>
    (if i = x then 1 else 0) + k0.occ x + k1.occ x + k2.occ x + k3.occ x

/-- A 2-3-4 tree of height `h` whose root has the parent pointer `p`. -/
inductive Wf : ℕ → Option ℕ → Node α → Prop
  | null {p : Option ℕ} : Wf 0 p null
  | two {h i c0 c1 : ℕ} {p : Option ℕ} {k0 k1 : Node α} {a : α} :
    Wf h (some i) k0 → Wf h (some i) k1 → c0 = k0.toList.length → c1 = k1.toList.length →
    Wf (h + 1) p (node i p k0 k1 null null c0 c1 0 0 (some a) none none)
  | three {h i c0 c1 c2 : ℕ} {p : Option ℕ} {k0 k1 k2 : Node α} {a b : α} :
    Wf h (some i) k0 → Wf h (some i) k1 → Wf h (some i) k2 → c0 = k0.toList.length →
    c1 = k1.toList.length → c2 = k2.toList.length →
    Wf (h + 1) p (node i p k0 k1 k2 null c0 c1 c2 0 (some a) (some b) none)
  | four {h i c0 c1 c2 c3 : ℕ} {p : Option ℕ} {k0 k1 k2 k3 : Node α} {a b d : α} :
    Wf h (some i) k0 → Wf h (some i) k1 → Wf h (some i) k2 → Wf h (some i) k3 →
    c0 = k0.toList.length → c1 = k1.toList.length → c2 = k2.toList.length → c3 = k3.toList.length →
    Wf (h + 1) p (node i p k0 k1 k2 k3 c0 c1 c2 c3 (some a) (some b) (some d))

/-! ## Fields -/

@[simp] theorem toList_null : (null : Node α).toList = [] := rfl

@[simp] theorem toList_node : (node i p k0 k1 k2 k3 c0 c1 c2 c3 e0 e1 e2).toList =
    k0.toList ++ (e0.toList ++ (k1.toList ++ (e1.toList ++ (k2.toList ++ (e2.toList ++
      k3.toList))))) := rfl

@[simp] theorem occ_null (x : ℕ) : (null : Node α).occ x = 0 := rfl

@[simp] theorem occ_node (x : ℕ) : (node i p k0 k1 k2 k3 c0 c1 c2 c3 e0 e1 e2).occ x =
    (if i = x then 1 else 0) + k0.occ x + k1.occ x + k2.occ x + k3.occ x := rfl

@[simp] theorem isNull_null : (null : Node α).isNull = true := rfl

@[simp] theorem isNull_node :
    (node i p k0 k1 k2 k3 c0 c1 c2 c3 e0 e1 e2).isNull = false := rfl

@[simp] theorem toList_setParent : (k.setParent p).toList = k.toList := by
  cases k <;> rfl

@[simp] theorem occ_setParent (x : ℕ) : (k.setParent p).occ x = k.occ x := by
  cases k <;> rfl

@[simp] theorem isNull_setParent : (k.setParent p).isNull = k.isNull := by
  cases k <;> rfl

@[simp] theorem elem_setParent : (k.setParent p).elem j = k.elem j := by
  cases k with
  | null => rfl
  | node => rcases j with _ | _ | _ | j <;> rfl

@[simp] theorem toList_adopt (n : Node α) : (adopt n).toList = n.toList := by
  cases n <;> simp [adopt]

@[simp] theorem occ_adopt (n : Node α) (x : ℕ) : (adopt n).occ x = n.occ x := by
  cases n <;> simp [adopt]

theorem Wf.setParent (hn : Wf h p n) (q : Option ℕ) : Wf h q (n.setParent q) := by
  cases hn with
  | null => exact .null
  | two h0 h1 g0 g1 => exact .two h0 h1 g0 g1
  | three h0 h1 h2 g0 g1 g2 => exact .three h0 h1 h2 g0 g1 g2
  | four h0 h1 h2 h3 g0 g1 g2 g3 => exact .four h0 h1 h2 h3 g0 g1 g2 g3

theorem Wf.null_iff (hn : Wf h p n) : n.isNull = true ↔ h = 0 := by
  cases hn <;> simp

theorem Wf.of_zero (hn : Wf 0 p n) : n = Node.null := by
  cases hn
  rfl

theorem Wf.parent_eq (hn : Wf (h + 1) p n) : n.parent = p := by
  cases hn <;> rfl

theorem Wf.exists_id (hn : Wf (h + 1) p n) : ∃ i, n.id = some i := by
  cases hn <;> exact ⟨_, rfl⟩

theorem Wf.occ_id (hn : Wf (h + 1) p n) (hi : n.id = some i) : 1 ≤ n.occ i := by
  cases hn <;> (cases hi; simp; omega)

theorem Wf.countnode (hn : Wf h p n) : countnode234 n = n.toList.length := by
  cases hn with
  | null => rfl
  | two h0 h1 g0 g1 =>
    simp [countnode234, Node.count, Node.elem, g0, g1]
    omega
  | three h0 h1 h2 g0 g1 g2 =>
    simp [countnode234, Node.count, Node.elem, g0, g1, g2]
    omega
  | four h0 h1 h2 h3 g0 g1 g2 g3 =>
    simp [countnode234, Node.count, Node.elem, g0, g1, g2, g3]
    omega

theorem Wf.depth_eq (hn : Wf h p n) : n.depth = h := by
  induction hn with
  | null => rfl
  | two h0 h1 g0 g1 ih0 ih1 => simp [Node.depth, ih0, ih1]
  | three h0 h1 h2 g0 g1 g2 ih0 ih1 ih2 => simp [Node.depth, ih0, ih1, ih2]
  | four h0 h1 h2 h3 g0 g1 g2 g3 ih0 ih1 ih2 ih3 => simp [Node.depth, ih0, ih1, ih2, ih3]

/-! ## A kid -/

/-- What lies before the kid `j`. -/
def before (n : Node α) : ℕ → List α
  | 0 => []
  | 1 => (n.kid 0).toList ++ (n.elem 0).toList
  | 2 => (n.kid 0).toList ++ ((n.elem 0).toList ++ ((n.kid 1).toList ++ (n.elem 1).toList))
  | _ => (n.kid 0).toList ++ ((n.elem 0).toList ++ ((n.kid 1).toList ++ ((n.elem 1).toList ++
      ((n.kid 2).toList ++ (n.elem 2).toList))))

/-- What lies after the kid `j`. -/
def after (n : Node α) : ℕ → List α
  | 0 => (n.elem 0).toList ++ ((n.kid 1).toList ++ ((n.elem 1).toList ++ ((n.kid 2).toList ++
      ((n.elem 2).toList ++ (n.kid 3).toList))))
  | 1 => (n.elem 1).toList ++ ((n.kid 2).toList ++ ((n.elem 2).toList ++ (n.kid 3).toList))
  | 2 => (n.elem 2).toList ++ (n.kid 3).toList
  | _ => []

/-- The number of elements of a node. -/
def nelems (n : Node α) : ℕ :=
  (n.elem 0).toList.length + (n.elem 1).toList.length + (n.elem 2).toList.length

/-- The node with the kid `j` replaced. -/
def putKid (f : Node α) (j : ℕ) (k : Node α) (c : ℕ) : Node α := (f.setKid j k).setCount j c

section PutKid

variable (hf : f.isNull = false) (hj : j ≤ 3)
include hf hj

theorem toList_kid : f.toList = before f j ++ ((f.kid j).toList ++ after f j) := by
  cases f with
  | null => cases hf
  | node =>
    rcases j with _ | _ | _ | _ | j
    · simp [before, after, Node.kid, Node.elem]
    · simp [before, after, Node.kid, Node.elem]
    · simp [before, after, Node.kid, Node.elem]
    · simp [before, after, Node.kid, Node.elem]
    · omega

theorem toList_putKid (k : Node α) (c : ℕ) :
    (putKid f j k c).toList = before f j ++ (k.toList ++ after f j) := by
  cases f with
  | null => cases hf
  | node =>
    rcases j with _ | _ | _ | _ | j
    · simp [putKid, setKid, setCount, before, after, Node.kid, Node.elem]
    · simp [putKid, setKid, setCount, before, after, Node.kid, Node.elem]
    · simp [putKid, setKid, setCount, before, after, Node.kid, Node.elem]
    · simp [putKid, setKid, setCount, before, after, Node.kid, Node.elem]
    · omega

theorem occ_putKid (k : Node α) (c x : ℕ) :
    (putKid f j k c).occ x + (f.kid j).occ x = f.occ x + k.occ x := by
  cases f with
  | null => cases hf
  | node =>
    rcases j with _ | _ | _ | _ | j
    · simp [putKid, setKid, setCount, Node.kid]
      omega
    · simp [putKid, setKid, setCount, Node.kid]
      omega
    · simp [putKid, setKid, setCount, Node.kid]
      omega
    · simp [putKid, setKid, setCount, Node.kid]
      omega
    · omega

theorem id_putKid (k : Node α) (c : ℕ) : (putKid f j k c).id = f.id := by
  cases f with
  | null => cases hf
  | node => rcases j with _ | _ | _ | _ | j <;> rfl

end PutKid

theorem occ_kid_le (f : Node α) (j x : ℕ) : (f.kid j).occ x ≤ f.occ x := by
  cases f with
  | null => simp [Node.kid]
  | node =>
    rcases j with _ | _ | _ | _ | j
    · simp [Node.kid]
      omega
    · simp [Node.kid]
      omega
    · simp [Node.kid]
      omega
    · simp [Node.kid]
    · simp [Node.kid]

/-- What holds of the kid `j` of the node `f`, and of the node with another kid in its place. -/
structure Focus (h : ℕ) (p : Option ℕ) (f : Node α) (j : ℕ) : Prop where
  le : j ≤ 3
  kid : Wf h f.id (f.kid j)
  count : f.count j = (f.kid j).toList.length
  wf : ∀ k, Wf h f.id k → Wf (h + 1) p (putKid f j k k.toList.length)

theorem Wf.isNull (hf : Wf (h + 1) p f) : f.isNull = false := by
  cases hf <;> rfl

theorem Wf.focus (hf : Wf (h + 1) p f) (hj : j ≤ nelems f) : Focus h p f j := by
  cases hf with
  | two h0 h1 g0 g1 =>
    have : j = 0 ∨ j = 1 := by
      simp [nelems, Node.elem] at hj
      omega
    rcases this with rfl | rfl
    · exact ⟨by omega, h0, g0, fun k hk => .two hk h1 rfl g1⟩
    · exact ⟨by omega, h1, g1, fun k hk => .two h0 hk g0 rfl⟩
  | three h0 h1 h2 g0 g1 g2 =>
    have : j = 0 ∨ j = 1 ∨ j = 2 := by
      simp [nelems, Node.elem] at hj
      omega
    rcases this with rfl | rfl | rfl
    · exact ⟨by omega, h0, g0, fun k hk => .three hk h1 h2 rfl g1 g2⟩
    · exact ⟨by omega, h1, g1, fun k hk => .three h0 hk h2 g0 rfl g2⟩
    · exact ⟨by omega, h2, g2, fun k hk => .three h0 h1 hk g0 g1 rfl⟩
  | four h0 h1 h2 h3 g0 g1 g2 g3 =>
    have : j = 0 ∨ j = 1 ∨ j = 2 ∨ j = 3 := by
      simp [nelems, Node.elem] at hj
      omega
    rcases this with rfl | rfl | rfl | rfl
    · exact ⟨by omega, h0, g0, fun k hk => .four hk h1 h2 h3 rfl g1 g2 g3⟩
    · exact ⟨by omega, h1, g1, fun k hk => .four h0 hk h2 h3 g0 rfl g2 g3⟩
    · exact ⟨by omega, h2, g2, fun k hk => .four h0 h1 hk h3 g0 g1 rfl g3⟩
    · exact ⟨by omega, h3, g3, fun k hk => .four h0 h1 h2 hk g0 g1 g2 rfl⟩

/-! ## The way up -/

/-- No identity occurs twice. -/
def Distinct (n : Node α) : Prop := ∀ x, n.occ x ≤ 1

theorem kid_of_id (hf : f.isNull = false) (hd : Distinct f) {j' : ℕ} (hj : j ≤ 3) (hj' : j' ≤ 3)
    (hi : 1 ≤ (f.kid j).occ i) (hi' : 1 ≤ (f.kid j').occ i) : j = j' := by
  cases f with
  | null => cases hf
  | node =>
    have h1 := hd i
    rw [occ_node] at h1
    by_contra hne
    rcases j with _ | _ | _ | _ | j <;> rcases j' with _ | _ | _ | _ | j' <;>
      simp only [Node.kid] at hi hi' <;> omega

/-- A kid is found by its identity. -/
theorem childnum_eq (hf : Wf (h + 2) p f) (hd : Distinct f) (hj : j ≤ nelems f)
    (hn : n.id = (f.kid j).id) : childnum f n = j := by
  have hle := (hf.focus hj).le
  obtain ⟨i, hi⟩ := (hf.focus hj).kid.exists_id
  have hocc := (hf.focus hj).kid.occ_id hi
  have hother : ∀ j' ≤ nelems f, (f.kid j').id = n.id → j' = j := by
    intro j' hj' hid
    have hi' : (f.kid j').id = some i := hid.trans (hn.trans hi)
    exact kid_of_id hf.isNull hd (hf.focus hj').le hle ((hf.focus hj').kid.occ_id hi') hocc
  unfold childnum
  have hj3 : j = 0 ∨ j = 1 ∨ j = 2 ∨ j = 3 := by omega
  rcases hj3 with rfl | rfl | rfl | rfl
  · rw [if_pos hn.symm]
  · rw [if_neg fun h0 => absurd (hother 0 (by omega) h0) (by omega), if_pos hn.symm]
  · rw [if_neg fun h0 => absurd (hother 0 (by omega) h0) (by omega),
      if_neg fun h0 => absurd (hother 1 (by omega) h0) (by omega), if_pos hn.symm]
  · rw [if_neg fun h0 => absurd (hother 0 (by omega) h0) (by omega),
      if_neg fun h0 => absurd (hother 1 (by omega) h0) (by omega),
      if_neg fun h0 => absurd (hother 2 (by omega) h0) (by omega)]

/-- The node `n` may stand where the node `k` is, before the counts are updated. -/
structure Stands (k n : Node α) : Prop where
  id : n.id = k.id
  parent : n.parent = k.parent
  length : n.toList.length = k.toList.length
  occ : ∀ x, n.occ x ≤ k.occ x

theorem Stands.rfl : Stands n n := ⟨by rfl, by rfl, by rfl, fun _ => Nat.le_refl _⟩

/-- The way down to a tree `n` of height `h`: what lies to the left and to the right of it, and how often
each identity occurs outside of it. In the whole tree it occurs at most `m` times. -/
inductive Path (m : ℕ → ℕ) : ℕ → Node α → List (Node α) → List α → List α → (ℕ → ℕ) → Prop
  | nil {h : ℕ} {n : Node α} : n.parent = none → Path m h n [] [] [] fun _ => 0
  | cons {h j : ℕ} {p : Option ℕ} {f n : Node α} {path : List (Node α)} {L R : List α}
    {occ occ' : ℕ → ℕ} : Wf (h + 1) p f → j ≤ nelems f → Stands (f.kid j) n →
    Path m (h + 1) f path L R occ → (∀ x, occ x + f.occ x ≤ m x) →
    (∀ x, occ' x + (f.kid j).occ x = occ x + f.occ x) →
    Path m h n (f :: path) (L ++ before f j) (after f j ++ R) occ'

variable {path : List (Node α)} {L R : List α} {m occ : ℕ → ℕ}

theorem Path.stands (hpath : Path m h n path L R occ) {n' : Node α} (hs : Stands n n') :
    Path m h n' path L R occ := by
  cases hpath with
  | nil hp => exact .nil (hs.parent.trans hp)
  | cons hf hj hst hpath hd hocc =>
    exact .cons hf hj ⟨hs.id.trans hst.id, hs.parent.trans hst.parent, hs.length.trans hst.length,
      fun x => Nat.le_trans (hs.occ x) (hst.occ x)⟩ hpath hd hocc

/-- A step down. -/
theorem Path.down (hpath : Path m (h + 1) n path L R occ) (hn : Wf (h + 1) p n) (hj : j ≤ nelems n)
    (hd : ∀ x, occ x + n.occ x ≤ m x) :
    ∃ occ', Path m h (n.kid j) (n :: path) (L ++ before n j) (after n j ++ R) occ' ∧
      ∀ x, occ' x + (n.kid j).occ x ≤ m x := by
  refine ⟨fun x => occ x + n.occ x - (n.kid j).occ x, .cons hn hj .rfl hpath hd fun x => ?_,
    fun x => ?_⟩
  · have h1 := occ_kid_le n j x
    show occ x + n.occ x - (n.kid j).occ x + (n.kid j).occ x = occ x + n.occ x
    omega
  · have h1 := occ_kid_le n j x
    have h2 := hd x
    show occ x + n.occ x - (n.kid j).occ x + (n.kid j).occ x ≤ m x
    omega

theorem Path.leadsUp (hpath : Path m h n path L R occ) (hpos : 0 < h) : leadsUp n path := by
  cases hpath with
  | nil hp => exact hp
  | cons hf hj hst _ _ _ =>
    obtain ⟨h', rfl⟩ : ∃ h', h = h' + 1 := ⟨h - 1, by omega⟩
    obtain ⟨i, hi⟩ := hf.exists_id
    have h1 := hst.parent.trans (hf.focus hj).kid.parent_eq
    simpa [Tree234.leadsUp, hi] using h1

/-- What may take the place of the tree `n`. -/
structure Replaces (h : ℕ) (n n' : Node α) : Prop where
  wf : Wf (h + 1) n.parent n'
  id : n'.id = n.id

/-- On the way up, every count is put right. -/
theorem addCounts_spec (hm : ∀ x, m x ≤ 1) (hpath : Path m (h + 1) n path L R occ) {n' : Node α}
    (hr : Replaces h n n') :
    ∃ h' root, addCounts n' path = some root ∧ Wf (h' + 1) none root ∧
      root.toList = L ++ (n'.toList ++ R) ∧ ∀ x, root.occ x = occ x + n'.occ x := by
  induction path generalizing h n L R occ n' with
  | nil =>
    cases hpath with
    | nil hp =>
      have hup : leadsUp n' [] := hr.wf.parent_eq.trans hp
      exact ⟨h, n', by rw [addCounts, if_pos hup], hp ▸ hr.wf, by simp, by simp⟩
  | cons f path ih =>
    cases hpath with
    | @cons _ j q _ _ _ L R occ0 _ hf hj hst hpath hdf hocc =>
      have hfocus := hf.focus hj
      have hparent : n.parent = f.id := hst.parent.trans hfocus.kid.parent_eq
      have hup : leadsUp n' (f :: path) := hr.wf.parent_eq.trans hparent
      have hnum : childnum f n' = j :=
        childnum_eq hf (fun x => by have := hdf x; have := hm x; omega) hj (hr.id.trans hst.id)
      have hkid : Wf (h + 1) f.id n' := hparent ▸ hr.wf
      rw [addCounts, if_pos hup, hnum, hr.wf.countnode]
      have hr' : Replaces (h + 1) f (putKid f j n' n'.toList.length) :=
        ⟨hf.parent_eq ▸ hfocus.wf n' hkid, id_putKid hf.isNull hfocus.le _ _⟩
      obtain ⟨h', root, h1, h2, h3, h4⟩ := ih hpath hr'
      refine ⟨h', root, h1, h2, ?_, fun x => ?_⟩
      · rw [h3, toList_putKid hf.isNull hfocus.le]
        simp
      · have h5 := occ_putKid hf.isNull hfocus.le n' n'.toList.length x
        have h6 := hocc x
        rw [h4]
        omega

end PuttyNd.Tree234
