import PuttyNd.Terminal.Termline
import PuttyNd.Lib.LinkedLists
import Mathlib.Data.Int.Notation
import Mathlib.Data.List.GetD
import Mathlib.Data.List.Perm.Subperm

/-!
# Proofs: combining characters of a line

The cells of a line and its free list form chains that do not meet (`CcWf`, which is what `cc_check`
tests). Under this invariant `add_cc` appends to the list of one column and leaves the others alone.
-/

namespace PuttyNd.Terminal

/-- The cell `j` links to the cell `k`. -/
def CcLink (chars : List Termchar) (j k : ℕ) : Prop :=
  (chars.getD j default).ccNext ≠ 0 ∧ (j : ℤ) + (chars.getD j default).ccNext = k ∧
    k < chars.length

/-- The cell `j` is the last one of its list. -/
def CcEnd (chars : List Termchar) (j : ℕ) : Prop := (chars.getD j default).ccNext = 0

/-- The list of the cell `j` goes through the cells `ps`. -/
abbrev CcPath (chars : List Termchar) : ℕ → List ℕ → Prop := Chain (CcLink chars) (CcEnd chars)

/-- The characters stored in the cells `ps`. -/
def chrsAt (chars : List Termchar) (ps : List ℕ) : List UInt32 :=
  ps.map fun p => (chars.getD p default).chr

/-- The combining characters of the cell `j` are `chrs`. -/
def CcList (line : Termline) (j : ℕ) (chrs : List UInt32) : Prop :=
  ∃ ps, CcPath line.chars j ps ∧ chrsAt line.chars ps = chrs

theorem ccLink_functional (chars : List Termchar) : Functional (CcLink chars) (CcEnd chars) where
  unique := by
    rintro a b c ⟨-, h1, -⟩ ⟨-, h2, -⟩
    omega
  stop := by
    rintro a b h ⟨h1, -, -⟩
    exact h1 h

theorem CcList.unique {line : Termline} {j : ℕ} {xs ys : List UInt32} (hx : CcList line j xs)
    (hy : CcList line j ys) : xs = ys := by
  obtain ⟨ps, h1, rfl⟩ := hx
  obtain ⟨qs, h2, rfl⟩ := hy
  rw [h1.eq_of (ccLink_functional _) h2]

theorem CcPath.lt_length {chars : List Termchar} {j : ℕ} {ps : List ℕ} (h : CcPath chars j ps) :
    ∀ p ∈ ps, p < chars.length := by
  induction h with
  | nil _ => simp
  | cons h1 _ ih =>
    intro p hp
    rcases List.mem_cons.mp hp with rfl | hp
    · exact h1.2.2
    · exact ih p hp

/-- A list has fewer links than the line has cells. -/
theorem CcPath.length_lt {chars : List Termchar} {j : ℕ} {ps : List ℕ} (h : CcPath chars j ps)
    (hj : j < chars.length) : ps.length < chars.length := by
  have hsub : j :: ps ⊆ List.range chars.length := by
    intro p hp
    rw [List.mem_range]
    rcases List.mem_cons.mp hp with rfl | hp
    · exact hj
    · exact h.lt_length p hp
  have := (List.subperm_of_subset (h.nodup (ccLink_functional _)) hsub).length_le
  simp at this
  omega

theorem lastCc_spec {chars : List Termchar} {j : ℕ} {ps : List ℕ} (h : CcPath chars j ps) :
    ∀ fuel, ps.length ≤ fuel → lastCc chars fuel j = (j :: ps).getLast (by simp) := by
  induction h with
  | @nil j h =>
    intro fuel _
    cases fuel with
    | zero => rfl
    | succ fuel => exact if_pos h
  | @cons j k ps h1 _ ih =>
    intro fuel hf
    obtain ⟨fuel, rfl⟩ : ∃ f, fuel = f + 1 := ⟨fuel - 1, by simp at hf; omega⟩
    simp only [lastCc]
    rw [if_neg h1.1, h1.2.1, Int.toNat_natCast, ih fuel (by simpa using hf)]
    simp

/-- The lists of the columns and the free list of a line are finite, lie above the columns and do
not share a cell. `chain j` is the list of the column `j` and `free` the free list. -/
structure CcWf (line : Termline) (chain : ℕ → List ℕ) (free : List ℕ) : Prop where
  cols_le : line.cols ≤ line.size
  path : ∀ j < line.cols, CcPath line.chars j (chain j)
  above : ∀ j < line.cols, ∀ p ∈ chain j, line.cols ≤ p
  disjoint : ∀ i < line.cols, ∀ j < line.cols, i ≠ j → (chain i).Disjoint (chain j)
  free_path : (line.ccFree = 0 ∧ free = []) ∨
    ∃ ps, free = line.ccFree :: ps ∧ CcPath line.chars line.ccFree ps ∧ line.ccFree < line.size
  free_above : ∀ p ∈ free, line.cols ≤ p
  free_disjoint : ∀ j < line.cols, (chain j).Disjoint free

section AddCc

variable {line : Termline} {chain : ℕ → List ℕ} {free : List ℕ}

@[simp] theorem length_ccBlock (k : ℕ) : (ccBlock k).length = k := by simp [ccBlock]

/-- The cells by which the array is extended form one list. -/
theorem ccBlock_path (chars : List Termchar) (k : ℕ) :
    ∀ i, i < k → CcPath (chars ++ ccBlock k) (chars.length + i)
      (List.range' (chars.length + i + 1) (k - 1 - i)) := by
  have hcell : ∀ i, i < k → (chars ++ ccBlock k).getD (chars.length + i) default
      = { (default : Termchar) with ccNext := if i + 1 < k then 1 else 0 } := by
    intro i hi
    rw [List.getD_append_right _ _ _ _ (by omega), Nat.add_sub_cancel_left]
    simp [ccBlock, hi]
  intro i hi
  obtain ⟨m, hm⟩ : ∃ m, k - 1 - i = m := ⟨_, rfl⟩
  induction m generalizing i with
  | zero =>
    rw [hm]
    refine Chain.nil ?_
    rw [CcEnd, hcell i hi, if_neg (by omega)]
  | succ m ih =>
    rw [hm, List.range'_succ]
    refine Chain.cons ⟨?_, ?_, ?_⟩ ?_
    · rw [hcell i hi, if_pos (by omega)]
      decide
    · rw [hcell i hi, if_pos (by omega)]
      push_cast
      rfl
    · simp
      omega
    · have := ih (i + 1) (by omega) (by omega)
      rw [show k - 1 - (i + 1) = m by omega] at this
      exact this

theorem CcPath.extend {chars : List Termchar} {j : ℕ} {ps : List ℕ} (h : CcPath chars j ps)
    (hj : j < chars.length) (new : List Termchar) : CcPath (chars ++ new) j ps := by
  have hget : ∀ x ∈ j :: ps, (chars ++ new).getD x default = chars.getD x default := by
    intro x hx
    have hlt : x < chars.length := by
      rcases List.mem_cons.mp hx with rfl | hx
      · exact hj
      · exact h.lt_length x hx
    rw [List.getD_append _ _ _ _ hlt]
  refine h.congr (fun x hx y ⟨h1, h2, h3⟩ => ?_) (fun x hx h1 => ?_)
  · rw [CcLink, hget x hx]
    exact ⟨h1, h2, by simp; omega⟩
  · rw [CcEnd, hget x hx]
    exact h1

/-- After `extendCc` the free list is not empty, and nothing else has changed. -/
theorem extendCc_spec (h : CcWf line chain free) (hcols : 0 < line.cols) :
    ∃ free', CcWf (extendCc line) chain free' ∧ free' ≠ [] ∧
      (∀ p, p < line.size → (extendCc line).cell p = line.cell p) ∧
      line.size ≤ (extendCc line).size ∧
      ∀ p, p ∈ free ∨ line.size ≤ p ∧ p < (extendCc line).size → p ∈ free' := by
  unfold extendCc
  rcases h.free_path with ⟨h0, hf⟩ | ⟨ps, hf, hp, hlt⟩
  · rw [if_pos h0]
    set k := 16 + (line.size - line.cols) / 2 with hk
    have hsize : line.size = line.chars.length := rfl
    have hle := h.cols_le
    refine ⟨line.size :: List.range' (line.size + 1) (k - 1), ?_, by simp, ?_, ?_, ?_⟩
    · refine
        { cols_le := by simp [Termline.size] at hle ⊢; omega
          path := fun j hj => (h.path j hj).extend (Nat.lt_of_lt_of_le hj hle) _
          above := h.above
          disjoint := h.disjoint
          free_path := Or.inr ⟨_, rfl, ccBlock_path line.chars k 0 (by omega), ?_⟩
          free_above := ?_
          free_disjoint := ?_ }
      · simp [Termline.size]
        omega
      · intro p hp
        rcases List.mem_cons.mp hp with rfl | hp
        · exact hle
        · have := (List.mem_range'_1.mp hp).1
          show line.cols ≤ p
          omega
      · intro j hj p hp hpf
        have h1 := (h.path j hj).lt_length p hp
        rcases List.mem_cons.mp hpf with rfl | hpf
        · omega
        · have := (List.mem_range'_1.mp hpf).1
          omega
    · intro p hp
      exact List.getD_append _ _ _ _ hp
    · simp [Termline.size]
    · rintro p (hp | ⟨hp1, hp2⟩)
      · simp [hf] at hp
      · have hp3 : p < line.size + k := by simpa [Termline.size] using hp2
        rw [List.mem_cons, List.mem_range'_1]
        omega
  · rw [if_neg (by have := h.free_above line.ccFree (by simp [hf]); omega)]
    refine ⟨free, h, by simp [hf], fun _ _ => rfl, Nat.le_refl _, ?_⟩
    rintro p (hp | hp)
    · exact hp
    · omega

theorem getD_modify (chars : List Termchar) (f : Termchar → Termchar) (i j : ℕ) :
    (chars.modify i f).getD j default
      = if i = j ∧ j < chars.length then f (chars.getD j default) else chars.getD j default := by
  simp only [List.getD_eq_getElem?_getD, List.getElem?_modify]
  by_cases hj : j < chars.length
  · by_cases hij : i = j <;> simp [hij, hj]
  · rw [if_neg (by tauto)]
    simp [List.getElem?_eq_none (Nat.le_of_not_lt hj)]

/-- The cells of different columns are different. -/
theorem CcWf.ne_of_mem (h : CcWf line chain free) {i j p q : ℕ} (hi : i < line.cols)
    (hj : j < line.cols) (hij : i ≠ j) (hp : p ∈ i :: chain i) (hq : q ∈ j :: chain j) : p ≠ q := by
  rintro rfl
  rcases List.mem_cons.mp hp with rfl | hp'
  · rcases List.mem_cons.mp hq with rfl | hq'
    · exact hij rfl
    · have := h.above j hj _ hq'
      omega
  · rcases List.mem_cons.mp hq with rfl | hq'
    · have := h.above i hi _ hp'
      omega
    · exact h.disjoint i hi j hj hij hp' hq'

/-- The cells of a column are not free. -/
theorem CcWf.ne_of_mem_free (h : CcWf line chain free) {j p q : ℕ} (hj : j < line.cols)
    (hp : p ∈ j :: chain j) (hq : q ∈ free) : p ≠ q := by
  rintro rfl
  rcases List.mem_cons.mp hp with rfl | hp
  · have := h.free_above _ hq
    omega
  · exact h.free_disjoint j hj hp hq

/-- The cells after `add_cc` has linked the cell `new` to the cell `last`. -/
structure Linked (chars chars' : List Termchar) (last new : ℕ) (chr : UInt32) : Prop where
  length : chars'.length = chars.length
  other : ∀ x, x ≠ last → x ≠ new → chars'.getD x default = chars.getD x default
  last : chars'.getD last default = { chars.getD last default with ccNext := new - last }
  new : chars'.getD new default = { chars.getD new default with ccNext := 0, chr := chr }

theorem Linked.chr_eq {chars chars' : List Termchar} {last new : ℕ} {chr : UInt32}
    (hl : Linked chars chars' last new chr) {x : ℕ} (hx : x ≠ new) :
    (chars'.getD x default).chr = (chars.getD x default).chr := by
  by_cases hxl : x = last
  · rw [hxl, hl.last]
  · rw [hl.other x hxl hx]

theorem Linked.attr_eq {chars chars' : List Termchar} {last new : ℕ} {chr : UInt32}
    (hl : Linked chars chars' last new chr) (x : ℕ) :
    (chars'.getD x default).attr = (chars.getD x default).attr := by
  by_cases hxl : x = last
  · rw [hxl, hl.last]
  · by_cases hx : x = new
    · rw [hx, hl.new]
    · rw [hl.other x hxl hx]

theorem Linked.path {chars chars' : List Termchar} {last new : ℕ} {chr : UInt32}
    (hl : Linked chars chars' last new chr) {a : ℕ} {l : List ℕ} (h : CcPath chars a l)
    (h1 : ∀ x ∈ a :: l, x ≠ last) (h2 : ∀ x ∈ a :: l, x ≠ new) : CcPath chars' a l := by
  refine h.congr (fun x hx y ⟨h3, h4, h5⟩ => ?_) (fun x hx h3 => ?_)
  · rw [CcLink, hl.other x (h1 x hx) (h2 x hx), hl.length]
    exact ⟨h3, h4, h5⟩
  · rw [CcEnd, hl.other x (h1 x hx) (h2 x hx)]
    exact h3

/-- What `addCcAt` does if the free list is not empty. -/
theorem addCcAt_linked (h : CcWf line chain free) {col : ℕ} (hcol : col < line.cols) (chr : UInt32)
    (hfree : line.ccFree ∈ free) :
    Linked line.chars (addCcAt line col chr).chars ((col :: chain col).getLast (by simp))
        line.ccFree chr ∧
      (addCcAt line col chr).ccFree = if (line.cell line.ccFree).ccNext ≠ 0
        then (line.ccFree + (line.cell line.ccFree).ccNext).toNat else 0 := by
  have hle := h.cols_le
  have hne : line.ccFree ≠ 0 := by
    have := h.free_above _ hfree
    omega
  have hlast := lastCc_spec (h.path col hcol) line.size
    (Nat.le_of_lt ((h.path col hcol).length_lt (Nat.lt_of_lt_of_le hcol hle)))
  set last := (col :: chain col).getLast (by simp) with hlastdef
  have hmem : last ∈ col :: chain col := List.getLast_mem _
  have hlt : last < line.chars.length := by
    rcases List.mem_cons.mp hmem with hm | hm
    · rw [hm]
      exact Nat.lt_of_lt_of_le hcol hle
    · exact (h.path col hcol).lt_length _ hm
  have hnew : line.ccFree < line.chars.length := by
    rcases h.free_path with ⟨h0, -⟩ | ⟨-, -, -, h1⟩
    · exact absurd h0 hne
    · exact h1
  have hln : last ≠ line.ccFree := h.ne_of_mem_free hcol hmem hfree
  have heq : addCcAt line col chr =
      { line with
        ccFree := if (line.cell line.ccFree).ccNext ≠ 0
          then (line.ccFree + (line.cell line.ccFree).ccNext).toNat else 0
        chars := (line.chars.modify line.ccFree fun c => { c with ccNext := 0, chr := chr }).modify
          last fun c => { c with ccNext := line.ccFree - last } } := by
    simp only [addCcAt, extendCc, if_neg hne, hlast]
  rw [heq]
  refine ⟨{ length := by simp, other := fun x hx hx' => ?_, last := ?_, new := ?_ }, rfl⟩
  · simp only [getD_modify]
    rw [if_neg (by tauto), if_neg (by tauto)]
  · simp only [getD_modify]
    rw [if_pos (by simpa using hlt), if_neg (by rintro ⟨h1, -⟩; exact hln h1.symm)]
  · simp only [getD_modify]
    rw [if_neg (by rintro ⟨h1, -⟩; exact hln h1), if_pos (by simpa using hnew)]

/-- `addCcAt` moves the first free cell to the list of the column. -/
theorem addCcAt_wf (h : CcWf line chain free) {col : ℕ} (hcol : col < line.cols) (chr : UInt32)
    {fs : List ℕ} (hf : free = line.ccFree :: fs) :
    CcWf (addCcAt line col chr) (Function.update chain col (chain col ++ [line.ccFree])) fs := by
  have hfree : line.ccFree ∈ free := by simp [hf]
  obtain ⟨hl, hfr⟩ := addCcAt_linked h hcol chr hfree
  set last := (col :: chain col).getLast (by simp) with hlastdef
  have hmem : last ∈ col :: chain col := List.getLast_mem _
  have hcols : (addCcAt line col chr).cols = line.cols := by
    simp only [addCcAt, extendCc]
    split <;> rfl
  obtain ⟨hpath, hlt⟩ : CcPath line.chars line.ccFree fs ∧ line.ccFree < line.size := by
    rcases h.free_path with ⟨-, h1⟩ | ⟨ps, h1, h2, h3⟩
    · rw [h1] at hfree
      simp at hfree
    · have : ps = fs := by
        rw [hf] at h1
        simpa using h1.symm
      exact this ▸ ⟨h2, h3⟩
  have hnd := hpath.nodup (ccLink_functional _)
  have hnew_chain : ∀ j < line.cols, ∀ x ∈ j :: chain j, x ≠ line.ccFree := fun j hj x hx =>
    h.ne_of_mem_free hj hx hfree
  refine
    { cols_le := by rw [hcols, Termline.size, hl.length]; exact h.cols_le
      path := ?_, above := ?_, disjoint := ?_, free_path := ?_
      free_above := fun p hp => by rw [hcols]; exact h.free_above p (by simp [hf, hp])
      free_disjoint := ?_ }
  · intro j hj
    rw [hcols] at hj
    by_cases hjc : j = col
    · subst hjc
      rw [Function.update_self]
      refine (h.path j hj).append (fun x hx y ⟨h3, h4, h5⟩ => ?_) ⟨?_, ?_, ?_⟩ (Chain.nil ?_)
      · have hxm : x ∈ j :: chain j := List.dropLast_subset _ hx
        have hxl : x ≠ last := by
          rintro rfl
          have hnd' := (h.path j hj).nodup (ccLink_functional _)
          rw [← List.dropLast_append_getLast (l := j :: chain j) (by simp)] at hnd'
          exact (List.disjoint_of_nodup_append hnd') hx (by simp [hlastdef])
        rw [CcLink, hl.other x hxl (hnew_chain j hj x hxm), hl.length]
        exact ⟨h3, h4, h5⟩
      · rw [hl.last]
        have := hnew_chain j hj last hmem
        show (line.ccFree : ℤ) - (last : ℤ) ≠ 0
        omega
      · rw [hl.last]
        show (last : ℤ) + ((line.ccFree : ℤ) - (last : ℤ)) = line.ccFree
        omega
      · rw [hl.length]
        exact hlt
      · rw [CcEnd, hl.new]
    · rw [Function.update_of_ne hjc]
      exact hl.path (h.path j hj) (fun x hx => h.ne_of_mem hj hcol hjc hx hmem) (hnew_chain j hj)
  · intro j hj p hp
    rw [hcols] at hj ⊢
    by_cases hjc : j = col
    · subst hjc
      rw [Function.update_self] at hp
      rcases List.mem_append.mp hp with hp | hp
      · exact h.above j hj p hp
      · rw [List.mem_singleton.mp hp]
        exact h.free_above _ hfree
    · rw [Function.update_of_ne hjc] at hp
      exact h.above j hj p hp
  · -- Only the list of `col` gets a new cell, and this one was free.
    intro i hi j hj hij
    rw [hcols] at hi hj
    have hnew : ∀ j < line.cols, line.ccFree ∉ chain j := fun j hj hx =>
      hnew_chain j hj _ (List.mem_cons_of_mem _ hx) rfl
    have key : ∀ i < line.cols, i ≠ col → (chain i).Disjoint (chain col ++ [line.ccFree]) := by
      intro i hi hic
      rw [List.disjoint_append_right]
      exact ⟨h.disjoint i hi col hcol hic, by simpa using hnew i hi⟩
    by_cases hic : i = col
    · subst hic
      rw [Function.update_self, Function.update_of_ne (Ne.symm hij)]
      exact List.disjoint_symm (key j hj (Ne.symm hij))
    · rw [Function.update_of_ne hic]
      by_cases hjc : j = col
      · subst hjc
        rw [Function.update_self]
        exact key i hi hic
      · rw [Function.update_of_ne hjc]
        exact h.disjoint i hi j hj hij
  · rw [hfr]
    cases hpath with
    | nil he =>
      left
      exact ⟨if_neg (not_not_intro he), rfl⟩
    | @cons _ k l hk hp =>
      right
      have hk' : (if (line.cell line.ccFree).ccNext ≠ 0
          then (line.ccFree + (line.cell line.ccFree).ccNext).toNat else 0) = k := by
        have h1 : (line.cell line.ccFree).ccNext ≠ 0 := hk.1
        have h2 : (line.ccFree : ℤ) + (line.cell line.ccFree).ccNext = k := hk.2.1
        rw [if_pos h1]
        omega
      rw [hk']
      refine ⟨l, rfl, hl.path hp (fun x hx hxl => ?_) (fun x hx hxn => ?_), ?_⟩
      · exact h.ne_of_mem_free hcol hmem (q := x) (by rw [hf]; exact List.mem_cons_of_mem _ hx) hxl.symm
      · rw [hxn] at hx
        exact (List.nodup_cons.mp hnd).1 hx
      · rw [Termline.size, hl.length]
        exact hk.2.2
  · intro j hj
    rw [hcols] at hj
    have hsub : ∀ i < line.cols, (chain i).Disjoint fs := fun i hi x hx hx' =>
      h.free_disjoint i hi hx (by simp [hf, hx'])
    by_cases hjc : j = col
    · subst hjc
      rw [Function.update_self, List.disjoint_append_left]
      exact ⟨hsub j hj, by simpa using (List.nodup_cons.mp hnd).1⟩
    · rw [Function.update_of_ne hjc]
      exact hsub j hj

end AddCc

/-- The cells of a line are well linked, and the combining characters of the column `j` are `f j`. -/
def Ccs (line : Termline) (f : ℕ → List UInt32) : Prop :=
  ∃ chain free, CcWf line chain free ∧ ∀ j < line.cols, chrsAt line.chars (chain j) = f j

/-- The lines have the same attributes and columns, which may differ in their combining
characters. -/
structure SameCells (line line' : Termline) : Prop where
  cols : line'.cols = line.cols
  lattr : line'.lattr = line.lattr
  chr : ∀ j < line.cols, (line'.cell j).chr = (line.cell j).chr
  attr : ∀ j < line.cols, (line'.cell j).attr = (line.cell j).attr

theorem SameCells.refl (line : Termline) : SameCells line line :=
  ⟨rfl, rfl, fun _ _ => rfl, fun _ _ => rfl⟩

theorem SameCells.trans {a b c : Termline} (h : SameCells a b) (h' : SameCells b c) :
    SameCells a c where
  cols := h'.cols.trans h.cols
  lattr := h'.lattr.trans h.lattr
  chr j hj := (h'.chr j (by rw [h.cols]; exact hj)).trans (h.chr j hj)
  attr j hj := (h'.attr j (by rw [h.cols]; exact hj)).trans (h.attr j hj)

section Ccs

variable {line : Termline} {f : ℕ → List UInt32}

theorem Ccs.ccList (h : Ccs line f) {j : ℕ} (hj : j < line.cols) : CcList line j (f j) := by
  obtain ⟨chain, free, hw, hf⟩ := h
  exact ⟨chain j, hw.path j hj, hf j hj⟩

/-- A line as `decompressline` allocates it has no combining characters. -/
theorem ccs_blank (hlen : line.chars.length = line.cols) (hfree : line.ccFree = 0)
    (hnext : ∀ j < line.cols, (line.cell j).ccNext = 0) : Ccs line fun _ => [] :=
  ⟨fun _ => [], [],
    { cols_le := Nat.le_of_eq hlen.symm
      path := fun j hj => Chain.nil (hnext j hj)
      above := by simp
      disjoint := by simp
      free_path := Or.inl ⟨hfree, rfl⟩
      free_above := by simp
      free_disjoint := by simp },
    fun _ _ => rfl⟩

/-- The extension of the array does not touch the list of a column. -/
theorem Ccs.extendCc (h : Ccs line f) (hcols : 0 < line.cols) :
    ∃ chain free, CcWf (extendCc line) chain free ∧
      (∀ j < line.cols, chrsAt (extendCc line).chars (chain j) = f j) ∧
      (extendCc line).ccFree ∈ free := by
  obtain ⟨chain, free, hw, hf⟩ := h
  obtain ⟨free', hw', hne, hcell, -, -⟩ := extendCc_spec hw hcols
  refine ⟨chain, free', hw', fun j hj => ?_, ?_⟩
  · rw [← hf j hj]
    refine List.map_congr_left fun p hp => ?_
    exact congrArg Termchar.chr (hcell p ((hw.path j hj).lt_length p hp))
  · rcases hw'.free_path with ⟨-, h1⟩ | ⟨ps, h1, -, -⟩
    · exact absurd h1 hne
    · simp [h1]

theorem extendCc_sameCells (line : Termline) (h : line.cols ≤ line.size) :
    SameCells line (extendCc line) := by
  unfold extendCc
  split
  · refine ⟨rfl, rfl, fun j hj => ?_, fun j hj => ?_⟩ <;>
    · simp only [Termline.cell]
      rw [List.getD_append _ _ _ _ (Nat.lt_of_lt_of_le hj h)]
  · exact SameCells.refl line

/-- The array is extended only once. -/
theorem addCcAt_extendCc (line : Termline) (col : ℕ) (chr : UInt32) (h : line.size ≠ 0) :
    addCcAt (extendCc line) col chr = addCcAt line col chr := by
  have : extendCc (extendCc line) = extendCc line := by
    by_cases h0 : line.ccFree = 0 <;> simp [extendCc, h0, h]
  simp only [addCcAt, this]

/-- **`add_cc` adds a character at the end of the list of one column and leaves the rest of the
line as it is.** -/
theorem addCc_spec (h : Ccs line f) {col : ℕ} (hcol : col < line.cols) (chr : UInt32) :
    ∃ line', addCc line col chr = .ok line' ∧ SameCells line line' ∧
      Ccs line' (Function.update f col (f col ++ [chr])) := by
  have hsize : line.cols ≤ line.size := by
    obtain ⟨_, _, hw, _⟩ := h
    exact hw.cols_le
  have hsame := extendCc_sameCells line hsize
  obtain ⟨chain, free, hw, hf, hfree⟩ := h.extendCc (Nat.lt_of_le_of_lt (Nat.zero_le _) hcol)
  refine ⟨addCcAt line col chr, by simp [addCc, check, hcol, bind, Except.bind, pure, Except.pure],
    ?_⟩
  rw [← addCcAt_extendCc line col chr (by omega), ← hsame.cols] at *
  suffices h : SameCells (Terminal.extendCc line) (addCcAt (Terminal.extendCc line) col chr) ∧
      Ccs (addCcAt (Terminal.extendCc line) col chr) (Function.update f col (f col ++ [chr])) from
    ⟨hsame.trans h.1, h.2⟩
  generalize Terminal.extendCc line = line1 at *
  obtain ⟨hl, -⟩ := addCcAt_linked hw hcol chr hfree
  obtain ⟨fs, hfs⟩ : ∃ fs, free = line1.ccFree :: fs := by
    rcases hw.free_path with ⟨-, h1⟩ | ⟨ps, h1, -, -⟩
    · simp [h1] at hfree
    · exact ⟨ps, h1⟩
  have hlattr : (addCcAt line1 col chr).lattr = line1.lattr := by
    simp only [addCcAt, Terminal.extendCc]
    split <;> rfl
  have hcols : (addCcAt line1 col chr).cols = line1.cols := by
    simp only [addCcAt, Terminal.extendCc]
    split <;> rfl
  have hnew : line1.cols ≤ line1.ccFree := hw.free_above _ hfree
  refine ⟨⟨hcols, hlattr, fun j hj => hl.chr_eq (by omega), fun j hj => hl.attr_eq j⟩,
    _, fs, addCcAt_wf hw hcol chr hfs, fun j hj => ?_⟩
  rw [hcols] at hj
  have hold : ∀ j < line1.cols, chrsAt (addCcAt line1 col chr).chars (chain j) = f j := by
    intro j hj
    rw [← hf j hj]
    refine List.map_congr_left fun p hp => hl.chr_eq ?_
    exact hw.ne_of_mem_free hj (List.mem_cons_of_mem _ hp) hfree
  by_cases hjc : j = col
  · subst hjc
    rw [Function.update_self, Function.update_self, ← hold j hj]
    simp only [chrsAt, List.map_append, List.map_cons, List.map_nil]
    rw [hl.new]
  · rw [Function.update_of_ne hjc, Function.update_of_ne hjc]
    exact hold j hj

end Ccs

end PuttyNd.Terminal
