import PuttyNd.Terminal.Termline
import PuttyNd.Terminal.Proofs.TermlineProofs

/-!
# Proofs: lines as rows of cells

Every operation on the combining characters of a line keeps what `cc_check` tests, and does to the cells
what `contentStep` says.
-/

namespace PuttyNd.Terminal

variable {line line' : Termline} {chain : ℕ → List ℕ} {free : List ℕ}

/-- The lists of a line and its free list fill the cells above the columns. -/
structure CcFull (line : Termline) (chain : ℕ → List ℕ) (free : List ℕ) : Prop
    extends CcWf line chain free where
  pos : 0 < line.cols
  covers : ∀ p, line.cols ≤ p → p < line.size → p ∈ free ∨ ∃ j < line.cols, p ∈ chain j

/-- Only the links of the cells differ. -/
structure Relinked (line line' : Termline) : Prop where
  cols : line'.cols = line.cols
  size : line'.chars.length = line.chars.length
  chr : ∀ x, (line'.cell x).chr = (line.cell x).chr
  attr : ∀ x, (line'.cell x).attr = (line.cell x).attr

theorem Relinked.chrsAt_eq (h : Relinked line line') (ps : List ℕ) :
    chrsAt line'.chars ps = chrsAt line.chars ps :=
  List.map_congr_left fun p _ => h.chr p

/-- A list whose links are the same. -/
theorem CcPath.relink {chars chars' : List Termchar} {a : ℕ} {l : List ℕ} (h : CcPath chars a l)
    (hlen : chars'.length = chars.length)
    (hnext : ∀ x ∈ a :: l, (chars'.getD x default).ccNext = (chars.getD x default).ccNext) :
    CcPath chars' a l := by
  refine h.congr (fun x hx y ⟨h3, h4, h5⟩ => ?_) (fun x hx h3 => ?_)
  · rw [CcLink, hnext x hx, hlen]
    exact ⟨h3, h4, h5⟩
  · exact (hnext x hx).trans h3

theorem CcPath.last_notMem {chars : List Termchar} {j : ℕ} {ps : List ℕ} (h : CcPath chars j ps) :
    (j :: ps).getLast (by simp) ∉ (j :: ps).dropLast := by
  have hnd := h.nodup (ccLink_functional _)
  rw [← List.dropLast_append_getLast (l := j :: ps) (by simp)] at hnd
  intro hmem
  exact (List.disjoint_of_nodup_append hnd) hmem (by simp)

/-! ## Clearing a list -/

/-- What `clear_cc` does to the cells: the list of the column is linked to the free list. -/
structure Unlinked (line line' : Termline) (col last : ℕ) : Prop extends Relinked line line' where
  other : ∀ x, x ≠ last → x ≠ col → (line'.cell x).ccNext = (line.cell x).ccNext
  ends : (line'.cell last).ccNext = if line.ccFree ≠ 0 then (line.ccFree : ℤ) - last else 0
  empty : (line'.cell col).ccNext = 0
  head : (line'.ccFree : ℤ) = col + (line.cell col).ccNext

theorem clearCcAt_nil {col : ℕ} (hnil : CcEnd line.chars col) : clearCcAt line col = line :=
  if_pos hnil

theorem clearCcAt_unlinked (h : CcWf line chain free) {col k : ℕ} {ks : List ℕ} (hcol : col < line.cols)
    (hchain : chain col = k :: ks) :
    Unlinked line (clearCcAt line col) col ((k :: ks).getLast (by simp)) := by
  have hpath := h.path col hcol
  rw [hchain] at hpath
  have hlink := hpath.inv_cons.1
  have hlast : lastCc line.chars line.size col = (k :: ks).getLast (by simp) := by
    rw [lastCc_spec hpath line.size (Nat.le_of_lt (hpath.length_lt (Nat.lt_of_lt_of_le hcol h.cols_le)))]
    simp
  set last := (k :: ks).getLast (by simp) with hlastdef
  have hmem : last ∈ k :: ks := List.getLast_mem _
  have hlt : last < line.chars.length := hpath.lt_length _ hmem
  have hge : line.cols ≤ last := h.above col hcol _ (hchain ▸ hmem)
  have hcl : col < line.chars.length := Nat.lt_of_lt_of_le hcol h.cols_le
  have heq : clearCcAt line col =
      { line with
        ccFree := (col + (line.cell col).ccNext).toNat
        chars := (line.chars.modify last fun c =>
          { c with ccNext := if line.ccFree ≠ 0 then line.ccFree - last else 0 }).modify col
            fun c => { c with ccNext := 0 } } := by
    have hne : (line.cell col).ccNext ≠ 0 := hlink.1
    simp only [clearCcAt, if_neg hne, hlast]
  rw [heq]
  have hcell : ∀ x, (Termline.cell { line with
        ccFree := (col + (line.cell col).ccNext).toNat
        chars := (line.chars.modify last fun c =>
          { c with ccNext := if line.ccFree ≠ 0 then line.ccFree - last else 0 }).modify col
            fun c => { c with ccNext := 0 } } x) =
      if x = col then { line.cell x with ccNext := 0 }
      else if x = last then
        { line.cell x with ccNext := if line.ccFree ≠ 0 then (line.ccFree : ℤ) - last else 0 }
      else line.cell x := by
    intro x
    simp only [Termline.cell, getD_modify, List.length_modify]
    by_cases hx : x = col
    · subst hx
      rw [if_pos ⟨rfl, hcl⟩, if_neg (by omega), if_pos rfl]
    · rw [if_neg (by tauto), if_neg hx]
      by_cases hxl : x = last
      · subst hxl
        rw [if_pos ⟨rfl, hlt⟩, if_pos rfl]
      · rw [if_neg (by tauto), if_neg hxl]
  refine
    { cols := rfl
      size := by simp
      chr := fun x => by rw [hcell]; split_ifs <;> rfl
      attr := fun x => by rw [hcell]; split_ifs <;> rfl
      other := fun x h1 h2 => by rw [hcell, if_neg h2, if_neg h1]
      ends := by rw [hcell, if_neg (by omega), if_pos rfl]
      empty := by rw [hcell, if_pos rfl]
      head := ?_ }
  have hhead := hlink.2.1
  simp only [Termline.cell]
  omega

/-- A list that `clear_cc` does not touch. -/
theorem Unlinked.path {col last a : ℕ} {l : List ℕ} (hu : Unlinked line line' col last)
    (h : CcPath line.chars a l) (h1 : ∀ x ∈ a :: l, x ≠ last) (h2 : ∀ x ∈ a :: l, x ≠ col) :
    CcPath line'.chars a l :=
  h.relink hu.size fun x hx => hu.other x (h1 x hx) (h2 x hx)

/-- **`clear_cc` puts the list of a column in front of the free list.** -/
theorem clearCcAt_full (h : CcFull line chain free) {col : ℕ} (hcol : col < line.cols) :
    Relinked line (clearCcAt line col) ∧
      CcFull (clearCcAt line col) (Function.update chain col []) (chain col ++ free) := by
  cases hchain : chain col with
  | nil =>
    have hend := h.path col hcol
    rw [hchain] at hend
    rw [clearCcAt_nil hend.inv_nil, ← hchain, Function.update_eq_self, hchain]
    exact ⟨⟨rfl, rfl, fun _ => rfl, fun _ => rfl⟩, h⟩
  | cons k ks =>
    have hu := clearCcAt_unlinked h.toCcWf hcol hchain
    refine ⟨hu.toRelinked, ?_⟩
    set last := (k :: ks).getLast (by simp) with hlastdef
    have hpath := h.path col hcol
    rw [hchain] at hpath
    obtain ⟨hlink, hks⟩ := hpath.inv_cons
    have hmem : last ∈ k :: ks := List.getLast_mem _
    have hlastmem : last ∈ col :: chain col := by simp [hchain, hmem]
    have hcolmem : col ∈ col :: chain col := by simp
    have hother : ∀ j < line.cols, j ≠ col → ∀ x ∈ j :: chain j, x ≠ last ∧ x ≠ col :=
      fun j hj hne x hx => ⟨h.ne_of_mem hj hcol hne hx hlastmem, h.ne_of_mem hj hcol hne hx hcolmem⟩
    have hhead : (clearCcAt line col).ccFree = k := by
      have h1 := hu.head
      have h2 := hlink.2.1
      simp only [Termline.cell] at h1
      omega
    have hk : line.cols ≤ k := h.above col hcol k (by simp [hchain])
    have hab : ∀ x ∈ k :: ks, x ≠ col := by
      intro x hx hxc
      have := h.above col hcol x (by rw [hchain]; exact hx)
      omega
    have hnl := CcPath.last_notMem hks
    have hstep : ∀ x ∈ (k :: ks).dropLast, ∀ y, CcLink line.chars x y →
        CcLink (clearCcAt line col).chars x y := by
      rintro x hx y ⟨h3, h4, h5⟩
      have hx' := hu.other x (by rintro rfl; exact hnl hx) (hab x (List.dropLast_subset _ hx))
      exact ⟨fun h => h3 (hx' ▸ h), by rw [← h4]; exact congrArg (_ + ·) hx', by rw [hu.size]; exact h5⟩
    refine
      { cols_le := by rw [hu.cols, Termline.size, hu.size]; exact h.cols_le
        pos := hu.cols.symm ▸ h.pos
        path := ?_, above := ?_, disjoint := ?_, free_path := Or.inr ?_, free_above := ?_
        free_disjoint := ?_, covers := ?_ }
    · intro j hj
      rw [hu.cols] at hj
      by_cases hjc : j = col
      · subst hjc
        rw [Function.update_self]
        exact Chain.nil hu.empty
      · rw [Function.update_of_ne hjc]
        exact hu.path (h.path j hj) (fun x hx => (hother j hj hjc x hx).1)
          (fun x hx => (hother j hj hjc x hx).2)
    · intro j hj p hp
      rw [hu.cols] at hj ⊢
      by_cases hjc : j = col
      · subst hjc
        simp at hp
      · rw [Function.update_of_ne hjc] at hp
        exact h.above j hj p hp
    · intro i hi j hj hij
      rw [hu.cols] at hi hj
      by_cases hic : i = col
      · subst hic
        simp
      · by_cases hjc : j = col
        · subst hjc
          simp
        · rw [Function.update_of_ne hic, Function.update_of_ne hjc]
          exact h.disjoint i hi j hj hij
    · rw [hhead]
      have hsize : k < (clearCcAt line col).size := by
        rw [Termline.size, hu.size]
        exact hlink.2.2
      rcases h.free_path with ⟨h0, hf⟩ | ⟨ps, hf, hp, hlt⟩
      · refine ⟨ks, by simp [hf], hks.ends hstep ?_, hsize⟩
        exact hu.ends.trans (by rw [if_neg (not_not_intro h0)])
      · have hfree : line.ccFree ∈ free := by simp [hf]
        have hfa := h.free_above _ hfree
        refine ⟨ks ++ line.ccFree :: ps, by simp [hf], hks.append hstep ⟨?_, ?_, ?_⟩ ?_, hsize⟩
        · have hne : last ≠ line.ccFree := h.ne_of_mem_free hcol hlastmem hfree
          have hl := hu.ends
          rw [if_pos (by omega)] at hl
          show ((clearCcAt line col).cell last).ccNext ≠ 0
          omega
        · have hl := hu.ends
          rw [if_pos (by omega)] at hl
          show (last : ℤ) + ((clearCcAt line col).cell last).ccNext = line.ccFree
          omega
        · rw [hu.size]
          exact hlt
        · refine hu.path hp (fun x hx => ?_) (fun x hx => ?_)
          · exact (h.ne_of_mem_free hcol hlastmem (by rw [hf]; exact hx)).symm
          · exact (h.ne_of_mem_free hcol hcolmem (by rw [hf]; exact hx)).symm
    · intro p hp
      rw [hu.cols]
      rcases List.mem_append.mp hp with hp | hp
      · exact h.above col hcol p (by rw [hchain]; exact hp)
      · exact h.free_above p hp
    · intro j hj
      rw [hu.cols] at hj
      by_cases hjc : j = col
      · subst hjc
        simp
      · rw [Function.update_of_ne hjc, List.disjoint_append_right, ← hchain]
        exact ⟨h.disjoint j hj col hcol hjc, h.free_disjoint j hj⟩
    · intro p hp1 hp2
      rw [hu.cols] at hp1 ⊢
      rw [Termline.size, hu.size] at hp2
      rcases h.covers p hp1 hp2 with hp | ⟨j, hj, hp⟩
      · exact Or.inl (List.mem_append_right _ hp)
      · by_cases hjc : j = col
        · subst hjc
          exact Or.inl (List.mem_append_left _ (hchain ▸ hp))
        · exact Or.inr ⟨j, hj, by rwa [Function.update_of_ne hjc]⟩

/-! ## The contents -/

theorem ccChrs_spec {chars : List Termchar} {j : ℕ} {ps : List ℕ} (h : CcPath chars j ps) :
    ∀ fuel, ps.length ≤ fuel → ccChrs chars fuel j = chrsAt chars ps := by
  induction h with
  | @nil j h =>
    intro fuel _
    cases fuel with
    | zero => rfl
    | succ fuel => exact if_pos h
  | @cons j k ps h1 _ ih =>
    intro fuel hf
    obtain ⟨fuel, rfl⟩ : ∃ f, fuel = f + 1 := ⟨fuel - 1, by simp at hf; omega⟩
    simp only [ccChrs]
    rw [if_neg h1.1, h1.2.1, Int.toNat_natCast, ih fuel (by simpa using hf)]
    rfl

theorem CcWf.content_eq (h : CcWf line chain free) {j : ℕ} (hj : j < line.cols) :
    line.content j = ⟨(line.cell j).chr, (line.cell j).attr, chrsAt line.chars (chain j)⟩ := by
  have hlt := (h.path j hj).length_lt (Nat.lt_of_lt_of_le hj h.cols_le)
  rw [Termline.content, ccChrs_spec (h.path j hj) line.size (Nat.le_of_lt hlt)]

@[simp] theorem length_contents (line : Termline) : line.contents.length = line.cols := by
  simp [Termline.contents]

theorem getElem?_contents (line : Termline) (j : ℕ) :
    line.contents[j]? = if j < line.cols then some (line.content j) else none := by
  by_cases hj : j < line.cols
  · simp [Termline.contents, hj]
  · simp [Termline.contents, hj]

/-- The contents when one column changes. -/
theorem contents_modify {col : ℕ} {g : Content → Content} (hcols : line'.cols = line.cols)
    (h : ∀ j < line.cols, line'.content j = if col = j then g (line.content j) else line.content j) :
    line'.contents = line.contents.modify col g := by
  refine List.ext_getElem? fun j => ?_
  rw [List.getElem?_modify, getElem?_contents, getElem?_contents, hcols]
  by_cases hj : j < line.cols
  · rw [if_pos hj, if_pos hj, h j hj]
    by_cases hjc : col = j
    · simp [hjc]
    · simp [hjc]
  · simp [hj]

/-- A line whose linked lists are in order. -/
def Full (line : Termline) : Prop := ∃ chain free, CcFull line chain free

theorem clearCc_spec (h : Full line) {col : ℕ} (hcol : col < line.cols) :
    ∃ line', clearCc line col = .ok line' ∧ Full line' ∧ line'.cols = line.cols ∧
      line'.contents = line.contents.modify col fun c => { c with ccs := [] } := by
  obtain ⟨chain, free, h⟩ := h
  obtain ⟨hr, hf⟩ := clearCcAt_full h hcol
  refine ⟨clearCcAt line col, ?_, ⟨_, _, hf⟩, hr.cols, contents_modify hr.cols fun j hj => ?_⟩
  · simp [clearCc, check, hcol, bind, Except.bind, pure, Except.pure]
  · rw [hf.content_eq (hr.cols ▸ hj), h.content_eq hj, hr.chr, hr.attr, hr.chrsAt_eq]
    by_cases hjc : col = j
    · subst hjc
      simp [chrsAt]
    · rw [if_neg hjc, Function.update_of_ne (Ne.symm hjc)]

/-! ## Adding a character -/

theorem extendCc_full (h : CcFull line chain free) (hcols : 0 < line.cols) :
    ∃ free', CcFull (extendCc line) chain free' ∧ (extendCc line).ccFree ∈ free' ∧
      (extendCc line).contents = line.contents := by
  obtain ⟨free', hw, hne, hcell, hle, hsub⟩ := extendCc_spec h.toCcWf hcols
  have hc : (extendCc line).cols = line.cols := (extendCc_sameCells line h.cols_le).cols
  refine ⟨free', { toCcWf := hw, pos := hc.symm ▸ h.pos, covers := fun p hp1 hp2 => ?_ }, ?_, ?_⟩
  · rw [hc] at hp1 ⊢
    by_cases hp : p < line.size
    · rcases h.covers p hp1 hp with hp | hp
      · exact Or.inl (hsub p (Or.inl hp))
      · exact Or.inr hp
    · exact Or.inl (hsub p (Or.inr ⟨by omega, hp2⟩))
  · rcases hw.free_path with ⟨-, h1⟩ | ⟨ps, h1, -, -⟩
    · exact absurd h1 hne
    · simp [h1]
  · rw [← List.modify_id 0 line.contents]
    refine contents_modify hc fun j hj => ?_
    have hlt := Nat.lt_of_lt_of_le hj h.cols_le
    have hchrs : chrsAt (extendCc line).chars (chain j) = chrsAt line.chars (chain j) :=
      List.map_congr_left fun p hp => congrArg Termchar.chr (hcell p ((h.path j hj).lt_length p hp))
    rw [hw.content_eq (hc ▸ hj), h.content_eq hj, hcell j hlt, hchrs, id, ite_self]

theorem addCcAt_full (h : CcFull line chain free) {col : ℕ} (hcol : col < line.cols) (chr : UInt32)
    (hfree : line.ccFree ∈ free) :
    Full (addCcAt line col chr) ∧ (addCcAt line col chr).cols = line.cols ∧
      (addCcAt line col chr).contents =
        line.contents.modify col fun c => { c with ccs := c.ccs ++ [chr] } := by
  obtain ⟨hl, -⟩ := addCcAt_linked h.toCcWf hcol chr hfree
  obtain ⟨fs, hfs⟩ : ∃ fs, free = line.ccFree :: fs := by
    rcases h.free_path with ⟨-, h1⟩ | ⟨ps, h1, -, -⟩
    · simp [h1] at hfree
    · exact ⟨ps, h1⟩
  have hw := addCcAt_wf h.toCcWf hcol chr hfs
  have hcols : (addCcAt line col chr).cols = line.cols := by
    simp only [addCcAt, extendCc]
    split <;> rfl
  have hge := h.free_above _ hfree
  refine ⟨⟨_, fs, { toCcWf := hw, pos := hcols.symm ▸ h.pos, covers := fun p hp1 hp2 => ?_ }⟩, hcols,
    contents_modify hcols fun j hj => ?_⟩
  · rw [hcols] at hp1 ⊢
    rw [Termline.size, hl.length] at hp2
    rcases h.covers p hp1 hp2 with hp | ⟨j, hj, hp⟩
    · rw [hfs] at hp
      rcases List.mem_cons.mp hp with rfl | hp
      · exact Or.inr ⟨col, hcol, by simp⟩
      · exact Or.inl hp
    · refine Or.inr ⟨j, hj, ?_⟩
      by_cases hjc : j = col
      · subst hjc
        simp [hp]
      · rwa [Function.update_of_ne hjc]
  · have hold : ∀ i < line.cols,
        chrsAt (addCcAt line col chr).chars (chain i) = chrsAt line.chars (chain i) := fun i hi =>
      List.map_congr_left fun p hp => hl.chr_eq (h.ne_of_mem_free hi (List.mem_cons_of_mem _ hp) hfree)
    have hchr : ((addCcAt line col chr).cell j).chr = (line.cell j).chr := hl.chr_eq (by omega)
    have hattr : ((addCcAt line col chr).cell j).attr = (line.cell j).attr := hl.attr_eq j
    have hnew : ((addCcAt line col chr).chars.getD line.ccFree default).chr = chr := by rw [hl.new]
    rw [hw.content_eq (hcols ▸ hj), h.content_eq hj, hchr, hattr]
    by_cases hjc : col = j
    · subst hjc
      rw [Function.update_self, if_pos rfl, ← hold col hcol]
      simp only [chrsAt, List.map_append, List.map_cons, List.map_nil, hnew]
    · rw [Function.update_of_ne (Ne.symm hjc), if_neg hjc, hold j hj]

theorem addCc_full (h : Full line) {col : ℕ} (hcol : col < line.cols) (chr : UInt32) :
    ∃ line', addCc line col chr = .ok line' ∧ Full line' ∧ line'.cols = line.cols ∧
      line'.contents = line.contents.modify col fun c => { c with ccs := c.ccs ++ [chr] } := by
  obtain ⟨chain, free, h⟩ := h
  have hpos : 0 < line.cols := Nat.lt_of_le_of_lt (Nat.zero_le _) hcol
  have hle := h.cols_le
  have hc : (extendCc line).cols = line.cols := (extendCc_sameCells line hle).cols
  obtain ⟨free', h', hfree, hcont⟩ := extendCc_full h hpos
  obtain ⟨h1, h2, h3⟩ := addCcAt_full h' (hc ▸ hcol) chr hfree
  rw [addCcAt_extendCc line col chr (by omega)] at h1 h2 h3
  refine ⟨addCcAt line col chr, ?_, h1, h2.trans hc, hcont ▸ h3⟩
  simp [addCc, check, hcol, bind, Except.bind, pure, Except.pure]

theorem addCcs_full (h : Full line) {col : ℕ} (hcol : col < line.cols) (ccs : List UInt32) :
    ∃ line', ccs.foldlM (fun line chr => addCc line col chr) line = .ok line' ∧ Full line' ∧
      line'.cols = line.cols ∧
      line'.contents = line.contents.modify col fun c => { c with ccs := c.ccs ++ ccs } := by
  induction ccs generalizing line with
  | nil =>
    refine ⟨line, rfl, h, rfl, ?_⟩
    simp only [List.append_nil]
    exact (List.modify_id col _).symm
  | cons chr ccs ih =>
    obtain ⟨line1, h1, hf1, hc1, he1⟩ := addCc_full h hcol chr
    obtain ⟨line2, h2, hf2, hc2, he2⟩ := ih hf1 (hc1 ▸ hcol)
    refine ⟨line2, ?_, hf2, hc2.trans hc1, ?_⟩
    · rw [List.foldlM_cons, h1]
      exact h2
    · rw [he2, he1, List.modify_modify_eq]
      simp [Function.comp_def]

/-! ## Copying and moving a cell -/

/-- A cell without a list is stored. -/
theorem setCell_full (h : CcFull line chain free) {x : ℕ} (hx : x < line.cols) (hempty : chain x = [])
    (c : Termchar) (hc : c.ccNext = 0) :
    CcFull { line with chars := line.chars.set x c } chain free ∧
      Termline.contents { line with chars := line.chars.set x c } = line.contents.set x c.content := by
  have hlt : x < line.chars.length := Nat.lt_of_lt_of_le hx h.cols_le
  have hcell : ∀ y, (line.chars.set x c).getD y default =
      if x = y then c else line.chars.getD y default := by
    intro y
    simp only [List.getD_eq_getElem?_getD, List.getElem?_set]
    by_cases hxy : x = y
    · subst hxy
      simp [hlt]
    · simp [hxy]
  have hpath : ∀ a l, CcPath line.chars a l → (∀ y ∈ a :: l, y ≠ x) → CcPath (line.chars.set x c) a l :=
    fun a l hp hne => hp.relink (by simp) fun y hy => by rw [hcell, if_neg (hne y hy).symm]
  have hfull : CcFull { line with chars := line.chars.set x c } chain free := by
    refine
      { cols_le := by simpa [Termline.size] using h.cols_le
        pos := h.pos
        path := ?_, above := h.above, disjoint := h.disjoint, free_path := ?_, free_above := h.free_above
        free_disjoint := h.free_disjoint
        covers := by simpa [Termline.size] using h.covers }
    · intro j hj
      by_cases hjx : j = x
      · subst hjx
        rw [hempty]
        exact Chain.nil (by rw [CcEnd, hcell, if_pos rfl, hc])
      · exact hpath j _ (h.path j hj) fun y hy => h.ne_of_mem hj hx hjx hy (by simp)
    · rcases h.free_path with h0 | ⟨ps, hf, hp, hlt'⟩
      · exact Or.inl h0
      · refine Or.inr ⟨ps, hf, hpath _ _ hp fun y hy => ?_, by simpa [Termline.size] using hlt'⟩
        have := h.free_above y (by rw [hf]; exact hy)
        omega
  refine ⟨hfull, ?_⟩
  have hset : line.contents.set x c.content = line.contents.modify x fun _ => c.content := by
    rw [List.set_eq_modify]
  rw [hset]
  refine contents_modify rfl fun j hj => ?_
  have hchrs : chrsAt (line.chars.set x c) (chain j) = chrsAt line.chars (chain j) :=
    List.map_congr_left fun p hp => by
      have := h.above j hj p hp
      rw [hcell, if_neg (by omega)]
  rw [hfull.content_eq hj, h.content_eq hj, hchrs]
  simp only [Termline.cell, hcell]
  by_cases hxj : x = j
  · subst hxj
    rw [if_pos rfl, if_pos rfl, hempty]
    rfl
  · rw [if_neg hxj, if_neg hxj]

theorem copyTermchar_full (h : Full line) {x : ℕ} (hx : x < line.cols) (c : Termchar) (ccs : List UInt32) :
    ∃ line', copyTermchar line x c ccs = .ok line' ∧ Full line' ∧ line'.cols = line.cols ∧
      line'.contents = line.contents.set x ⟨c.chr, c.attr, ccs⟩ := by
  obtain ⟨chain, free, h⟩ := h
  obtain ⟨hr, hf⟩ := clearCcAt_full h hx
  have hc1 : (clearCcAt line x).cols = line.cols := hr.cols
  have hclear : clearCc line x = .ok (clearCcAt line x) := by
    simp [clearCc, check, hx, bind, Except.bind, pure, Except.pure]
  have hcont : (clearCcAt line x).contents = line.contents.modify x fun c => { c with ccs := [] } := by
    obtain ⟨line1, h1, -, -, h2⟩ := clearCc_spec ⟨chain, free, h⟩ hx
    rw [hclear] at h1
    cases h1
    exact h2
  obtain ⟨hf2, he2⟩ := setCell_full hf (hc1.symm ▸ hx) (by simp) { c with ccNext := 0 } rfl
  obtain ⟨line3, h3, hf3, hc3, he3⟩ := addCcs_full ⟨_, _, hf2⟩ (hc1.symm ▸ hx) ccs
  refine ⟨line3, ?_, hf3, hc3.trans hc1, ?_⟩
  · rw [copyTermchar, hclear]
    exact h3
  · rw [he3, he2, hcont]
    refine List.ext_getElem? fun j => ?_
    simp only [List.getElem?_modify, List.getElem?_set, List.length_modify, Termchar.content]
    by_cases hxj : x = j
    · subst hxj
      simp [hx]
    · simp [hxj]

/-- What `move_termchar` does after the list of the destination has been cleared. -/
theorem moveCell_full (h : CcFull line chain free) {dest src : ℕ} (hd : dest < line.cols)
    (hs : src < line.cols) (hne : dest ≠ src) (hempty : chain dest = []) :
    let line' := { line with
      chars := (line.chars.set dest
        { line.cell src with
          ccNext := if (line.cell src).ccNext ≠ 0 then (line.cell src).ccNext - ((dest : ℤ) - src)
            else (line.cell src).ccNext }).modify src fun c => { c with ccNext := 0 } }
    Full line' ∧ line'.contents =
      (line.contents.set dest (line.content src)).modify src fun c => { c with ccs := [] } := by
  intro line'
  have hdl : dest < line.chars.length := Nat.lt_of_lt_of_le hd h.cols_le
  have hsl : src < line.chars.length := Nat.lt_of_lt_of_le hs h.cols_le
  have hcell : ∀ y, line'.cell y =
      if y = src then { line.cell src with ccNext := 0 }
      else if y = dest then
        { line.cell src with
          ccNext := if (line.cell src).ccNext ≠ 0 then (line.cell src).ccNext - ((dest : ℤ) - src)
            else (line.cell src).ccNext }
      else line.cell y := by
    intro y
    show ((line.chars.set dest _).modify src _).getD y default = _
    rw [getD_modify]
    simp only [List.getD_eq_getElem?_getD, List.getElem?_set, List.length_set]
    by_cases hys : y = src
    · subst hys
      rw [if_pos ⟨rfl, hsl⟩, if_pos rfl, if_neg hne]
      simp [Termline.cell]
    · rw [if_neg (by tauto), if_neg hys]
      by_cases hyd : y = dest
      · subst hyd
        rw [if_pos rfl, if_pos rfl, if_pos hdl]
        rfl
      · rw [if_neg (Ne.symm hyd), if_neg hyd]
        simp [Termline.cell]
  have hlen : line'.chars.length = line.chars.length := by simp [line']
  have hkeep : ∀ a l, CcPath line.chars a l → (∀ y ∈ a :: l, y ≠ src ∧ y ≠ dest) →
      CcPath line'.chars a l := by
    intro a l hp hy
    refine hp.relink hlen fun y hy' => ?_
    have h1 := hcell y
    rw [if_neg (hy y hy').1, if_neg (hy y hy').2] at h1
    exact congrArg Termchar.ccNext h1
  have hhigh : ∀ y, line.cols ≤ y → y ≠ src ∧ y ≠ dest := fun y hy => by omega
  have hmoved : CcPath line'.chars dest (chain src) := by
    cases hchain : chain src with
    | nil =>
      have hend := h.path src hs
      rw [hchain] at hend
      have h0 : (line.cell src).ccNext = 0 := hend.inv_nil
      refine Chain.nil ?_
      have h1 := hcell dest
      rw [if_neg hne, if_pos rfl, if_neg (not_not_intro h0)] at h1
      exact (congrArg Termchar.ccNext h1).trans h0
    | cons k ks =>
      have hp := h.path src hs
      rw [hchain] at hp
      obtain ⟨⟨h1, h2, h3⟩, hks⟩ := hp.inv_cons
      have hab : ∀ y ∈ k :: ks, line.cols ≤ y := fun y hy => h.above src hs y (hchain ▸ hy)
      have hk := hab k (by simp)
      have h4 := congrArg Termchar.ccNext (hcell dest)
      rw [if_neg hne, if_pos rfl] at h4
      have h5 : (line'.cell dest).ccNext = (line.cell src).ccNext - ((dest : ℤ) - src) :=
        h4.trans (if_pos h1)
      refine Chain.cons ⟨?_, ?_, ?_⟩ (hkeep k ks hks fun y hy => hhigh y (hab y hy))
      · show (line'.cell dest).ccNext ≠ 0
        simp only [Termline.cell] at h5 ⊢
        omega
      · show (dest : ℤ) + (line'.cell dest).ccNext = k
        simp only [Termline.cell] at h5 ⊢
        omega
      · rw [hlen]
        exact h3
  have hsrc : CcPath line'.chars src [] := by
    have h1 := congrArg Termchar.ccNext (hcell src)
    rw [if_pos rfl] at h1
    exact Chain.nil h1
  set chain' := Function.update (Function.update chain dest (chain src)) src [] with hchain'
  have hcs : chain' src = [] := by simp [hchain']
  have hcd : chain' dest = chain src := by simp [hchain', hne]
  have hco : ∀ j, j ≠ src → j ≠ dest → chain' j = chain j := fun j h1 h2 => by simp [hchain', h1, h2]
  -- every list of the new line is one of the old line
  have hfrom : ∀ j < line.cols, chain' j = [] ∨
      ∃ i < line.cols, chain' j = chain i ∧ (i = j ∧ j ≠ src ∧ j ≠ dest ∨ j = dest ∧ i = src) := by
    intro j hj
    by_cases h1 : j = src
    · exact Or.inl (h1 ▸ hcs)
    · by_cases h2 : j = dest
      · exact Or.inr ⟨src, hs, h2 ▸ hcd, Or.inr ⟨h2, rfl⟩⟩
      · exact Or.inr ⟨j, hj, hco j h1 h2, Or.inl ⟨rfl, h1, h2⟩⟩
  have hfull : CcFull line' chain' free := by
    refine
      { cols_le := by simpa [Termline.size, hlen] using h.cols_le
        pos := h.pos
        path := ?_, above := ?_, disjoint := ?_, free_path := ?_, free_above := h.free_above
        free_disjoint := ?_, covers := ?_ }
    · intro j hj
      by_cases h1 : j = src
      · subst h1
        rw [hcs]
        exact hsrc
      · by_cases h2 : j = dest
        · subst h2
          rw [hcd]
          exact hmoved
        · rw [hco j h1 h2]
          refine hkeep j _ (h.path j hj) fun y hy => ⟨?_, ?_⟩
          · exact h.ne_of_mem hj hs h1 hy (by simp)
          · exact h.ne_of_mem hj hd h2 hy (by simp)
    · intro j hj p hp
      rcases hfrom j hj with h1 | ⟨i, hi, h1, -⟩
      · simp [h1] at hp
      · exact h.above i hi p (h1 ▸ hp)
    · intro i hi j hj hij
      rcases hfrom i hi with h1 | ⟨i', hi', h1, hi''⟩
      · simp [h1]
      · rcases hfrom j hj with h2 | ⟨j', hj', h2, hj''⟩
        · simp [h2]
        · rw [h1, h2]
          exact h.disjoint i' hi' j' hj' (by omega)
    · rcases h.free_path with h0 | ⟨ps, hf, hp, hlt⟩
      · exact Or.inl h0
      · refine Or.inr ⟨ps, hf, hkeep _ _ hp fun y hy => hhigh y (h.free_above y (by rw [hf]; exact hy)), ?_⟩
        rw [Termline.size, hlen]
        exact hlt
    · intro j hj
      rcases hfrom j hj with h1 | ⟨i, hi, h1, -⟩
      · simp [h1]
      · rw [h1]
        exact h.free_disjoint i hi
    · intro p hp1 hp2
      rw [Termline.size, hlen] at hp2
      rcases h.covers p hp1 hp2 with hp | ⟨j, hj, hp⟩
      · exact Or.inl hp
      · by_cases h1 : j = src
        · exact Or.inr ⟨dest, hd, by rw [hcd, ← h1]; exact hp⟩
        · by_cases h2 : j = dest
          · rw [h2, hempty] at hp
            simp at hp
          · exact Or.inr ⟨j, hj, by rw [hco j h1 h2]; exact hp⟩
  refine ⟨⟨_, _, hfull⟩, List.ext_getElem? fun j => ?_⟩
  have hchrs : ∀ l : List ℕ, (∀ p ∈ l, line.cols ≤ p) → chrsAt line'.chars l = chrsAt line.chars l := by
    intro l hl
    refine List.map_congr_left fun p hp => ?_
    have h1 := hcell p
    rw [if_neg (hhigh p (hl p hp)).1, if_neg (hhigh p (hl p hp)).2] at h1
    exact congrArg Termchar.chr h1
  have hcont : ∀ j < line.cols, line'.content j =
      if j = src then { line.content src with ccs := [] }
      else if j = dest then line.content src else line.content j := by
    intro j hj
    rw [hfull.content_eq hj, hcell]
    by_cases h1 : j = src
    · subst h1
      rw [if_pos rfl, if_pos rfl, hcs, h.content_eq hs]
      rfl
    · rw [if_neg h1, if_neg h1]
      by_cases h2 : j = dest
      · subst h2
        rw [if_pos rfl, if_pos rfl, hcd, h.content_eq hs, hchrs _ (h.above src hs)]
      · rw [if_neg h2, if_neg h2, hco j h1 h2, h.content_eq hj, hchrs _ (h.above j hj)]
  rw [List.getElem?_modify, List.getElem?_set, getElem?_contents, getElem?_contents]
  have hcols : line'.cols = line.cols := rfl
  rw [hcols, length_contents]
  by_cases hj : j < line.cols
  · rw [if_pos hj, if_pos hj, hcont j hj]
    by_cases h1 : src = j
    · subst h1
      simp [hne]
    · rw [if_neg (Ne.symm h1)]
      by_cases h2 : dest = j
      · subst h2
        simp [h1, hd]
      · simp [h1, h2, Ne.symm h2]
  · simp only [if_neg hj]
    have h2 : dest ≠ j := by omega
    simp [h2]

theorem moveTermchar_full (h : Full line) {dest src : ℕ} (hd : dest < line.cols) (hs : src < line.cols)
    (hne : dest ≠ src) :
    ∃ line', moveTermchar line dest src = .ok line' ∧ Full line' ∧ line'.contents =
      (line.contents.set dest (line.content src)).modify src fun c => { c with ccs := [] } := by
  obtain ⟨chain, free, h⟩ := h
  obtain ⟨hr, hf⟩ := clearCcAt_full h hd
  have hc1 : (clearCcAt line dest).cols = line.cols := hr.cols
  have hclear : clearCc line dest = .ok (clearCcAt line dest) := by
    simp [clearCc, check, hd, bind, Except.bind, pure, Except.pure]
  have hcont : (clearCcAt line dest).contents =
      line.contents.modify dest fun c => { c with ccs := [] } := by
    obtain ⟨line1, h1, -, -, h2⟩ := clearCc_spec ⟨chain, free, h⟩ hd
    rw [hclear] at h1
    cases h1
    exact h2
  have hsrc : (clearCcAt line dest).content src = line.content src := by
    rw [hf.content_eq (hc1.symm ▸ hs), h.content_eq hs, hr.chr, hr.attr, hr.chrsAt_eq,
      Function.update_of_ne (Ne.symm hne)]
  obtain ⟨h1, h2⟩ := moveCell_full hf (hc1.symm ▸ hd) (hc1.symm ▸ hs) hne (by simp)
  refine ⟨_, ?_, h1, h2.trans ?_⟩
  · rw [moveTermchar, hclear]
    simp [check, hc1, hs, bind, Except.bind, pure, Except.pure]
  · rw [hsrc, hcont]
    congr 1
    refine List.ext_getElem? fun j => ?_
    simp only [List.getElem?_set, List.getElem?_modify, List.length_modify]
    by_cases hj : dest = j
    · simp [hj]
    · simp [hj]

/-! ## Resizing -/

/-- The lists of some columns are returned to the free list. -/
theorem clearCc_foldlM (h : CcFull line chain free) (js : List ℕ) (hjs : ∀ j ∈ js, j < line.cols) :
    ∃ line' chain' free', js.foldlM (fun line (i : ℕ) => clearCc line i) line = .ok line' ∧
      CcFull line' chain' free' ∧ line'.cols = line.cols ∧ (∀ j ∈ js, chain' j = []) ∧
      (∀ j, chain j = [] → chain' j = []) ∧
      ∀ j < line.cols, j ∉ js → line'.content j = line.content j := by
  induction js generalizing line chain free with
  | nil => exact ⟨line, chain, free, rfl, h, rfl, by simp, fun _ h => h, fun _ _ _ => rfl⟩
  | cons i js ih =>
    have hi := hjs i (by simp)
    obtain ⟨hr, hf⟩ := clearCcAt_full h hi
    have hc : (clearCcAt line i).cols = line.cols := hr.cols
    obtain ⟨line2, chain2, free2, h1, h2, h3, h4, h5, h6⟩ :=
      ih hf (fun j hj => by rw [hc]; exact hjs j (List.mem_cons_of_mem _ hj))
    refine ⟨line2, chain2, free2, ?_, h2, h3.trans hc, ?_, ?_, ?_⟩
    · rw [List.foldlM_cons, ← h1]
      simp [clearCc, check, hi, bind, Except.bind, pure, Except.pure]
    · intro j hj
      rcases List.mem_cons.mp hj with rfl | hj
      · exact h5 j (by simp)
      · exact h4 j hj
    · intro j hj
      refine h5 j ?_
      by_cases hji : j = i
      · simp [hji]
      · rwa [Function.update_of_ne hji]
    · intro j hj hmem
      rw [List.mem_cons, not_or] at hmem
      rw [h6 j (hc.symm ▸ hj) hmem.2, hf.content_eq (hc.symm ▸ hj), h.content_eq hj, hr.chr, hr.attr,
        hr.chrsAt_eq, Function.update_of_ne hmem.1]

/-- The array after it has been resized: the new columns, and the old section of combining characters. -/
theorem resized_chars (chars : List Termchar) (cols : ℕ) {oldcols : ℕ} (hle : oldcols ≤ chars.length) :
    ∃ pre : List Termchar, pre.length = cols ∧ (∀ i < cols, i < oldcols → pre[i]? = chars[i]?) ∧
      (let moved := if cols < oldcols then memmove chars cols oldcols (chars.length - oldcols) else chars
       let size := chars.length + cols - oldcols
       let moved := sresize moved size
       if cols > oldcols then memmove moved cols oldcols (size - cols) else moved) =
        pre ++ chars.drop oldcols := by
  rcases Nat.lt_trichotomy cols oldcols with hlt | heq | hgt
  · refine ⟨chars.take cols, by simp; omega, fun i hi _ => by simp [hi], ?_⟩
    have hdrop : (chars.drop oldcols).take (chars.length - oldcols) = chars.drop oldcols :=
      List.take_of_length_le (by simp)
    have hsize : (chars.take cols ++ chars.drop oldcols).length = chars.length + cols - oldcols := by
      simp
      omega
    simp only [if_pos hlt, if_neg (show ¬ cols > oldcols by omega), memmove, sresize, hdrop]
    rw [List.take_append_of_le_length (by omega), List.take_of_length_le (by omega)]
    simp
    omega
  · subst heq
    refine ⟨chars.take cols, by simp; omega, fun i hi _ => by simp [hi], ?_⟩
    simp [sresize]
  · refine ⟨(chars ++ List.replicate (cols - oldcols) default).take cols, by simp; omega, ?_, ?_⟩
    · intro i hi ho
      rw [List.getElem?_take, if_pos hi, List.getElem?_append_left (by omega)]
    · simp only [if_neg (show ¬ cols < oldcols by omega), if_pos hgt, memmove, sresize]
      have h1 : chars.length + cols - oldcols - chars.length = cols - oldcols := by omega
      have h2 : chars.take (chars.length + cols - oldcols) = chars :=
        List.take_of_length_le (by omega)
      have h3 : (chars ++ List.replicate (cols - oldcols) (default : Termchar)).drop
          (cols + (chars.length + cols - oldcols - cols)) = [] :=
        List.drop_of_length_le (by simp; omega)
      have h4 : ((chars.drop oldcols ++ List.replicate (cols - oldcols) (default : Termchar)).take
          (chars.length + cols - oldcols - cols)) = chars.drop oldcols := by
        have hlen : (chars.drop oldcols).length = chars.length - oldcols := List.length_drop
        rw [List.take_append_of_le_length (by omega), List.take_of_length_le (by omega)]
      rw [h1, h2, h3, List.append_nil, List.drop_append_of_le_length hle, h4]

theorem resizelineAt_cell (hle : line.cols ≤ line.size) (cols : ℕ) :
    (resizelineAt line cols).size = cols + (line.size - line.cols) ∧
      ∀ i, (resizelineAt line cols).cell i =
        if i < cols then
          if i < line.cols then
            { line.cell i with
              ccNext := if (line.cell i).ccNext ≠ 0 then (line.cell i).ccNext + ((cols : ℤ) - line.cols)
                else 0 }
          else basicEraseChar
        else line.cell (line.cols + (i - cols)) := by
  obtain ⟨pre, hlen, hpre, hmoved⟩ := resized_chars line.chars cols hle
  have hchars : (resizelineAt line cols).chars =
      ((pre ++ line.chars.drop line.cols).mapIdx fun i c =>
        if i < line.cols ∧ i < cols ∧ c.ccNext ≠ 0 then
          { c with ccNext := c.ccNext + ((cols : ℤ) - line.cols) } else c).mapIdx fun i c =>
        if line.cols ≤ i ∧ i < cols then basicEraseChar else c := by
    rw [← hmoved]
    rfl
  refine ⟨by rw [Termline.size, hchars]; simp [hlen, Termline.size], fun i => ?_⟩
  simp only [Termline.cell, hchars, List.getD_eq_getElem?_getD, List.getElem?_mapIdx]
  by_cases hi : i < cols
  · rw [if_pos hi, List.getElem?_append_left (by omega)]
    by_cases ho : i < line.cols
    · have hlt : i < line.chars.length := Nat.lt_of_lt_of_le ho hle
      rw [if_pos ho, hpre i hi ho, List.getElem?_eq_getElem hlt]
      by_cases hn : (line.chars[i]).ccNext = 0
      · simp [hn, Nat.not_le.mpr ho]
        rw [← hn]
      · simp [hn, Nat.not_le.mpr ho, ho, hi]
    · have hlt : i < pre.length := by omega
      rw [if_neg ho, List.getElem?_eq_getElem hlt]
      simp [hi, Nat.le_of_not_lt ho]
  · rw [if_neg hi, List.getElem?_append_right (by omega), hlen, List.getElem?_drop]
    cases h : line.chars[line.cols + (i - cols)]? with
    | none => simp
    | some c => simp [hi]

/-- Where a cell of the section of the combining characters is afterwards. -/
def moved (oldcols cols p : ℕ) : ℕ := cols + (p - oldcols)

/-- A list in the section is moved as a whole. -/
theorem CcPath.moved {cols a : ℕ} {l : List ℕ} (hle : line.cols ≤ line.size)
    (h : CcPath line.chars a l) (hab : ∀ x ∈ a :: l, line.cols ≤ x) :
    CcPath (resizelineAt line cols).chars (moved line.cols cols a) (l.map (moved line.cols cols)) := by
  obtain ⟨hsize, hcell⟩ := resizelineAt_cell hle cols
  have hnext : ∀ x ∈ a :: l, ((resizelineAt line cols).chars.getD (Terminal.moved line.cols cols x) default) =
      line.chars.getD x default := by
    intro x hx
    have hx' := hab x hx
    have h1 := hcell (Terminal.moved line.cols cols x)
    unfold Terminal.moved at h1 ⊢
    rw [if_neg (by omega)] at h1
    have h2 : line.cols + (cols + (x - line.cols) - cols) = x := by omega
    rw [h2] at h1
    exact h1
  refine h.map (Terminal.moved line.cols cols) ?_ ?_
  · rintro x hx y hy ⟨h1, h2, h3⟩
    have hx' := hab x hx
    have hy' := hab y (List.mem_cons_of_mem _ hy)
    refine ⟨by rw [hnext x hx]; exact h1, ?_, ?_⟩
    · rw [hnext x hx]
      unfold Terminal.moved
      omega
    · rw [Termline.size] at hsize
      rw [hsize]
      unfold Terminal.moved
      rw [Termline.size]
      omega
  · intro x hx h1
    rw [CcEnd, hnext x hx]
    exact h1

/-- **The section of the combining characters is moved, and every list with it.** -/
theorem resizelineAt_full (h : CcFull line chain free) {cols : ℕ} (hcols : 1 ≤ cols)
    (hcleared : ∀ j < line.cols, cols ≤ j → chain j = []) :
    Full (resizelineAt line cols) ∧ (resizelineAt line cols).contents =
      line.contents.take cols ++ List.replicate (cols - line.cols) basicEraseChar.content := by
  have hle := h.cols_le
  obtain ⟨hsize, hcell⟩ := resizelineAt_cell hle cols
  have hc : (resizelineAt line cols).cols = cols := rfl
  set chain' : ℕ → List ℕ := fun j => if j < line.cols then (chain j).map (moved line.cols cols) else []
    with hchain'
  have hpath : ∀ j < cols, CcPath (resizelineAt line cols).chars j (chain' j) := by
    intro j hj
    have hj1 := hcell j
    rw [if_pos hj] at hj1
    by_cases ho : j < line.cols
    · simp only [hchain', if_pos ho]
      rw [if_pos ho] at hj1
      have hp := h.path j ho
      cases hch : chain j with
      | nil =>
        rw [hch] at hp
        have h0 : (line.cell j).ccNext = 0 := hp.inv_nil
        refine Chain.nil ?_
        have h1 := congrArg Termchar.ccNext hj1
        exact h1.trans (if_neg (not_not_intro h0))
      | cons k ks =>
        rw [hch] at hp
        obtain ⟨⟨h1, h2, h3⟩, hks⟩ := hp.inv_cons
        have hab : ∀ x ∈ k :: ks, line.cols ≤ x := fun x hx => h.above j ho x (hch ▸ hx)
        have hk := hab k (by simp)
        have hnext := congrArg Termchar.ccNext hj1
        have hnext' : ((resizelineAt line cols).cell j).ccNext =
            (line.cell j).ccNext + ((cols : ℤ) - line.cols) := hnext.trans (if_pos h1)
        simp only [Termline.cell] at hnext'
        refine Chain.cons ⟨?_, ?_, ?_⟩ (CcPath.moved hle hks hab)
        · rw [hnext']
          omega
        · rw [hnext']
          unfold moved
          omega
        · rw [Termline.size] at hsize
          rw [hsize]
          unfold moved
          rw [Termline.size]
          omega
    · simp only [hchain', if_neg ho]
      rw [if_neg ho] at hj1
      exact Chain.nil (congrArg Termchar.ccNext hj1)
  have hfull : CcFull (resizelineAt line cols) chain' (free.map (moved line.cols cols)) := by
    refine
      { cols_le := by rw [hsize, hc]; omega
        pos := hcols
        path := hpath, above := ?_, disjoint := ?_, free_path := ?_, free_above := ?_
        free_disjoint := ?_, covers := ?_ }
    · intro j hj p hp
      simp only [hchain'] at hp
      split at hp
      · obtain ⟨q, -, rfl⟩ := List.mem_map.mp hp
        rw [hc]
        unfold moved
        omega
      · simp at hp
    · intro i hi j hj hij p hp hq
      simp only [hchain'] at hp hq
      split at hp
      · split at hq
        · obtain ⟨p', hp', rfl⟩ := List.mem_map.mp hp
          obtain ⟨q', hq', hpq⟩ := List.mem_map.mp hq
          have h1 := h.above i ‹_› p' hp'
          have h2 := h.above j ‹_› q' hq'
          unfold moved at hpq
          obtain rfl : q' = p' := by omega
          exact h.disjoint i ‹_› j ‹_› hij hp' hq'
        · simp at hq
      · simp at hp
    · rcases h.free_path with ⟨h0, hf⟩ | ⟨ps, hf, hp, hlt⟩
      · exact Or.inl ⟨if_neg (not_not_intro h0), by rw [hf]; rfl⟩
      · have hab : ∀ x ∈ line.ccFree :: ps, line.cols ≤ x := fun x hx => h.free_above x (hf ▸ hx)
        have hk := hab line.ccFree (by simp)
        have hfree : (resizelineAt line cols).ccFree = moved line.cols cols line.ccFree := by
          show (if line.ccFree ≠ 0 then ((line.ccFree : ℤ) + ((cols : ℤ) - line.cols)).toNat else 0) = _
          unfold moved
          have hpos := h.pos
          rw [if_pos (by omega)]
          omega
        refine Or.inr ⟨ps.map (moved line.cols cols), by rw [hfree, hf]; rfl, ?_, ?_⟩
        · rw [hfree]
          exact CcPath.moved hle hp hab
        · rw [hfree, hsize]
          unfold moved
          omega
    · intro p hp
      obtain ⟨q, -, rfl⟩ := List.mem_map.mp hp
      rw [hc]
      unfold moved
      omega
    · intro j hj p hp hq
      simp only [hchain'] at hp
      split at hp
      · obtain ⟨p', hp', rfl⟩ := List.mem_map.mp hp
        obtain ⟨q', hq', hpq⟩ := List.mem_map.mp hq
        have h1 := h.above j ‹_› p' hp'
        have h2 := h.free_above q' hq'
        unfold moved at hpq
        obtain rfl : q' = p' := by omega
        exact h.free_disjoint j ‹_› hp' hq'
      · simp at hp
    · intro p hp1 hp2
      rw [hc] at hp1
      rw [hsize] at hp2
      have hback : moved line.cols cols (line.cols + (p - cols)) = p := by
        unfold moved
        omega
      rcases h.covers (line.cols + (p - cols)) (by omega) (by omega) with hq | ⟨j, hj, hq⟩
      · exact Or.inl (List.mem_map.mpr ⟨_, hq, hback⟩)
      · refine Or.inr ⟨j, ?_, ?_⟩
        · rw [hc]
          by_contra hge
          rw [hcleared j hj (by omega)] at hq
          simp at hq
        · simp only [hchain', if_pos hj]
          exact List.mem_map.mpr ⟨_, hq, hback⟩
  refine ⟨⟨_, _, hfull⟩, List.ext_getElem? fun j => ?_⟩
  have hlen : (line.contents.take cols).length = min cols line.cols := by simp
  rw [getElem?_contents, hc]
  by_cases hj : j < cols
  · have hj1 := hcell j
    rw [if_pos hj] at hj1
    rw [if_pos hj, hfull.content_eq hj]
    by_cases ho : j < line.cols
    · rw [if_pos ho] at hj1
      rw [List.getElem?_append_left (by omega), List.getElem?_take, if_pos hj, getElem?_contents,
        if_pos ho, h.content_eq ho, hj1]
      simp only [hchain', if_pos ho]
      have hchrs : chrsAt (resizelineAt line cols).chars ((chain j).map (moved line.cols cols)) =
          chrsAt line.chars (chain j) := by
        unfold chrsAt
        rw [List.map_map]
        refine List.map_congr_left fun p hp => ?_
        have hp' := h.above j ho p hp
        have h1 := hcell (moved line.cols cols p)
        unfold moved at h1
        have h2 : line.cols + (cols + (p - line.cols) - cols) = p := by omega
        rw [if_neg (by omega), h2] at h1
        exact congrArg Termchar.chr h1
      rw [hchrs]
    · rw [if_neg ho] at hj1
      rw [List.getElem?_append_right (by omega), List.getElem?_replicate, if_pos (by omega), hj1]
      simp only [hchain', if_neg ho]
      rfl
  · rw [if_neg hj, List.getElem?_eq_none]
    simp
    omega

theorem resizeline_full (h : Full line) {cols : ℕ} (hcols : 1 ≤ cols) :
    ∃ line', resizeline line cols = .ok line' ∧ Full line' ∧ line'.cols = cols ∧ line'.contents =
      line.contents.take cols ++ List.replicate (cols - line.cols) basicEraseChar.content := by
  unfold resizeline
  by_cases heq : line.cols = cols
  · rw [if_neg (not_not_intro heq)]
    refine ⟨line, rfl, h, heq, ?_⟩
    rw [List.take_of_length_le (by simp [heq]), heq, Nat.sub_self]
    simp
  · rw [if_pos heq]
    obtain ⟨chain, free, h⟩ := h
    obtain ⟨line1, chain1, free1, h1, h2, h3, h4, -, h6⟩ :=
      clearCc_foldlM h (List.range' cols (line.cols - cols)) (by
        intro j hj
        have := List.mem_range'_1.mp hj
        omega)
    obtain ⟨h7, h8⟩ := resizelineAt_full h2 hcols (by
      intro j hj hge
      refine h4 j (List.mem_range'_1.mpr ?_)
      omega)
    refine ⟨resizelineAt line1 cols, ?_, h7, rfl, ?_⟩
    · rw [clearCcs, h1]
      rfl
    · rw [h8, h3]
      congr 1
      refine List.ext_getElem? fun j => ?_
      rw [List.getElem?_take, List.getElem?_take, getElem?_contents, getElem?_contents, h3]
      by_cases hj : j < cols
      · rw [if_pos hj, if_pos hj]
        by_cases ho : j < line.cols
        · rw [if_pos ho, if_pos ho, h6 j ho]
          intro hmem
          have := List.mem_range'_1.mp hmem
          omega
        · rw [if_neg ho, if_neg ho]
      · rw [if_neg hj, if_neg hj]

/-! ## The diagnostic check -/

/-- The flags that are set are those of the cells in `S`. -/
structure Flagged (line : Termline) (flags : List Bool) (S : ℕ → Prop) : Prop where
  length : flags.length = line.size
  iff : ∀ p < line.size, flags.getD p true = true ↔ S p

theorem ccFlag_spec {flags : List Bool} {S : ℕ → Prop} (hf : Flagged line flags S) {j : ℕ}
    (hge : line.cols ≤ j) (hlt : j < line.size) (hS : ¬ S j) :
    ∃ flags', ccFlag line flags j = .ok flags' ∧ Flagged line flags' fun p => S p ∨ p = j := by
  have hfalse : flags.getD j true = false := by
    have h1 := (hf.iff j hlt).not.mpr hS
    simpa using h1
  refine ⟨flags.set j true, ?_, by simp [hf.length], fun p hp => ?_⟩
  · have h1 : check ((line.cols : ℤ) ≤ j ∧ (j : ℤ) < line.size) .assertion = .ok () :=
      if_pos ⟨by omega, by omega⟩
    have h2 : check (flags.getD j true = false) .assertion = .ok () := if_pos hfalse
    simp only [ccFlag, h1, h2, bind, Except.bind, pure, Except.pure, Int.toNat_natCast]
  · have hjl : j < flags.length := hf.length.symm ▸ hlt
    by_cases hpj : p = j
    · subst hpj
      simp [List.getD_eq_getElem?_getD, hjl]
    · have h1 := hf.iff p hp
      simp only [List.getD_eq_getElem?_getD, List.getElem?_set] at h1 ⊢
      rw [if_neg (Ne.symm hpj), h1]
      simp [hpj]

theorem ccWalk_spec {j : ℕ} {ps : List ℕ} (h : CcPath line.chars j ps) (hab : ∀ p ∈ ps, line.cols ≤ p)
    {flags : List Bool} {S : ℕ → Prop} (hf : Flagged line flags S) (hS : ∀ p ∈ ps, ¬ S p) (fuel : ℕ)
    (hfuel : ps.length < fuel) :
    ∃ flags', ccWalk line fuel j flags = .ok flags' ∧ Flagged line flags' fun p => S p ∨ p ∈ ps := by
  have hnd := h.nodup (ccLink_functional _)
  induction h generalizing flags S fuel with
  | @nil j hend =>
    obtain ⟨fuel, rfl⟩ : ∃ f, fuel = f + 1 := ⟨fuel - 1, by simp at hfuel; omega⟩
    refine ⟨flags, ?_, by simpa using hf⟩
    have h0 : (line.cell j).ccNext = 0 := hend
    simp [ccWalk, h0]
  | @cons j k ps hlink _ ih =>
    obtain ⟨fuel, rfl⟩ : ∃ f, fuel = f + 1 := ⟨fuel - 1, by simp at hfuel; omega⟩
    have hk : (j : ℤ) + (line.cell j).ccNext = k := hlink.2.1
    have hne : ¬ (line.cell j).ccNext = 0 := hlink.1
    obtain ⟨hnotin, hnd'⟩ := List.nodup_cons.mp hnd
    obtain ⟨flags1, h1, hf1⟩ := ccFlag_spec hf (hab k (by simp)) hlink.2.2 (hS k (by simp))
    obtain ⟨flags2, h2, hf2⟩ := ih (fun p hp => hab p (List.mem_cons_of_mem _ hp)) hf1
      (by
        rintro p hp (h3 | rfl)
        · exact hS p (List.mem_cons_of_mem _ hp) h3
        · exact (List.nodup_cons.mp hnd').1 hp)
      fuel (by simpa using hfuel) hnd'
    refine ⟨flags2, ?_, hf2.length, fun p hp => ?_⟩
    · simp only [ccWalk, Int.toNat_natCast, if_neg hne, hk, h1]
      exact h2
    · rw [hf2.iff p hp, List.mem_cons, or_assoc]

/-- The loop over the columns. -/
theorem ccWalks_spec (h : CcFull line chain free) (js : List ℕ) (hjs : ∀ j ∈ js, j < line.cols)
    (hnd : js.Nodup) {flags : List Bool} {S : ℕ → Prop} (hf : Flagged line flags S)
    (hS : ∀ j ∈ js, ∀ p ∈ chain j, ¬ S p) :
    ∃ flags', js.foldlM (fun flags (i : ℕ) => ccWalk line (line.size + 1) i flags) flags = .ok flags' ∧
      Flagged line flags' fun p => S p ∨ ∃ j ∈ js, p ∈ chain j := by
  induction js generalizing flags S with
  | nil => exact ⟨flags, rfl, by simpa using hf⟩
  | cons j js ih =>
    have hj := hjs j (by simp)
    have hlt := (h.path j hj).length_lt (Nat.lt_of_lt_of_le hj h.cols_le)
    obtain ⟨flags1, h1, hf1⟩ := ccWalk_spec (h.path j hj) (h.above j hj) hf (hS j (by simp))
      (line.size + 1) (by rw [Termline.size]; omega)
    obtain ⟨flags2, h2, hf2⟩ := ih (fun i hi => hjs i (List.mem_cons_of_mem _ hi))
      (List.nodup_cons.mp hnd).2 hf1 (by
        rintro i hi p hp (h3 | h3)
        · exact hS i (List.mem_cons_of_mem _ hi) p hp h3
        · refine h.disjoint i (hjs i (List.mem_cons_of_mem _ hi)) j hj ?_ hp h3
          rintro rfl
          exact (List.nodup_cons.mp hnd).1 hi)
    refine ⟨flags2, ?_, hf2.length, fun p hp => ?_⟩
    · rw [List.foldlM_cons, h1]
      exact h2
    · rw [hf2.iff p hp]
      simp [or_assoc]

/-- **A line whose lists are in order passes `cc_check`.** -/
theorem Full.ccCheck (h : Full line) : ccCheck line = .ok () := by
  obtain ⟨chain, free, h⟩ := h
  have hf0 : Flagged line ((List.range line.size).map fun i => decide (i < line.cols))
      fun p => p < line.cols := by
    refine ⟨by simp, fun p hp => ?_⟩
    simp [List.getD_eq_getElem?_getD, hp]
  obtain ⟨flags1, h1, hf1⟩ := ccWalks_spec h (List.range line.cols) (by simp)
    List.nodup_range hf0 (by
      intro j hj p hp hlt
      have := h.above j (List.mem_range.mp hj) p hp
      omega)
  have hfree : ∃ flags2, ccWalkFree line flags1 = .ok flags2 ∧
      Flagged line flags2 fun p => (p < line.cols ∨ ∃ j ∈ List.range line.cols, p ∈ chain j) ∨ p ∈ free := by
    unfold ccWalkFree
    have hS : ∀ p ∈ free, ¬ (p < line.cols ∨ ∃ j ∈ List.range line.cols, p ∈ chain j) := by
      rintro p hp (hlt | ⟨j, hj, hpj⟩)
      · have := h.free_above p hp
        omega
      · exact h.free_disjoint j (List.mem_range.mp hj) hpj hp
    rcases h.free_path with ⟨h0, hnil⟩ | ⟨ps, hps, hp, hlt⟩
    · rw [if_neg (not_not_intro h0)]
      exact ⟨flags1, rfl, by simpa [hnil] using hf1⟩
    · have hpos := h.pos
      have hge := h.free_above line.ccFree (by simp [hps])
      have hnd := hp.nodup (ccLink_functional _)
      have hplt := hp.length_lt hlt
      rw [if_pos (by omega)]
      obtain ⟨flags2, h2, hf2⟩ := ccFlag_spec hf1 hge hlt (hS _ (by simp [hps]))
      obtain ⟨flags3, h3, hf3⟩ := ccWalk_spec hp
        (fun p hp => h.free_above p (by rw [hps]; exact List.mem_cons_of_mem _ hp)) hf2
        (by
          rintro p hp' (h4 | rfl)
          · exact hS p (by rw [hps]; exact List.mem_cons_of_mem _ hp') h4
          · exact (List.nodup_cons.mp hnd).1 hp')
        (line.size + 1) (by rw [Termline.size]; omega)
      refine ⟨flags3, ?_, hf3.length, fun p hp' => ?_⟩
      · rw [h2]
        exact h3
      · rw [hf3.iff p hp', hps, List.mem_cons, or_assoc]
  obtain ⟨flags2, h2, hf2⟩ := hfree
  have hall : flags2.count true = line.size := by
    rw [← hf2.length, List.count_eq_length]
    intro b hb
    obtain ⟨p, hp, rfl⟩ := List.getElem_of_mem hb
    have hlt : p < line.size := hf2.length ▸ hp
    have h3 := hf2.iff p hlt
    rw [List.getD_eq_getElem?_getD, List.getElem?_eq_getElem hp, Option.getD_some] at h3
    refine (h3.mpr ?_).symm
    by_cases hcol : p < line.cols
    · exact Or.inl (Or.inl hcol)
    · rcases h.covers p (by omega) hlt with h4 | ⟨j, hj, h4⟩
      · exact Or.inr h4
      · exact Or.inl (Or.inr ⟨j, List.mem_range.mpr hj, h4⟩)
  have hcheck : check (line.cols ≤ line.size) .assertion = .ok () := if_pos h.cols_le
  have hcheck' : check (flags2.count true = line.size) .assertion = .ok () := if_pos hall
  simp only [Terminal.ccCheck, hcheck, h1, h2, hcheck', bind, Except.bind]

/-! ## Runs -/

theorem newline_full {cols : ℕ} (hcols : 1 ≤ cols) (attr : UInt32) :
    Full (newline (eraseChar attr) cols) ∧ (newline (eraseChar attr) cols).contents =
      List.replicate cols (eraseChar attr).content := by
  have hcell : ∀ j < cols, (newline (eraseChar attr) cols).cell j = eraseChar attr := by
    intro j hj
    simp [newline, Termline.cell, List.getD_eq_getElem?_getD, hj]
  have hfull : CcFull (newline (eraseChar attr) cols) (fun _ => []) [] :=
    { cols_le := by simp [newline, Termline.size]
      pos := hcols
      path := fun j hj => Chain.nil (by
        show ((newline (eraseChar attr) cols).cell j).ccNext = 0
        rw [hcell j hj]
        rfl)
      above := by simp
      disjoint := by simp
      free_path := Or.inl ⟨rfl, rfl⟩
      free_above := by simp
      free_disjoint := by simp
      covers := by
        intro p h1 h2
        simp [newline, Termline.size] at h1 h2
        omega }
  refine ⟨⟨_, _, hfull⟩, List.ext_getElem? fun j => ?_⟩
  have hc : (newline (eraseChar attr) cols).cols = cols := rfl
  rw [getElem?_contents, List.getElem?_replicate, hc]
  by_cases hj : j < cols
  · rw [if_pos hj, if_pos hj, hfull.content_eq hj, hcell j hj]
    rfl
  · rw [if_neg hj, if_neg hj]

/-- The lines are in order, and their cells are the rows. -/
structure Rows (lines : List Termline) (rows : List (List Content)) : Prop where
  full : ∀ line ∈ lines, Full line
  rows : lines.map Termline.contents = rows


theorem Rows.lineAt {lines : List Termline} {rows : List (List Content)} (h : Rows lines rows) {l : ℕ}
    {row : List Content} (hrow : rows[l]? = some row) :
    ∃ line, lineAt lines l = .ok line ∧ Full line ∧ line.contents = row ∧ line.cols = row.length := by
  rw [← h.rows, List.getElem?_map, Option.map_eq_some_iff] at hrow
  obtain ⟨line, hline, rfl⟩ := hrow
  refine ⟨line, ?_, h.full line (List.mem_of_getElem? hline), rfl, by simp⟩
  rw [Terminal.lineAt, hline]

theorem Rows.set {lines : List Termline} {rows : List (List Content)} (h : Rows lines rows) (l : ℕ)
    {row : List Content} (hf : Full line) (hr : line.contents = row) :
    Rows (lines.set l line) (rows.set l row) := by
  refine ⟨fun line' hmem => ?_, by rw [List.map_set, h.rows, hr]⟩
  rcases List.mem_or_eq_of_mem_set hmem with hmem | rfl
  · exact h.full line' hmem
  · exact hf

/-- The cell a source stands for, and its combining characters. -/
theorem Rows.source {lines : List Termline} {rows : List (List Content)} (h : Rows lines rows) {l : ℕ}
    {src : CcSource} {c : Content} (hc : contentSource rows l src = some c) :
    ∃ t, ccSource lines src = .ok (t, c.ccs) ∧ t.chr = c.chr ∧ t.attr = c.attr := by
  cases src with
  | erase attr =>
    cases hc
    exact ⟨eraseChar attr, rfl, rfl, rfl⟩
  | cell l' i =>
    by_cases hl : l' = l
    · simp [contentSource, hl] at hc
    · simp only [contentSource, if_neg hl, Option.bind_eq_some_iff] at hc
      obtain ⟨row, hrow, hi⟩ := hc
      obtain ⟨line, h1, h2, rfl, -⟩ := h.lineAt hrow
      rw [getElem?_contents] at hi
      split at hi
      · cases hi
        refine ⟨line.cell i, ?_, rfl, rfl⟩
        rw [ccSource, h1]
        rfl
      · cases hi

/-- **A step of the code does to the cells what it is meant to do.** -/
theorem ccStep_spec {lines : List Termline} {rows rows' : List (List Content)} (h : Rows lines rows)
    {op : CcOp} (hop : contentStep rows op = some rows') :
    ∃ lines', ccStep lines op = .ok lines' ∧ Rows lines' rows' := by
  cases op with
  | newline cols attr =>
    simp only [contentStep, Option.ite_none_right_eq_some, Option.some.injEq] at hop
    obtain ⟨hcols, rfl⟩ := hop
    obtain ⟨h1, h2⟩ := newline_full hcols attr
    refine ⟨_, rfl, fun line hmem => ?_, by simp [h.rows, h2]⟩
    rcases List.mem_append.mp hmem with hmem | hmem
    · exact h.full line hmem
    · rw [List.mem_singleton.mp hmem]
      exact h1
  | addCc l col chr =>
    simp only [contentStep, Option.bind_eq_some_iff, Option.ite_none_right_eq_some,
      Option.some.injEq] at hop
    obtain ⟨row, hrow, hcol, rfl⟩ := hop
    obtain ⟨line, h1, h2, rfl, h3⟩ := h.lineAt hrow
    obtain ⟨line', h4, h5, -, h6⟩ := addCc_full h2 (h3 ▸ hcol) chr
    exact ⟨lines.set l line', by simp only [ccStep, h1, h4, bind, Except.bind, pure, Except.pure],
      h.set l h5 h6⟩
  | clearCc l col =>
    simp only [contentStep, Option.bind_eq_some_iff, Option.ite_none_right_eq_some,
      Option.some.injEq] at hop
    obtain ⟨row, hrow, hcol, rfl⟩ := hop
    obtain ⟨line, h1, h2, rfl, h3⟩ := h.lineAt hrow
    obtain ⟨line', h4, h5, -, h6⟩ := clearCc_spec h2 (h3 ▸ hcol)
    exact ⟨lines.set l line', by simp only [ccStep, h1, h4, bind, Except.bind, pure, Except.pure],
      h.set l h5 h6⟩
  | copyTermchar l x src =>
    simp only [contentStep, Option.bind_eq_some_iff, Option.ite_none_right_eq_some,
      Option.map_eq_some_iff] at hop
    obtain ⟨row, hrow, hx, c, hc, rfl⟩ := hop
    obtain ⟨line, h1, h2, rfl, h3⟩ := h.lineAt hrow
    obtain ⟨t, h4, h5, h6⟩ := h.source hc
    obtain ⟨line', h7, h8, -, h9⟩ := copyTermchar_full h2 (h3 ▸ hx) t c.ccs
    refine ⟨lines.set l line', by simp only [ccStep, h1, h4, h7, bind, Except.bind, pure, Except.pure],
      h.set l h8 (h9.trans ?_)⟩
    rw [h5, h6]
  | moveTermchar l dest src =>
    simp only [contentStep, Option.bind_eq_some_iff, Option.ite_none_right_eq_some,
      Option.map_eq_some_iff] at hop
    obtain ⟨row, hrow, ⟨hd, hne⟩, c, hc, rfl⟩ := hop
    obtain ⟨line, h1, h2, rfl, h3⟩ := h.lineAt hrow
    rw [getElem?_contents] at hc
    split at hc
    · cases hc
      obtain ⟨line', h4, h5, h6⟩ := moveTermchar_full h2 (h3 ▸ hd) ‹_› hne
      exact ⟨lines.set l line', by simp only [ccStep, h1, h4, bind, Except.bind, pure, Except.pure],
        h.set l h5 h6⟩
    · cases hc
  | resizeline l cols =>
    simp only [contentStep, Option.bind_eq_some_iff, Option.ite_none_right_eq_some,
      Option.some.injEq] at hop
    obtain ⟨row, hrow, hcols, rfl⟩ := hop
    obtain ⟨line, h1, h2, rfl, h3⟩ := h.lineAt hrow
    obtain ⟨line', h4, h5, -, h6⟩ := resizeline_full h2 hcols
    rw [length_contents]
    exact ⟨lines.set l line', by simp only [ccStep, h1, h4, bind, Except.bind, pure, Except.pure],
      h.set l h5 h6⟩

/-- **The storage of combining characters stays in order**: after every run of the operations, the code
has not failed, every line passes `cc_check`, and the cells are what the operations make of them. -/
theorem ccRun_refines {ops : List CcOp} {rows : List (List Content)}
    (hrun : contentRun [] ops = some rows) :
    ∃ lines, ccRun [] ops = .ok lines ∧ lines.map Termline.contents = rows ∧
      ∀ line ∈ lines, ccCheck line = .ok () := by
  have key : ∀ (ops : List CcOp) (lines : List Termline) (rows0 rows : List (List Content)),
      Rows lines rows0 → contentRun rows0 ops = some rows →
      ∃ lines', ccRun lines ops = .ok lines' ∧ Rows lines' rows := by
    intro ops
    induction ops with
    | nil =>
      intro lines rows0 rows h hrun
      cases hrun
      exact ⟨lines, rfl, h⟩
    | cons op ops ih =>
      intro lines rows0 rows h hrun
      simp only [contentRun, List.foldlM_cons, Option.bind_eq_bind, Option.bind_eq_some_iff] at hrun
      obtain ⟨rows1, hop, hrest⟩ := hrun
      obtain ⟨lines1, h1, h2⟩ := ccStep_spec h hop
      obtain ⟨lines2, h3, h4⟩ := ih lines1 rows1 rows h2 hrest
      refine ⟨lines2, ?_, h4⟩
      rw [ccRun, List.foldlM_cons, h1]
      exact h3
  obtain ⟨lines, h1, h2⟩ := key ops [] [] rows ⟨by simp, rfl⟩ hrun
  exact ⟨lines, h1, h2.rows, fun line hmem => (h2.full line hmem).ccCheck⟩

/-- A line with two combining characters, from which a cell is copied and which then becomes shorter. -/
theorem ccRun_refines_copy :
    ∃ lines, ccRun [] [.newline 3 5, .newline 2 1, .addCc 0 1 0x301, .addCc 0 1 0x302,
        .copyTermchar 1 0 (.cell 0 1), .moveTermchar 0 0 1, .resizeline 0 1] = .ok lines ∧
      lines.map Termline.contents =
        [[⟨0xD820, 5, [0x301, 0x302]⟩], [⟨0xD820, 5, [0x301, 0x302]⟩, ⟨0xD820, 1, []⟩]] ∧
      ∀ line ∈ lines, ccCheck line = .ok () :=
  ccRun_refines (by decide)

end PuttyNd.Terminal
