import PuttyNd.Terminal.Resize
import PuttyNd.Terminal.Proofs.CellProofs

/-!
# Proofs: changes of the width

A line is made wider when it is retrieved and is never made narrower by `term_size`. So a run of changes of
the width shows the same cells of the main screen and of the scrollback as a single one to the last width.
The alternate screen is made anew by every change.
-/

namespace PuttyNd.Terminal

variable {line line' line'' : Termline} {cols : ℤ}

/-! ## One line -/

/-- The line with more columns, which are blank. -/
structure Grown (c : ℕ) (line line' : Termline) : Prop where
  full : Full line'
  le : line.cols ≤ line'.cols
  le_max : line'.cols ≤ max line.cols c
  contents : line'.contents =
    line.contents ++ List.replicate (line'.cols - line.cols) basicEraseChar.content

theorem Grown.refl (h : Full line) (c : ℕ) : Grown c line line :=
  ⟨h, Nat.le_refl _, by omega, by simp⟩

theorem Grown.trans {c c' : ℕ} (h : Grown c line line') (h' : Grown c' line' line'') :
    Grown (max c c') line line'' where
  full := h'.full
  le := Nat.le_trans h.le h'.le
  le_max := by
    have h1 := h.le_max
    have h2 := h'.le_max
    omega
  contents := by
    have h1 := h.le
    have h2 := h'.le
    rw [h'.contents, h.contents, List.append_assoc, List.replicate_append_replicate]
    congr 2
    omega

theorem widen_spec (h : Full line) (cols : ℤ) :
    ∃ line', Term.widen cols line = .ok line' ∧ Grown cols.toNat line line' ∧
      cols.toNat ≤ line'.cols := by
  unfold Term.widen
  by_cases hc : cols > line.cols
  · rw [if_pos hc]
    obtain ⟨chain, free, hf⟩ := h
    have hpos := hf.pos
    have hcols : 1 ≤ cols.toNat := by omega
    obtain ⟨line', h1, h2, h3, h4⟩ := resizeline_full ⟨chain, free, hf⟩ hcols
    refine ⟨line', h1, ⟨h2, by omega, by omega, ?_⟩, by omega⟩
    rw [h4, h3, List.take_of_length_le (by simp; omega)]
  · rw [if_neg hc]
    exact ⟨line, rfl, Grown.refl h _, by omega⟩

/-- What can be seen of a line in a terminal with a width. -/
def visible (cols : ℤ) (line : Termline) : Except Fault (List Content) := do
  let line ← Term.widen cols line
  pure (line.contents.take cols.toNat)

/-- The cells of a line, with blank ones behind. -/
theorem visible_eq (h : Full line) (cols : ℤ) :
    visible cols line = .ok ((line.contents ++
      List.replicate (cols.toNat - line.cols) basicEraseChar.content).take cols.toNat) := by
  obtain ⟨line', h1, h2, h3⟩ := widen_spec h cols
  have h4 := h2.le
  have h5 := h2.le_max
  rw [visible, h1]
  show Except.ok (line'.contents.take cols.toNat) = _
  rw [h2.contents]
  by_cases hc : cols.toNat ≤ line.cols
  · have h6 : line'.cols = line.cols := by omega
    rw [h6, Nat.sub_self, Nat.sub_eq_zero_of_le hc]
  · have h6 : line'.cols = cols.toNat := by omega
    rw [h6]

/-- **A line that has grown shows the same cells.** -/
theorem Grown.visible_eq {c : ℕ} (h : Grown c line line') (hf : Full line) (cols : ℤ) :
    visible cols line' = visible cols line := by
  rw [Terminal.visible_eq h.full, Terminal.visible_eq hf, h.contents, List.append_assoc,
    List.replicate_append_replicate]
  have h1 := h.le
  congr 1
  refine List.ext_getElem? fun j => ?_
  rw [List.getElem?_take, List.getElem?_take]
  by_cases hj : j < cols.toNat
  · rw [if_pos hj, if_pos hj]
    by_cases hl : j < line.cols
    · rw [List.getElem?_append_left (by simpa using hl), List.getElem?_append_left (by simpa using hl)]
    · have h2 : line.contents.length ≤ j := by simpa using Nat.le_of_not_lt hl
      rw [List.getElem?_append_right h2, List.getElem?_append_right h2, length_contents,
        List.getElem?_replicate, List.getElem?_replicate, if_pos (by omega), if_pos (by omega)]
  · rw [if_neg hj, if_neg hj]

/-! ## The lines of a screen -/

/-- The lines of a screen have grown. -/
abbrev GrownLines (c : ℕ) (lines lines' : List Termline) : Prop := List.Forall₂ (Grown c) lines lines'

variable {lines lines' : List Termline}

theorem GrownLines.refl (h : ∀ line ∈ lines, Full line) (c : ℕ) : GrownLines c lines lines :=
  List.forall₂_same.mpr fun line hl => Grown.refl (h line hl) c

theorem GrownLines.map_visible {c : ℕ} (h : GrownLines c lines lines') (hf : ∀ line ∈ lines, Full line)
    (cols : ℤ) : lines'.map (visible cols) = lines.map (visible cols) := by
  induction h with
  | nil => rfl
  | cons h1 _ ih =>
    rw [List.map_cons, List.map_cons, h1.visible_eq (hf _ (by simp)),
      ih fun line hl => hf line (List.mem_cons_of_mem _ hl)]

theorem GrownLines.full {c : ℕ} (h : GrownLines c lines lines') : ∀ line ∈ lines', Full line := by
  induction h with
  | nil => simp
  | cons h1 _ ih =>
    intro line hl
    rcases List.mem_cons.mp hl with rfl | hl
    · exact h1.full
    · exact ih line hl

theorem GrownLines.trans {c c' : ℕ} {lines'' : List Termline} (h : GrownLines c lines lines')
    (h' : GrownLines c' lines' lines'') : GrownLines (max c c') lines lines'' := by
  induction h generalizing lines'' with
  | nil =>
    cases h'
    exact .nil
  | cons h1 _ ih =>
    cases h' with
    | cons h2 h3 => exact .cons (h1.trans h2) (ih h3)

/-- A line of a screen is retrieved. -/
theorem lineIn_grown (h : ∀ line ∈ lines, Full line) {i : ℤ} {r : List Termline × Termline}
    (hr : Term.lineIn cols lines i = .ok r) : GrownLines cols.toNat lines r.1 := by
  unfold Term.lineIn at hr
  by_cases hi : i < 0
  · rw [if_pos hi] at hr
    cases hr
  · rw [if_neg hi] at hr
    cases hline : lines[i.toNat]? with
    | none => simp [lineAt, hline, bind, Except.bind] at hr
    | some line =>
      obtain ⟨line', h1, h2, -⟩ := widen_spec (h line (List.mem_of_getElem? hline)) cols
      simp only [lineAt, hline, h1, bind, Except.bind, pure, Except.pure, Except.ok.injEq] at hr
      subst hr
      refine List.forall₂_iff_get.mpr ⟨by simp, fun j hj hj' => ?_⟩
      simp only [List.get_eq_getElem, List.getElem_set]
      obtain ⟨h3, h4⟩ := List.getElem?_eq_some_iff.mp hline
      by_cases hij : i.toNat = j
      · subst hij
        rw [if_pos rfl, h4]
        exact h2
      · rw [if_neg hij]
        exact Grown.refl (h _ (List.getElem_mem hj)) _

/-- What is seen of a line of a screen. -/
def cellsIn (cols : ℤ) (lines : List Termline) (i : ℤ) : Except Fault (List Content) :=
  if i < 0 then .error .noLine else ((lines.map (visible cols))[i.toNat]?).getD (.error .noLine)

theorem lineIn_cells {α : Type} (cols : ℤ) (lines : List Termline) (i : ℤ) (f : List Termline → α) :
    (do
      let (_, line) ← (do
        let (lines, line) ← Term.lineIn cols lines i
        pure (f lines, line) : Except Fault (α × Termline))
      pure (line.contents.take cols.toNat)) = cellsIn cols lines i := by
  unfold Term.lineIn cellsIn
  by_cases hi : i < 0
  · rw [if_pos hi, if_pos hi]
    rfl
  · rw [if_neg hi, if_neg hi, List.getElem?_map]
    cases hline : lines[i.toNat]? with
    | none => simp [lineAt, hline, bind, Except.bind]
    | some line =>
      simp only [lineAt, hline, bind, Except.bind, Option.map_some, Option.getD_some, visible]
      cases Term.widen cols line with
      | error e => rfl
      | ok line' => rfl

namespace Term

variable {t s d : Term}

/-- What the assertions of `term_size` ask for, of lines that are in order. -/
structure Sized (t : Term) : Prop where
  rows_eq : t.rows = t.screen.length
  alt_length : t.altScreen.length = t.screen.length
  rows_pos : 1 ≤ t.rows
  cols_pos : 1 ≤ t.cols
  scrollback_le : (t.scrollback.length : ℤ) ≤ t.savelines
  temps_le : t.tempsblines ≤ t.scrollback.length
  screen_full : ∀ line ∈ t.screen, Full line
  alt_full : ∀ line ∈ t.altScreen, Full line

/-- The parts of the terminal that a change of the width leaves alone. -/
structure Same (t s : Term) : Prop where
  rows : s.rows = t.rows
  savelines : s.savelines = t.savelines
  scrollback : s.scrollback = t.scrollback
  altWhich : s.altWhich = t.altWhich
  eraseAttr : s.eraseAttr = t.eraseAttr
  eraseToScrollback : s.eraseToScrollback = t.eraseToScrollback

theorem Same.trans (h : Same t s) (h' : Same s d) : Same t d where
  rows := h'.rows.trans h.rows
  savelines := h'.savelines.trans h.savelines
  scrollback := h'.scrollback.trans h.scrollback
  altWhich := h'.altWhich.trans h.altWhich
  eraseAttr := h'.eraseAttr.trans h.eraseAttr
  eraseToScrollback := h'.eraseToScrollback.trans h.eraseToScrollback

theorem Sized.main_full (h : Sized t) : ∀ line ∈ t.mainScreen, Full line := by
  unfold mainScreen
  by_cases ha : t.altWhich = true
  · rw [if_pos ha]
    exact h.alt_full
  · rw [if_neg ha]
    exact h.screen_full

/-! ## One step -/

/-- After `term_size` with another width: the alternate screen is new, the rest is as before. -/
structure Changed (t s : Term) (newcols : ℤ) : Prop where
  sized : Sized s
  same : Same t s
  cols : s.cols = newcols
  main : s.mainScreen = t.mainScreen
  alternate : s.alternateScreen = List.replicate t.rows.toNat (newline t.eraseChar newcols.toNat)

theorem newline_lines {newcols : ℤ} (hc : 1 ≤ newcols) (attr : UInt32) (n : ℕ) :
    ∀ line ∈ List.replicate n (newline (Terminal.eraseChar attr) newcols.toNat), Full line := by
  intro line hl
  rw [List.eq_of_mem_replicate hl]
  exact (newline_full (by omega) attr).1

theorem resize_changed (h : Sized t) {newcols : ℤ} (hc : 1 ≤ newcols) :
    ∃ s, t.resize t.rows newcols t.savelines = .ok s ∧ Changed t s newcols := by
  have hrows := h.rows_eq
  have halt := h.alt_length
  have hrp := h.rows_pos
  have hzero : (t.rows - t.rows).toNat = 0 := by omega
  have hdrop : ((t.scrollback.length : ℤ) - t.savelines).toNat = 0 := by
    have := h.scrollback_le
    omega
  have htemps : min t.tempsblines t.scrollback.length = t.tempsblines := by
    have := h.temps_le
    omega
  have hle := h.scrollback_le
  have htle := h.temps_le
  have hnew := newline_lines hc t.eraseAttr t.rows.toNat
  have hlen : t.rows.toNat = t.screen.length := by omega
  cases hwhich : t.altWhich with
  | false =>
    refine ⟨{ t with
      altScreen := List.replicate t.rows.toNat (newline t.eraseChar newcols.toNat)
      altSblines := 0
      cursY := clampRow t.cursY t.rows
      altY := 0
      cols := newcols }, ?_, ?_⟩
    · simp [resize, check, addRows, dropRows, hrows, hdrop, htemps, hle, htle, hwhich,
        swapScreen, bind, Except.bind, pure, Except.pure]
    · refine
        { sized := ⟨hrows, by simpa using hlen, hrp, hc, hle, htle, h.screen_full, hnew⟩
          same := ⟨rfl, rfl, rfl, rfl, rfl, rfl⟩
          cols := rfl, main := ?_, alternate := ?_ }
      · simp [mainScreen, hwhich]
      · simp [alternateScreen, hwhich]
  | true =>
    have halt' : (t.altScreen.length : ℤ) = t.screen.length := by omega
    refine ⟨_, by
      simp [resize, check, addRows, dropRows, hrows, hdrop, htemps, hle, htle, halt', hwhich,
        swapScreen, bind, Except.bind, pure, Except.pure]
      rfl, ?_⟩
    refine
      { sized := ⟨by simp, by simp [halt], by simp; omega, hc, hle, htle, ?_, h.alt_full⟩
        same := ⟨by simp [hrows], rfl, rfl, by simp [hwhich], rfl, rfl⟩
        cols := rfl, main := ?_, alternate := ?_ }
    · intro line hl
      exact hnew line (by simpa [hlen, eraseChar] using hl)
    · simp [mainScreen, hwhich]
    · simp [alternateScreen, hlen, eraseChar]

/-- A line is retrieved. -/
structure Accessed (t s : Term) : Prop where
  same : Same t s
  cols : s.cols = t.cols
  temps : s.tempsblines = t.tempsblines
  altSblines : s.altSblines = t.altSblines
  screen : GrownLines t.cols.toNat t.screen s.screen
  alt : GrownLines t.cols.toNat t.altScreen s.altScreen

theorem lineptr_accessed (h : Sized t) {y : ℤ} {r : Term × Termline} (hr : t.lineptr y = .ok r) :
    Accessed t r.1 := by
  have hs := GrownLines.refl h.screen_full t.cols.toNat
  have ha := GrownLines.refl h.alt_full t.cols.toNat
  have hsame : Same t t := ⟨rfl, rfl, rfl, rfl, rfl, rfl⟩
  unfold lineptr at hr
  by_cases hy : y ≥ 0
  · rw [if_pos hy] at hr
    cases hl : lineIn t.cols t.screen y with
    | error e =>
      rw [hl] at hr
      cases hr
    | ok p =>
      rw [hl] at hr
      cases hr
      exact ⟨⟨rfl, rfl, rfl, rfl, rfl, rfl⟩, rfl, rfl, rfl, lineIn_grown h.screen_full hl, ha⟩
  · rw [if_neg hy] at hr
    simp only at hr
    generalize (if t.eraseToScrollback = true ∧ t.altWhich = true then t.altSblines else 0) = altlines at hr
    split at hr
    · -- a line of the scrollback is not stored
      generalize decompressline _ = p at hr
      cases p with
      | error e => cases hr
      | ok p =>
        simp only [bind, Except.bind] at hr
        cases hw : widen t.cols p.1 with
        | error e =>
          rw [hw] at hr
          cases hr
        | ok line =>
          rw [hw] at hr
          cases hr
          exact ⟨hsame, rfl, rfl, rfl, hs, ha⟩
    · cases hl : lineIn t.cols t.altScreen (y + t.altSblines) with
      | error e =>
        rw [hl] at hr
        cases hr
      | ok p =>
        rw [hl] at hr
        cases hr
        exact ⟨⟨rfl, rfl, rfl, rfl, rfl, rfl⟩, rfl, rfl, rfl, hs, lineIn_grown h.alt_full hl⟩

theorem Accessed.sized (h : Accessed t s) (ht : Sized t) : Sized s where
  rows_eq := by
    rw [h.same.rows, ← h.screen.length_eq]
    exact ht.rows_eq
  alt_length := by
    rw [← h.screen.length_eq, ← h.alt.length_eq]
    exact ht.alt_length
  rows_pos := h.same.rows ▸ ht.rows_pos
  cols_pos := h.cols ▸ ht.cols_pos
  scrollback_le := by
    rw [h.same.scrollback, h.same.savelines]
    exact ht.scrollback_le
  temps_le := by
    rw [h.same.scrollback, h.temps]
    exact ht.temps_le
  screen_full := h.screen.full
  alt_full := h.alt.full

theorem Accessed.main (h : Accessed t s) : GrownLines t.cols.toNat t.mainScreen s.mainScreen := by
  unfold mainScreen
  rw [h.same.altWhich]
  by_cases ha : t.altWhich = true
  · rw [if_pos ha, if_pos ha]
    exact h.alt
  · rw [if_neg ha, if_neg ha]
    exact h.screen

theorem Accessed.alternate (h : Accessed t s) :
    GrownLines t.cols.toNat t.alternateScreen s.alternateScreen := by
  unfold alternateScreen
  rw [h.same.altWhich]
  by_cases ha : t.altWhich = true
  · rw [if_pos ha, if_pos ha]
    exact h.screen
  · rw [if_neg ha, if_neg ha]
    exact h.alt

/-! ## Runs -/

/-- What a run has in common with its start, whatever the widths: the lines of the main screen have only
grown. -/
structure Track (t s : Term) : Prop where
  sized : Sized s
  same : Same t s
  main : ∃ c, GrownLines c t.mainScreen s.mainScreen

/-- The width has not changed. -/
structure Kept (t s : Term) : Prop where
  cols : s.cols = t.cols
  altSblines : s.altSblines = t.altSblines
  screen : ∃ c, GrownLines c t.screen s.screen
  alt : ∃ c, GrownLines c t.altScreen s.altScreen

/-- The alternate screen has been made anew, and has not been written to. -/
def Cleared (s : Term) : Prop :=
  ∀ line ∈ s.alternateScreen, line.contents = List.replicate s.cols.toNat s.eraseChar.content

theorem Changed.cleared {newcols : ℤ} (h : Changed t s newcols) (hc : 1 ≤ newcols) : Cleared s := by
  intro line hl
  rw [h.alternate] at hl
  rw [List.eq_of_mem_replicate hl, h.cols, eraseChar, eraseChar, h.same.eraseAttr]
  exact (newline_full (by omega) t.eraseAttr).2

theorem Accessed.cleared (h : Accessed t s) (ht : Cleared t) : Cleared s := by
  have key : ∀ lines lines' : List Termline, GrownLines t.cols.toNat lines lines' →
      (∀ line ∈ lines, line.contents = List.replicate t.cols.toNat t.eraseChar.content) →
      ∀ line ∈ lines', line.contents = List.replicate t.cols.toNat t.eraseChar.content := by
    intro lines lines' hg hl
    induction hg with
    | nil => simp
    | @cons line line' lines lines' h1 _ ih =>
      intro x hx
      rcases List.mem_cons.mp hx with rfl | hx
      · -- a blank line is as wide as the terminal, so that it does not grow
        have h2 := hl line (by simp)
        have h3 : line.cols = t.cols.toNat := by
          rw [← length_contents, h2, List.length_replicate]
        have h4 := h1.le
        have h5 := h1.le_max
        have h6 : x.cols = line.cols := by omega
        rw [h1.contents, h6, Nat.sub_self, h2]
        simp
      · exact ih (fun line hm => hl line (List.mem_cons_of_mem _ hm)) x hx
  intro line hl
  rw [h.cols, eraseChar, h.same.eraseAttr]
  exact key _ _ h.alternate ht line hl

/-- What one step does to a terminal that a run has come to. -/
theorem sizeStep_track (h : Track t s) {event : SizeEvent} (hstep : s.sizeStep event = .ok d) :
    Track t d ∧ (Cleared s → Cleared d) ∧
      (Kept t s → (∀ c, event = .size c → c = t.cols) → Kept t d) ∧
      (Kept t s → (∃ c, event = .size c ∧ c ≠ t.cols) → Cleared d) := by
  cases event with
  | access y =>
    simp only [sizeStep] at hstep
    cases hr : s.lineptr y with
    | error e =>
      rw [hr] at hstep
      cases hstep
    | ok r =>
      rw [hr] at hstep
      cases hstep
      have ha := lineptr_accessed h.sized hr
      obtain ⟨c, hm⟩ := h.main
      refine ⟨⟨ha.sized h.sized, h.same.trans ha.same, _, hm.trans ha.main⟩, ha.cleared, ?_, ?_⟩
      · intro hk _
        obtain ⟨c1, h1⟩ := hk.screen
        obtain ⟨c2, h2⟩ := hk.alt
        exact ⟨ha.cols.trans hk.cols, ha.altSblines.trans hk.altSblines, ⟨_, h1.trans ha.screen⟩,
          ⟨_, h2.trans ha.alt⟩⟩
      · rintro - ⟨c, hc, -⟩
        cases hc
  | size newcols =>
    simp only [sizeStep, termSize] at hstep
    by_cases hc : newcols = s.cols
    · rw [if_pos (by simp [hc])] at hstep
      cases hstep
      refine ⟨h, id, fun hk _ => hk, ?_⟩
      rintro hk ⟨c, hc', hne⟩
      cases hc'
      exact absurd (hc.trans hk.cols) hne
    · rw [if_neg (by tauto), Int.max_eq_left h.sized.rows_pos] at hstep
      obtain ⟨d', h1, h2⟩ := resize_changed h.sized (Int.le_max_right newcols 1)
      rw [h1] at hstep
      cases hstep
      obtain ⟨c, hm⟩ := h.main
      have hcl := h2.cleared (Int.le_max_right newcols 1)
      refine ⟨⟨h2.sized, h.same.trans h2.same, c, by rw [h2.main]; exact hm⟩, fun _ => hcl, ?_,
        fun _ _ => hcl⟩
      intro hk hall
      exact absurd ((hall newcols rfl).trans hk.cols.symm) hc

theorem sizeRun_track {events : List SizeEvent} (h : Track t s) (hrun : s.sizeRun events = .ok d) :
    Track t d ∧ (Cleared s → Cleared d) ∧
      (Kept t s → (∀ c, .size c ∈ events → c = t.cols) → Kept t d) ∧
      (Kept t s → (∃ c, .size c ∈ events ∧ c ≠ t.cols) → Cleared d) := by
  induction events generalizing s with
  | nil =>
    cases hrun
    exact ⟨h, id, fun hk _ => hk, by simp⟩
  | cons event events ih =>
    rw [sizeRun, List.foldlM_cons] at hrun
    cases hstep : s.sizeStep event with
    | error e =>
      rw [hstep] at hrun
      cases hrun
    | ok s' =>
      rw [hstep] at hrun
      obtain ⟨h1, h2, h3, h4⟩ := sizeStep_track h hstep
      obtain ⟨h5, h6, h7, h8⟩ := ih h1 hrun
      refine ⟨h5, fun hc => h6 (h2 hc), ?_, ?_⟩
      · intro hk hall
        refine h7 (h3 hk ?_) fun c hc => hall c (List.mem_cons_of_mem _ hc)
        rintro c rfl
        exact hall c (by simp)
      · rintro hk ⟨c, hc, hne⟩
        by_cases hev : ∀ c, event = .size c → c = t.cols
        · have hk' := h3 hk hev
          rcases List.mem_cons.mp hc with rfl | hc
          · exact absurd (hev c rfl) hne
          · exact h8 hk' ⟨c, hc, hne⟩
        · simp only [not_forall] at hev
          obtain ⟨c', hc', hne'⟩ := hev
          exact h6 (h4 hk ⟨c', hc', hne'⟩)

/-! ## What is seen -/

theorem cellsAt_nonneg {y : ℤ} (hy : y ≥ 0) : t.cellsAt y = cellsIn t.cols t.screen y := by
  rw [← lineIn_cells t.cols t.screen y fun screen => { t with screen := screen }, cellsAt, lineptr,
    if_pos hy]

/-- A line of the scrollback, and what is seen of it. -/
def scrollbackCells (t : Term) (treeindex : ℤ) : Except Fault (List Content) := do
  let (line, _) ← decompressline (if treeindex < 0 then none else t.scrollback[treeindex.toNat]?)
  visible t.cols line

theorem cellsAt_neg {y : ℤ} (hy : ¬ y ≥ 0) {altlines : ℕ}
    (halt : (if t.eraseToScrollback = true ∧ t.altWhich = true then t.altSblines else 0) = altlines) :
    t.cellsAt y =
      if y < -altlines then t.scrollbackCells (y + altlines + t.scrollback.length)
      else cellsIn t.cols t.altScreen (y + t.altSblines) := by
  rw [← lineIn_cells t.cols t.altScreen _ fun altScreen => { t with altScreen := altScreen }, cellsAt,
    lineptr, if_neg hy]
  simp only [halt]
  by_cases hlt : y < -altlines
  · rw [if_pos hlt, if_pos hlt, scrollbackCells]
    generalize decompressline _ = p
    cases p with
    | error e => rfl
    | ok p =>
      simp only [bind, Except.bind, visible]
      cases widen t.cols p.1 with
      | error e => rfl
      | ok line => rfl
  · rw [if_neg hlt, if_neg hlt]

/-- What is seen of a terminal: the lines of the screen, and those behind it. -/
theorem cellsAt_eq (hcols : s.cols = d.cols) (hsb : s.scrollback = d.scrollback)
    (herase : s.eraseToScrollback = d.eraseToScrollback) (hwhich : s.altWhich = d.altWhich)
    (hscreen : s.screen.map (visible s.cols) = d.screen.map (visible s.cols))
    (halt : s.altWhich = true → s.altSblines = d.altSblines ∧
      s.altScreen.map (visible s.cols) = d.altScreen.map (visible s.cols)) (y : ℤ) :
    s.cellsAt y = d.cellsAt y := by
  by_cases hy : y ≥ 0
  · rw [cellsAt_nonneg hy, cellsAt_nonneg hy, cellsIn, cellsIn, ← hcols, hscreen]
  have hscroll : ∀ i, s.scrollbackCells i = d.scrollbackCells i := fun i => by
    rw [scrollbackCells, scrollbackCells, hsb, hcols]
  rw [cellsAt_neg hy rfl, cellsAt_neg hy rfl, ← herase, ← hwhich, ← hsb, hscroll]
  by_cases hw : s.altWhich = true
  · obtain ⟨h1, h2⟩ := halt hw
    rw [cellsIn, cellsIn, ← hcols, ← h1, h2]
  · -- without the alternate screen, all lines above the screen are in the scrollback
    have hoff : ¬ (s.eraseToScrollback = true ∧ s.altWhich = true) := fun h => hw h.2
    simp only [if_neg hoff]
    rw [if_pos (by omega), if_pos (by omega)]

theorem mapM_visible (cols : ℤ) (lines : List Termline) :
    (lines.mapM fun line => do
      let line ← widen cols line
      pure (line.contents.take cols.toNat) : Except Fault (List (List Content))) =
      (lines.map (visible cols)).mapM id := by
  rw [List.mapM_map]
  rfl

/-- An alternate screen that has been made anew is displayed as blank. -/
theorem Cleared.cellsAt (hc : Cleared s) (hs : Sized s) (hw : s.altWhich = true) {y : ℤ} (hy : 0 ≤ y)
    (hlt : y < s.rows) : s.cellsAt y = .ok (List.replicate s.cols.toNat s.eraseChar.content) := by
  have hrows := hs.rows_eq
  have hget : y.toNat < s.screen.length := by omega
  have hmem : s.screen[y.toNat] ∈ s.alternateScreen := by
    rw [alternateScreen, if_pos hw]
    exact List.getElem_mem hget
  have hline := hc _ hmem
  have hcols : (s.screen[y.toNat]).cols = s.cols.toNat := by
    rw [← length_contents, hline, List.length_replicate]
  rw [cellsAt_nonneg hy, cellsIn, if_neg (by omega), List.getElem?_map, List.getElem?_eq_getElem hget,
    Option.map_some, Option.getD_some, visible_eq (hs.screen_full _ (List.getElem_mem hget)), hcols, hline]
  simp

/-- **Changes of the width do not destroy text on the main screen.** After a run of changes of the width
with lines retrieved in between, the main screen and the scrollback show the same cells as after a single
change to the last width, and so does the screen if the last width is not the first. If the main screen is
displayed or no change has had an effect, all lines show the same cells. Otherwise the alternate screen is
displayed, and it is blank. -/
theorem sizeRun_keeps_text (ht : Sized t) {events : List SizeEvent} (hrun : t.sizeRun events = .ok s) :
    ∃ d, t.termSize t.rows s.cols t.savelines = .ok d ∧ d.cols = s.cols ∧ d.scrollback = s.scrollback ∧
      s.mainCells = d.mainCells ∧
      (t.altWhich = false ∨ (∀ c, .size c ∈ events → c = t.cols) → ∀ y, s.cellsAt y = d.cellsAt y) ∧
      (s.cols ≠ t.cols → ∀ y, 0 ≤ y → y < t.rows → s.cellsAt y = d.cellsAt y) ∧
      (t.altWhich = true → (∃ c, .size c ∈ events ∧ c ≠ t.cols) → ∀ y, 0 ≤ y → y < t.rows →
        s.cellsAt y = .ok (List.replicate s.cols.toNat t.eraseChar.content)) := by
  have hstart : Track t t := ⟨ht, ⟨rfl, rfl, rfl, rfl, rfl, rfl⟩, 0, GrownLines.refl ht.main_full 0⟩
  have hkept : Kept t t := ⟨rfl, rfl, ⟨0, GrownLines.refl ht.screen_full 0⟩,
    ⟨0, GrownLines.refl ht.alt_full 0⟩⟩
  obtain ⟨h1, -, h3, h4⟩ := sizeRun_track hstart hrun
  obtain ⟨c, hmain⟩ := h1.main
  have hblank : t.altWhich = true → (∃ c, .size c ∈ events ∧ c ≠ t.cols) → ∀ y, 0 ≤ y → y < t.rows →
      s.cellsAt y = .ok (List.replicate s.cols.toNat t.eraseChar.content) := by
    intro hw hc y hy hlt
    have hcell := (h4 hkept hc).cellsAt h1.sized (h1.same.altWhich.trans hw) hy (h1.same.rows.symm ▸ hlt)
    rwa [eraseChar, h1.same.eraseAttr] at hcell
  by_cases hsame : s.cols = t.cols
  · refine ⟨t, by rw [termSize, if_pos (by simp [hsame])], hsame.symm, h1.same.scrollback.symm, ?_, ?_,
      fun hne => absurd hsame hne, hblank⟩
    · rw [mainCells, mainCells, mapM_visible, mapM_visible, hmain.map_visible ht.main_full, hsame]
    · rintro (hw | hall)
      · have hws : s.altWhich = false := h1.same.altWhich.trans hw
        have h5 : GrownLines c t.screen s.screen := by
          simpa [mainScreen, hw, hws] using hmain
        exact cellsAt_eq hsame h1.same.scrollback h1.same.eraseToScrollback h1.same.altWhich
          (h5.map_visible ht.screen_full _) (by simp [hws])
      · have hk := h3 hkept hall
        obtain ⟨c1, h5⟩ := hk.screen
        obtain ⟨c2, h6⟩ := hk.alt
        exact cellsAt_eq hsame h1.same.scrollback h1.same.eraseToScrollback h1.same.altWhich
          (h5.map_visible ht.screen_full _) fun _ => ⟨hk.altSblines, h6.map_visible ht.alt_full _⟩
  · obtain ⟨d, h5, h6⟩ := resize_changed ht h1.sized.cols_pos
    have hd : t.termSize t.rows s.cols t.savelines = .ok d := by
      rw [termSize, if_neg (by tauto), Int.max_eq_left ht.rows_pos, Int.max_eq_left h1.sized.cols_pos, h5]
    have hchange : ∃ c, .size c ∈ events ∧ c ≠ t.cols := by
      by_contra hno
      refine hsame (h3 hkept fun c hc => ?_).cols
      by_contra hne
      exact hno ⟨c, hc, hne⟩
    have heq : t.altWhich = false → ∀ y, s.cellsAt y = d.cellsAt y := by
      intro hw
      have hws : s.altWhich = false := h1.same.altWhich.trans hw
      have hwd : d.altWhich = false := h6.same.altWhich.trans hw
      have h7 : GrownLines c t.screen s.screen := by
        simpa [mainScreen, hw, hws] using hmain
      have h8 : d.screen = t.screen := by
        simpa [mainScreen, hw, hwd] using h6.main
      exact cellsAt_eq h6.cols.symm (h1.same.scrollback.trans h6.same.scrollback.symm)
        (h1.same.eraseToScrollback.trans h6.same.eraseToScrollback.symm) (hws.trans hwd.symm)
        (by rw [h7.map_visible ht.screen_full, h8]) (by simp [hws])
    refine ⟨d, hd, h6.cols, h6.same.scrollback.trans h1.same.scrollback.symm, ?_, ?_, ?_, hblank⟩
    · rw [mainCells, mainCells, mapM_visible, mapM_visible, hmain.map_visible ht.main_full, h6.main,
        h6.cols]
    · rintro (hw | hall)
      · exact heq hw
      · exact absurd (h3 hkept hall).cols hsame
    · intro _ y hy hlt
      by_cases hw : t.altWhich = true
      · have hcell := (h6.cleared h1.sized.cols_pos).cellsAt h6.sized (h6.same.altWhich.trans hw) hy
          (h6.same.rows.symm ▸ hlt)
        rw [eraseChar, h6.same.eraseAttr, h6.cols] at hcell
        rw [hblank hw hchange y hy hlt, hcell, eraseChar]
      · exact heq (by simpa using hw) y

/-- A main screen that becomes narrower and wider again. -/
theorem sizeRun_keeps_text_ab :
    let line : Termline := ⟨0, 2, false, 0, [⟨65, 0x20500, 0⟩, ⟨66, 0x20500, 0⟩]⟩
    let t : Term := ⟨1, 2, 10, [], 0, [line], [newline basicEraseChar 2], 0, false, true, 0x20500, 0, 0⟩
    let s : Term := ⟨1, 2, 10, [], 0, [line], [newline basicEraseChar 2], 0, false, true, 0x20500, 0, 0⟩
    ∃ d, t.termSize t.rows s.cols t.savelines = .ok d ∧ d.cols = s.cols ∧ d.scrollback = s.scrollback ∧
      s.mainCells = d.mainCells ∧
      (t.altWhich = false ∨ (∀ c, .size c ∈ [SizeEvent.size 1, .access 0, .size 2] → c = t.cols) →
        ∀ y, s.cellsAt y = d.cellsAt y) ∧
      (s.cols ≠ t.cols → ∀ y, 0 ≤ y → y < t.rows → s.cellsAt y = d.cellsAt y) ∧
      (t.altWhich = true → (∃ c, .size c ∈ [SizeEvent.size 1, .access 0, .size 2] ∧ c ≠ t.cols) →
        ∀ y, 0 ≤ y → y < t.rows →
          s.cellsAt y = .ok (List.replicate s.cols.toNat t.eraseChar.content)) := by
  intro line t s
  have hline : Full line := ⟨fun _ => [], [],
    { cols_le := by decide
      path := fun j hj => Chain.nil (by
        have : j = 0 ∨ j = 1 := by
          have h2 : line.cols = 2 := rfl
          omega
        rcases this with rfl | rfl
        · rfl
        · rfl)
      above := by simp
      disjoint := by simp
      free_path := Or.inl ⟨rfl, rfl⟩
      free_above := by simp
      free_disjoint := by simp
      pos := by decide
      covers := by
        intro p h1 h2
        have h3 : line.cols = 2 := rfl
        have h4 : line.size = 2 := rfl
        omega }⟩
  have hblank : Full (newline basicEraseChar 2) := (newline_full (by decide) 0x20500).1
  have ht : Sized t :=
    { rows_eq := rfl
      alt_length := rfl
      rows_pos := by decide
      cols_pos := by decide
      scrollback_le := by decide
      temps_le := by decide
      screen_full := by simpa [t] using hline
      alt_full := by simpa [t] using hblank }
  have hrun : t.sizeRun [.size 1, .access 0, .size 2] = .ok s := by decide
  exact sizeRun_keeps_text ht hrun

/-- The alternate screen with a character on it: it is lost when the width changes and changes back, and
is kept when the width is set once to what it is. -/
theorem alternate_screen_lost :
    let line : Termline := ⟨0, 1, false, 0, [⟨65, 0x20500, 0⟩]⟩
    let t : Term := ⟨1, 1, 10, [], 0, [line], [newline basicEraseChar 1], 0, true, true, 0x20500, 0, 0⟩
    ∃ s d, t.sizeRun [.size 2, .size 1] = .ok s ∧ s.cols = 1 ∧ t.termSize t.rows s.cols t.savelines = .ok d ∧
      s.cellsAt 0 = .ok [⟨0xD820, 0x20500, []⟩] ∧ d.cellsAt 0 = .ok [⟨65, 0x20500, []⟩] ∧
      s.cellsAt 0 ≠ d.cellsAt 0 := by
  intro line t
  exact ⟨_, _, rfl, rfl, rfl, by decide, by decide, by decide⟩

end Term

end PuttyNd.Terminal
