import PuttyNd.Terminal.Proofs.LiteralProofs

/-!
# Proofs: `compressline` and `decompressline`

The compressed form of a line gives the line back, up to the places where its combining characters
are stored, and its reader stops exactly at its end.
-/

namespace PuttyNd.Terminal

open RunLength Outcome

/-- The lines that the terminal builds: the columns are allocated, no attribute word has its top bit
set, and the combining characters of each column form a list that ends, stays inside of the array
and does not have the character 0. -/
structure Termline.Built (line : Termline) : Prop where
  cols_le : line.cols ≤ line.size
  attr_lt : ∀ j < line.cols, (line.cell j).attr < 0x80000000
  ccs : ∀ j < line.cols, ∃ chrs, CcList line j chrs ∧ 0 ∉ chrs

/-! ## Numbers -/

/-- The bytes of a number, seven bits at a time. -/
def septets (n : ℕ) : Buf := addSeptets [] n

theorem addSeptets_lt (b : Buf) {n : ℕ} (h : n < 128) : addSeptets b n = b ++ [n.toUInt8] := by
  rw [addSeptets, if_neg (by omega)]

theorem addSeptets_ge (b : Buf) {n : ℕ} (h : 128 ≤ n) :
    addSeptets b n = addSeptets (b ++ [((n &&& 0x7F) ||| 0x80).toUInt8]) (n / 128) := by
  rw [addSeptets, if_pos h, Nat.shiftRight_eq_div_pow]

theorem addSeptets_eq (b : Buf) (n : ℕ) : addSeptets b n = b ++ septets n := by
  unfold septets
  induction n using Nat.strongRecOn generalizing b with
  | _ n ih =>
    by_cases h : n < 128
    · simp [addSeptets_lt _ h]
    · have hlt : n / 128 < n := by omega
      rw [addSeptets_ge b (by omega), addSeptets_ge [] (by omega), ih _ hlt (b ++ _),
        ih _ hlt ([] ++ _)]
      simp

theorem septets_lt {n : ℕ} (h : n < 128) : septets n = [n.toUInt8] := by
  rw [septets, addSeptets_lt [] h]
  rfl

theorem septets_ge {n : ℕ} (h : 128 ≤ n) :
    septets n = ((n &&& 0x7F) ||| 0x80).toUInt8 :: septets (n / 128) := by
  rw [septets, addSeptets_ge [] h, addSeptets_eq]
  rfl

/-- The bits of a byte of a number: its value and the mark that more bytes follow. -/
theorem septet_more (n : ℕ) : (((n &&& 0x7F) ||| 0x80).toUInt8.toNat &&& 0x7F) = n % 128 ∧
    ((n &&& 0x7F) ||| 0x80).toUInt8 &&& 0x80 ≠ 0 := by
  have hmod : n &&& 0x7F = n % 128 := Nat.and_two_pow_sub_one_eq_mod n 7
  rw [hmod]
  have hlt : n % 128 < 128 := Nat.mod_lt _ (by omega)
  generalize n % 128 = m at hlt
  interval_cases m <;> decide

theorem septet_last {n : ℕ} (h : n < 128) : (n.toUInt8.toNat &&& 0x7F) = n ∧
    ¬ (n.toUInt8 &&& 0x80 ≠ 0) := by
  interval_cases n <;> decide

theorem getSeptets_spec {data rest : Buf} :
    ∀ (fuel n pos acc shift : ℕ), acc < 2 ^ shift → (septets n).length ≤ fuel →
      data.drop pos = septets n ++ rest →
      getSeptets fuel ⟨data, pos⟩ acc shift
        = .ok (acc + n * 2 ^ shift, ⟨data, pos + (septets n).length⟩) := by
  intro fuel
  induction fuel with
  | zero =>
    intro n pos acc shift _ h
    by_cases h1 : n < 128
    · simp [septets_lt h1] at h
    · simp [septets_ge (Nat.le_of_not_lt h1)] at h
  | succ fuel ih =>
    intro n pos acc shift hacc hn hd
    by_cases h : n < 128
    · rw [septets_lt h] at hd ⊢
      obtain ⟨g, hd⟩ := get_cons hd
      obtain ⟨h1, h2⟩ := septet_last h
      simp only [getSeptets, g, ok_bind, h1, if_neg h2, pure_eq]
      rw [Nat.or_comm, ← Nat.shiftLeft_add_eq_or_of_lt hacc, Nat.shiftLeft_eq, Nat.add_comm]
      rfl
    · rw [septets_ge (by omega)] at hd hn ⊢
      obtain ⟨g, hd⟩ := get_cons hd
      obtain ⟨h1, h2⟩ := septet_more n
      have hor : acc ||| (n % 128) <<< shift = acc + n % 128 * 2 ^ shift := by
        rw [Nat.or_comm, ← Nat.shiftLeft_add_eq_or_of_lt hacc, Nat.shiftLeft_eq, Nat.add_comm]
      have hacc' : acc + n % 128 * 2 ^ shift < 2 ^ (shift + 7) := by
        have hm : n % 128 + 1 ≤ 128 := Nat.mod_lt _ (by omega)
        have := Nat.mul_le_mul_right (2 ^ shift) hm
        rw [Nat.add_mul] at this
        rw [Nat.pow_add]
        omega
      have hn' : n * 2 ^ shift = n % 128 * 2 ^ shift + n / 128 * (2 ^ shift * 2 ^ 7) := by
        calc n * 2 ^ shift = (n % 128 + 128 * (n / 128)) * 2 ^ shift := by rw [Nat.mod_add_div]
          _ = n % 128 * 2 ^ shift + n / 128 * (2 ^ shift * 2 ^ 7) := by
            rw [Nat.add_mul, Nat.mul_comm 128, Nat.mul_assoc, Nat.mul_comm 128,
              show 2 ^ 7 = 128 from rfl]
      simp only [getSeptets, g, ok_bind, h1, if_pos h2, hor]
      rw [ih _ _ _ _ hacc' (by simpa using hn) hd, Nat.pow_add, hn', ← Nat.add_assoc,
        List.length_cons, Nat.add_assoc pos, Nat.add_comm 1]

/-! ## The three fragments -/

section Fragments

variable {line : Termline}

/-- The coder of the characters of a line. -/
def chrCoder (line : Termline) : Coder ℕ UInt32 UInt8 where
  enc state c := chrLit state (line.cell c).chr
  next _ c := (line.cell c).chr &&& ~~~0xFF

/-- The coder of the attribute words of a line. -/
def attrCoder (line : Termline) : Coder ℕ UInt32 UInt8 where
  enc _ c := attrLit (line.cell c).attr
  next state _ := state

/-- The coder of combining characters. -/
def ccCoder (f : ℕ → List UInt32) : Coder ℕ UInt32 UInt8 where
  enc _ c := ccLit (f c)
  next state _ := state

theorem codes_chr (line : Termline) : Codes makeChr line (chrCoder line) line.cols where
  make_eq b c s _ := by simp [makeChr, makeliteralChr_eq, chrCoder]
  enc_ne s _ := chrLit_ne s _

theorem codes_attr (line : Termline) : Codes makeAttr line (attrCoder line) line.cols where
  make_eq b c s _ := by simp [makeAttr, makeliteralAttr_eq, attrCoder]
  enc_ne _ _ := attrLit_ne _

theorem codes_cc (hcols : line.cols ≤ line.size) {f : ℕ → List UInt32}
    (hf : ∀ j < line.cols, CcList line j (f j) ∧ 0 ∉ f j) :
    Codes makeCc line (ccCoder f) line.cols where
  make_eq b c s hc := makeCc_spec (hf c hc).1 (hf c hc).2 (Nat.lt_of_lt_of_le hc hcols) b s
  enc_ne _ _ := ccLit_ne _

/-- The line `l` has no combining characters, and the characters of the first `nchr` columns and the
attribute words of the first `nattr` columns of `line`. -/
structure Filled (line : Termline) (nchr nattr : ℕ) (l : Termline) : Prop where
  cols : l.cols = line.cols
  lattr : l.lattr = line.lattr
  length : l.chars.length = line.cols
  ccFree : l.ccFree = 0
  ccNext : ∀ j < line.cols, (l.cell j).ccNext = 0
  chr : ∀ j < line.cols, j < nchr → (l.cell j).chr = (line.cell j).chr
  attr : ∀ j < line.cols, j < nattr → (l.cell j).attr = (line.cell j).attr

theorem reads_chr (line : Termline) :
    Reads readChr (chrCoder line) line.cols fun n => Filled line n 0 where
  cols_eq n l h := h.cols
  read_ok n l data pos rest s hn hd h := by
    refine ⟨{ l with
      chars := l.chars.modify n fun t => { t with chr := (line.cell n).chr } }, ?_, ?_⟩
    · simp [readChr, readliteralChr_spec hd, chrCoder]
    · have hlen := h.length
      refine
        { cols := h.cols, lattr := h.lattr, ccFree := h.ccFree
          length := by simpa using hlen
          ccNext := fun j hj => ?_
          chr := fun j hj hjn => ?_
          attr := fun j _ hj => absurd hj (Nat.not_lt_zero j) }
      · have := h.ccNext j hj
        simp only [Termline.cell, getD_modify] at this ⊢
        split_ifs <;> exact this
      · have := h.chr j hj
        simp only [Termline.cell, getD_modify] at this ⊢
        split_ifs with h1
        · rw [h1.1]
        · exact this (by omega)

theorem reads_attr (hattr : ∀ j < line.cols, (line.cell j).attr < 0x80000000) :
    Reads readAttr (attrCoder line) line.cols fun n => Filled line line.cols n where
  cols_eq n l h := h.cols
  read_ok n l data pos rest s hn hd h := by
    refine ⟨{ l with
      chars := l.chars.modify n fun t => { t with attr := (line.cell n).attr } }, ?_, ?_⟩
    · simp [readAttr, readliteralAttr_spec (hattr n hn) hd, attrCoder]
    · have hlen := h.length
      refine
        { cols := h.cols, lattr := h.lattr, ccFree := h.ccFree
          length := by simpa using hlen
          ccNext := fun j hj => ?_
          chr := fun j hj hjn => ?_
          attr := fun j hj hjn => ?_ }
      · have := h.ccNext j hj
        simp only [Termline.cell, getD_modify] at this ⊢
        split_ifs <;> exact this
      · have := h.chr j hj hjn
        simp only [Termline.cell, getD_modify] at this ⊢
        split_ifs <;> exact this
      · have := h.attr j hj
        simp only [Termline.cell, getD_modify] at this ⊢
        split_ifs with h1
        · rw [h1.1]
        · exact this (by omega)

/-- The line `l` has the columns of `line`, with the combining characters of the first `n`. -/
def Marked (line : Termline) (f : ℕ → List UInt32) (n : ℕ) (l : Termline) : Prop :=
  SameCells line l ∧ Ccs l fun j => if j < n then f j else []

theorem reads_cc (line : Termline) (f : ℕ → List UInt32) (h0 : ∀ j < line.cols, 0 ∉ f j) :
    Reads readCc (ccCoder f) line.cols (Marked line f) where
  cols_eq n l h := h.1.cols
  read_ok n l data pos rest s hn hd h := by
    obtain ⟨hs, hc⟩ := h
    have hn' : n < l.cols := by rw [hs.cols]; exact hn
    -- The column has no combining characters yet, so that clearing `cc_next` changes nothing.
    have hnext : (l.cell n).ccNext = 0 := by
      obtain ⟨ps, h1, h2⟩ := hc.ccList hn'
      rw [if_neg (by omega), chrsAt, List.map_eq_nil_iff] at h2
      subst h2
      exact h1.inv_nil
    have hmod : (l.chars.modify n fun t => { t with ccNext := 0 }) = l.chars := by
      refine List.ext_getElem? fun i => ?_
      rw [List.getElem?_modify]
      by_cases hi : n = i
      · subst hi
        cases hg : l.chars[n]? with
        | none => simp
        | some t =>
          have : t.ccNext = 0 := by simpa [Termline.cell, hg] using hnext
          simp [← this]
      · simp [hi]
    have hlen : (f n).length < data.length + 1 := by
      have h1 := congrArg List.length hd
      have h2 : (f n).length ≤ (ccLit (f n)).length := by
        rw [ccLit]
        generalize f n = chrs
        induction chrs with
        | nil => simp
        | cons c cs ih =>
          have : (chrLit 0 c).length ≠ 0 := by simpa using chrLit_ne 0 c
          simp at ih ⊢
          omega
      simp [ccCoder] at h1
      omega
    obtain ⟨l', h1, hs', hc'⟩ :=
      readliteralCcLoop_spec (f n) (data.length + 1) pos l _ (h0 n hn) hlen hd hn' hc
    refine ⟨l', ?_, hs.trans hs', ?_⟩
    · simp only [readCc, hmod, h1, ok_bind]
      rfl
    · have hf : (Function.update (fun j => if j < n then f j else []) n
          ((if n < n then f n else []) ++ f n)) = fun j => if j < n + 1 then f j else [] := by
        funext j
        by_cases hj : j = n
        · subst hj
          simp
        · rw [Function.update_of_ne hj]
          have : j < n ↔ j < n + 1 := by omega
          simp only [this]
      rw [← hf]
      exact hc'

end Fragments

theorem drop_after {data xs rest : Buf} {pos : ℕ} (h : data.drop pos = xs ++ rest) :
    data.drop (pos + xs.length) = rest := by
  rw [← List.drop_drop, h, drop_mid _ _ _ rfl]

/-- **The round trip of a line through the scrollback.** The compressed form of a line, followed by
whatever comes after it in memory, is read back as a line with the same columns and attributes, and
exactly the bytes of the compressed form are used. -/
theorem decompressline_compressline (line : Termline) (h : line.Built) :
    ∃ bytes, compressline line = .ok bytes ∧
      ∀ rest, ∃ line', decompressline (some (bytes ++ rest)) = .ok (line', bytes.length) ∧
        line'.cols = line.cols ∧ line'.lattr = line.lattr ∧
        ∀ j < line.cols, (line'.cell j).chr = (line.cell j).chr ∧
          (line'.cell j).attr = (line.cell j).attr ∧
          ∀ chrs, CcList line' j chrs ↔ CcList line j chrs := by
  obtain ⟨f, hf⟩ : ∃ f : ℕ → List UInt32, ∀ j < line.cols, CcList line j (f j) ∧ 0 ∉ f j := by
    choose! f hf using h.ccs
    exact ⟨f, hf⟩
  set b := septets line.cols ++ septets line.lattr.toNat with hb
  obtain ⟨segs1, h1, hfit1, hexp1⟩ := makerle_spec (codes_chr line) b
  obtain ⟨segs2, h2, hfit2, hexp2⟩ := makerle_spec (codes_attr line) (b ++ serRle segs1)
  obtain ⟨segs3, h3, hfit3, hexp3⟩ :=
    makerle_spec (codes_cc h.cols_le hf) (b ++ serRle segs1 ++ serRle segs2)
  refine ⟨b ++ serRle segs1 ++ serRle segs2 ++ serRle segs3, ?_, fun rest => ?_⟩
  · unfold compressline
    simp only [addSeptets_eq [] line.cols, addSeptets_eq _ line.lattr.toNat, List.nil_append]
    rw [← hb, h1, ok_bind, h2, ok_bind, h3]
  · set data := b ++ serRle segs1 ++ serRle segs2 ++ serRle segs3 ++ rest with hdata
    have hd0 : data.drop 0
        = septets line.cols ++ (septets line.lattr.toNat ++ (serRle segs1 ++ (serRle segs2 ++
            (serRle segs3 ++ rest)))) := by
      rw [hdata, hb]; simp
    have hlen := congrArg List.length hd0
    simp only [List.drop_zero, List.length_append] at hlen
    have g1 := getSeptets_spec (data.length + 1) line.cols 0 0 0 (by decide) (by omega) hd0
    have hd1 := drop_after hd0
    have g2 := getSeptets_spec (data.length + 1) line.lattr.toNat _ 0 0 (by decide) (by omega) hd1
    have hd2 := drop_after hd1
    have hblank : Filled line 0 0
        { lattr := line.lattr, cols := line.cols, temporary := true, ccFree := 0
          chars := List.replicate line.cols { chr := 0, attr := 0, ccNext := 0 } } :=
      { cols := rfl, lattr := rfl, ccFree := rfl
        length := by simp
        ccNext := fun j hj => by simp [Termline.cell, hj]
        chr := fun j _ hj => absurd hj (Nat.not_lt_zero j)
        attr := fun j _ hj => absurd hj (Nat.not_lt_zero j) }
    obtain ⟨line1, r1, hq1⟩ := readrle_spec (reads_chr line) hfit1 hexp1 hd2 hblank
    have hd3 := drop_after hd2
    have hq1' : Filled line line.cols 0 line1 := hq1
    obtain ⟨line2, r2, hq2⟩ := readrle_spec (reads_attr h.attr_lt) hfit2 hexp2 hd3 hq1'
    have hd4 := drop_after hd3
    have hmark : Marked line f 0 line2 :=
      ⟨⟨hq2.cols, hq2.lattr, fun j hj => hq2.chr j hj hj, fun j hj => hq2.attr j hj hj⟩, by
        simpa using ccs_blank (hq2.length.trans hq2.cols.symm) hq2.ccFree
          (fun j hj => hq2.ccNext j (by rw [← hq2.cols]; exact hj))⟩
    obtain ⟨line3, r3, hs3, hc3⟩ :=
      readrle_spec (reads_cc line f fun j hj => (hf j hj).2) hfit3 hexp3 hd4 hmark
    refine ⟨line3, ?_, hs3.cols, hs3.lattr, fun j hj => ⟨hs3.chr j hj, hs3.attr j hj, ?_⟩⟩
    · have hl : line.lattr.toNat.toUInt16 = line.lattr := by simp
      simp only [Nat.zero_add, Nat.pow_zero, Nat.mul_one] at g1 g2 r1 r2 r3
      simp only [decompressline, g1, g2, hl, r1, r2, r3, ok_bind, pure_eq, hb, List.length_append]
    · intro chrs
      have h3 : CcList line3 j (f j) := by
        have := hc3.ccList (j := j) (by rw [hs3.cols]; exact hj)
        rwa [if_pos hj] at this
      constructor
      · intro hl
        rw [hl.unique h3]
        exact (hf j hj).1
      · intro hl
        rw [hl.unique (hf j hj).1]
        exact h3

/-- The round trip of a line of two columns, of which the second has an accent. -/
theorem decompressline_compressline_accent :
    ∃ bytes, compressline ⟨2, 2, false, 0, [⟨0x20, 0x1100, 0⟩, ⟨0x65, 0x1100, 1⟩, ⟨0x301, 0, 0⟩]⟩
        = .ok bytes ∧
      ∀ rest, ∃ line', decompressline (some (bytes ++ rest)) = .ok (line', bytes.length) ∧
        line'.cols = 2 ∧ line'.lattr = 2 ∧
        ∀ j < 2, (line'.cell j).chr = [0x20, 0x65, 0x301].getD j 0 ∧
          (line'.cell j).attr = 0x1100 ∧
          ∀ chrs, CcList line' j chrs ↔ CcList ⟨2, 2, false, 0,
            [⟨0x20, 0x1100, 0⟩, ⟨0x65, 0x1100, 1⟩, ⟨0x301, 0, 0⟩]⟩ j chrs := by
  have hbuilt : Termline.Built
      ⟨2, 2, false, 0, [⟨0x20, 0x1100, 0⟩, ⟨0x65, 0x1100, 1⟩, ⟨0x301, 0, 0⟩]⟩ :=
    { cols_le := by decide
      attr_lt := by decide
      ccs := fun j hj => by
        interval_cases j
        · exact ⟨[], ⟨[], Chain.nil rfl, rfl⟩, by simp⟩
        · exact ⟨[0x301], ⟨[2], Chain.cons ⟨by decide, rfl, by decide⟩ (Chain.nil rfl), rfl⟩,
            by decide⟩ }
  obtain ⟨bytes, h1, h2⟩ := decompressline_compressline _ hbuilt
  refine ⟨bytes, h1, fun rest => ?_⟩
  obtain ⟨line', h3, h4, h5, h6⟩ := h2 rest
  refine ⟨line', h3, h4, h5, fun j hj => ?_⟩
  obtain ⟨h7, h8, h9⟩ := h6 j hj
  refine ⟨?_, ?_, h9⟩
  · rw [h7]
    interval_cases j <;> rfl
  · rw [h8]
    interval_cases j <;> rfl

end PuttyNd.Terminal
