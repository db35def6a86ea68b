import PuttyNd.Terminal.Proofs.RunLengthProofs
import PuttyNd.Terminal.Proofs.TermlineProofs
import Mathlib.Tactic.IntervalCases

/-!
# Proofs: the literals of a compressed line

Each `readliteral` function reads what the `makeliteral` function of the same fragment writes. The
equations between words are proved bit by bit.
-/

namespace PuttyNd.Terminal

open RunLength Outcome

/-! ## Characters -/

/-- The literal of a character in a state of the character coder. -/
def chrLit (state chr : UInt32) : Buf := (makeliteralChr [] chr state).1

theorem makeliteralChr_eq (b : Buf) (chr state : UInt32) :
    makeliteralChr b chr state = (b ++ chrLit state chr, chr &&& ~~~0xFF) := by
  unfold chrLit makeliteralChr
  split_ifs <;> simp

theorem chrLit_ne (state chr : UInt32) : chrLit state chr ≠ [] := by
  unfold chrLit makeliteralChr
  split_ifs <;> simp

theorem getLsbD_of_lt {x : BitVec 32} {n i : ℕ} (h : x.toNat < 2 ^ n) (hi : n ≤ i) :
    x.getLsbD i = false :=
  Nat.testBit_lt_two_pow (Nat.lt_of_lt_of_le h (Nat.pow_le_pow_right (by omega) hi))

theorem forall_uInt8 {P : UInt8 → Prop} (h : ∀ w : BitVec 8, P ⟨w⟩) (w : UInt8) : P w :=
  h w.toBitVec

/-- The first bytes of the forms of a character literal are told apart by their high bits. -/
theorem tag_7bit : ∀ w : UInt8, w &&& 0x7F < 0x80 := forall_uInt8 (by decide +kernel)

theorem tag_2bytes : ∀ w : UInt8, ¬ (w &&& 0x3F ||| 0x80 < 0x80) ∧ w &&& 0x3F ||| 0x80 < 0xC0 :=
  forall_uInt8 (by decide +kernel)

theorem tag_3bytes : ∀ w : UInt8, ¬ (w &&& 0x1F ||| 0xC0 < 0x80) ∧ ¬ (w &&& 0x1F ||| 0xC0 < 0xC0) ∧
    w &&& 0x1F ||| 0xC0 < 0xE0 :=
  forall_uInt8 (by decide +kernel)

theorem tag_4bytes : ∀ w : UInt8, ¬ (w &&& 0x0F ||| 0xE0 < 0x80) ∧ ¬ (w &&& 0x0F ||| 0xE0 < 0xC0) ∧
    ¬ (w &&& 0x0F ||| 0xE0 < 0xE0) ∧ w &&& 0x0F ||| 0xE0 < 0xF0 :=
  forall_uInt8 (by decide +kernel)

section Bits

/-- Two words are equal if their bits are, and the bits from `n` on are known to be zero. -/
theorem eq_of_bits {x y : UInt32} {n : ℕ} (hx : x.toNat < 2 ^ n)
    (h : (∀ i, n ≤ i → x.toBitVec.getLsbD i = false) → ∀ i, i < 32 →
      y.toBitVec.getLsbD i = x.toBitVec.getLsbD i) : y = x :=
  UInt32.toBitVec_inj.1 (BitVec.eq_of_getLsbD_eq fun i hi =>
    h (fun _ hi' => getLsbD_of_lt hx hi') i hi)

theorem chr_7bit (x : UInt32) : (x.toUInt8 &&& 0x7F).toUInt32 ||| x &&& ~~~0x7F = x := by
  refine eq_of_bits x.toNat_lt fun _ i hi => ?_
  simp only [UInt32.toBitVec_or, UInt32.toBitVec_and, UInt32.toBitVec_not,
    UInt32.toBitVec_toUInt8, UInt8.toBitVec_toUInt32, UInt8.toBitVec_and]
  interval_cases i <;> simp

theorem chr_2bytes {x : UInt32} (h : x < 0x4000) :
    ((((x >>> 8).toUInt8 &&& 0x3F ||| 0x80).toUInt32 &&& ~~~0xC0) <<< 8 |||
      x.toUInt8.toUInt32) = x := by
  refine eq_of_bits (n := 14) (by simpa [UInt32.lt_iff_toNat_lt] using h) fun hb i hi => ?_
  have h14 := hb i
  simp only [UInt32.toBitVec_or, UInt32.toBitVec_and, UInt32.toBitVec_not,
    UInt32.toBitVec_shiftLeft, UInt32.toBitVec_shiftRight, UInt32.toBitVec_toUInt8,
    UInt8.toBitVec_toUInt32, UInt8.toBitVec_or, UInt8.toBitVec_and]
  interval_cases i <;> simp at h14 ⊢ <;> exact h14

theorem chr_3bytes {x : UInt32} (h : x < 0x200000) :
    ((((x >>> 16).toUInt8 &&& 0x1F ||| 0xC0).toUInt32 &&& ~~~0xE0) <<< 16 |||
      (x >>> 8).toUInt8.toUInt32 <<< 8 ||| x.toUInt8.toUInt32) = x := by
  refine eq_of_bits (n := 21) (by simpa [UInt32.lt_iff_toNat_lt] using h) fun hb i hi => ?_
  have h21 := hb i
  simp only [UInt32.toBitVec_or, UInt32.toBitVec_and, UInt32.toBitVec_not,
    UInt32.toBitVec_shiftLeft, UInt32.toBitVec_shiftRight, UInt32.toBitVec_toUInt8,
    UInt8.toBitVec_toUInt32, UInt8.toBitVec_or, UInt8.toBitVec_and]
  interval_cases i <;> simp at h21 ⊢ <;> exact h21

theorem chr_4bytes {x : UInt32} (h : x < 0x10000000) :
    ((((x >>> 24).toUInt8 &&& 0x0F ||| 0xE0).toUInt32 &&& ~~~0xF0) <<< 24 |||
      (x >>> 16).toUInt8.toUInt32 <<< 16 ||| (x >>> 8).toUInt8.toUInt32 <<< 8 |||
      x.toUInt8.toUInt32) = x := by
  refine eq_of_bits (n := 28) (by simpa [UInt32.lt_iff_toNat_lt] using h) fun hb i hi => ?_
  have h28 := hb i
  simp only [UInt32.toBitVec_or, UInt32.toBitVec_and, UInt32.toBitVec_not,
    UInt32.toBitVec_shiftLeft, UInt32.toBitVec_shiftRight, UInt32.toBitVec_toUInt8,
    UInt8.toBitVec_toUInt32, UInt8.toBitVec_or, UInt8.toBitVec_and]
  interval_cases i <;> simp at h28 ⊢ <;> exact h28

theorem chr_5bytes (x : UInt32) :
    ((x >>> 24).toUInt8.toUInt32 <<< 24 ||| (x >>> 16).toUInt8.toUInt32 <<< 16 |||
      (x >>> 8).toUInt8.toUInt32 <<< 8 ||| x.toUInt8.toUInt32) = x := by
  refine eq_of_bits x.toNat_lt fun _ i hi => ?_
  simp only [UInt32.toBitVec_or, UInt32.toBitVec_shiftLeft, UInt32.toBitVec_shiftRight,
    UInt32.toBitVec_toUInt8, UInt8.toBitVec_toUInt32]
  interval_cases i <;> simp

end Bits

theorem get_cons {data rest : Buf} {pos : ℕ} {x : UInt8} (h : data.drop pos = x :: rest) :
    get ⟨data, pos⟩ = .ok (x, ⟨data, pos + 1⟩) ∧ data.drop (pos + 1) = rest := by
  have hx : data[pos]? = some x := by rw [← List.head?_drop, h]; rfl
  refine ⟨by simp [get, hx], ?_⟩
  rw [← List.drop_drop, h]
  rfl

/-- The bytes that `makeliteral_chr` writes, without the conversions of C. -/
theorem chrLit_eq (state chr : UInt32) : chrLit state chr =
    if chr &&& ~~~0x7F = state then [chr.toUInt8 &&& 0x7F]
    else if chr < 0x4000 then [(chr >>> 8).toUInt8 &&& 0x3F ||| 0x80, chr.toUInt8]
    else if chr < 0x200000 then
      [(chr >>> 16).toUInt8 &&& 0x1F ||| 0xC0, (chr >>> 8).toUInt8, chr.toUInt8]
    else if chr < 0x10000000 then
      [(chr >>> 24).toUInt8 &&& 0x0F ||| 0xE0, (chr >>> 16).toUInt8, (chr >>> 8).toUInt8,
        chr.toUInt8]
    else [0xF0, (chr >>> 24).toUInt8, (chr >>> 16).toUInt8, (chr >>> 8).toUInt8, chr.toUInt8] := by
  have hff : ∀ x : UInt32, (x &&& 0xFF).toUInt8 = x.toUInt8 := by
    intro x
    rw [UInt32.toUInt8_and]
    exact UInt8.and_neg_one
  unfold chrLit makeliteralChr
  simp only [hff, UInt32.toUInt8_and, UInt32.toUInt8_or, List.nil_append]
  split_ifs <;> rfl

/-- **`readliteral_chr` reads what `makeliteral_chr` writes in the same state.** -/
theorem readliteralChr_spec {data rest : Buf} {pos : ℕ} {state chr : UInt32}
    (h : data.drop pos = chrLit state chr ++ rest) :
    readliteralChr ⟨data, pos⟩ state
      = .ok (chr, ⟨data, pos + (chrLit state chr).length⟩, chr &&& ~~~0xFF) := by
  rw [chrLit_eq] at h ⊢
  unfold readliteralChr
  by_cases h1 : chr &&& ~~~0x7F = state
  · rw [if_pos h1] at h ⊢
    obtain ⟨g1, h⟩ := get_cons h
    have hv : (chr.toUInt8 &&& 0x7F).toUInt32 ||| state = chr := by rw [← h1]; exact chr_7bit chr
    simp only [g1, ok_bind, if_pos (tag_7bit _), pure_eq, hv]
    rfl
  rw [if_neg h1] at h ⊢
  by_cases h2 : chr < 0x4000
  · rw [if_pos h2] at h ⊢
    obtain ⟨g1, h⟩ := get_cons h
    obtain ⟨g2, h⟩ := get_cons h
    obtain ⟨t1, t2⟩ := tag_2bytes (chr >>> 8).toUInt8
    simp only [g1, g2, ok_bind, if_neg t1, if_pos t2, pure_eq, chr_2bytes h2]
    rfl
  rw [if_neg h2] at h ⊢
  by_cases h3 : chr < 0x200000
  · rw [if_pos h3] at h ⊢
    obtain ⟨g1, h⟩ := get_cons h
    obtain ⟨g2, h⟩ := get_cons h
    obtain ⟨g3, h⟩ := get_cons h
    obtain ⟨t1, t2, t3⟩ := tag_3bytes (chr >>> 16).toUInt8
    simp only [g1, g2, g3, ok_bind, if_neg t1, if_neg t2, if_pos t3, pure_eq, chr_3bytes h3]
    rfl
  rw [if_neg h3] at h ⊢
  by_cases h4 : chr < 0x10000000
  · rw [if_pos h4] at h ⊢
    obtain ⟨g1, h⟩ := get_cons h
    obtain ⟨g2, h⟩ := get_cons h
    obtain ⟨g3, h⟩ := get_cons h
    obtain ⟨g4, h⟩ := get_cons h
    obtain ⟨t1, t2, t3, t4⟩ := tag_4bytes (chr >>> 24).toUInt8
    simp only [g1, g2, g3, g4, ok_bind, if_neg t1, if_neg t2, if_neg t3, if_pos t4, pure_eq,
      chr_4bytes h4]
    rfl
  rw [if_neg h4] at h ⊢
  obtain ⟨g1, h⟩ := get_cons h
  obtain ⟨g2, h⟩ := get_cons h
  obtain ⟨g3, h⟩ := get_cons h
  obtain ⟨g4, h⟩ := get_cons h
  obtain ⟨g5, h⟩ := get_cons h
  simp only [g1, g2, g3, g4, g5, ok_bind, pure_eq, chr_5bytes]
  rfl

/-! ## Attributes -/

/-- The literal of an attribute word. -/
def attrLit (attr : UInt32) : Buf := (makeliteralAttr [] attr 0).1

theorem makeliteralAttr_eq (b : Buf) (attr state : UInt32) :
    makeliteralAttr b attr state = (b ++ attrLit attr, state) := by
  unfold attrLit makeliteralAttr
  simp only
  split_ifs <;> simp

theorem attrLit_ne (attr : UInt32) : attrLit attr ≠ [] := by
  unfold attrLit makeliteralAttr
  simp only
  split_ifs <;> simp

theorem unpackAttr_packAttr {a : UInt32} (h : a < 0x80000000) : unpackAttr (packAttr a) = a := by
  refine eq_of_bits (n := 31) (by simpa [UInt32.lt_iff_toNat_lt] using h) fun hb i hi => ?_
  have h31 := hb 31 (by omega)
  simp only [packAttr, unpackAttr, UInt32.toBitVec_or, UInt32.toBitVec_and,
    UInt32.toBitVec_shiftLeft, UInt32.toBitVec_shiftRight]
  interval_cases i <;> simp at h31 ⊢ <;> simp [h31]

theorem packAttr_bit31 {a : UInt32} (h : a < 0x80000000) :
    (packAttr a).toBitVec.getLsbD 31 = false := by
  have hb : a.toBitVec.getLsbD 31 = false :=
    getLsbD_of_lt (n := 31) (by simpa [UInt32.lt_iff_toNat_lt] using h) (by omega)
  simp only [packAttr, UInt32.toBitVec_or, UInt32.toBitVec_and,
    UInt32.toBitVec_shiftLeft, UInt32.toBitVec_shiftRight]
  simp

theorem attr_2bytes {x : UInt32} (h : x < 0x8000) :
    (x >>> 8).toUInt8.toUInt32 <<< 8 ||| x.toUInt8.toUInt32 = x := by
  refine eq_of_bits (n := 15) (by simpa [UInt32.lt_iff_toNat_lt] using h) fun hb i hi => ?_
  have h15 := hb i
  simp only [UInt32.toBitVec_or, UInt32.toBitVec_shiftLeft, UInt32.toBitVec_shiftRight,
    UInt32.toBitVec_toUInt8, UInt8.toBitVec_toUInt32]
  interval_cases i <;> simp at h15 ⊢ <;> exact h15

theorem attr_4bytes {x : UInt32} (h : x.toBitVec.getLsbD 31 = false) :
    ((((x >>> 24).toUInt8 &&& 0x7F ||| 0x80).toUInt32 <<< 8 ||| (x >>> 16).toUInt8.toUInt32) &&&
      ~~~0x8000) <<< 16 ||| (x >>> 8).toUInt8.toUInt32 <<< 8 ||| x.toUInt8.toUInt32 = x := by
  refine eq_of_bits x.toNat_lt fun _ i hi => ?_
  simp only [UInt32.toBitVec_or, UInt32.toBitVec_and, UInt32.toBitVec_not,
    UInt32.toBitVec_shiftLeft, UInt32.toBitVec_shiftRight, UInt32.toBitVec_toUInt8,
    UInt8.toBitVec_toUInt32, UInt8.toBitVec_or, UInt8.toBitVec_and]
  interval_cases i <;> simp at h ⊢
  exact h

theorem attr_tag (w x : UInt8) :
    (w &&& 0x7F ||| 0x80).toUInt32 <<< 8 ||| x.toUInt32 ≥ 0x8000 := by
  rw [ge_iff_le, UInt32.le_iff_toNat_le]
  refine Nat.ge_two_pow_of_testBit (i := 15) ?_
  show BitVec.getLsbD _ 15 = true
  simp

/-- The bytes that `makeliteral_attr` writes, without the conversions of C. -/
theorem attrLit_eq (attr : UInt32) : attrLit attr =
    if packAttr attr < 0x8000 then [(packAttr attr >>> 8).toUInt8, (packAttr attr).toUInt8]
    else [(packAttr attr >>> 24).toUInt8 &&& 0x7F ||| 0x80, (packAttr attr >>> 16).toUInt8,
      (packAttr attr >>> 8).toUInt8, (packAttr attr).toUInt8] := by
  have hff : ∀ x : UInt32, (x &&& 0xFF).toUInt8 = x.toUInt8 := by
    intro x
    rw [UInt32.toUInt8_and]
    exact UInt8.and_neg_one
  unfold attrLit makeliteralAttr
  simp only [hff, UInt32.toUInt8_and, UInt32.toUInt8_or, List.nil_append]
  split_ifs <;> rfl

/-- **`readliteral_attr` reads what `makeliteral_attr` writes** for an attribute word whose top bit
is clear. -/
theorem readliteralAttr_spec {data rest : Buf} {pos : ℕ} {attr : UInt32} (ha : attr < 0x80000000)
    (h : data.drop pos = attrLit attr ++ rest) :
    readliteralAttr ⟨data, pos⟩ = .ok (attr, ⟨data, pos + (attrLit attr).length⟩) := by
  have hround := unpackAttr_packAttr ha
  have hbit := packAttr_bit31 ha
  rw [attrLit_eq] at h ⊢
  generalize packAttr attr = p at *
  unfold readliteralAttr
  by_cases h1 : p < 0x8000
  · rw [if_pos h1] at h ⊢
    obtain ⟨g1, h⟩ := get_cons h
    obtain ⟨g2, h⟩ := get_cons h
    have hlt : ¬ p ≥ 0x8000 := by
      rw [ge_iff_le, UInt32.not_le]
      exact h1
    simp only [g1, g2, ok_bind, attr_2bytes h1, if_neg hlt, pure_eq, hround]
    rfl
  · rw [if_neg h1] at h ⊢
    obtain ⟨g1, h⟩ := get_cons h
    obtain ⟨g2, h⟩ := get_cons h
    obtain ⟨g3, h⟩ := get_cons h
    obtain ⟨g4, h⟩ := get_cons h
    simp only [g1, g2, g3, g4, ok_bind, if_pos (attr_tag _ _), pure_eq, attr_4bytes hbit, hround]
    rfl

/-! ## Combining characters -/

/-- The literal of a list of combining characters. -/
def ccLit (chrs : List UInt32) : Buf := (chrs ++ [0]).flatMap (chrLit 0)

theorem ccLit_ne (chrs : List UInt32) : ccLit chrs ≠ [] := by
  intro h
  rw [ccLit, List.flatMap_append, List.append_eq_nil_iff] at h
  exact chrLit_ne 0 0 (by simpa using h.2)

theorem makeliteralCcLoop_spec {line : Termline} {c : ℕ} {ps : List ℕ}
    (h : CcPath line.chars c ps) :
    ∀ (fuel : ℕ) (b : Buf), ps.length < fuel → 0 ∉ chrsAt line.chars ps →
      makeliteralCcLoop line fuel b c = .ok (b ++ (chrsAt line.chars ps).flatMap (chrLit 0)) := by
  induction h with
  | @nil c h =>
    intro fuel b hf _
    obtain ⟨fuel, rfl⟩ : ∃ f, fuel = f + 1 := ⟨fuel - 1, by omega⟩
    have h' : (line.cell c).ccNext = 0 := h
    simp [makeliteralCcLoop, h', chrsAt]
  | @cons c k ps h1 _ ih =>
    intro fuel b hf h0
    obtain ⟨fuel, rfl⟩ : ∃ f, fuel = f + 1 := ⟨fuel - 1, by omega⟩
    obtain ⟨hne, hk, hlt⟩ := h1
    simp only [chrsAt, List.map_cons, List.mem_cons, not_or] at h0
    have hrange : 0 ≤ (c : ℤ) + (line.cell c).ccNext ∧ (c : ℤ) + (line.cell c).ccNext < line.size := by
      have hk' : (c : ℤ) + (line.cell c).ccNext = k := hk
      have : (k : ℤ) < line.size := by exact_mod_cast hlt
      omega
    have hchr : (line.cell k).chr ≠ 0 := fun h => h0.1 h.symm
    have hk' : ((c : ℤ) + (line.cell c).ccNext).toNat = k := by
      have : (c : ℤ) + (line.cell c).ccNext = k := hk
      omega
    have hne' : (line.cell c).ccNext ≠ 0 := hne
    simp only [makeliteralCcLoop]
    rw [if_neg hne', check_pos hrange]
    simp only [ok_bind, hk']
    rw [check_pos hchr, ok_bind, makeliteralChr_eq, ih fuel _ (by simpa using hf) h0.2]
    simp [chrsAt, Termline.cell]

/-- `makeliteral_cc` writes the list of a column. -/
theorem makeCc_spec {line : Termline} {c : ℕ} {chrs : List UInt32} (h : CcList line c chrs)
    (h0 : 0 ∉ chrs) (hc : c < line.size) (b : Buf) (state : UInt32) :
    makeCc line b c state = .ok (b ++ ccLit chrs, state) := by
  obtain ⟨ps, hp, rfl⟩ := h
  have hlen : ps.length < line.size := hp.length_lt hc
  simp only [makeCc]
  rw [makeliteralCcLoop_spec hp _ b (Nat.lt_succ_of_lt hlen) h0, ok_bind, makeliteralChr_eq]
  simp [ccLit]

/-- `readliteral_cc` adds the characters it reads to the list of the column. -/
theorem readliteralCcLoop_spec {data rest : Buf} {x : ℕ} :
    ∀ (chrs : List UInt32) (fuel pos : ℕ) (line : Termline) (f : ℕ → List UInt32), 0 ∉ chrs →
      chrs.length < fuel → data.drop pos = ccLit chrs ++ rest → x < line.cols → Ccs line f →
      ∃ line', readliteralCcLoop x fuel ⟨data, pos⟩ line
          = .ok (⟨data, pos + (ccLit chrs).length⟩, line') ∧
        SameCells line line' ∧ Ccs line' (Function.update f x (f x ++ chrs)) := by
  intro chrs
  induction chrs with
  | nil =>
    intro fuel pos line f _ hf hd _ hl
    obtain ⟨fuel, rfl⟩ : ∃ f, fuel = f + 1 := ⟨fuel - 1, by omega⟩
    have hlit : ccLit [] = chrLit 0 0 := by simp [ccLit]
    rw [hlit] at hd ⊢
    refine ⟨line, ?_, SameCells.refl line, by simpa using hl⟩
    simp [readliteralCcLoop, readliteralChr_spec hd]
  | cons chr chrs ih =>
    intro fuel pos line f h0 hf hd hx hl
    obtain ⟨fuel, rfl⟩ : ∃ f, fuel = f + 1 := ⟨fuel - 1, by omega⟩
    have hlit : ccLit (chr :: chrs) = chrLit 0 chr ++ ccLit chrs := by simp [ccLit]
    rw [hlit, List.append_assoc] at hd
    have hd' : data.drop (pos + (chrLit 0 chr).length) = ccLit chrs ++ rest := by
      rw [← List.drop_drop, hd, drop_mid _ _ _ rfl]
    obtain ⟨line1, h1, hs1, hl1⟩ := addCc_spec hl hx chr
    simp only [List.mem_cons, not_or] at h0
    obtain ⟨line2, h2, hs2, hl2⟩ := ih fuel _ line1 _ h0.2 (by simpa using hf) hd'
      (by rw [hs1.cols]; exact hx) hl1
    refine ⟨line2, ?_, hs1.trans hs2, ?_⟩
    · simp only [readliteralCcLoop, readliteralChr_spec hd, ok_bind]
      rw [if_neg (fun h => h0.1 h.symm), h1, ok_bind, h2, hlit, List.length_append, Nat.add_assoc]
    · simpa using hl2

end PuttyNd.Terminal
