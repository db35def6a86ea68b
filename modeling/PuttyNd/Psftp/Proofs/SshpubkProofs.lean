import Mathlib.Data.List.TakeWhile
import PuttyNd.Lib.Base64
import PuttyNd.Psftp.Sshpubk
import PuttyNd.Psftp.Proofs.MarshalProofs

/-!
# Public key files are read back

A file that was written is taken apart line by line: what `fgetline` returns does not depend on how it grows its
buffer, and the groups of four characters stand for the groups of three bytes they were made of.
-/

namespace PuttyNd.Psftp

open Memory Outcome Base64

variable {a b c d : UInt8} {v w x y rounds size n : ℕ} {text bytes blob acc line rest ret : List UInt8}
  {lines : List (List UInt8)} {comment : Option (List UInt8)}

/-! ## Atoms -/

/-- The numbers of the characters are those of the alphabet, and -1 is the padding. -/
theorem base64Val_eq (c : UInt8) :
    base64Val c = match value c with
      | some v => some (v : ℤ)
      | none => if c = pad then some (-1) else none := by
  have h : ∀ n < 256, base64Val (UInt8.ofNat n) = match value (UInt8.ofNat n) with
      | some v => some (v : ℤ)
      | none => if UInt8.ofNat n = pad then some (-1) else none := by decide +kernel
  have hc := h c.toNat c.toNat_lt
  rwa [UInt8.ofNat_toNat] at hc

theorem base64Val_value (h : value c = some v) : base64Val c = some (v : ℤ) := by
  rw [base64Val_eq, h]

theorem base64Val_pad : base64Val pad = some (-1) := rfl

/-- Numbers of six bits, one after the other -/
theorem word_eq (hw : w < 64) (hx : x < 64) (hy : y < 64) :
    v <<< 18 ||| w <<< 12 ||| x <<< 6 ||| y = ((v * 64 + w) * 64 + x) * 64 + y := by
  have h1 : v <<< 18 ||| w <<< 12 = 2 ^ 12 * (v * 64 + w) := by
    rw [Nat.shiftLeft_eq, Nat.shiftLeft_eq, Nat.mul_comm v, ← Nat.two_pow_add_eq_or_of_lt (by omega)]
    omega
  have h2 : 2 ^ 12 * (v * 64 + w) ||| x <<< 6 = 2 ^ 6 * ((v * 64 + w) * 64 + x) := by
    rw [Nat.shiftLeft_eq, ← Nat.two_pow_add_eq_or_of_lt (by omega)]
    omega
  rw [h1, h2, ← Nat.two_pow_add_eq_or_of_lt (by omega)]
  omega

theorem sixBits_value (h : v < 64) : sixBits v = v := by
  unfold sixBits
  omega

theorem base64DecodeAtom_group (ha : value a = some v) (hb : value b = some w) (hc : value c = some x)
    (hd : value d = some y) : base64DecodeAtom a b c d =
      [UInt8.ofNat ((((v * 64 + w) * 64 + x) * 64 + y) / 65536),
        UInt8.ofNat ((((v * 64 + w) * 64 + x) * 64 + y) / 256), UInt8.ofNat (((v * 64 + w) * 64 + x) * 64 + y)] := by
  unfold base64DecodeAtom decodeVals
  rw [base64Val_value ha, base64Val_value hb, base64Val_value hc, base64Val_value hd]
  dsimp only
  rw [if_neg (by omega), if_neg (by omega), if_pos (by omega), sixBits_value (value_lt hc), sixBits_value (value_lt hd),
    Int.toNat_natCast, Int.toNat_natCast, word_eq (value_lt hb) (value_lt hc) (value_lt hd), Nat.shiftRight_eq_div_pow,
    Nat.shiftRight_eq_div_pow]
  rfl

theorem base64DecodeAtom_two (ha : value a = some v) (hb : value b = some w) (hc : value c = some x) :
    base64DecodeAtom a b c pad =
      [UInt8.ofNat (((v * 64 + w) * 64 + x) / 1024), UInt8.ofNat (((v * 64 + w) * 64 + x) / 4)] := by
  unfold base64DecodeAtom decodeVals
  rw [base64Val_value ha, base64Val_value hb, base64Val_value hc, base64Val_pad]
  dsimp only
  have hpad : sixBits (-1) = 63 := rfl
  rw [if_neg (by omega), if_neg (by omega), if_neg (by omega), if_pos (by omega), sixBits_value (value_lt hc), hpad,
    Int.toNat_natCast, Int.toNat_natCast, word_eq (value_lt hb) (value_lt hc) (by decide), Nat.shiftRight_eq_div_pow,
    Nat.shiftRight_eq_div_pow]
  have h1 : (((v * 64 + w) * 64 + x) * 64 + 63) / 2 ^ 16 = ((v * 64 + w) * 64 + x) / 1024 := by omega
  have h2 : (((v * 64 + w) * 64 + x) * 64 + 63) / 2 ^ 8 = ((v * 64 + w) * 64 + x) / 4 := by omega
  rw [h1, h2]
  rfl

theorem base64DecodeAtom_one (ha : value a = some v) (hb : value b = some w) :
    base64DecodeAtom a b pad pad = [UInt8.ofNat ((v * 64 + w) / 16)] := by
  unfold base64DecodeAtom decodeVals
  rw [base64Val_value ha, base64Val_value hb, base64Val_pad]
  dsimp only
  have hpad : sixBits (-1) = 63 := rfl
  rw [if_neg (by omega), if_neg (by omega), if_neg (by omega), if_neg (by omega), hpad, Int.toNat_natCast,
    Int.toNat_natCast, word_eq (value_lt hb) (by decide) (by decide), Nat.shiftRight_eq_div_pow]
  have h1 : (((v * 64 + w) * 64 + 63) * 64 + 63) / 2 ^ 16 = (v * 64 + w) / 16 := by omega
  rw [h1]
  rfl

theorem length_base64DecodeAtom_le : (base64DecodeAtom a b c d).length ≤ 3 := by
  unfold base64DecodeAtom
  split
  · unfold decodeVals
    split
    · exact Nat.zero_le 3
    · split
      · exact Nat.zero_le 3
      · exact (List.length_take_le' _ _).trans (Nat.le_refl 3)
  · exact Nat.zero_le 3

theorem value_base64Chars (h : v < 64) : value (base64Chars.getD v 0) = some v := by
  have hall : ∀ v < 64, value (base64Chars.getD v 0) = some v := by decide +kernel
  exact hall v h

theorem and_sixBits (n : ℕ) : n &&& 0x3F = n % 64 := Nat.and_two_pow_sub_one_eq_mod n 6

theorem value_sixBits (n : ℕ) : value (base64Chars.getD (n &&& 0x3F) 0) = some (n % 64) := by
  rw [and_sixBits]
  exact value_base64Chars (Nat.mod_lt n (by decide))

theorem ofNat_eq (h : n % 256 = a.toNat) : UInt8.ofNat n = a := by
  apply UInt8.toNat_inj.mp
  rw [UInt8.toNat_ofNat']
  exact h

/-- The numbers that a word of 24 bits is cut into -/
theorem sixBits_word (hword : n < 2 ^ 24) :
    n >>> 18 % 64 = n / 2 ^ 18 ∧ n >>> 12 % 64 = n / 2 ^ 12 % 64 ∧ n >>> 6 % 64 = n / 2 ^ 6 % 64 := by
  rw [Nat.shiftRight_eq_div_pow, Nat.shiftRight_eq_div_pow, Nat.shiftRight_eq_div_pow]
  omega

theorem word_bytes (hb : w < 256) (hc : x < 256) :
    v <<< 16 ||| w <<< 8 ||| x = v * 65536 + w * 256 + x := by
  have h1 : v <<< 16 ||| w <<< 8 = 2 ^ 8 * (v * 256 + w) := by
    rw [Nat.shiftLeft_eq, Nat.shiftLeft_eq, Nat.mul_comm v, ← Nat.two_pow_add_eq_or_of_lt (by omega)]
    omega
  rw [h1, ← Nat.two_pow_add_eq_or_of_lt (by omega)]
  omega

/-- A group stands for its bytes, if other groups stand for the ones that follow. -/
theorem decodes_atom (h : Decodes text bytes) : Decodes (base64EncodeAtom [a, b, c] ++ text) (a :: b :: c :: bytes) := by
  have ha := a.toNat_lt
  have hb := b.toNat_lt
  have hc := c.toNat_lt
  have hword := word_bytes (v := a.toNat) hb hc
  generalize hn : a.toNat <<< 16 ||| b.toNat <<< 8 ||| c.toNat = n at hword
  obtain ⟨h1, h2, h3⟩ := @sixBits_word n (by omega)
  have hgroup := Decodes.group (value_sixBits (n >>> 18)) (value_sixBits (n >>> 12)) (value_sixBits (n >>> 6))
    (value_sixBits n) h
  rw [h1, h2, h3, ofNat_eq (a := a) (by omega), ofNat_eq (a := b) (by omega), ofNat_eq (a := c) (by omega)] at hgroup
  rw [← hn] at hgroup
  exact hgroup

theorem decodes_atom_two : Decodes (base64EncodeAtom [a, b]) [a, b] := by
  have ha := a.toNat_lt
  have hb := b.toNat_lt
  have hword := @word_bytes a.toNat b.toNat 0 hb (by decide)
  generalize hn : a.toNat <<< 16 ||| b.toNat <<< 8 ||| 0 = n at hword
  obtain ⟨h1, h2, h3⟩ := @sixBits_word n (by omega)
  have hgroup := Decodes.two (value_sixBits (n >>> 18)) (value_sixBits (n >>> 12)) (value_sixBits (n >>> 6))
  rw [h1, h2, h3, ofNat_eq (a := a) (by omega), ofNat_eq (a := b) (by omega)] at hgroup
  rw [← hn] at hgroup
  exact hgroup

theorem decodes_atom_one : Decodes (base64EncodeAtom [a]) [a] := by
  have ha := a.toNat_lt
  have hword := @word_bytes a.toNat 0 0 (by decide) (by decide)
  generalize hn : a.toNat <<< 16 ||| 0 <<< 8 ||| 0 = n at hword
  obtain ⟨h1, h2, -⟩ := @sixBits_word n (by omega)
  have hgroup := Decodes.one (value_sixBits (n >>> 18)) (value_sixBits (n >>> 12))
  rw [h1, h2, ofNat_eq (a := a) (by omega)] at hgroup
  rw [← hn] at hgroup
  exact hgroup

/-- What is written for a blob stands for it. -/
theorem decodes_groups (blob : List UInt8) : Decodes ((groups blob).flatMap base64EncodeAtom) blob := by
  fun_induction groups blob with
  | case1 => exact .nil
  | case2 a =>
    rw [List.flatMap_singleton]
    exact decodes_atom_one
  | case3 a b =>
    rw [List.flatMap_singleton]
    exact decodes_atom_two
  | case4 a b c blob ih =>
    rw [List.flatMap_cons]
    exact decodes_atom ih

/-! ## Lines -/

/-- No byte of a line ends it. -/
def IsLine (line : List UInt8) : Prop := ∀ c ∈ line, c ≠ 0 ∧ c ≠ NEWLINE ∧ c ≠ CR

theorem takeWhile_line (h : ∀ c ∈ line, c ≠ NEWLINE) : (line ++ NEWLINE :: rest).takeWhile (· ≠ NEWLINE) = line := by
  rw [List.takeWhile_append_of_pos fun c hc => decide_eq_true (h c hc), List.takeWhile_cons_of_neg (by decide),
    List.append_nil]

theorem le_safegrowarray (oldsize oldlen extralen : ℕ) : oldlen + extralen ≤ safegrowarray oldsize oldlen extralen := by
  unfold safegrowarray
  split
  · omega
  · omega

/-- A line is read in as many chunks as the buffer makes of it. -/
theorem fgetlineLoop_eq (hline : ∀ c ∈ line, c ≠ 0 ∧ c ≠ NEWLINE) (hsize : ret.length + 2 ≤ size)
    (hrounds : line.length < rounds) :
    fgetlineLoop rounds size ret (line ++ NEWLINE :: rest) = (ret ++ line ++ [NEWLINE], rest) := by
  induction rounds generalizing size ret line with
  | zero => exact absurd hrounds (Nat.not_lt_zero _)
  | succ rounds ih =>
    have hne : line ++ NEWLINE :: rest ≠ [] := by simp
    unfold fgetlineLoop fgets
    rw [if_neg hne, takeWhile_line fun c hc => (hline c hc).2]
    dsimp only
    by_cases hlen : line.length + 1 ≤ size - ret.length - 1
    · -- The rest of the line fits.
      have hall : line ++ NEWLINE :: rest = (line ++ [NEWLINE]) ++ rest := by simp
      have hchunk : (line ++ [NEWLINE]).takeWhile (· ≠ 0) = line ++ [NEWLINE] := by
        refine List.takeWhile_eq_self_iff.mpr ?_
        intro c hc
        rcases List.mem_append.mp hc with hc | hc
        · exact decide_eq_true (hline c hc).1
        · rw [List.mem_singleton.mp hc]
          decide
      rw [Nat.min_eq_right hlen, hall, List.take_left' (by simp), List.drop_left' (by simp), hchunk, ← List.append_assoc,
        if_pos List.getLast?_concat]
    · have hmin : min (size - ret.length - 1) (line.length + 1) = size - ret.length - 1 := by omega
      have hle : size - ret.length - 1 ≤ line.length := by omega
      obtain ⟨front, back, hsplit, hfront⟩ : ∃ front back, line = front ++ back ∧
          front.length = size - ret.length - 1 :=
        ⟨line.take (size - ret.length - 1), line.drop (size - ret.length - 1), (List.take_append_drop _ _).symm,
          List.length_take_of_le hle⟩
      have hbytes : ∀ c ∈ front, c ≠ 0 ∧ c ≠ NEWLINE := fun c hc => hline c (hsplit ▸ List.mem_append_left _ hc)
      have hchunk : front.takeWhile (· ≠ 0) = front :=
        List.takeWhile_eq_self_iff.mpr fun c hc => decide_eq_true (hbytes c hc).1
      have hlast : (ret ++ front).getLast? ≠ some NEWLINE := by
        have hfront' : front ≠ [] := by
          rintro rfl
          rw [List.length_nil] at hfront
          omega
        rw [List.getLast?_append_of_ne_nil _ hfront']
        exact fun h => (hbytes NEWLINE (List.mem_of_getLast? h)).2 rfl
      rw [hmin, hsplit, List.append_assoc, List.take_left' hfront, List.drop_left' hfront, hchunk, if_neg hlast, ih]
      · simp
      · exact fun c hc => hline c (hsplit ▸ List.mem_append_right _ hc)
      · have := le_safegrowarray size (ret ++ front).length 512
        omega
      · have hlength := congrArg List.length hsplit
        rw [List.length_append] at hlength
        omega

theorem fgetline_eq (hline : IsLine line) : fgetline (line ++ NEWLINE :: rest) = some (line ++ [NEWLINE], rest) := by
  unfold fgetline
  rw [fgetlineLoop_eq (fun c hc => ⟨(hline c hc).1, (hline c hc).2.1⟩) (by decide) (by simp)]
  simp

theorem chomp_eq (hline : IsLine line) : chomp (line ++ [NEWLINE]) = line := by
  unfold chomp
  rw [List.rdropWhile_concat_pos _ _ _ (by decide)]
  refine List.rdropWhile_eq_self_iff.mpr ?_
  intro hne hlast
  have hc := hline _ (List.getLast_mem hne)
  rcases of_decide_eq_true hlast with h | h
  · exact hc.2.2 h
  · exact hc.2.1 h

theorem linesLoop_eq (hlines : ∀ line ∈ lines, IsLine line) (hrounds : lines.length ≤ rounds) :
    linesLoop rounds (lines.flatMap (· ++ [NEWLINE])) = lines := by
  induction rounds generalizing lines with
  | zero =>
    rw [List.length_eq_zero_iff.mp (Nat.le_zero.mp hrounds)]
    rfl
  | succ rounds ih =>
    cases lines with
    | nil => rfl
    | cons line lines =>
      have hline := hlines line List.mem_cons_self
      rw [List.flatMap_cons, List.append_assoc, List.singleton_append, linesLoop, fgetline_eq hline]
      dsimp only
      rw [chomp_eq hline, ih (fun l hl => hlines l (List.mem_cons_of_mem line hl))
        (Nat.le_of_succ_le_succ hrounds)]

/-- The lines of a file are those that were written. -/
theorem linesOf_eq (hlines : ∀ line ∈ lines, IsLine line) : linesOf (lines.flatMap (· ++ [NEWLINE])) = lines := by
  refine linesLoop_eq hlines ?_
  clear hlines
  induction lines with
  | nil => exact Nat.le_refl 0
  | cons line lines ih =>
    rw [List.flatMap_cons, List.length_append, List.length_append, List.length_cons, List.length_singleton]
    omega

/-! ## What is read -/

/-- A well-formed text is decoded as what it stands for. -/
theorem foldlM_putChar_decodes (h : Decodes text bytes) : text.foldlM putChar ⟨[], acc⟩ = .ok ⟨[], acc ++ bytes⟩ := by
  induction h generalizing acc with
  | nil =>
    rw [List.append_nil]
    rfl
  | one ha hb =>
    rw [← base64DecodeAtom_one ha hb]
    rfl
  | two ha hb hc =>
    rw [← base64DecodeAtom_two ha hb hc]
    rfl
  | @group a b c d v w x y text bytes ha hb hc hd _ ih =>
    have hatom : (a :: b :: c :: d :: text).foldlM putChar ⟨[], acc⟩ =
        text.foldlM putChar ⟨[], acc ++ base64DecodeAtom a b c d⟩ := rfl
    rw [hatom, ih, base64DecodeAtom_group ha hb hc hd, List.append_assoc]
    rfl

/-- `base64in` never overflows. -/
theorem putChar_ok {st : Atoms} (h : st.base64in.length < 4) (c : UInt8) :
    ∃ st', putChar st c = .ok st' ∧ st'.base64in.length < 4 := by
  have hlen : (st.base64in ++ [c]).length = st.base64in.length + 1 := by rw [List.length_append, List.length_singleton]
  unfold putChar
  generalize st.base64in ++ [c] = base64in at hlen
  split
  · exact ⟨_, rfl, Nat.zero_lt_succ 3⟩
  · rename_i hne
    rw [if_pos (by omega)]
    refine ⟨_, rfl, ?_⟩
    show base64in.length < 4
    refine Nat.lt_of_le_of_ne (by omega) ?_
    intro hfour
    obtain ⟨c0, c1, c2, c3, heq⟩ := List.length_eq_four.mp hfour
    exact hne c0 c1 c2 c3 heq

theorem foldlM_putChar_ok {st : Atoms} (h : st.base64in.length < 4) (text : List UInt8) :
    ∃ st', text.foldlM putChar st = .ok st' ∧ st'.base64in.length < 4 := by
  induction text generalizing st with
  | nil => exact ⟨st, rfl, h⟩
  | cons c text ih =>
    obtain ⟨st', hst', hlen⟩ := putChar_ok h c
    rw [List.foldlM_cons, hst', ok_bind]
    exact ih hlen

def isData (line : List UInt8) : Bool := line.head? ≠ some DASH

/-- The lines are read as one text, up to the first one that starts with a dash. -/
theorem readBase64_eq (st : Atoms) (lines : List (List UInt8)) : readBase64 st lines =
    ((lines.takeWhile isData).flatten.foldlM putChar st >>= fun st' => .ok (st', lines.dropWhile isData)) := by
  induction lines generalizing st with
  | nil => rfl
  | cons line lines ih =>
    unfold readBase64
    by_cases hdash : line.head? = some DASH
    · have hdata : ¬isData line = true := fun h => of_decide_eq_true h hdash
      rw [if_pos hdash, List.takeWhile_cons_of_neg hdata, List.dropWhile_cons_of_neg hdata]
      rfl
    · have hdata : isData line = true := decide_eq_true hdash
      rw [if_neg hdash, List.takeWhile_cons_of_pos hdata, List.dropWhile_cons_of_pos hdata, List.flatten_cons,
        List.foldlM_append, bind_assoc]
      exact bind_congr fun st => ih st

def isHeader (line : List UInt8) : Bool := (splitColon line).isSome

theorem readHeaders_rest {comment' : Option (List UInt8)} {rest' : List (List UInt8)}
    (h : readHeaders comment lines = .ok (comment', rest')) : rest' = lines.dropWhile isHeader := by
  induction lines generalizing comment with
  | nil => exact nomatch h
  | cons line lines ih =>
    unfold readHeaders at h
    split at h
    · rename_i hnone
      have hheader : ¬isHeader line = true := by
        unfold isHeader
        rw [hnone]
        exact Bool.false_ne_true
      rw [List.dropWhile_cons_of_neg hheader]
      cases h
      rfl
    · rename_i name value hsome
      have hheader : isHeader line = true := by
        unfold isHeader
        rw [hsome]
        rfl
      rw [List.dropWhile_cons_of_pos hheader]
      split_ifs at h
      · exact ih h
      · exact ih h

/-- The text in base64 of a file in the form of RFC 4716: what is between the headers and the first line after them that
starts with a dash -/
def rfc4716Text (fp : List UInt8) : List UInt8 :=
  ((((linesOf fp).drop 1).dropWhile isHeader).takeWhile isData).flatten

/-- The text in base64 of a file in the form of OpenSSH: the second word of the first line -/
def opensshText (fp : List UInt8) : List UInt8 :=
  (((((linesOf fp).headD []).dropWhile (· ≠ SPACE)).drop 1).takeWhile (· ≠ SPACE))

/-- Hostile files included, the loader returns, and a text that is well formed is decoded as what it stands for. -/
theorem rfc4716Loadpub_exact (fp : List UInt8) : ∃ r, rfc4716Loadpub fp = .ok r ∧
    ∀ key bytes, r = .ok key → Decodes (rfc4716Text fp) bytes → key.blob = bytes := by
  unfold rfc4716Loadpub rfc4716Text
  cases linesOf fp with
  | nil => exact ⟨_, rfl, fun _ _ h => nomatch h⟩
  | cons first lines =>
    dsimp only
    split
    · exact ⟨_, rfl, fun _ _ h => nomatch h⟩
    · split
      · exact ⟨_, rfl, fun _ _ h => nomatch h⟩
      · rename_i comment lines' hheaders
        rw [List.drop_one, List.tail_cons, ← readHeaders_rest hheaders, readBase64_eq]
        obtain ⟨st, hst, -⟩ := @foldlM_putChar_ok ⟨[], []⟩ (by decide) (lines'.takeWhile isData).flatten
        rw [hst, ok_bind, ok_bind]
        dsimp only
        split
        · exact ⟨_, rfl, fun _ _ h => nomatch h⟩
        · refine ⟨_, rfl, ?_⟩
          intro key bytes hkey hdecodes
          rw [foldlM_putChar_decodes hdecodes] at hst
          have hblob : st.pubblob = bytes := by rw [← Except.ok.inj hst]; rfl
          unfold finishRfc4716 at hkey
          dsimp only at hkey
          split_ifs at hkey
          rw [← Except.ok.inj hkey]
          exact hblob

theorem decodeAtoms_decodes (h : Decodes text bytes) (hsize : acc.length + text.length / 4 * 3 ≤ size) :
    decodeAtoms size acc text = .ok (acc ++ bytes, []) := by
  induction h generalizing acc with
  | nil =>
    rw [List.append_nil]
    rfl
  | one ha hb =>
    have hsize : acc.length + 4 / 4 * 3 ≤ size := hsize
    rw [decodeAtoms, if_pos (by omega), base64DecodeAtom_one ha hb]
    rfl
  | two ha hb hc =>
    have hsize : acc.length + 4 / 4 * 3 ≤ size := hsize
    rw [decodeAtoms, if_pos (by omega), base64DecodeAtom_two ha hb hc]
    rfl
  | @group a b c d v w x y text bytes ha hb hc hd _ ih =>
    have hlen : (a :: b :: c :: d :: text).length = text.length + 4 := rfl
    rw [hlen] at hsize
    rw [decodeAtoms, if_pos (by omega), base64DecodeAtom_group ha hb hc hd, ih (by
      rw [List.length_append]
      show acc.length + 3 + _ ≤ _
      omega), List.append_assoc]
    rfl

/-- The buffer is large enough for every text. -/
theorem decodeAtoms_ok (text : List UInt8) (hsize : acc.length + text.length / 4 * 3 ≤ size) :
    ∃ r, decodeAtoms size acc text = .ok r := by
  fun_induction decodeAtoms size acc text with
  | case1 acc c0 c1 c2 c3 text hle ih =>
    refine ih ?_
    have hlen : (c0 :: c1 :: c2 :: c3 :: text).length = text.length + 4 := rfl
    have := @length_base64DecodeAtom_le c0 c1 c2 c3
    rw [hlen] at hsize
    rw [List.length_append]
    omega
  | case2 acc c0 c1 c2 c3 text hlt =>
    have hlen : (c0 :: c1 :: c2 :: c3 :: text).length = text.length + 4 := rfl
    rw [hlen] at hsize
    exact absurd hsize (by omega)
  | case3 acc text => exact ⟨_, rfl⟩

theorem opensshLoadpub_exact (fp : List UInt8) (hline : linesOf fp ≠ []) : ∃ r, opensshLoadpub fp = .ok r ∧
    ∀ key bytes, r = .ok key → Decodes (opensshText fp) bytes → key.blob = bytes := by
  unfold opensshLoadpub opensshText
  obtain ⟨first, lines, hlines⟩ := List.exists_cons_of_ne_nil hline
  rw [hlines]
  dsimp only [List.headD_cons]
  split
  · exact ⟨_, rfl, fun _ _ h => nomatch h⟩
  · rename_i line rest hsplit
    have hrest : rest = (first.dropWhile (· ≠ SPACE)).drop 1 := by
      have h := congrArg Prod.snd hsplit
      unfold splitSpace at h
      dsimp only at h
      split_ifs at h
      exact (Option.some.inj h).symm
    obtain ⟨⟨pubblob, base64⟩, hdecode⟩ := @decodeAtoms_ok ((splitSpace rest).1.length / 4 * 3) []
      (splitSpace rest).1 (by rw [List.length_nil, Nat.zero_add])
    rw [hdecode, ok_bind]
    dsimp only
    split
    · exact ⟨_, rfl, fun _ _ h => nomatch h⟩
    · split
      · exact ⟨_, rfl, fun _ _ h => nomatch h⟩
      · refine ⟨_, rfl, ?_⟩
        intro key bytes hkey hdecodes
        rw [← hrest] at hdecodes
        have hword : (splitSpace rest).1 = rest.takeWhile (· ≠ SPACE) := rfl
        rw [hword, decodeAtoms_decodes hdecodes (by rw [List.length_nil, Nat.zero_add])] at hdecode
        rw [← Except.ok.inj hkey]
        exact (congrArg Prod.fst (Except.ok.inj hdecode)).symm

/-! ## What is written -/

theorem isChar_base64Chars (n : ℕ) : IsChar (base64Chars.getD (n &&& 0x3F) 0) := by
  refine .inl ?_
  rw [value_sixBits]
  rfl

theorem isChar_atom (data : List UInt8) : ∀ c ∈ base64EncodeAtom data, IsChar c := by
  have hpad : IsChar 61 := .inr rfl
  unfold base64EncodeAtom
  intro c hc
  rcases List.mem_cons.mp hc with rfl | hc
  · exact isChar_base64Chars _
  rcases List.mem_cons.mp hc with rfl | hc
  · exact isChar_base64Chars _
  rcases List.mem_cons.mp hc with rfl | hc
  · split
    · exact isChar_base64Chars _
    · exact hpad
  rw [List.mem_singleton.mp hc]
  split
  · exact isChar_base64Chars _
  · exact hpad

theorem isChar_groups (blob : List UInt8) : ∀ c ∈ (groups blob).flatMap base64EncodeAtom, IsChar c := by
  intro c hc
  obtain ⟨g, -, hc⟩ := List.mem_flatMap.mp hc
  exact isChar_atom g c hc

/-- No character of a text in base64 has a meaning in the files. -/
theorem isChar_spec (h : IsChar c) : (c ≠ 0 ∧ c ≠ NEWLINE ∧ c ≠ CR) ∧ c ≠ DASH ∧ c ≠ SPACE ∧ c ≠ 58 ∧
    (base64Chars.contains c ∨ c = 61) := by
  have hall : ∀ n < 256, ((value (UInt8.ofNat n)).isSome ∨ UInt8.ofNat n = pad) →
      (UInt8.ofNat n ≠ 0 ∧ UInt8.ofNat n ≠ NEWLINE ∧ UInt8.ofNat n ≠ CR) ∧ UInt8.ofNat n ≠ DASH ∧
        UInt8.ofNat n ≠ SPACE ∧ UInt8.ofNat n ≠ 58 ∧ (base64Chars.contains (UInt8.ofNat n) ∨ UInt8.ofNat n = 61) := by
    decide +kernel
  have hc := hall c.toNat c.toNat_lt
  rw [UInt8.ofNat_toNat] at hc
  exact hc h

/-- The loop writes lines of base64; `cur` is what it has written of the current one. -/
theorem writeGroups_eq (gs : List (List UInt8)) (column : ℕ) (cur : List UInt8) (hcur : ∀ c ∈ cur, IsChar c)
    (hcolumn : column = 0 ↔ cur = []) : ∃ ls : List (List UInt8),
      cur ++ writeGroups column gs = ls.flatMap (· ++ [NEWLINE]) ∧ ls.flatten = cur ++ gs.flatMap base64EncodeAtom ∧
        ∀ l ∈ ls, ∀ c ∈ l, IsChar c := by
  induction gs generalizing column cur with
  | nil =>
    unfold writeGroups
    by_cases hzero : column = 0
    · rw [if_neg (by omega), hcolumn.mp hzero]
      exact ⟨[], rfl, rfl, fun l hl => nomatch hl⟩
    · rw [if_pos (by omega)]
      refine ⟨[cur], ?_, ?_, ?_⟩
      · simp
      · simp
      · intro l hl
        rw [List.mem_singleton.mp hl]
        exact hcur
  | cons g gs ih =>
    have hchars : ∀ c ∈ cur ++ base64EncodeAtom g, IsChar c := by
      intro c hc
      rcases List.mem_append.mp hc with hc | hc
      · exact hcur c hc
      · exact isChar_atom g c hc
    rw [writeGroups, List.flatMap_cons]
    by_cases hfull : 16 ≤ column + 1
    · rw [if_pos hfull]
      obtain ⟨ls, hls, hflat, hall⟩ := ih 0 [] (fun c hc => nomatch hc) (by simp)
      rw [List.nil_append] at hls hflat
      refine ⟨(cur ++ base64EncodeAtom g) :: ls, ?_, ?_, ?_⟩
      · rw [List.flatMap_cons, ← hls]
        simp
      · rw [List.flatten_cons, hflat, List.append_assoc]
      · intro l hl
        rcases List.mem_cons.mp hl with rfl | hl
        · exact hchars
        · exact hall l hl
    · rw [if_neg hfull]
      obtain ⟨ls, hls, hflat, hall⟩ := ih (column + 1) (cur ++ base64EncodeAtom g) hchars (by
        constructor
        · exact fun h => absurd h (Nat.succ_ne_zero column)
        · exact fun h => absurd (List.append_eq_nil_iff.mp h).2 (List.cons_ne_nil _ _))
      exact ⟨ls, by rw [← hls, List.append_assoc], by rw [hflat, List.append_assoc], hall⟩

theorem unescapeComment_cons (h : c ≠ ESCAPE) : unescapeComment (c :: text) = c :: unescapeComment text := by
  cases text with
  | nil => rfl
  | cons d text =>
    rw [unescapeComment]
    exact if_neg h

theorem unescape_escape (comment : List UInt8) : unescapeComment (escapeComment comment) = comment := by
  induction comment with
  | nil => rfl
  | cons c comment ih =>
    have hcons : escapeComment (c :: comment) =
        (if c = ESCAPE ∨ c = QUOTE then [ESCAPE, c] else [c]) ++ escapeComment comment := List.flatMap_cons
    rw [hcons]
    by_cases hc : c = ESCAPE ∨ c = QUOTE
    · rw [if_pos hc, List.cons_append, List.singleton_append, unescapeComment, if_pos rfl, ih]
    · rw [if_neg hc, List.singleton_append, unescapeComment_cons fun h => hc (.inl h), ih]

theorem commentOf_quoted (comment : List UInt8) : commentOf (QUOTE :: escapeComment comment ++ [QUOTE]) = comment := by
  unfold commentOf
  have hlast : (QUOTE :: escapeComment comment ++ [QUOTE]).getLast? = some QUOTE := List.getLast?_concat
  rw [if_pos ⟨rfl, hlast⟩, List.dropLast_concat]
  exact unescape_escape comment

theorem splitColon_none (h : ∀ c ∈ line, c ≠ 58) : splitColon line = none := by
  fun_induction splitColon line with
  | case1 value => exact absurd rfl (h 58 List.mem_cons_self)
  | case2 c line hne ih => rw [ih fun d hd => h d (List.mem_cons_of_mem c hd)]; rfl
  | case3 => rfl

/-! ## Files in the form of RFC 4716 -/

/-- A key that can be written: its blob starts with the name of its algorithm, and its comment is on one line. -/
structure Writable (alg blob : List UInt8) (comment : Option (List UInt8)) : Prop where
  known : alg ∈ pubkeyAlgs
  blob : ∃ key, blob = putUint32 (UInt32.ofNat alg.length) ++ (alg ++ key)
  comment : ∀ text, comment = some text → IsLine text

variable {alg : List UInt8}

theorem known_spec (h : alg ∈ pubkeyAlgs) : alg.length < 32 ∧ alg.all (fun c => c != 0 && c != NEWLINE && c != CR &&
    c != SPACE) = true := by
  have hall : pubkeyAlgs.all (fun alg => decide (alg.length < 32) && alg.all fun c => c != 0 && c != NEWLINE && c != CR &&
      c != SPACE) = true := by decide +kernel
  have h := Bool.and_eq_true_iff.mp (List.all_eq_true.mp hall alg h)
  exact ⟨of_decide_eq_true h.1, h.2⟩

theorem known_chars (h : alg ∈ pubkeyAlgs) (hc : c ∈ alg) : (c ≠ 0 ∧ c ≠ NEWLINE ∧ c ≠ CR) ∧ c ≠ SPACE := by
  have hc := List.all_eq_true.mp (known_spec h).2 c hc
  simp only [Bool.and_eq_true, bne_iff_ne] at hc
  exact ⟨⟨hc.1.1.1, hc.1.1.2, hc.1.2⟩, hc.2⟩

theorem takeWhile_known (h : alg ∈ pubkeyAlgs) : alg.takeWhile (· ≠ 0) = alg :=
  List.takeWhile_eq_self_iff.mpr fun _ hc => decide_eq_true (known_chars h hc).1.1

/-- What the loaders find at the start of the blob -/
theorem Writable.prefix_eq (h : Writable alg blob comment) : 4 + alg.length ≤ blob.length ∧
    (get32bitMsbFirst blob).toNat = alg.length ∧ (blob.drop 4).take alg.length = alg := by
  obtain ⟨key, rfl⟩ := h.blob
  have hlt : alg.length < 2 ^ 32 := Nat.lt_trans (known_spec h.known).1 (by decide)
  have hlen : (UInt32.ofNat alg.length).toNat = alg.length := UInt32.toNat_ofNat_of_lt' hlt
  refine ⟨?_, ?_, ?_⟩
  · rw [List.length_append, List.length_append, length_putUint32]
    omega
  · rw [get32bit_put, hlen]
  · show (alg ++ key).take alg.length = alg
    exact List.take_left

theorem finishRfc4716_eq (h : Writable alg blob comment) : finishRfc4716 comment blob = .ok ⟨alg, blob, comment⟩ := by
  obtain ⟨hlen, hprefix, halg⟩ := h.prefix_eq
  have hnul := takeWhile_known h.known
  have hsmall := (known_spec h.known).1
  unfold finishRfc4716
  dsimp only
  rw [if_neg (by omega), hprefix, if_neg (by omega), halg, hnul]

def headerLines (comment : Option (List UInt8)) : List (List UInt8) :=
  match comment with
  | none => []
  | some comment => [literal "Comment: \"" ++ escapeComment comment ++ [QUOTE]]

theorem readHeaders_headerLines (hdata : ∀ l, lines.head? = some l → ∀ c ∈ l, c ≠ 58) (hlines : lines ≠ []) :
    readHeaders none (headerLines comment ++ lines) = .ok (comment, lines) := by
  obtain ⟨l, lines', rfl⟩ := List.exists_cons_of_ne_nil hlines
  have hstop (comment : Option (List UInt8)) : readHeaders comment (l :: lines') = .ok (comment, l :: lines') := by
    rw [readHeaders, splitColon_none (hdata l rfl)]
  cases comment with
  | none => exact hstop none
  | some text =>
    have hsplit : splitColon (literal "Comment: \"" ++ escapeComment text ++ [QUOTE]) =
        some (literal "Comment", QUOTE :: escapeComment text ++ [QUOTE]) := rfl
    show readHeaders none ((literal "Comment: \"" ++ escapeComment text ++ [QUOTE]) :: l :: lines') = _
    rw [readHeaders, hsplit]
    dsimp only
    rw [if_pos rfl, commentOf_quoted, hstop]

theorem isLine_escapeComment (h : IsLine text) : IsLine (escapeComment text) := by
  intro c hc
  obtain ⟨d, hd, hc⟩ := List.mem_flatMap.mp hc
  split at hc
  · rcases List.mem_cons.mp hc with rfl | hc
    · decide
    · exact List.mem_singleton.mp hc ▸ h d hd
  · exact List.mem_singleton.mp hc ▸ h d hd

theorem isLine_of_all (h : line.all (fun c => c != 0 && c != NEWLINE && c != CR) = true) : IsLine line := by
  intro c hc
  have hc := List.all_eq_true.mp h c hc
  simp only [Bool.and_eq_true, bne_iff_ne] at hc
  exact ⟨hc.1.1, hc.1.2, hc.2⟩

theorem IsLine.append (h : IsLine line) (h' : IsLine text) : IsLine (line ++ text) := by
  intro c hc
  rcases List.mem_append.mp hc with hc | hc
  · exact h c hc
  · exact h' c hc

theorem isLine_headerLines (hcomment : ∀ text, comment = some text → IsLine text) :
    ∀ l ∈ headerLines comment, IsLine l := by
  intro l hl
  cases comment with
  | none => exact nomatch hl
  | some text =>
    rw [List.mem_singleton.mp hl]
    exact ((isLine_of_all (by decide)).append (isLine_escapeComment (hcomment text rfl))).append (isLine_of_all rfl)

/-- The lines of a file in the form of RFC 4716 -/
theorem ssh2WritePubkey_rfc4716 (comment : Option (List UInt8)) (blob : List UInt8) : ∃ ls : List (List UInt8),
    ssh2WritePubkey .rfc4716 comment blob =
      (beginLine :: headerLines comment ++ ls ++ [endLine]).flatMap (· ++ [NEWLINE]) ∧
    ls.flatten = (groups blob).flatMap base64EncodeAtom ∧ ∀ l ∈ ls, ∀ c ∈ l, IsChar c := by
  obtain ⟨ls, hls, hflat, hall⟩ := writeGroups_eq (groups blob) 0 [] (fun c hc => nomatch hc) (by simp)
  rw [List.nil_append] at hls hflat
  refine ⟨ls, ?_, hflat, hall⟩
  unfold ssh2WritePubkey headerLines
  dsimp only
  rw [hls]
  cases comment with
  | none => simp
  | some text => simp

theorem rfc4716Loadpub_written (h : Writable alg blob comment) :
    rfc4716Loadpub (ssh2WritePubkey .rfc4716 comment blob) = .ok (.ok ⟨alg, blob, comment⟩) := by
  obtain ⟨ls, hfile, hflat, hall⟩ := ssh2WritePubkey_rfc4716 comment blob
  have hlines : ∀ l ∈ beginLine :: headerLines comment ++ ls ++ [endLine], IsLine l := by
    intro l hl
    rcases List.mem_append.mp hl with hl | hl
    · rcases List.mem_append.mp hl with hl | hl
      · rcases List.mem_cons.mp hl with rfl | hl
        · exact isLine_of_all (by decide)
        · exact isLine_headerLines h.comment l hl
      · exact fun c hc => (isChar_spec (hall l hl c hc)).1
    · rw [List.mem_singleton.mp hl]
      exact isLine_of_all (by decide)
  have hnocolon : ∀ l, (ls ++ [endLine]).head? = some l → ∀ c ∈ l, c ≠ 58 := by
    intro l hl
    rcases List.mem_append.mp (List.mem_of_mem_head? hl) with hl | hl
    · exact fun c hc => (isChar_spec (hall l hl c hc)).2.2.2.1
    · rw [List.mem_singleton.mp hl]
      intro c hc
      have hend : endLine.all (· != 58) = true := by decide
      exact bne_iff_ne.mp (List.all_eq_true.mp hend c hc)
  have hdata : ∀ l ∈ ls, isData l = true := by
    intro l hl
    refine decide_eq_true ?_
    intro hhead
    exact (isChar_spec (hall l hl DASH (List.mem_of_mem_head? hhead))).2.1 rfl
  have hend : ¬isData endLine = true := by decide
  unfold rfc4716Loadpub
  rw [hfile, linesOf_eq hlines, List.append_assoc, List.cons_append]
  dsimp only
  rw [if_neg fun h => h rfl, readHeaders_headerLines hnocolon (by simp)]
  dsimp only
  rw [readBase64_eq, List.takeWhile_append_of_pos hdata, List.dropWhile_append_of_pos hdata,
    List.takeWhile_cons_of_neg hend, List.dropWhile_cons_of_neg hend, List.append_nil, hflat,
    foldlM_putChar_decodes (decodes_groups blob), ok_bind, ok_bind]
  dsimp only
  rw [if_neg fun h => h rfl, List.nil_append, finishRfc4716_eq h]

/-- Enough of the file is looked at to tell its form. -/
theorem keyTypeFp_rfc4716 (comment : Option (List UInt8)) (blob : List UInt8) :
    keyTypeFp (ssh2WritePubkey .rfc4716 comment blob) = .ssh2PublicRfc4716 := by
  obtain ⟨rest, hfile⟩ : ∃ rest, ssh2WritePubkey .rfc4716 comment blob = beginLine ++ [NEWLINE] ++ rest := by
    unfold ssh2WritePubkey
    dsimp only
    rw [List.append_assoc, List.append_assoc, List.append_assoc]
    exact ⟨_, rfl⟩
  have hbegin : (beginLine ++ [NEWLINE]).length = 32 := by decide
  have hread : (beginLine ++ [NEWLINE] ++ rest).take 1023 = beginLine ++ [NEWLINE] ++ rest.take 991 := by
    rw [List.take_append, List.take_of_length_le (by omega), hbegin]
  unfold keyTypeFp
  rw [hfile, hread]
  dsimp only
  rw [if_neg (by rw [List.length_append, hbegin]; omega)]
  rfl

/-! ## Files in the form of OpenSSH -/

/-- What follows the base64 on the line -/
def commentPart (comment : Option (List UInt8)) : List UInt8 :=
  match comment with
  | none => []
  | some comment => SPACE :: comment

theorem ssh2WritePubkey_openssh (h : Writable alg blob comment) : ssh2WritePubkey .openssh comment blob =
    alg ++ [SPACE] ++ ((groups blob).flatMap base64EncodeAtom ++ commentPart comment) ++ [NEWLINE] := by
  obtain ⟨key, hblob⟩ := h.blob
  have hlen : alg.length = (UInt32.ofNat alg.length).toNat :=
    (UInt32.toNat_ofNat_of_lt' (Nat.lt_trans (known_spec h.known).1 (by decide))).symm
  have hget : getString ⟨blob, false⟩ = (alg, ⟨key, false⟩) := by
    rw [hblob]
    exact getString_put hlen
  have hnul := takeWhile_known h.known
  unfold ssh2WritePubkey ssh2PubkeyOpensshStr
  dsimp only
  rw [hget]
  dsimp only
  rw [if_neg Bool.false_ne_true, hnul, ← List.append_assoc _ _ (commentPart comment)]
  rfl

theorem splitSpace_eq (h : ∀ c ∈ line, c ≠ SPACE) : splitSpace (line ++ SPACE :: rest) = (line, some rest) := by
  have htake : (line ++ SPACE :: rest).takeWhile (· ≠ SPACE) = line := by
    rw [List.takeWhile_append_of_pos fun c hc => decide_eq_true (h c hc), List.takeWhile_cons_of_neg (by decide),
      List.append_nil]
  have hdrop : (line ++ SPACE :: rest).dropWhile (· ≠ SPACE) = SPACE :: rest := by
    rw [List.dropWhile_append_of_pos fun c hc => decide_eq_true (h c hc), List.dropWhile_cons_of_neg (by decide)]
  unfold splitSpace
  rw [htake, hdrop, if_pos (List.mem_append_right _ List.mem_cons_self)]
  rfl

theorem splitSpace_comment (h : ∀ c ∈ line, c ≠ SPACE) (comment : Option (List UInt8)) :
    splitSpace (line ++ commentPart comment) = (line, comment) := by
  cases comment with
  | some text => exact splitSpace_eq h
  | none =>
    have hnot : SPACE ∉ line := fun hmem => h SPACE hmem rfl
    unfold splitSpace commentPart
    rw [List.append_nil, if_neg hnot, List.takeWhile_eq_self_iff.mpr fun c hc => decide_eq_true (h c hc)]

theorem opensshLoadpub_written (h : Writable alg blob comment) :
    opensshLoadpub (ssh2WritePubkey .openssh comment blob) = .ok (.ok ⟨alg, blob, comment⟩) := by
  have hchars := isChar_groups blob
  generalize htext : (groups blob).flatMap base64EncodeAtom = text at hchars
  have hcomment : IsLine (commentPart comment) := by
    cases hcomment : comment with
    | none => exact fun c hc => nomatch hc
    | some words =>
      intro c hc
      rcases List.mem_cons.mp hc with rfl | hc
      · decide
      · exact h.comment words hcomment c hc
  have halg : IsLine alg := fun c hc => (known_chars h.known hc).1
  have hline : IsLine (alg ++ [SPACE] ++ (text ++ commentPart comment)) :=
    (halg.append (isLine_of_all (by decide))).append (IsLine.append (fun c hc => (isChar_spec (hchars c hc)).1) hcomment)
  have hfile : ssh2WritePubkey .openssh comment blob =
      [alg ++ [SPACE] ++ (text ++ commentPart comment)].flatMap (· ++ [NEWLINE]) := by
    rw [ssh2WritePubkey_openssh h, htext, List.flatMap_singleton]
  obtain ⟨hlen, hprefix, hname⟩ := h.prefix_eq
  unfold opensshLoadpub
  rw [hfile, linesOf_eq fun l hl => List.mem_singleton.mp hl ▸ hline, List.append_assoc, List.singleton_append]
  dsimp only
  rw [splitSpace_eq fun c hc => (known_chars h.known hc).2]
  dsimp only
  rw [splitSpace_comment fun c hc => (isChar_spec (hchars c hc)).2.2.1]
  dsimp only
  rw [decodeAtoms_decodes (htext ▸ decodes_groups blob) (by rw [List.length_nil, Nat.zero_add]), ok_bind]
  dsimp only
  rw [List.nil_append, if_neg fun h => h rfl, if_neg]
  rintro (hshort | hlength | halg')
  · omega
  · exact hlength hprefix
  · exact halg' hname

theorem dropWhile_take {p : UInt8 → Bool} (htext : ∀ c ∈ text, p c = true) (hrest : ∀ c, rest.head? = some c → p c = false) :
    ((text ++ rest).take n).dropWhile p = rest.take (n - text.length) := by
  rw [List.take_append, List.dropWhile_append_of_pos fun c hc => htext c (List.mem_of_mem_take hc)]
  cases hcase : rest.take (n - text.length) with
  | nil => rfl
  | cons c rest' =>
    have hhead : rest.head? = some c := by
      cases rest with
      | nil => simp at hcase
      | cons d rest =>
        cases hn : n - text.length with
        | zero => rw [hn] at hcase; exact nomatch hcase
        | succ k =>
          rw [hn, List.take_succ_cons] at hcase
          rw [List.head?_cons, (List.cons.inj hcase).1]
    rw [List.dropWhile_cons_of_neg (by rw [hrest c hhead]; exact Bool.false_ne_true)]

/-- A file in the form of OpenSSH is recognised if it has 32 bytes. -/
theorem keyTypeFp_openssh (h : Writable alg blob comment) : keyTypeFp (ssh2WritePubkey .openssh comment blob) =
    if (ssh2WritePubkey .openssh comment blob).length < 32 then .unknown else .ssh2PublicOpenssh := by
  have hchars := isChar_groups blob
  rw [ssh2WritePubkey_openssh h]
  generalize (groups blob).flatMap base64EncodeAtom = text at hchars
  have hend : ∀ c, (commentPart comment ++ [NEWLINE]).head? = some c → c = SPACE ∨ c = NEWLINE := by
    intro c hc
    cases hcomment : comment with
    | none =>
      rw [hcomment] at hc
      exact .inr (Option.some.inj hc).symm
    | some words =>
      rw [hcomment] at hc
      exact .inl (Option.some.inj hc).symm
  have hfile : alg ++ [SPACE] ++ (text ++ commentPart comment) ++ [NEWLINE] =
      alg ++ [SPACE] ++ (text ++ (commentPart comment ++ [NEWLINE])) := by
    rw [List.append_assoc _ _ [NEWLINE], List.append_assoc text]
  rw [hfile]
  generalize commentPart comment ++ [NEWLINE] = rest at hend
  -- The name is at the start of what is read.
  have halg := (known_spec h.known).1
  have hread : (alg ++ [SPACE] ++ (text ++ rest)).take 1023 =
      alg ++ [SPACE] ++ (text ++ rest).take (1023 - (alg.length + 1)) := by
    rw [List.take_append, List.take_of_length_le (by rw [List.length_append, List.length_singleton]; omega),
      List.length_append, List.length_singleton]
  have hname : (alg ++ [SPACE] ++ (text ++ rest).take (1023 - (alg.length + 1))).takeWhile (fun c => c ≠ SPACE ∧ c ≠ 0) =
      alg := by
    rw [List.append_assoc, List.takeWhile_append_of_pos fun c hc =>
      decide_eq_true ⟨(known_chars h.known hc).2, (known_chars h.known hc).1.1⟩, List.singleton_append,
      List.takeWhile_cons_of_neg (by decide), List.append_nil]
  have hdrop : (alg ++ [SPACE] ++ (text ++ rest).take (1023 - (alg.length + 1))).drop (alg.length + 1) =
      (text ++ rest).take (1023 - (alg.length + 1)) := List.drop_left' (by simp)
  have hopenssh : isOpensshPublic ((alg ++ [SPACE] ++ (text ++ rest)).take 1023) = true := by
    unfold isOpensshPublic
    rw [hread]
    dsimp only
    rw [hname, hdrop, dropWhile_take (fun c hc => decide_eq_true (isChar_spec (hchars c hc)).2.2.2.2) (by
      intro c hc
      rcases hend c hc with rfl | rfl
      · decide
      · decide)]
    rw [List.contains_iff_mem.mpr h.known, Bool.true_and]
    cases hcase : rest.take (1023 - (alg.length + 1) - text.length) with
    | nil => rfl
    | cons c rest' =>
      have hhead : rest.head? = some c := by
        have hprefix := List.take_prefix (1023 - (alg.length + 1) - text.length) rest
        rw [hcase] at hprefix
        obtain ⟨s, rfl⟩ := hprefix
        rfl
      rcases hend c hhead with rfl | rfl
      · rfl
      · rfl
  have hlength : ((alg ++ [SPACE] ++ (text ++ rest)).take 1023).length < 32 ↔
      (alg ++ [SPACE] ++ (text ++ rest)).length < 32 := by
    rw [List.length_take]
    omega
  unfold keyTypeFp
  dsimp only
  by_cases hshort : (alg ++ [SPACE] ++ (text ++ rest)).length < 32
  · rw [if_pos (hlength.mpr hshort), if_pos hshort]
  · rw [if_neg (mt hlength.mp hshort), if_neg hshort, hopenssh, hread]
    have hknown := h.known
    unfold pubkeyAlgs at hknown
    simp only [List.mem_cons, List.not_mem_nil, or_false] at hknown
    rcases hknown with rfl | rfl | rfl | rfl | rfl | rfl <;> rfl

/-! ## Round trips -/

/-- The kind of a file in each form -/
def PubkeyForm.keyType : PubkeyForm → SshKeyType
  | .rfc4716 => .ssh2PublicRfc4716
  | .openssh => .ssh2PublicOpenssh

/-- What is written is recognised, and read back as it was. -/
def ReadsBack (loadPrivate : List UInt8 → Loaded) (form : PubkeyForm) (key : PublicKey) : Prop :=
  keyTypeFp (ssh2WritePubkey form key.comment key.blob) = form.keyType ∧
    ssh2UserkeyLoadpub loadPrivate (ssh2WritePubkey form key.comment key.blob) = .ok (.ok key)

/-- A public key that is written is read back, if and only if its file is not one of OpenSSH with less than 32
bytes. -/
theorem readsBack_iff (loadPrivate : List UInt8 → Loaded) (form : PubkeyForm) (key : PublicKey)
    (h : Writable key.algorithm key.blob key.comment) : ReadsBack loadPrivate form key ↔
      (form = .openssh → 32 ≤ (ssh2WritePubkey .openssh key.comment key.blob).length) := by
  unfold ReadsBack ssh2UserkeyLoadpub
  cases form with
  | rfc4716 =>
    rw [keyTypeFp_rfc4716]
    exact ⟨fun _ hform => (nomatch hform), fun _ => ⟨rfl, rfc4716Loadpub_written h⟩⟩
  | openssh =>
    rw [keyTypeFp_openssh h]
    by_cases hshort : (ssh2WritePubkey .openssh key.comment key.blob).length < 32
    · rw [if_pos hshort]
      constructor
      · exact fun hback => (nomatch hback.1)
      · exact fun hlong => absurd (hlong rfl) (Nat.not_le_of_lt hshort)
    · rw [if_neg hshort]
      exact ⟨fun _ _ => Nat.le_of_not_lt hshort, fun _ => ⟨rfl, opensshLoadpub_written h⟩⟩

theorem writable_rsa : Writable (literal "ssh-rsa") (putUint32 7 ++ (literal "ssh-rsa" ++ [1, 2])) (some [QUOTE]) where
  known := List.mem_cons_self
  blob := ⟨[1, 2], rfl⟩
  comment _ htext := Option.some.inj htext ▸ isLine_of_all rfl

/-- A key with a quotation mark in its comment -/
theorem readsBack_rsa : ReadsBack (fun _ => .error .badPointer) .rfc4716
    ⟨literal "ssh-rsa", putUint32 7 ++ (literal "ssh-rsa" ++ [1, 2]), some [QUOTE]⟩ :=
  (readsBack_iff _ .rfc4716 _ writable_rsa).mpr fun h => (nomatch h)

/-! ## Any file -/

theorem prefix_fgetlineLoop (fp : List UInt8) : ret <+: (fgetlineLoop rounds size ret fp).1 := by
  induction rounds generalizing size ret fp with
  | zero => exact List.prefix_rfl
  | succ rounds ih =>
    unfold fgetlineLoop
    split
    · exact List.prefix_rfl
    · dsimp only
      split
      · exact List.prefix_append _ _
      · exact (List.prefix_append _ _).trans (ih _)

/-- A file that does not start with a NUL has a line. -/
theorem linesOf_ne_nil (hc : c ≠ 0) : linesOf (c :: text) ≠ [] := by
  unfold linesOf
  rw [List.length_cons, linesLoop]
  have hret : (fgetlineLoop (text.length + 1) 512 [] (c :: text)).1 ≠ [] := by
    unfold fgetlineLoop fgets
    rw [if_neg (List.cons_ne_nil c text)]
    dsimp only
    obtain ⟨k, hk⟩ : ∃ k, min (512 - ([] : List UInt8).length - 1)
        (((c :: text).takeWhile (· ≠ NEWLINE)).length + 1) = k + 1 := ⟨_, (Nat.succ_pred_eq_of_pos (by
      rw [List.length_nil]
      omega)).symm⟩
    have hchunk : (c :: text.take k).takeWhile (· ≠ 0) = c :: (text.take k).takeWhile (· ≠ 0) :=
      List.takeWhile_cons_of_pos (decide_eq_true hc)
    rw [hk, List.take_succ_cons, hchunk]
    split
    · exact List.cons_ne_nil _ _
    · intro hnil
      have hprefix := @prefix_fgetlineLoop text.length (safegrowarray 512
        ([] ++ c :: (text.take k).takeWhile (· ≠ 0)).length 512) ([] ++ c :: (text.take k).takeWhile (· ≠ 0))
        ((c :: text).drop (k + 1))
      rw [hnil] at hprefix
      exact List.cons_ne_nil _ _ (List.prefix_nil.mp hprefix)
  unfold fgetline
  rw [List.length_cons]
  generalize fgetlineLoop (text.length + 1) 512 [] (c :: text) = r at hret
  dsimp only
  rw [if_neg hret]
  exact List.cons_ne_nil _ _

theorem linesOf_openssh {fp : List UInt8} (h : keyTypeFp fp = .ssh2PublicOpenssh) : linesOf fp ≠ [] := by
  have hopenssh : isOpensshPublic (fp.take 1023) = true := by
    unfold keyTypeFp at h
    dsimp only at h
    split_ifs at h with h1 h2 h3 h4 h5 h6 h7 h8 h9
    exact h9
  have hname : (fp.take 1023).takeWhile (fun c => c ≠ SPACE ∧ c ≠ 0) ∈ pubkeyAlgs :=
    List.contains_iff_mem.mp (Bool.and_eq_true_iff.mp hopenssh).1
  have hne : (fp.take 1023).takeWhile (fun c => c ≠ SPACE ∧ c ≠ 0) ≠ [] := by
    intro hnil
    rw [hnil] at hname
    exact absurd hname (by decide)
  cases fp with
  | nil => exact absurd rfl hne
  | cons c text =>
    refine linesOf_ne_nil ?_
    rintro rfl
    exact hne rfl

theorem takeWhile_prefix_of_take {p : UInt8 → Bool} : (text.take n).takeWhile p <+: text :=
  (List.takeWhile_prefix p).trans (List.take_prefix n text)

theorem rfc4716Loadpub_algorithm {fp : List UInt8} {key : PublicKey} (h : rfc4716Loadpub fp = .ok (.ok key)) :
    key.algorithm <+: key.blob.drop 4 := by
  unfold rfc4716Loadpub at h
  split at h
  · exact nomatch h
  · split at h
    · exact nomatch h
    · split at h
      · exact nomatch h
      · obtain ⟨⟨st, lines⟩, -, h⟩ := bind_eq_ok.mp h
        dsimp only at h
        split at h
        · exact nomatch h
        · have h := Except.ok.inj h
          unfold finishRfc4716 at h
          dsimp only at h
          split_ifs at h
          rw [← Except.ok.inj h]
          exact takeWhile_prefix_of_take

theorem opensshLoadpub_algorithm {fp : List UInt8} {key : PublicKey} (h : opensshLoadpub fp = .ok (.ok key)) :
    key.algorithm <+: key.blob.drop 4 := by
  unfold opensshLoadpub at h
  split at h
  · exact nomatch h
  · split at h
    · exact nomatch h
    · obtain ⟨⟨pubblob, base64⟩, -, h⟩ := bind_eq_ok.mp h
      dsimp only at h
      split at h
      · exact nomatch h
      · split at h
        · exact nomatch h
        · rename_i hmatch
          rw [← Except.ok.inj (Except.ok.inj h)]
          have hname := not_not.mp fun hne => hmatch (.inr (.inr hne))
          rw [← hname]
          exact List.take_prefix _ _

/-- The text in base64 of a file of each form -/
def base64Text (form : PubkeyForm) (fp : List UInt8) : List UInt8 :=
  match form with
  | .rfc4716 => rfc4716Text fp
  | .openssh => opensshText fp

end PuttyNd.Psftp
