import Mathlib.Data.List.GetD
import Mathlib.Tactic.IntervalCases
import PuttyNd.Storage.Des

/-!
# Stored passwords are restored

The tables of the two permutations undo each other, and so do the loops over the rounds. Three bytes become four
characters and are read back from them. Whatever text is read, only the number of its characters decides whether
the buffers are large enough.
-/

namespace PuttyNd.Storage

open Memory Feistel Psftp Outcome

variable {subKeys : Vector (Bits 48) 16} {plain cipher out out' text rest : List UInt8} {left count : ℕ}

/-! ## Bits -/

theorem bitToByte_eq (bit : Bits 8) : bitToByte bit =
    (bit.get 0).toUInt8 ||| (bit.get 1).toUInt8 <<< 1 ||| (bit.get 2).toUInt8 <<< 2 |||
      (bit.get 3).toUInt8 <<< 3 ||| (bit.get 4).toUInt8 <<< 4 ||| (bit.get 5).toUInt8 <<< 5 |||
        (bit.get 6).toUInt8 <<< 6 ||| (bit.get 7).toUInt8 <<< 7 := by
  have hrange : List.finRange 8 = [0, 1, 2, 3, 4, 5, 6, 7] := by decide
  unfold bitToByte
  rw [hrange]
  simp [Vector.get]

theorem testBit_bitToByte (bit : Bits 8) {i : ℕ} (hi : i < 8) : (bitToByte bit).toNat.testBit i = bit[i] := by
  show (bitToByte bit).toBitVec.getLsbD i = bit[i]
  rw [bitToByte_eq]
  simp only [UInt8.toBitVec_or, UInt8.toBitVec_shiftLeft, BitVec.getLsbD_or]
  interval_cases i <;> simp [Vector.get]

theorem byteToBit_bitToByte (bit : Bits 8) : byteToBit (bitToByte bit) = bit := by
  ext i hi
  rw [byteToBit, Vector.getElem_ofFn]
  exact testBit_bitToByte bit hi

theorem bitToByte_byteToBit (ch : UInt8) : bitToByte (byteToBit ch) = ch := by
  refine UInt8.eq_of_toBitVec_eq (BitVec.eq_of_getLsbD_eq fun i hi => ?_)
  show (bitToByte (byteToBit ch)).toNat.testBit i = ch.toNat.testBit i
  rw [testBit_bitToByte _ hi, byteToBit, Vector.getElem_ofFn]

theorem bit64ToChar8_char8ToBit64 (ch : Vector UInt8 8) : bit64ToChar8 (char8ToBit64 ch) = ch := by
  ext i hi
  unfold bit64ToChar8 char8ToBit64
  have hbits : (Vector.ofFn fun j : Fin 8 => (byteToBit ch[(8 * i + j.val) / 8])[(8 * i + j.val) % 8]) =
      byteToBit ch[i] := by
    ext j hj
    have hdiv : (8 * i + j) / 8 = i := by omega
    have hmod : (8 * i + j) % 8 = j := by omega
    simp only [Vector.getElem_ofFn, hdiv, hmod]
  simp only [Vector.getElem_ofFn]
  rw [hbits, bitToByte_byteToBit]

theorem char8ToBit64_bit64ToChar8 (bit : Bits 64) : char8ToBit64 (bit64ToChar8 bit) = bit := by
  ext i hi
  unfold bit64ToChar8 char8ToBit64
  have hidx : 8 * (i / 8) + i % 8 = i := Nat.div_add_mod i 8
  simp only [Vector.getElem_ofFn, byteToBit_bitToByte, hidx]

/-- Tables that undo each other do so for the bits. -/
theorem transform_transform {n : ℕ} {table table' : Vector (Fin n) n} (h : ∀ i, table.get (table'.get i) = i)
    (data : Bits n) : transform table' (transform table data) = data := by
  ext i hi
  unfold transform
  simp only [Vector.getElem_map, Fin.getElem_fin]
  exact congrArg (fun j : Fin n => data[j]) (h ⟨i, hi⟩)

theorem desIp1Transform_desIpTransform (data : Bits 64) : desIp1Transform (desIpTransform data) = data :=
  transform_transform (by decide +kernel) data

theorem desIpTransform_desIp1Transform (data : Bits 64) : desIpTransform (desIp1Transform data) = data :=
  transform_transform (by decide +kernel) data

theorem joined_halves (data : Bits 64) : joined (halves data) = data := by
  ext i hi
  unfold joined halves
  rw [Vector.getElem_append]
  split
  · simp only [Vector.getElem_ofFn]
  · have hidx : 32 + (i - 32) = i := by omega
    simp only [Vector.getElem_ofFn, hidx]

theorem halves_joined (b : Halves (Bits 32)) : halves (joined b) = b := by
  unfold joined halves
  ext i hi
  · simp only [Vector.getElem_ofFn]
    exact Vector.getElem_append_left _
  · simp only [Vector.getElem_ofFn]
    rw [Vector.getElem_append_right _ (by omega)]
    simp only [Nat.add_sub_cancel_left]

theorem desXor_desXor {n : ℕ} (r l : Bits n) : desXor (desXor r l) l = r := by
  ext i hi
  unfold desXor
  simp only [Vector.getElem_zipWith, Bool.xor_assoc, Bool.xor_self, Bool.xor_false]

/-! ## Blocks -/

/-- The loop of the encryption -/
theorem encryptRounds_eq (subKey : Fin 16 → Bits 48) (b : Halves (Bits 32)) :
    (List.finRange 16).foldl (fun b (cnt : Fin 16) =>
      if cnt ≠ 15 then swap (mix desXor roundFunction (subKey cnt) b)
      else mix desXor roundFunction (subKey cnt) b) b =
    rounds desXor roundFunction ((List.finRange 16).map subKey) b := by
  have hrange : List.finRange 16 = (List.finRange 16).dropLast ++ [15] := by decide
  have hlast : (15 : Fin 16) ∉ (List.finRange 16).dropLast := by decide
  rw [hrange]
  exact foldl_eq_rounds hlast

/-- The loop of the decryption -/
theorem decryptRounds_eq (subKey : Fin 16 → Bits 48) (b : Halves (Bits 32)) :
    (List.finRange 16).reverse.foldl (fun b (cnt : Fin 16) =>
      if cnt ≠ 0 then swap (mix desXor roundFunction (subKey cnt) b)
      else mix desXor roundFunction (subKey cnt) b) b =
    rounds desXor roundFunction ((List.finRange 16).map subKey).reverse b := by
  have hrange : (List.finRange 16).reverse = (List.finRange 16).reverse.dropLast ++ [0] := by decide
  have hlast : (0 : Fin 16) ∉ (List.finRange 16).reverse.dropLast := by decide
  rw [← List.map_reverse, hrange]
  exact foldl_eq_rounds hlast

theorem desDecryptBlock_desEncryptBlock (plainBlock : Vector UInt8 8) :
    desDecryptBlock (desEncryptBlock plainBlock subKeys) subKeys = plainBlock := by
  unfold desDecryptBlock desEncryptBlock
  dsimp only
  rw [char8ToBit64_bit64ToChar8, desIpTransform_desIp1Transform, halves_joined,
    encryptRounds_eq (fun cnt => subKeys[cnt]), decryptRounds_eq (fun cnt => subKeys[cnt]), rounds_reverse desXor_desXor, joined_halves, desIp1Transform_desIpTransform,
    bit64ToChar8_char8ToBit64]

/-! ## Strings -/

theorem block_toList (b : Vector UInt8 8) : block b.toList = b := by
  ext i hi
  unfold block
  rw [Vector.getElem_ofFn, List.getD_eq_getElem _ _ (by simpa using hi), Vector.getElem_toList]

theorem toList_block (h : plain.length ≤ 8) : (block plain).toList = plain ++ List.replicate (8 - plain.length) 0 := by
  refine List.ext_getElem (by simp; omega) ?_
  intro i hi _
  rw [Vector.getElem_toList]
  unfold block
  rw [Vector.getElem_ofFn]
  by_cases hlt : i < plain.length
  · rw [List.getD_eq_getElem _ _ hlt, List.getElem_append_left hlt]
  · rw [List.getD_eq_default _ _ (Nat.le_of_not_lt hlt), List.getElem_append_right (by omega), List.getElem_replicate]

theorem put_eq (h : out.length + rest.length ≤ 128) : put out rest = .ok (out ++ rest) := if_pos h

/-- A round of the loop reads one block. -/
theorem decryptBlocks_block (b : Vector UInt8 8) : decryptBlocks subKeys (left + 8) (b.toList ++ rest) out =
    put out (desDecryptBlock b subKeys).toList >>= decryptBlocks subKeys left rest := by
  have htake : (b.toList ++ rest).take 8 = b.toList := List.take_left' (Vector.length_toList)
  have hdrop : (b.toList ++ rest).drop 8 = rest := List.drop_left' (Vector.length_toList)
  have hlen : ¬(b.toList ++ rest).length < 8 := by
    rw [List.length_append, Vector.length_toList]
    omega
  rw [decryptBlocks, if_neg (Nat.succ_ne_zero _), if_neg hlen, htake, hdrop, block_toList, Nat.add_sub_cancel]

theorem length_encryptBlocks : (encryptBlocks subKeys plain).length = (plain.length + 7) / 8 * 8 := by
  induction plain using encryptBlocks.induct with
  | case1 plain hge ih =>
    rw [encryptBlocks, if_pos hge, List.length_append, Vector.length_toList, ih, List.length_drop]
    omega
  | case2 plain hlt hpos =>
    rw [encryptBlocks, if_neg hlt, if_pos hpos, Vector.length_toList]
    omega
  | case3 plain hlt hzero =>
    rw [encryptBlocks, if_neg hlt, if_neg hzero]
    show 0 = _
    omega

/-- What is decrypted is the string, with zero bytes up to the end of a block. -/
theorem decryptBlocks_encryptBlocks (hout : out.length + (encryptBlocks subKeys plain).length ≤ 128) :
    decryptBlocks subKeys (encryptBlocks subKeys plain).length (encryptBlocks subKeys plain ++ rest) out =
      .ok (out ++ (plain ++ List.replicate ((encryptBlocks subKeys plain).length - plain.length) 0)) := by
  induction plain using encryptBlocks.induct generalizing out with
  | case1 plain hge ih =>
    have heq : encryptBlocks subKeys plain =
        (desEncryptBlock (block (plain.take 8)) subKeys).toList ++ encryptBlocks subKeys (plain.drop 8) := by
      rw [encryptBlocks, if_pos hge]
    have hlen : (encryptBlocks subKeys plain).length = (encryptBlocks subKeys (plain.drop 8)).length + 8 := by
      rw [heq, List.length_append, Vector.length_toList, Nat.add_comm]
    have htake : (plain.take 8).length = 8 := by
      rw [List.length_take]
      omega
    have hblock : (block (plain.take 8)).toList = plain.take 8 := by
      rw [toList_block (le_of_eq htake), htake, Nat.sub_self, List.replicate_zero, List.append_nil]
    rw [hlen] at hout ⊢
    rw [heq, List.append_assoc, decryptBlocks_block, desDecryptBlock_desEncryptBlock, hblock,
      put_eq (by omega), ok_bind, ih (by rw [List.length_append]; omega), List.length_drop, List.append_assoc,
      ← List.append_assoc (plain.take 8), List.take_append_drop]
    congr 4
    omega
  | case2 plain hlt hpos =>
    have heq : encryptBlocks subKeys plain = (desEncryptBlock (block plain) subKeys).toList := by
      rw [encryptBlocks, if_neg hlt, if_pos hpos]
    have hlen : (encryptBlocks subKeys plain).length = 0 + 8 := by rw [heq, Vector.length_toList]
    have hblock := @toList_block plain (by omega)
    rw [hlen] at hout ⊢
    rw [heq, decryptBlocks_block, desDecryptBlock_desEncryptBlock, put_eq (by simpa using hout), ok_bind, hblock,
      decryptBlocks, if_pos rfl]
  | case3 plain hlt hzero =>
    have hnil : plain = [] := List.length_eq_zero_iff.mp (by omega)
    have heq : encryptBlocks subKeys plain = [] := by rw [encryptBlocks, if_neg hlt, if_neg hzero]
    rw [heq, hnil, decryptBlocks, if_pos List.length_nil]
    simp

/-- Whole blocks are decrypted if there are that many and if there is room for them. -/
theorem decryptBlocks_ok (hcipher : count * 8 ≤ cipher.length) (hout : out.length + count * 8 ≤ 128) :
    ∃ plainStr, decryptBlocks subKeys (count * 8) cipher out = .ok plainStr := by
  induction count generalizing cipher out with
  | zero =>
    rw [Nat.zero_mul, decryptBlocks, if_pos rfl]
    exact ⟨out, rfl⟩
  | succ count ih =>
    have hblock : (desDecryptBlock (block (cipher.take 8)) subKeys).toList.length = 8 := Vector.length_toList
    rw [decryptBlocks, if_neg (by omega), if_neg (by omega), put_eq (by omega), ok_bind]
    have hleft : (count + 1) * 8 - 8 = count * 8 := by omega
    rw [hleft]
    refine ih ?_ ?_
    · rw [List.length_drop]
      omega
    · rw [List.length_append, hblock]
      omega

/-! ## Text -/

theorem decn_enc (ch : UInt8) : decn (enc ch) = ch &&& 0x3F := by
  have h : ∀ n < 256, decn (enc (UInt8.ofNat n)) = UInt8.ofNat n &&& 0x3F := by decide +kernel
  have hch := h ch.toNat ch.toNat_lt
  rwa [UInt8.ofNat_toNat] at hch

theorem printable_enc (ch : UInt8) : printable (enc ch) := by
  have h : ∀ n < 256, 32 < enc (UInt8.ofNat n) ∧ enc (UInt8.ofNat n) < 127 := by decide +kernel
  have hch := h ch.toNat ch.toNat_lt
  rwa [UInt8.ofNat_toNat] at hch

/-- Four characters of six bits each are read back as the three bytes. -/
theorem uencode_eq (a b c : UInt8) : ∃ w x y z, uencode a b c = [w, x, y, z] ∧ udecode w x y z = [a, b, c] := by
  refine ⟨_, _, _, _, rfl, ?_⟩
  unfold udecode
  simp only [decn_enc]
  refine congrArg₂ _ ?_ (congrArg₂ _ ?_ (congrArg₂ _ ?_ rfl))
  all_goals
    refine UInt8.eq_of_toBitVec_eq (BitVec.eq_of_getLsbD_eq fun i hi => ?_)
    simp
    interval_cases i <;> simp

theorem printable_uencode (a b c : UInt8) : ∀ ch ∈ uencode a b c, printable ch := by
  intro ch hch
  unfold uencode at hch
  simp only [List.mem_cons, List.not_mem_nil, or_false] at hch
  rcases hch with rfl | rfl | rfl | rfl <;> exact printable_enc _

/-- The text of `count` groups, from which the bytes are read back -/
theorem encodeGroups_eq {tmp : List UInt8} (htmp : 3 * count ≤ tmp.length) (hle : left ≤ 3 * count)
    (hlt : 3 * count < left + 3) (hout : out.length + 4 * count ≤ 128) :
    ∃ text, encodeGroups left tmp out = .ok (out ++ text) ∧ text.length = 4 * count ∧
      (∀ ch ∈ text, printable ch) ∧ ∀ out', out'.length + 3 * count ≤ 128 →
        decodeGroups text out' = .ok (out' ++ tmp.take (3 * count)) := by
  induction count generalizing left tmp out with
  | zero =>
    have hleft : left = 0 := by omega
    refine ⟨[], ?_, rfl, by simp, ?_⟩
    · rw [List.append_nil]
      unfold encodeGroups
      split <;> exact if_pos hleft
    · intro out' _
      rw [Nat.mul_zero, List.take_zero, List.append_nil]
      rfl
  | succ count ih =>
    match tmp, htmp with
    | a :: b :: c :: tmp, htmp =>
      obtain ⟨w, x, y, z, henc, hdec⟩ := uencode_eq a b c
      have hprint := printable_uencode a b c
      have hlen : (uencode a b c).length = 4 := rfl
      simp only [List.length_cons] at htmp
      obtain ⟨text, htext, hlength, hall, hback⟩ := @ih (out ++ uencode a b c) (left - 3) tmp
        (by omega) (by omega) (by omega) (by rw [List.length_append, hlen]; omega)
      refine ⟨uencode a b c ++ text, ?_, ?_, ?_, ?_⟩
      · rw [encodeGroups, if_neg (by omega), put_eq (by omega), ok_bind, htext, List.append_assoc]
      · rw [List.length_append, hlength, hlen]
        omega
      · intro ch hch
        rcases List.mem_append.mp hch with hch | hch
        · exact hprint ch hch
        · exact hall ch hch
      · intro out' hout'
        have htake : (a :: b :: c :: tmp).take (3 * (count + 1)) = [a, b, c] ++ tmp.take (3 * count) := rfl
        have hlen' : (udecode w x y z).length = 3 := rfl
        rw [henc, htake]
        show (put out' (udecode w x y z) >>= fun out => decodeGroups text out) = _
        rw [put_eq (by omega), ok_bind, hdec, hback _ (by rw [List.length_append]; simp; omega), List.append_assoc]

/-- What is decoded from `count` groups, if there is room for it -/
theorem decodeGroups_ok (htext : text.length = 4 * count) (hout : out.length + 3 * count ≤ 128) :
    ∃ bytes, decodeGroups text out = .ok (out ++ bytes) ∧ bytes.length = 3 * count := by
  induction count generalizing text out with
  | zero =>
    rw [List.length_eq_zero_iff.mp htext]
    exact ⟨[], by rw [List.append_nil]; rfl, rfl⟩
  | succ count ih =>
    match text, htext with
    | a :: b :: c :: d :: text, htext =>
      have hlen : (udecode a b c d).length = 3 := rfl
      simp only [List.length_cons] at htext
      obtain ⟨bytes, hbytes, hlength⟩ := @ih (out ++ udecode a b c d) text (by omega)
        (by rw [List.length_append, hlen]; omega)
      refine ⟨udecode a b c d ++ bytes, ?_, ?_⟩
      · show (put out (udecode a b c d) >>= fun out => decodeGroups text out) = _
        rw [put_eq (by omega), ok_bind, hbytes, List.append_assoc]
      · rw [List.length_append, hlength, hlen]
        omega

theorem decodeGroups_error (htext : text.length = 4 * count) (hout : out.length ≤ 128)
    (hover : 128 < out.length + 3 * count) : decodeGroups text out = .error .overrun := by
  induction count generalizing text out with
  | zero => omega
  | succ count ih =>
    match text, htext with
    | a :: b :: c :: d :: text, htext =>
      have hlen : (udecode a b c d).length = 3 := rfl
      simp only [List.length_cons] at htext
      show (put out (udecode a b c d) >>= fun out => decodeGroups text out) = _
      by_cases hroom : out.length + (udecode a b c d).length ≤ 128
      · rw [put_eq hroom, ok_bind]
        exact ih (by omega) (by rw [List.length_append]; exact hroom) (by rw [List.length_append, hlen]; omega)
      · rw [put, if_neg hroom, error_bind]

/-! ## Stored passwords -/

theorem length_buffer (h : out.length ≤ 128) : (buffer out).length = 128 := by
  unfold buffer
  rw [List.length_append, List.length_replicate]
  omega

/-- More of the buffer may be written as zeros. -/
theorem buffer_take {n : ℕ} (hge : out.length ≤ n) (hle : n ≤ 128) : buffer ((buffer out).take n) = buffer out := by
  have htake : (buffer out).take n = out ++ List.replicate (n - out.length) 0 := by
    unfold buffer
    rw [List.take_append, List.take_of_length_le hge, List.take_replicate, Nat.min_eq_left (by omega)]
  unfold buffer at htake ⊢
  rw [htake, List.append_assoc, List.length_append, List.length_replicate, List.replicate_append_replicate]
  congr 2
  omega

/-- The assertion and the size of the buffers decide. -/
theorem decryptsSafely_iff (t keyStr : CStr) :
    DecryptsSafely t keyStr ↔ t.val.length % 4 = 0 ∧ t.val.length ≤ 168 := by
  unfold DecryptsSafely desDecryptFromChar
  by_cases hmod : t.val.length % 4 = 0
  · have hlen : t.val.length = 4 * (t.val.length / 4) := by omega
    rw [if_neg (not_not_intro hmod)]
    by_cases hfits : t.val.length ≤ 168
    · refine iff_of_true ?_ ⟨hmod, hfits⟩
      obtain ⟨bytes, hbytes, hlength⟩ := @decodeGroups_ok [] _ _ hlen (by rw [List.length_nil]; omega)
      rw [hbytes, ok_bind, List.nil_append]
      refine decryptBlocks_ok ?_ ?_
      · rw [length_buffer (by omega)]
        omega
      · rw [List.length_nil]
        omega
    · refine iff_of_false ?_ fun h => hfits h.2
      rw [decodeGroups_error hlen (Nat.zero_le _) (by rw [List.length_nil]; omega)]
      rintro ⟨plainStr, h⟩
      exact nomatch h
  · refine iff_of_false ?_ fun h => hmod h.1
    rw [if_pos hmod]
    rintro ⟨plainStr, h⟩
    exact nomatch h

theorem takeWhile_nonzero {s : CStr} : cString (s.val ++ 0 :: rest) = s.val := by
  unfold cString
  rw [List.takeWhile_append_of_pos]
  · rw [List.takeWhile_cons_of_neg (by simp), List.append_nil]
  · intro b hb
    exact decide_eq_true fun h => s.property (h ▸ hb)

theorem restores (s keyStr : CStr) (hpos : 0 < s.val.length) (hle : s.val.length ≤ 80) : Restores s keyStr := by
  have hplain : (putAsciz s).length = s.val.length + 1 := by
    unfold putAsciz
    rw [List.length_append, List.length_singleton]
  have hlen : (desEncrypt s keyStr).length = (s.val.length + 8) / 8 * 8 := by
    unfold desEncrypt
    rw [length_encryptBlocks, hplain]
  have hbuffer := @length_buffer (desEncrypt s keyStr) (by omega)
  obtain ⟨text, htext, hlength, hall, hback⟩ := @encodeGroups_eq [] (desEncrypt s keyStr).length
    (((desEncrypt s keyStr).length + 2) / 3) (buffer (desEncrypt s keyStr)) (by omega) (by omega) (by omega) (by rw [List.length_nil]; omega)
  rw [List.nil_append] at htext
  have hblocks : ((buffer (desEncrypt s keyStr)).take (3 * (((desEncrypt s keyStr).length + 2) / 3))).length / 8 * 8 =
      (desEncrypt s keyStr).length := by
    rw [List.length_take, hbuffer]
    omega
  have hdecrypt : desDecryptFromChar text keyStr = .ok (putAsciz s ++
      List.replicate ((desEncrypt s keyStr).length - (putAsciz s).length) 0) := by
    unfold desDecryptFromChar
    rw [if_neg (by omega), hback [] (by rw [List.length_nil]; omega), ok_bind, List.nil_append,
      buffer_take (by omega) (by omega), hblocks]
    refine @decryptBlocks_encryptBlocks _ _ [] _ ?_
    rw [List.length_nil, length_encryptBlocks, hplain]
    omega
  refine ⟨text, _, ?_, hall, by omega, hdecrypt, ?_⟩
  · unfold desEncrypt2Char
    rw [if_neg (by omega), put_eq (by rw [List.length_nil]; omega), ok_bind, List.nil_append,
      if_neg (not_not_intro (by omega)), htext, ok_bind, if_neg (not_not_intro (by omega))]
  · unfold buffer putAsciz
    rw [List.append_assoc, List.append_assoc, List.singleton_append]
    exact takeWhile_nonzero

theorem storedPassword_iff (s t keyStr : CStr) (hpos : 0 < s.val.length) (hle : s.val.length ≤ 80) :
    (Restores s keyStr ∧ DecryptsSafely t keyStr) ↔ t.val.length % 4 = 0 ∧ t.val.length ≤ 168 := by
  rw [decryptsSafely_iff]
  exact and_iff_right (restores s keyStr hpos hle)

/-- The text of a stored password need not be a whole number of groups. -/
theorem storedPassword_abc : ¬∀ s t keyStr : CStr, 0 < s.val.length → s.val.length ≤ 80 → t.val.length ≤ 1023 →
    Restores s keyStr ∧ DecryptsSafely t keyStr := by
  intro h
  obtain ⟨-, plainStr, hplain⟩ := h ⟨[97], by decide⟩ ⟨[97, 98, 99], by decide⟩ emptyStr (by decide) (by decide)
    (by decide)
  exact nomatch hplain

theorem storedPassword_a : (Restores ⟨[97], by decide⟩ emptyStr ∧
    DecryptsSafely ⟨[97, 98, 99, 100], by decide⟩ emptyStr) ↔ 4 % 4 = 0 ∧ 4 ≤ 168 :=
  storedPassword_iff ⟨[97], by decide⟩ ⟨[97, 98, 99, 100], by decide⟩ emptyStr (by decide) (by decide)

end PuttyNd.Storage
