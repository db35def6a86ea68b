import PuttyNd.Lib.Codec
import PuttyNd.Psftp.Marshal

/-!
# Proofs: what is put is got back

Each pair of functions of `marshal.c` is a codec: a value is read back whatever follows it, and the error
is set if a part of it is missing.
-/

namespace PuttyNd.Psftp

open Lib

variable {src : BinarySource} {data rest : List UInt8} {wanted : ℕ}

theorem avail_ok (h : wanted ≤ data.length) :
    avail ⟨data, false⟩ wanted = (true, ⟨data.drop wanted, false⟩) := by
  rw [avail, if_neg Bool.false_ne_true, if_pos h]

theorem avail_part (h : data.length < wanted) :
    avail ⟨data, false⟩ wanted = (false, ⟨data, true⟩) := by
  rw [avail, if_neg Bool.false_ne_true, if_neg (Nat.not_le.mpr h)]

theorem avail_err (h : src.err = true) : avail src wanted = (false, src) := by
  rw [avail, if_pos h]

theorem avail_length (src : BinarySource) (wanted : ℕ) :
    (avail src wanted).2.data.length ≤ src.data.length := by
  unfold avail
  split_ifs
  · exact Nat.le_refl _
  · simp
  · exact Nat.le_refl _

theorem length_of_part {part l : List UInt8} (hp : part.IsPrefix l) (hne : part ≠ l) :
    part.length < l.length :=
  lt_of_le_of_ne hp.length_le fun h => hne (hp.eq_of_length h)

/-- A number of 32 bits from its four bytes. -/
theorem reassemble (n : ℕ) (h : n < 2 ^ 32) :
    n % 2 ^ 8 ||| (n >>> 8 % 2 ^ 8) <<< 8 ||| (n >>> 16 % 2 ^ 8) <<< 16 ||| (n >>> 24 % 2 ^ 8) <<< 24 =
      n := by
  simp only [Nat.shiftRight_eq_div_pow]
  have h1 := Nat.shiftLeft_add_eq_or_of_lt (i := 8) (b := n % 2 ^ 8) (by omega) (n / 2 ^ 8 % 2 ^ 8)
  have h2 := Nat.shiftLeft_add_eq_or_of_lt (i := 16)
    (b := (n / 2 ^ 8 % 2 ^ 8) <<< 8 + n % 2 ^ 8) (by simp only [Nat.shiftLeft_eq]; omega)
    (n / 2 ^ 16 % 2 ^ 8)
  have h3 := Nat.shiftLeft_add_eq_or_of_lt (i := 24)
    (b := (n / 2 ^ 16 % 2 ^ 8) <<< 16 + ((n / 2 ^ 8 % 2 ^ 8) <<< 8 + n % 2 ^ 8))
    (by simp only [Nat.shiftLeft_eq]; omega) (n / 2 ^ 24 % 2 ^ 8)
  rw [Nat.or_comm (n % 2 ^ 8), ← h1, Nat.or_comm _ ((n / 2 ^ 16 % 2 ^ 8) <<< 16), ← h2,
    Nat.or_comm _ ((n / 2 ^ 24 % 2 ^ 8) <<< 24), ← h3]
  simp only [Nat.shiftLeft_eq]
  omega

theorem get32bit_put (val : UInt32) (rest : List UInt8) :
    get32bitMsbFirst (putUint32 val ++ rest) = val := by
  have hmod : ∀ n k : ℕ, k ≤ 24 → (n % 256) <<< k % 4294967296 = (n % 256) <<< k := by
    intro n k hk
    refine Nat.mod_eq_of_lt ?_
    have h1 : 2 ^ k ≤ 2 ^ 24 := Nat.pow_le_pow_right (by omega) hk
    calc (n % 256) <<< k = n % 256 * 2 ^ k := Nat.shiftLeft_eq _ _
      _ ≤ 255 * 2 ^ 24 := Nat.mul_le_mul (by omega) h1
      _ < 4294967296 := by omega
  apply UInt32.toNat_inj.mp
  have h := reassemble val.toNat val.toNat_lt
  simp only [Nat.reducePow] at h
  simp [get32bitMsbFirst, putUint32, hmod, h]

/-- Any four bytes are those of a number. -/
theorem exists_putUint32 (b0 b1 b2 b3 : UInt8) : ∃ val, putUint32 val = [b0, b1, b2, b3] := by
  have h0 := b0.toNat_lt
  have h1 := b1.toNat_lt
  have h2 := b2.toNat_lt
  have h3 := b3.toNat_lt
  refine ⟨UInt32.ofNat (b0.toNat * 2 ^ 24 + b1.toNat * 2 ^ 16 + b2.toNat * 2 ^ 8 + b3.toNat), ?_⟩
  simp only [putUint32, List.cons.injEq, and_true]
  refine ⟨?_, ?_, ?_, ?_⟩ <;> apply UInt8.toNat_inj.mp <;> simp [Nat.shiftRight_eq_div_pow] <;> omega

theorem putUint32_get32bit {data : List UInt8} (h : 4 ≤ data.length) :
    putUint32 (get32bitMsbFirst data) = data.take 4 := by
  obtain ⟨b0, b1, b2, b3, rest, rfl⟩ : ∃ b0 b1 b2 b3 rest, data = b0 :: b1 :: b2 :: b3 :: rest := by
    match data, h with
    | b0 :: b1 :: b2 :: b3 :: rest, _ => exact ⟨b0, b1, b2, b3, rest, rfl⟩
  obtain ⟨val, hval⟩ := exists_putUint32 b0 b1 b2 b3
  have hget := get32bit_put val rest
  rw [hval] at hget
  show putUint32 (get32bitMsbFirst ([b0, b1, b2, b3] ++ rest)) = _
  rw [hget, hval]
  rfl

@[simp] theorem length_putUint32 (val : UInt32) : (putUint32 val).length = 4 := rfl

/-- A string is read back, whatever follows it. -/
theorem getString_put {len : UInt32} {bytes rest : List UInt8} (h : bytes.length = len.toNat) :
    getString ⟨putUint32 len ++ (bytes ++ rest), false⟩ = (bytes, ⟨rest, false⟩) := by
  have hdrop : (putUint32 len ++ (bytes ++ rest)).drop 4 = bytes ++ rest := rfl
  rw [getString, avail_ok (by simp), get32bit_put, hdrop]
  simp only [← h]
  rw [avail_ok (by simp), List.drop_left, List.take_left]

/-- What has been read is a length and as many bytes. -/
theorem eq_of_getString {data bytes rest : List UInt8}
    (h : getString ⟨data, false⟩ = (bytes, ⟨rest, false⟩)) :
    ∃ len : UInt32, bytes.length = len.toNat ∧ data = putUint32 len ++ (bytes ++ rest) := by
  rw [getString] at h
  rcases Nat.lt_or_ge data.length 4 with hlt | hge
  · rw [avail_part hlt] at h
    simp at h
  · rw [avail_ok hge] at h
    simp only at h
    rcases Nat.lt_or_ge (data.drop 4).length (get32bitMsbFirst data).toNat with hlt | hge'
    · rw [avail_part hlt] at h
      simp at h
    · rw [avail_ok hge'] at h
      simp only [Prod.mk.injEq, Source.mk.injEq, and_true] at h
      obtain ⟨rfl, rfl⟩ := h
      refine ⟨get32bitMsbFirst data, ?_, ?_⟩
      · rw [List.length_take]
        omega
      · rw [putUint32_get32bit hge, List.take_append_drop, List.take_append_drop]

def uint32Codec : Codec UInt8 UInt32 where
  put := putUint32
  get := getUint32
  get_put val rest := by
    rw [getUint32, avail_ok (by simp [putUint32])]
    simp only [get32bit_put]
    rfl
  get_part val part hp hne := by
    have h : part.length < 4 := length_of_part hp hne
    rw [getUint32, avail_part h]
  get_err src h := by
    rw [getUint32, avail_err h]
    exact h
  get_length src := by
    have h := avail_length src 4
    unfold getUint32
    split <;> simp_all

def boolCodec : Codec UInt8 Bool where
  put := putBool
  get := getBool
  get_put val rest := by
    rw [getBool, avail_ok (by simp [putBool])]
    cases val <;> rfl
  get_part val part hp hne := by
    have h : part.length < 1 := length_of_part hp hne
    rw [getBool, avail_part h]
  get_err src h := by
    rw [getBool, avail_err h]
    exact h
  get_length src := by
    have h := avail_length src 1
    unfold getBool
    split <;> simp_all

/-- What comes before the first NUL, and what after it. -/
theorem upToNul_append (str : CStr) (rest : List UInt8) :
    (str.val ++ 0 :: rest).takeWhile (· ≠ 0) = str.val ∧
      (str.val ++ 0 :: rest).dropWhile (· ≠ 0) = 0 :: rest := by
  have h : ∀ b ∈ str.val, (decide (b ≠ 0)) = true := by
    intro b hb
    rw [decide_eq_true_iff]
    rintro rfl
    exact str.property hb
  rw [List.takeWhile_append_of_pos h, List.dropWhile_append_of_pos h]
  simp

def ascizCodec : Codec UInt8 CStr where
  put := putAsciz
  get := getAsciz
  get_put str rest := by
    obtain ⟨h1, h2⟩ := upToNul_append str rest
    have h3 : putAsciz str ++ rest = str.val ++ 0 :: rest := by simp [putAsciz]
    rw [h3, getAsciz, if_neg Bool.false_ne_true, if_pos (by simp)]
    refine Prod.ext (Subtype.ext h1) ?_
    simp only [h2, List.tail_cons]
  get_part str part hp hne := by
    have hnul : 0 ∉ part := by
      intro hmem
      rcases Codec.part_append hp hne with ⟨h1, -⟩ | ⟨m, rfl, h1, h2⟩
      · exact str.property (h1.subset hmem)
      · cases m with
        | nil => exact str.property (by simpa using hmem)
        | cons b m =>
          have h3 := h1.length_le
          have h4 : m = [] := by simpa using h3
          subst h4
          exact h2 (h1.eq_of_length rfl)
    rw [getAsciz, if_neg Bool.false_ne_true, if_neg hnul]
  get_err src h := by
    rw [getAsciz, if_pos h]
    exact h
  get_length src := by
    unfold getAsciz
    split_ifs
    · exact Nat.le_refl _
    · have h := (List.dropWhile_sublist (· ≠ 0) (l := src.data)).length_le
      simp at h ⊢
      omega
    · exact Nat.le_refl _

end PuttyNd.Psftp

/-!
## Proofs: what the functions of `BinarySource` accept
-/

namespace PuttyNd.Psftp

open Lib

theorem avail_append {w : List UInt8} {wanted : ℕ} (rest : List UInt8) (h : w.length = wanted) :
    avail ⟨w ++ rest, false⟩ wanted = (true, ⟨rest, false⟩) := by
  subst h
  rw [avail_ok (by simp), List.drop_left]

/-- The data are shorter than what is wanted, or they begin with that much. -/
theorem avail_cases (data : List UInt8) (wanted : ℕ) :
    data.length < wanted ∨ ∃ w rest, data = w ++ rest ∧ w.length = wanted := by
  by_cases h : data.length < wanted
  · exact Or.inl h
  · refine Or.inr ⟨data.take wanted, data.drop wanted, (List.take_append_drop _ _).symm, ?_⟩
    rw [List.length_take]
    omega

theorem getData_accepts (wanted : ℕ) :
    Accepts (fun src => getData src wanted) (fun v w => w = v ∧ v.length = wanted) where
  latch src herr := by simpa [getData, avail_err herr] using herr
  complete v w rest hw := by
    obtain ⟨rfl, rfl⟩ := hw
    simp [getData, avail_append rest rfl]
  sound data herr := by
    rcases avail_cases data wanted with hlen | ⟨w, rest, rfl, rfl⟩
    · simp [getData, avail_part hlen] at herr
    · simp [getData, avail_append rest rfl]

theorem getByte_accepts : Accepts getByte (fun b w => w = [b]) where
  latch src herr := by simpa [getByte, avail_err herr] using herr
  complete b w rest hw := by
    subst hw
    have hav : avail ⟨[b] ++ rest, false⟩ 1 = (true, ⟨rest, false⟩) := avail_append rest rfl
    rw [getByte, hav]
    rfl
  sound data herr := by
    cases data with
    | nil => simp [getByte, avail] at herr
    | cons b rest => exact ⟨[b], by simp [getByte, avail], by simp [getByte, avail]⟩

theorem getUint16_accepts : Accepts getUint16 (fun v w => w.length = 2 ∧ v = get16bit w) where
  latch src herr := by simpa [getUint16, avail_err herr] using herr
  complete v w rest hw := by
    obtain ⟨hlen, rfl⟩ := hw
    rw [getUint16, avail_append rest hlen]
    match w, hlen with
    | [_, _], _ => rfl
  sound data herr := by
    rcases avail_cases data 2 with hlen | ⟨w, rest, rfl, hlen⟩
    · simp [getUint16, avail_part hlen] at herr
    · refine ⟨w, by simp [getUint16, avail_append rest hlen], hlen, ?_⟩
      match w, hlen with
      | [_, _], hlen => simp [getUint16, avail, get16bit]

theorem getUint32_accepts :
    Accepts getUint32 (fun v w => w.length = 4 ∧ v = get32bitMsbFirst w) where
  latch src herr := by simpa [getUint32, avail_err herr] using herr
  complete v w rest hw := by
    obtain ⟨hlen, rfl⟩ := hw
    rw [getUint32, avail_append rest hlen]
    match w, hlen with
    | [_, _, _, _], _ => rfl
  sound data herr := by
    rcases avail_cases data 4 with hlen | ⟨w, rest, rfl, hlen⟩
    · simp [getUint32, avail_part hlen] at herr
    · refine ⟨w, by simp [getUint32, avail_append rest hlen], hlen, ?_⟩
      match w, hlen with
      | [_, _, _, _], hlen => simp [getUint32, avail, get32bitMsbFirst]

theorem getPstring_accepts :
    Accepts getPstring (fun v w => ∃ n : UInt8, w = n :: v ∧ v.length = n.toNat) where
  latch src herr := by simpa [getPstring, avail_err herr] using herr
  complete v w rest hw := by
    obtain ⟨n, rfl, hlen⟩ := hw
    have hav : avail ⟨n :: v ++ rest, false⟩ 1 = (true, ⟨v ++ rest, false⟩) :=
      avail_append (w := [n]) (v ++ rest) rfl
    rw [getPstring, hav]
    exact (getData_accepts n.toNat).complete v v rest ⟨rfl, hlen⟩
  sound data herr := by
    cases data with
    | nil => simp [getPstring, avail] at herr
    | cons n data =>
      have hget : getPstring ⟨n :: data, false⟩ = getData ⟨data, false⟩ n.toNat := by
        simp [getPstring, avail]
      rw [hget] at herr ⊢
      obtain ⟨w, hdata, rfl, hlen⟩ := (getData_accepts n.toNat).sound data herr
      exact ⟨n :: _, by rw [List.cons_append, ← hdata], n, rfl, hlen⟩

theorem getAsciz_accepts : Accepts getAsciz (fun str w => w = putAsciz str) where
  latch := ascizCodec.get_err
  complete str w rest hw := by
    subst hw
    exact ascizCodec.get_put str rest
  sound data herr := by
    by_cases hmem : (0 : UInt8) ∈ data
    · obtain ⟨s, rest, rfl, hs⟩ := List.eq_append_cons_of_mem hmem
      have hget := ascizCodec.get_put ⟨s, hs⟩ rest
      have happ : ascizCodec.put ⟨s, hs⟩ ++ rest = s ++ 0 :: rest := by
        simp [ascizCodec, putAsciz]
      rw [happ] at hget
      refine ⟨putAsciz ⟨s, hs⟩, ?_, ?_⟩
      · show s ++ 0 :: rest = _ ++ (ascizCodec.get ⟨s ++ 0 :: rest, false⟩).2.data
        rw [hget, ← happ]
        rfl
      · show _ = putAsciz (ascizCodec.get ⟨s ++ 0 :: rest, false⟩).1
        rw [hget]
    · simp [getAsciz, hmem] at herr

end PuttyNd.Psftp
