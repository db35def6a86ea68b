import Mathlib.Data.List.GetD
import Mathlib.Data.List.TakeWhile
import Mathlib.Tactic.IntervalCases
import PuttyNd.Zmodem.Frame
import PuttyNd.Zmodem.Session

/-!
# Proofs: the coding of frames

What `sendFrame`, `sendBin32Frame` and `send_zsda32` write is decoded by `convHex2Plain` and
`decodeEscapeStruct`, and a part of it is not taken for the whole.
-/

namespace PuttyNd.Zmodem

/-! ## Hexadecimal digits -/

theorem hex2int_encHex : ∀ c : UInt8,
    hex2int ((encHex c).getD 0 0) <<< 4 ||| hex2int ((encHex c).getD 1 0) = c := by
  have h : ∀ w : BitVec 8, hex2int ((encHex ⟨w⟩).getD 0 0) <<< 4 |||
      hex2int ((encHex ⟨w⟩).getD 1 0) = ⟨w⟩ := by decide +kernel
  exact fun c => h c.toBitVec

theorem length_convPlain2Hex (f : Frame) (crc : UInt16) : (convPlain2Hex f crc).length = 14 := rfl

theorem crc_bytes (x : UInt16) :
    (x >>> 8).toUInt8.toUInt16 <<< 8 ||| (x &&& 0x00FF).toUInt8.toUInt16 = x := by
  apply UInt16.toBitVec_inj.1
  simp only [UInt16.toBitVec_or, UInt16.toBitVec_and, UInt16.toBitVec_shiftLeft,
    UInt16.toBitVec_shiftRight, UInt16.toBitVec_toUInt8, UInt8.toBitVec_toUInt16]
  refine BitVec.eq_of_getLsbD_eq fun i hi => ?_
  interval_cases i <;> simp

/-- `convHex2Plain` reads what `convPlain2Hex` writes. -/
theorem convHex2Plain_convPlain2Hex (f : Frame) (crc : UInt16) :
    convHex2Plain (convPlain2Hex f crc) = (f, crc) := by
  have h0 : decHex (convPlain2Hex f crc) 0 = f.type := hex2int_encHex _
  have h2 : decHex (convPlain2Hex f crc) 2 = f.flag0 := hex2int_encHex _
  have h4 : decHex (convPlain2Hex f crc) 4 = f.flag1 := hex2int_encHex _
  have h6 : decHex (convPlain2Hex f crc) 6 = f.flag2 := hex2int_encHex _
  have h8 : decHex (convPlain2Hex f crc) 8 = f.flag3 := hex2int_encHex _
  have h10 : decHex (convPlain2Hex f crc) 10 = (crc >>> 8).toUInt8 := hex2int_encHex _
  have h12 : decHex (convPlain2Hex f crc) 12 = (crc &&& 0x00FF).toUInt8 := hex2int_encHex _
  rw [convHex2Plain, h0, h2, h4, h6, h8, h10, h12, crc_bytes]

/-! ## Escaped bytes -/

/-- The escaped form of a byte. -/
def esc (c : UInt8) : List UInt8 := if zsendlineTab c = 0 then [c] else [ZDLE, c ^^^ 0o100]

/-- The escaped form of a sequence of bytes. -/
def escs (bs : List UInt8) : List UInt8 := bs.flatMap esc

@[simp] theorem escs_nil : escs [] = [] := rfl

@[simp] theorem escs_cons (c : UInt8) (bs : List UInt8) : escs (c :: bs) = esc c ++ escs bs := rfl

@[simp] theorem escs_append (xs ys : List UInt8) : escs (xs ++ ys) = escs xs ++ escs ys := by
  simp [escs]

theorem zsendlineTab_cases (c : UInt8) : zsendlineTab c = 0 ∨ zsendlineTab c = 1 := by
  unfold zsendlineTab
  split <;> simp

theorem length_esc_le (c : UInt8) : 1 ≤ (esc c).length ∧ (esc c).length ≤ 2 := by
  unfold esc
  split <;> simp

theorem length_escs_le (bs : List UInt8) :
    bs.length ≤ (escs bs).length ∧ (escs bs).length ≤ 2 * bs.length := by
  induction bs with
  | nil => simp
  | cons c bs ih =>
    have := length_esc_le c
    simp only [escs_cons, List.length_append, List.length_cons]
    omega

/-- `convert2zline` escapes every byte if the destination is large enough. -/
theorem convert2zlineLoop_eq (bs : List UInt8) :
    ∀ (n : ℕ) (last : UInt8), 2 * bs.length ≤ n → convert2zlineLoop n last bs = escs bs := by
  induction bs with
  | nil =>
    intro n last _
    simp [convert2zlineLoop]
  | cons c bs ih =>
    intro n last h
    simp only [List.length_cons] at h
    rw [convert2zlineLoop, if_neg (by omega), escs_cons, esc]
    rcases zsendlineTab_cases c with hc | hc
    · rw [if_pos hc, if_pos hc, ih _ _ (by omega)]
      rfl
    · rw [if_neg (by omega), if_pos hc, if_neg (by omega), ih _ _ (by omega)]
      rfl

theorem convert2zline_eq {bs : List UInt8} {n : ℕ} (h : 2 * bs.length ≤ n) :
    convert2zline n bs = escs bs := convert2zlineLoop_eq bs n 0 h

/-- What is sent unescaped is not `ZDLE`, and what follows a `ZDLE` is not the end of a frame. -/
theorem esc_bytes : ∀ c : UInt8, (zsendlineTab c = 0 → c ≠ ZDLE) ∧
    (zsendlineTab c ≠ 0 → c ^^^ 0o100 ≠ ZCRCE ∧ c ^^^ 0o100 ≠ ZCRCG ∧ c ^^^ 0o100 ≠ ZCRCQ ∧
      c ^^^ 0o100 ≠ ZCRCW) ∧ (c ^^^ 0o100) ^^^ 0x40 = c := by
  have h : ∀ w : BitVec 8, (zsendlineTab ⟨w⟩ = 0 → (⟨w⟩ : UInt8) ≠ ZDLE) ∧
      (zsendlineTab ⟨w⟩ ≠ 0 → (⟨w⟩ : UInt8) ^^^ 0o100 ≠ ZCRCE ∧ (⟨w⟩ : UInt8) ^^^ 0o100 ≠ ZCRCG ∧
        (⟨w⟩ : UInt8) ^^^ 0o100 ≠ ZCRCQ ∧ (⟨w⟩ : UInt8) ^^^ 0o100 ≠ ZCRCW) ∧
      ((⟨w⟩ : UInt8) ^^^ 0o100) ^^^ 0x40 = ⟨w⟩ := by decide +kernel
  exact fun c => h c.toBitVec

/-- `decodeEscapeStruct` reads escaped bytes. -/
theorem decodeEscape_escs (bs rest : List UInt8) :
    decodeEscape bs.length (escs bs ++ rest) = some (bs, (escs bs).length) := by
  induction bs with
  | nil => rfl
  | cons c bs ih =>
    obtain ⟨h1, -, h2⟩ := esc_bytes c
    rw [escs_cons, List.append_assoc, List.length_cons, List.length_append, esc]
    by_cases hc : zsendlineTab c = 0
    · rw [if_pos hc, List.singleton_append, decodeEscape.eq_def]
      simp only [if_neg (h1 hc), ih, Option.map_some, List.length_singleton, Nat.add_comm]
    · rw [if_neg hc, decodeEscape.eq_def]
      simp [ih, h2, Nat.add_comm]

/-- `decodeEscapeStruct` does not succeed on a part of the escaped bytes. -/
theorem decodeEscape_part (bs : List UInt8) :
    ∀ {p q : List UInt8}, escs bs = p ++ q → q ≠ [] → decodeEscape bs.length p = none := by
  induction bs with
  | nil =>
    intro p q h hq
    simp at h
    exact absurd h.2 hq
  | cons c bs ih =>
    intro p q h hq
    obtain ⟨h1, -, -⟩ := esc_bytes c
    rw [escs_cons, esc] at h
    cases p with
    | nil => rfl
    | cons x p =>
      by_cases hc : zsendlineTab c = 0
      · rw [if_pos hc, List.singleton_append, List.cons_append] at h
        obtain ⟨rfl, h2⟩ := List.cons.inj h
        rw [List.length_cons, decodeEscape.eq_def]
        simp [if_neg (h1 hc), ih h2 hq]
      · rw [if_neg hc] at h
        simp only [List.cons_append, List.nil_append] at h
        obtain ⟨rfl, h2⟩ := List.cons.inj h
        cases p with
        | nil =>
          rw [List.length_cons, decodeEscape.eq_def]
          simp
        | cons y p =>
          obtain ⟨-, h3⟩ := List.cons.inj h2
          rw [List.length_cons, decodeEscape.eq_def]
          simp [ih h3 hq]

/-! ## Checksums -/

theorem ofLe32_le32 (x : UInt32) : ofLe32 (le32 x) = x := by
  apply UInt32.toBitVec_inj.1
  simp only [ofLe32, le32, List.getD_cons_zero, List.getD_cons_succ, UInt32.toBitVec_or,
    UInt32.toBitVec_shiftLeft, UInt32.toBitVec_shiftRight, UInt32.toBitVec_toUInt8,
    UInt8.toBitVec_toUInt32]
  refine BitVec.eq_of_getLsbD_eq fun i hi => ?_
  interval_cases i <;> simp

/-- What `decodeEscapeStruct` consumes is there. -/
theorem decodeEscape_le {n : ℕ} {bs : List UInt8} {r : List UInt8 × ℕ}
    (h : decodeEscape n bs = some r) : r.2 ≤ bs.length ∧ n ≤ r.2 := by
  induction n generalizing bs r with
  | zero =>
    simp only [decodeEscape, Option.some.injEq] at h
    subst h
    simp
  | succ n ih =>
    cases bs with
    | nil => simp [decodeEscape] at h
    | cons b bs =>
      rw [decodeEscape.eq_def] at h
      simp only at h
      split_ifs at h with hb
      · cases bs with
        | nil => simp at h
        | cons x bs =>
          simp only [Option.map_eq_some_iff] at h
          obtain ⟨r', h1, rfl⟩ := h
          have := ih h1
          simp
          omega
      · simp only [Option.map_eq_some_iff] at h
        obtain ⟨r', h1, rfl⟩ := h
        have := ih h1
        simp
        omega

theorem decodeCrc32_le {bs : List UInt8} {r : UInt32 × ℕ} (h : decodeCrc32 bs = some r) :
    r.2 ≤ bs.length ∧ 4 ≤ r.2 := by
  simp only [decodeCrc32, Option.map_eq_some_iff] at h
  obtain ⟨r', h1, rfl⟩ := h
  exact decodeEscape_le h1

end PuttyNd.Zmodem

/-!
## Proofs: the name and the size of a file

`convert2zline` escapes the `NUL`s that end the name and the information about the file, and `handleZfile`
looks for them in the bytes as they were received. It never reads what `sendFileInfo` has sent.
-/

namespace PuttyNd.Zmodem

variable {env : Env} {s : Session} {info : FileInfo}

/-- The subpacket that `sendFileInfo` passes through `send_zsda32`. -/
def zfileSubpacket (info : FileInfo) : List UInt8 := sendZsda32 (Session.filedata info) ZCRCW

/-- `handleZfile` accepts what it has received, which it does not wait for or reset the session for, as a
file with the name and the size in `info`. -/
def ZfileAccepted (env : Env) (s : Session) (info : FileInfo) : Prop :=
  ∃ s' f, s.handleZfile env = .ok (s', []) ∧ s'.zmodemFile = some f ∧
    s.rx.cstring s.rx.decodeIndex = .ok info.basename ∧ f.fileSize.toNat = info.size

/-! ## What is on the wire -/

/-- No byte is sent as `NUL`. -/
theorem esc_ne_zero : ∀ c : UInt8, 0 ∉ esc c := by
  have h : ∀ w : BitVec 8, 0 ∉ esc ⟨w⟩ := by decide +kernel
  exact fun c => h c.toBitVec

theorem convert2zlineLoop_ne_zero (bs : List UInt8) :
    ∀ (n : ℕ) (last : UInt8), 0 ∉ convert2zlineLoop n last bs := by
  induction bs with
  | nil => simp [convert2zlineLoop]
  | cons c bs ih =>
    intro n last
    have hesc := esc_ne_zero c
    rw [convert2zlineLoop]
    unfold esc at hesc
    by_cases hn : n = 0
    · simp [hn]
    rw [if_neg hn]
    rcases zsendlineTab_cases c with hc | hc
    · rw [if_pos hc] at hesc
      rw [if_pos hc, List.mem_cons, not_or]
      exact ⟨by simpa using hesc, ih _ _⟩
    · rw [if_neg (by omega)] at hesc
      rw [if_neg (by omega), if_pos hc, List.mem_cons, List.mem_cons, not_or, not_or]
      simp only [List.mem_cons, List.not_mem_nil, or_false, not_or] at hesc
      exact ⟨hesc.1, hesc.2, ih _ _⟩

theorem sendZsda32_ne_zero (data : List UInt8) : 0 ∉ sendZsda32 data ZCRCW := by
  have h1 : 0 ∉ convert2zline (2048 + 128) data := convert2zlineLoop_ne_zero data _ 0
  unfold sendZsda32
  simp only [List.mem_append, not_or]
  refine ⟨⟨⟨h1, by decide⟩, convert2zlineLoop_ne_zero _ _ 0⟩, by decide⟩

/-- At least one byte is sent for each byte for which there is space. -/
theorem le_length_convert2zlineLoop (bs : List UInt8) :
    ∀ (n : ℕ) (last : UInt8), min n bs.length ≤ (convert2zlineLoop n last bs).length := by
  induction bs with
  | nil => simp
  | cons c bs ih =>
    intro n last
    rw [convert2zlineLoop]
    by_cases hn : n = 0
    · simp [hn]
    · rw [if_neg hn]
      rcases zsendlineTab_cases c with hc | hc
      · have := ih (n - 1) c
        rw [if_pos hc]
        simp only [List.length_cons]
        omega
      · have := ih (n - 2) (c ^^^ 0o100)
        rw [if_neg (by omega), if_pos hc]
        simp only [List.length_cons]
        omega

/-- More bytes are sent than the name has. -/
theorem length_zfileSubpacket (hname : info.basename.length ≤ 900) :
    info.basename.length < (zfileSubpacket info).length := by
  have h1 := le_length_convert2zlineLoop (Session.filedata info) (2048 + 128) 0
  have h2 : info.basename.length < (Session.filedata info).length := by
    simp [Session.filedata]
  simp only [zfileSubpacket, sendZsda32, convert2zline, List.length_append]
  omega

/-! ## What is read -/

/-- The name ends only after the subpacket. -/
theorem length_cstring {rest name : List UInt8} {i : ℕ}
    (hbuf : s.rx.buffer.drop i = zfileSubpacket info ++ rest) (hname : s.rx.cstring i = .ok name) :
    (zfileSubpacket info).length ≤ name.length := by
  have h0 : ∀ b ∈ zfileSubpacket info, decide (b ≠ 0) = true := by
    intro b hb
    rw [decide_eq_true_eq]
    rintro rfl
    exact sendZsda32_ne_zero _ hb
  simp only [Rx.cstring, hbuf, List.takeWhile_append_of_pos h0] at hname
  split at hname
  · cases hname
    simp
  · cases hname

theorem cstring_zfileSubpacket {i : ℕ} (hbuf : s.rx.buffer.drop i = zfileSubpacket info) :
    s.rx.cstring i = .error .overread := by
  have h0 : (zfileSubpacket info).takeWhile (fun b => decide (b ≠ 0)) = zfileSubpacket info := by
    refine List.takeWhile_eq_self_iff.mpr fun b hb => ?_
    rw [decide_eq_true_eq]
    rintro rfl
    exact sendZsda32_ne_zero _ hb
  have hlen := congrArg List.length hbuf
  rw [List.length_drop] at hlen
  unfold Rx.cstring
  simp only [hbuf, h0]
  rw [if_neg]
  omega

/-- **The receiver never accepts the name and the size that the sender sends**: neither when the buffer
ends after the subpacket, where it reads beyond the end of the buffer, nor when more follows. -/
theorem zfile_never_accepted {rest : List UInt8} (hname : info.basename.length ≤ 900)
    (hbuf : s.rx.buffer.drop s.rx.decodeIndex = zfileSubpacket info ++ rest) :
    ¬ ZfileAccepted env s info ∧ (rest = [] → s.handleZfile env = .error .overread) := by
  constructor
  · rintro ⟨s', f, -, -, hstr, -⟩
    have h1 := length_cstring hbuf hstr
    have h2 := length_zfileSubpacket hname
    omega
  · rintro rfl
    rw [List.append_nil] at hbuf
    rw [Session.handleZfile, cstring_zfileSubpacket hbuf]
    rfl

/-- A file `ab.c` of five bytes. -/
def abc : FileInfo :=
  { basename := [97, 98, 46, 99], size := 5, lastModified := 1000000, readable := true, content := [] }

/-- A session that has received the header and the whole subpacket. -/
def zfileReceived (info : FileInfo) : Session :=
  { Session.new { Rx.init with buffer := zfileSubpacket info } default with curState := .handleFrame }

/-- The receiver does not accept the file `ab.c`. -/
theorem zfile_never_accepted_abc :
    ¬ ZfileAccepted ⟨false, fun _ => none, fun _ => true⟩ (zfileReceived abc) abc ∧
      (([] : List UInt8) = [] → (zfileReceived abc).handleZfile ⟨false, fun _ => none, fun _ => true⟩ =
        .error .overread) :=
  zfile_never_accepted (by decide) (by simp [zfileReceived, Session.new, Rx.init])

/-- What is on the wire for the file `ab.c`, and what the receiver makes of it. -/
theorem zfile_abc_overread :
    (zfileSubpacket abc).take 7 = [97, 98, 46, 99, ZDLE, 64, 53] ∧
      (zfileReceived abc).handleZfile ⟨false, fun _ => none, fun _ => true⟩ = .error .overread ∧
      ¬ ZfileAccepted ⟨false, fun _ => none, fun _ => true⟩ (zfileReceived abc) abc := by
  have h : (zfileSubpacket abc).take 7 = [97, 98, 46, 99, ZDLE, 64, 53] ∧
      (zfileReceived abc).handleZfile ⟨false, fun _ => none, fun _ => true⟩ = .error .overread := by
    decide +kernel
  refine ⟨h.1, h.2, ?_⟩
  rintro ⟨s', f, hok, -⟩
  rw [h.2] at hok
  cases hok

end PuttyNd.Zmodem
