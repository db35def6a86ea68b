import Mathlib.Algebra.GroupWithZero.Nat
import Mathlib.Data.UInt
import PuttyNd.Lib.Feistel
import PuttyNd.Lib.Memory
import PuttyNd.Psftp.Marshal

/-!
# Encryption of stored passwords (`putty/des.c`)

Arrays of bits, and the tables of positions in them, have their sizes in their types. It does not matter that a
`char` is signed, as bytes are masked after they are shifted. A buffer of 128 bytes that is zero at first and is
written from its start on is the list of the bytes written.
-/

namespace PuttyNd.Storage

open Memory Feistel Psftp

/-- An array of `ElemType` whose elements are 0 or 1 -/
abbrev Bits (n : ℕ) := Vector Bool n

/-! ## Tables -/

def ipTable : Vector (Fin 64) 64 := #v[
  57, 49, 41, 33, 25, 17, 9, 1,
  59, 51, 43, 35, 27, 19, 11, 3,
  61, 53, 45, 37, 29, 21, 13, 5,
  63, 55, 47, 39, 31, 23, 15, 7,
  56, 48, 40, 32, 24, 16, 8, 0,
  58, 50, 42, 34, 26, 18, 10, 2,
  60, 52, 44, 36, 28, 20, 12, 4,
  62, 54, 46, 38, 30, 22, 14, 6]

def ip1Table : Vector (Fin 64) 64 := #v[
  39, 7, 47, 15, 55, 23, 63, 31,
  38, 6, 46, 14, 54, 22, 62, 30,
  37, 5, 45, 13, 53, 21, 61, 29,
  36, 4, 44, 12, 52, 20, 60, 28,
  35, 3, 43, 11, 51, 19, 59, 27,
  34, 2, 42, 10, 50, 18, 58, 26,
  33, 1, 41, 9, 49, 17, 57, 25,
  32, 0, 40, 8, 48, 16, 56, 24]

def eTable : Vector (Fin 32) 48 := #v[
  31, 0, 1, 2, 3, 4,
  3, 4, 5, 6, 7, 8,
  7, 8, 9, 10, 11, 12,
  11, 12, 13, 14, 15, 16,
  15, 16, 17, 18, 19, 20,
  19, 20, 21, 22, 23, 24,
  23, 24, 25, 26, 27, 28,
  27, 28, 29, 30, 31, 0]

def pTable : Vector (Fin 32) 32 := #v[
  15, 6, 19, 20, 28, 11, 27, 16,
  0, 14, 22, 25, 4, 17, 30, 9,
  1, 7, 23, 13, 31, 26, 2, 8,
  18, 12, 29, 5, 21, 10, 3, 24]

/-- `S` -/
def sTable : Vector (Vector (Vector ℕ 16) 4) 8 := #v[
  #v[#v[14, 4, 13, 1, 2, 15, 11, 8, 3, 10, 6, 12, 5, 9, 0, 7],
    #v[0, 15, 7, 4, 14, 2, 13, 1, 10, 6, 12, 11, 9, 5, 3, 8],
    #v[4, 1, 14, 8, 13, 6, 2, 11, 15, 12, 9, 7, 3, 10, 5, 0],
    #v[15, 12, 8, 2, 4, 9, 1, 7, 5, 11, 3, 14, 10, 0, 6, 13]],
  #v[#v[15, 1, 8, 14, 6, 11, 3, 4, 9, 7, 2, 13, 12, 0, 5, 10],
    #v[3, 13, 4, 7, 15, 2, 8, 14, 12, 0, 1, 10, 6, 9, 11, 5],
    #v[0, 14, 7, 11, 10, 4, 13, 1, 5, 8, 12, 6, 9, 3, 2, 15],
    #v[13, 8, 10, 1, 3, 15, 4, 2, 11, 6, 7, 12, 0, 5, 14, 9]],
  #v[#v[10, 0, 9, 14, 6, 3, 15, 5, 1, 13, 12, 7, 11, 4, 2, 8],
    #v[13, 7, 0, 9, 3, 4, 6, 10, 2, 8, 5, 14, 12, 11, 15, 1],
    #v[13, 6, 4, 9, 8, 15, 3, 0, 11, 1, 2, 12, 5, 10, 14, 7],
    #v[1, 10, 13, 0, 6, 9, 8, 7, 4, 15, 14, 3, 11, 5, 2, 12]],
  #v[#v[7, 13, 14, 3, 0, 6, 9, 10, 1, 2, 8, 5, 11, 12, 4, 15],
    #v[13, 8, 11, 5, 6, 15, 0, 3, 4, 7, 2, 12, 1, 10, 14, 9],
    #v[10, 6, 9, 0, 12, 11, 7, 13, 15, 1, 3, 14, 5, 2, 8, 4],
    #v[3, 15, 0, 6, 10, 1, 13, 8, 9, 4, 5, 11, 12, 7, 2, 14]],
  #v[#v[2, 12, 4, 1, 7, 10, 11, 6, 8, 5, 3, 15, 13, 0, 14, 9],
    #v[14, 11, 2, 12, 4, 7, 13, 1, 5, 0, 15, 10, 3, 9, 8, 6],
    #v[4, 2, 1, 11, 10, 13, 7, 8, 15, 9, 12, 5, 6, 3, 0, 14],
    #v[11, 8, 12, 7, 1, 14, 2, 13, 6, 15, 0, 9, 10, 4, 5, 3]],
  #v[#v[12, 1, 10, 15, 9, 2, 6, 8, 0, 13, 3, 4, 14, 7, 5, 11],
    #v[10, 15, 4, 2, 7, 12, 9, 5, 6, 1, 13, 14, 0, 11, 3, 8],
    #v[9, 14, 15, 5, 2, 8, 12, 3, 7, 0, 4, 10, 1, 13, 11, 6],
    #v[4, 3, 2, 12, 9, 5, 15, 10, 11, 14, 1, 7, 6, 0, 8, 13]],
  #v[#v[4, 11, 2, 14, 15, 0, 8, 13, 3, 12, 9, 7, 5, 10, 6, 1],
    #v[13, 0, 11, 7, 4, 9, 1, 10, 14, 3, 5, 12, 2, 15, 8, 6],
    #v[1, 4, 11, 13, 12, 3, 7, 14, 10, 15, 6, 8, 0, 5, 9, 2],
    #v[6, 11, 13, 8, 1, 4, 10, 7, 9, 5, 0, 15, 14, 2, 3, 12]],
  #v[#v[13, 2, 8, 4, 6, 15, 11, 1, 10, 9, 3, 14, 5, 0, 12, 7],
    #v[1, 15, 13, 8, 10, 3, 7, 4, 12, 5, 6, 11, 0, 14, 9, 2],
    #v[7, 11, 4, 1, 9, 12, 14, 2, 0, 6, 10, 13, 15, 3, 5, 8],
    #v[2, 1, 14, 7, 4, 10, 8, 13, 15, 12, 9, 0, 3, 5, 6, 11]]]

/-- `PC_1` -/
def pc1 : Vector (Fin 64) 56 := #v[
  56, 48, 40, 32, 24, 16, 8,
  0, 57, 49, 41, 33, 25, 17,
  9, 1, 58, 50, 42, 34, 26,
  18, 10, 2, 59, 51, 43, 35,
  62, 54, 46, 38, 30, 22, 14,
  6, 61, 53, 45, 37, 29, 21,
  13, 5, 60, 52, 44, 36, 28,
  20, 12, 4, 27, 19, 11, 3]

/-- `PC_2` -/
def pc2 : Vector (Fin 56) 48 := #v[
  13, 16, 10, 23, 0, 4, 2, 27,
  14, 5, 20, 9, 22, 18, 11, 3,
  25, 7, 15, 6, 26, 19, 12, 1,
  40, 51, 30, 36, 46, 54, 29, 39,
  50, 44, 32, 46, 43, 48, 38, 55,
  33, 52, 45, 41, 49, 35, 28, 31]

def moveTimes : Vector ℕ 16 := #v[1, 1, 2, 2, 2, 2, 2, 2, 1, 2, 2, 2, 2, 2, 2, 1]

/-! ## Bits and bytes -/

def byteToBit (ch : UInt8) : Bits 8 := Vector.ofFn fun cnt => ch.toNat.testBit cnt

def bitToByte (bit : Bits 8) : UInt8 :=
  (List.finRange 8).foldl (fun ch cnt => ch ||| bit[cnt].toUInt8 <<< cnt.val.toUInt8) 0

def char8ToBit64 (ch : Vector UInt8 8) : Bits 64 :=
  Vector.ofFn fun i => (byteToBit ch[i.val / 8])[i.val % 8]

def bit64ToChar8 (bit : Bits 64) : Vector UInt8 8 :=
  Vector.ofFn fun cnt => bitToByte (Vector.ofFn fun i => bit[8 * cnt.val + i.val])

/-- `temp[cnt] = data[table[cnt]]` -/
def transform {m n : ℕ} (table : Vector (Fin m) n) (data : Bits m) : Bits n := table.map fun i => data[i]

def desIpTransform : Bits 64 → Bits 64 := transform ipTable

def desIp1Transform : Bits 64 → Bits 64 := transform ip1Table

/-- Of the 48 bits of `data`, the first 32 are read. -/
def desETransform : Bits 32 → Bits 48 := transform eTable

def desPTransform : Bits 32 → Bits 32 := transform pTable

def desPc1Transform : Bits 64 → Bits 56 := transform pc1

def desPc2Transform : Bits 56 → Bits 48 := transform pc2

def desXor {n : ℕ} (r l : Bits n) : Bits n := Vector.zipWith Bool.xor r l

/-- Both halves are rotated. -/
def desRol (data : Bits 56) (time : ℕ) : Bits 56 :=
  Vector.ofFn fun i =>
    if i.val < 28 then data[(i.val + time) % 28] else data[28 + (i.val - 28 + time) % 28]

/-- One round of the loop: six bits are replaced by four bits, which are stored further ahead. -/
def sboxStep (data : Bits 48) (cnt : Fin 8) : Bits 48 :=
  let cur1 := cnt.val * 6
  let cur2 := cnt.val * 4
  let line := 2 * data[cur1].toNat + data[cur1 + 5].toNat
  let row := 8 * data[cur1 + 1].toNat + 4 * data[cur1 + 2].toNat + 2 * data[cur1 + 3].toNat + data[cur1 + 4].toNat
  have hline : line < 4 := by
    have h1 := data[cur1].toNat_lt
    have h2 := data[cur1 + 5].toNat_lt
    omega
  have hrow : row < 16 := by
    have h1 := data[cur1 + 1].toNat_lt
    have h2 := data[cur1 + 2].toNat_lt
    have h3 := data[cur1 + 3].toNat_lt
    have h4 := data[cur1 + 4].toNat_lt
    omega
  let output := sTable[cnt][line][row]
  (((data.set cur2 (output.testBit 3)).set (cur2 + 1) (output.testBit 2)).set (cur2 + 2) (output.testBit 1)).set
    (cur2 + 3) (output.testBit 0)

def desSbox (data : Bits 48) : Bits 48 := (List.finRange 8).foldl sboxStep data

def desMakeSubKeys (key : Bits 64) : Vector (Bits 48) 16 :=
  ((List.finRange 16).foldl (fun (s : Bits 56 × Vector (Bits 48) 16) (cnt : Fin 16) =>
    let temp := desRol s.1 moveTimes[cnt]
    (temp, s.2.set cnt (desPc2Transform temp)))
    (desPc1Transform key, Vector.replicate 16 (Vector.replicate 48 false))).2

/-! ## Blocks -/

/-- What is computed in `copyRight`, of which the last 16 bits are not used after the substitution -/
def roundFunction (subKey : Bits 48) (right : Bits 32) : Bits 32 :=
  let copyRight := desSbox (desXor (desETransform right) subKey)
  desPTransform (Vector.ofFn fun i => copyRight[i.val])

/-- The halves of an array `plainBits` or `cipherBits` -/
def halves (data : Bits 64) : Halves (Bits 32) :=
  ⟨Vector.ofFn fun i => data[i.val], Vector.ofFn fun i => data[32 + i.val]⟩

def joined (b : Halves (Bits 32)) : Bits 64 := b.left ++ b.right

def desEncryptBlock (plainBlock : Vector UInt8 8) (subKeys : Vector (Bits 48) 16) : Vector UInt8 8 :=
  let plainBits := halves (desIpTransform (char8ToBit64 plainBlock))
  bit64ToChar8 (desIp1Transform (joined ((List.finRange 16).foldl (fun b (cnt : Fin 16) =>
    if cnt ≠ 15 then swap (mix desXor roundFunction subKeys[cnt] b)
    else mix desXor roundFunction subKeys[cnt] b) plainBits)))

def desDecryptBlock (cipherBlock : Vector UInt8 8) (subKeys : Vector (Bits 48) 16) : Vector UInt8 8 :=
  let cipherBits := halves (desIpTransform (char8ToBit64 cipherBlock))
  bit64ToChar8 (desIp1Transform (joined ((List.finRange 16).reverse.foldl (fun b (cnt : Fin 16) =>
    if cnt ≠ 0 then swap (mix desXor roundFunction subKeys[cnt] b)
    else mix desXor roundFunction subKeys[cnt] b) cipherBits)))

/-! ## Strings -/

/-- The first bytes of a string, in a block that was zero before -/
def block (s : List UInt8) : Vector UInt8 8 := Vector.ofFn fun i => s.getD i 0

/-- `DES_MakeSubKeys` of the block made from `keyStr` -/
def subKeysOf (keyStr : CStr) : Vector (Bits 48) 16 :=
  desMakeSubKeys (char8ToBit64 ((block keyStr.val).set 7 65))

def encryptBlocks (subKeys : Vector (Bits 48) 16) (plain : List UInt8) : List UInt8 :=
  if 8 ≤ plain.length then
    (desEncryptBlock (block (plain.take 8)) subKeys).toList ++ encryptBlocks subKeys (plain.drop 8)
  else if 0 < plain.length then (desEncryptBlock (block plain) subKeys).toList
  else []
termination_by plain.length
decreasing_by
  rw [List.length_drop]
  omega

/-- The NUL is encrypted as well. -/
def desEncrypt (plainStr keyStr : CStr) : List UInt8 := encryptBlocks (subKeysOf keyStr) (putAsciz plainStr)

/-- Bytes are written at the end of what is already in a buffer of 128 bytes. -/
def put (out bytes : List UInt8) : Except Fault (List UInt8) :=
  if out.length + bytes.length ≤ 128 then .ok (out ++ bytes) else .error .overrun

/-- All of such a buffer -/
def buffer (out : List UInt8) : List UInt8 := out ++ List.replicate (128 - out.length) 0

/-- The loop with `left` bytes before its end, where `cipher` is what is at `cipherStr + decryptLen` -/
def decryptBlocks (subKeys : Vector (Bits 48) 16) (left : ℕ) (cipher plainStr : List UInt8) :
    Except Fault (List UInt8) :=
  if left = 0 then .ok plainStr
  else if cipher.length < 8 then .error .overrun
  else do
    let plainStr ← put plainStr (desDecryptBlock (block (cipher.take 8)) subKeys).toList
    decryptBlocks subKeys (left - 8) (cipher.drop 8) plainStr
termination_by left
decreasing_by omega

/-- What is written to `plainStr`; its length is returned. -/
def desDecrypt (cipherStr : List UInt8) (len : ℕ) (keyStr : CStr) : Except Fault (List UInt8) :=
  decryptBlocks (subKeysOf keyStr) len cipherStr []

/-! ## Text -/

/-- `ENC` -/
def enc (theCh : UInt8) : UInt8 :=
  let ch := (theCh &&& 0x3F) + 32
  if ch = 32 then 109
  else if ch = 91 then 100
  else if ch = 92 then 101
  else if ch = 93 then 102
  else if ch = 94 then 103
  else if ch = 39 then 104
  else ch

def uencode (in0 in1 in2 : UInt8) : List UInt8 :=
  [enc (in0 >>> 2 &&& (0x3F : UInt8)),
    enc (in0 <<< 4 &&& (0x30 : UInt8) ||| in1 >>> 4 &&& (0x0F : UInt8)),
    enc (in1 <<< 2 &&& (0x3C : UInt8) ||| in2 >>> 6 &&& (0x03 : UInt8)),
    enc (in2 &&& 0x3F)]

/-- The loop with `left` bytes before its end, where `tmp` is what is at `tmpIndex` -/
def encodeGroups (left : ℕ) : List UInt8 → List UInt8 → Except Fault (List UInt8)
  | a :: b :: c :: tmp, out =>
    if left = 0 then .ok out
    else do
      let out ← put out (uencode a b c)
      encodeGroups (left - 3) tmp out
  | _, out => if left = 0 then .ok out else .error .overrun

/-- The text written to `cipherStr`, whose length is returned -/
def desEncrypt2Char (plainStr keyStr : CStr) : Except Fault (List UInt8) :=
  if 80 < plainStr.val.length ∨ plainStr.val.length = 0 then .ok []
  else do
    let tmpOut ← put [] (desEncrypt plainStr keyStr)
    if ¬tmpOut.length < 90 then .error .assertion
    else do
      let out ← encodeGroups tmpOut.length (buffer tmpOut) []
      if out.length % 4 ≠ 0 then .error .assertion else .ok out

/-- `DECN` -/
def decn (ch : UInt8) : UInt8 :=
  let ch :=
    if ch = 109 then 32
    else if ch = 100 then 91
    else if ch = 101 then 92
    else if ch = 102 then 93
    else if ch = 103 then 94
    else if ch = 104 then 39
    else ch
  (ch - 32) &&& 0x3F

def udecode (in0 in1 in2 in3 : UInt8) : List UInt8 :=
  [decn in0 <<< 2 ||| decn in1 >>> 4, decn in1 <<< 4 ||| decn in2 >>> 2, decn in2 <<< 6 ||| decn in3]

def decodeGroups : List UInt8 → List UInt8 → Except Fault (List UInt8)
  | [], out => .ok out
  | a :: b :: c :: d :: text, out => do
    let out ← put out (udecode a b c d)
    decodeGroups text out
  | _, _ => .error .overrun

/-- `len` is the length of the text. What is written to `plainStr` is given, as by `DES_Decrypt`. -/
def desDecryptFromChar (cipherStr : List UInt8) (keyStr : CStr) : Except Fault (List UInt8) :=
  if cipherStr.length % 4 ≠ 0 then .error .assertion
  else do
    let tmpOut ← decodeGroups cipherStr []
    desDecrypt (buffer tmpOut) (tmpOut.length / 8 * 8) keyStr

/-- The string that is in a buffer -/
def cString (buf : List UInt8) : List UInt8 := buf.takeWhile (· ≠ 0)

def printable (ch : UInt8) : Prop := 32 < ch ∧ ch < 127

/-- `s` is encrypted to a printable text that fits the buffer with its NUL, and is restored from it. -/
def Restores (s keyStr : CStr) : Prop :=
  ∃ text plainStr, desEncrypt2Char s keyStr = .ok text ∧ (∀ ch ∈ text, printable ch) ∧ text.length < 128 ∧
    desDecryptFromChar text keyStr = .ok plainStr ∧ cString (buffer plainStr) = s.val

/-- No assertion fails and no buffer is overrun when `text` is decrypted. -/
def DecryptsSafely (text keyStr : CStr) : Prop := ∃ plainStr, desDecryptFromChar text.val keyStr = .ok plainStr

end PuttyNd.Storage
