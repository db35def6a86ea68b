import PuttyNd.Lib.Codec
import Mathlib.Data.List.TakeWhile
import Mathlib.Data.UInt

/-!
# Marshalling (`psftp/marshal.c`)

A `BinarySink` is the list of the bytes that are written to it. A `BinarySource` is what is left of its
data, and whether `err` is set.
-/

namespace PuttyNd.Psftp

/-- A C string, without the terminating NUL. -/
abbrev CStr := { s : List UInt8 // 0 ∉ s }

abbrev BinarySource := Lib.Source UInt8

/-- `""` -/
def emptyStr : CStr := ⟨[], by simp⟩

/-- `PUT_32BIT_MSB_FIRST` -/
def putUint32 (val : UInt32) : List UInt8 :=
  [(val >>> 24).toUInt8, (val >>> 16).toUInt8, (val >>> 8).toUInt8, val.toUInt8]

def putBool (val : Bool) : List UInt8 := [if val then 1 else 0]

def putAsciz (str : CStr) : List UInt8 := str.val ++ [0]

/-- `BinarySource_data_avail`, and what is left after that many bytes. -/
def avail (src : BinarySource) (wanted : ℕ) : Bool × BinarySource :=
  if src.err then (false, src)
  else if wanted ≤ src.data.length then (true, ⟨src.data.drop wanted, false⟩)
  else (false, { src with err := true })

/-- `BinarySource_get_data` -/
def getData (src : BinarySource) (wanted : ℕ) : List UInt8 × BinarySource :=
  match avail src wanted with
  | (true, rest) => (src.data.take wanted, rest)
  | (false, rest) => ([], rest)

def getByte (src : BinarySource) : UInt8 × BinarySource :=
  match avail src 1 with
  | (true, rest) => (src.data.headD 0, rest)
  | (false, rest) => (0, rest)

def getBool (src : BinarySource) : Bool × BinarySource :=
  match avail src 1 with
  | (true, rest) => (src.data.headD 0 ≠ 0, rest)
  | (false, rest) => (false, rest)

/-- `GET_32BIT_MSB_FIRST` -/
def get32bitMsbFirst (p : List UInt8) : UInt32 :=
  (p.getD 3 0).toUInt32 ||| (p.getD 2 0).toUInt32 <<< 8 ||| (p.getD 1 0).toUInt32 <<< 16 |||
    (p.getD 0 0).toUInt32 <<< 24

/-- `GET_16BIT_MSB_FIRST` -/
def get16bit (p : List UInt8) : UInt16 :=
  (p.getD 1 0).toUInt16 ||| (p.getD 0 0).toUInt16 <<< 8

def getUint16 (src : BinarySource) : UInt16 × BinarySource :=
  match avail src 2 with
  | (true, rest) => (get16bit src.data, rest)
  | (false, rest) => (0, rest)

def getUint32 (src : BinarySource) : UInt32 × BinarySource :=
  match avail src 4 with
  | (true, rest) => (get32bitMsbFirst src.data, rest)
  | (false, rest) => (0, rest)

/-- `BinarySource_get_string` -/
def getString (src : BinarySource) : List UInt8 × BinarySource :=
  match avail src 4 with
  | (true, rest) =>
    let len := (get32bitMsbFirst src.data).toNat
    match avail rest len with
    | (true, rest') => (rest.data.take len, rest')
    | (false, rest') => ([], rest')
  | (false, rest) => ([], rest)

/-- `BinarySource_get_pstring` -/
def getPstring (src : BinarySource) : List UInt8 × BinarySource :=
  match avail src 1 with
  | (true, rest) => getData rest (src.data.headD 0).toNat
  | (false, rest) => ([], rest)

/-- The bytes before the first NUL. -/
def upToNul (s : List UInt8) : CStr :=
  ⟨s.takeWhile (· ≠ 0), fun h => by simpa using List.mem_takeWhile_imp h⟩

def getAsciz (src : BinarySource) : CStr × BinarySource :=
  if src.err then (emptyStr, src)
  else if 0 ∈ src.data then (upToNul src.data, ⟨(src.data.dropWhile (· ≠ 0)).tail, false⟩)
  else (emptyStr, { src with err := true })

end PuttyNd.Psftp
