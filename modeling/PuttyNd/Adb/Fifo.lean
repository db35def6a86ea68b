import PuttyNd.Lib.Ring

/-!
# The ring buffer (`fsm/KfifoBuffer.cpp`)

The indices are never reduced; they wrap around as `unsigned` numbers do. The water marks are only read
by functions that the backend does not call.
-/

namespace PuttyNd.Adb

open Lib

/-- `KfifoBuffer` -/
structure KfifoBuffer where
  rawM : List UInt8
  sizeM : UInt32
  maskM : UInt32
  readIndexM : UInt32
  writeIndexM : UInt32
deriving DecidableEq

namespace KfifoBuffer

/-- The constructor: a size from 1k to 64M. -/
def new (theSizePower : ℤ) : KfifoBuffer :=
  let sizePower := if theSizePower < 10 then 10 else if theSizePower > 26 then 26 else theSizePower
  { rawM := List.replicate (2 ^ sizePower.toNat) 0
    sizeM := UInt32.ofNat (2 ^ sizePower.toNat)
    maskM := UInt32.ofNat (2 ^ sizePower.toNat) - 1
    readIndexM := 0
    writeIndexM := 0 }

/-- `size` -/
def size (b : KfifoBuffer) : UInt32 := b.writeIndexM - b.readIndexM

/-- `unusedSize` -/
def unusedSize (b : KfifoBuffer) : UInt32 := b.sizeM - (b.writeIndexM - b.readIndexM)

/-- `put`: as much of the data is put as there is room for. -/
def put (b : KfifoBuffer) (theBuffer : List UInt8) : KfifoBuffer × UInt32 :=
  let theLen := UInt32.ofNat theBuffer.length
  let leftSize := b.sizeM - b.writeIndexM + b.readIndexM
  let putLen := if theLen < leftSize then theLen else leftSize
  let leftEnd := b.sizeM - (b.writeIndexM &&& b.maskM)
  let firstPartLen := if putLen < leftEnd then putLen else leftEnd
  let raw := memcpy b.rawM (b.writeIndexM &&& b.maskM).toNat (theBuffer.take firstPartLen.toNat)
  let raw := memcpy raw 0 ((theBuffer.drop firstPartLen.toNat).take (putLen - firstPartLen).toNat)
  ({ b with rawM := raw, writeIndexM := b.writeIndexM + putLen }, putLen)

/-- `putn`: all of the data is put, or nothing. -/
def putn (b : KfifoBuffer) (theBuffer : List UInt8) : KfifoBuffer × UInt32 :=
  let theLen := UInt32.ofNat theBuffer.length
  let leftSize := b.sizeM - b.writeIndexM + b.readIndexM
  if theLen > leftSize then (b, 0)
  else
    let putLen := theLen
    let leftEnd := b.sizeM - (b.writeIndexM &&& b.maskM)
    let firstPartLen := if putLen < leftEnd then putLen else leftEnd
    let raw := memcpy b.rawM (b.writeIndexM &&& b.maskM).toNat (theBuffer.take firstPartLen.toNat)
    let raw := memcpy raw 0 ((theBuffer.drop firstPartLen.toNat).take (putLen - firstPartLen).toNat)
    ({ b with rawM := raw, writeIndexM := b.writeIndexM + putLen }, putLen)

/-- `peek`, for a buffer of `theLen` bytes. -/
def peek (b : KfifoBuffer) (theLen : UInt32) : List UInt8 :=
  let usedSize := b.writeIndexM - b.readIndexM
  let getLen := if theLen < usedSize then theLen else usedSize
  let readIndexToEnd := b.sizeM - (b.readIndexM &&& b.maskM)
  let firstPartLen := if getLen < readIndexToEnd then getLen else readIndexToEnd
  (b.rawM.drop (b.readIndexM &&& b.maskM).toNat).take firstPartLen.toNat ++
    b.rawM.take (getLen - firstPartLen).toNat

/-- What `get` and `peek` return -/
def getLen (b : KfifoBuffer) (theLen : UInt32) : UInt32 :=
  let usedSize := b.writeIndexM - b.readIndexM
  if theLen < usedSize then theLen else usedSize

/-- `peekn`: all that is asked for, or nothing. -/
def peekn (b : KfifoBuffer) (theLen : UInt32) : UInt32 × List UInt8 :=
  let usedSize := b.writeIndexM - b.readIndexM
  if theLen > usedSize then (0, [])
  else
    let getLen := theLen
    let readIndexToEnd := b.sizeM - (b.readIndexM &&& b.maskM)
    let firstPartLen := if getLen < readIndexToEnd then getLen else readIndexToEnd
    (getLen, (b.rawM.drop (b.readIndexM &&& b.maskM).toNat).take firstPartLen.toNat ++
      b.rawM.take (getLen - firstPartLen).toNat)

/-- `commitRead` -/
def commitRead (b : KfifoBuffer) (theLen : UInt32) : KfifoBuffer :=
  { b with readIndexM := b.readIndexM + theLen }

/-- `get`, for a buffer of `theLen` bytes. -/
def get (b : KfifoBuffer) (theLen : UInt32) : KfifoBuffer × List UInt8 :=
  let usedSize := b.writeIndexM - b.readIndexM
  let getLen := if theLen < usedSize then theLen else usedSize
  ({ b with readIndexM := b.readIndexM + getLen }, b.peek theLen)

/-- `get`, where `theBuffer` is `false` for a pointer that is `NULL`. -/
def getInto (b : KfifoBuffer) (theBuffer : Bool) (theLen : UInt32) : KfifoBuffer × UInt32 × List UInt8 :=
  let usedSize := b.writeIndexM - b.readIndexM
  let getLen := if theLen < usedSize then theLen else usedSize
  let readIndexToEnd := b.sizeM - (b.readIndexM &&& b.maskM)
  let firstPartLen := if getLen < readIndexToEnd then getLen else readIndexToEnd
  let copied := if theBuffer then
      (b.rawM.drop (b.readIndexM &&& b.maskM).toNat).take firstPartLen.toNat ++
        b.rawM.take (getLen - firstPartLen).toNat
    else []
  ({ b with readIndexM := b.readIndexM + getLen }, getLen, copied)

/-- `getn`: all that is asked for, or nothing. -/
def getn (b : KfifoBuffer) (theBuffer : Bool) (theLen : UInt32) : KfifoBuffer × UInt32 × List UInt8 :=
  let usedSize := b.writeIndexM - b.readIndexM
  if theLen > usedSize then (b, 0, [])
  else
    let getLen := theLen
    let readIndexToEnd := b.sizeM - (b.readIndexM &&& b.maskM)
    let firstPartLen := if getLen < readIndexToEnd then getLen else readIndexToEnd
    let copied := if theBuffer then
        (b.rawM.drop (b.readIndexM &&& b.maskM).toNat).take firstPartLen.toNat ++
          b.rawM.take (getLen - firstPartLen).toNat
      else []
    ({ b with readIndexM := b.readIndexM + getLen }, getLen, copied)

end KfifoBuffer

end PuttyNd.Adb

/-!
## The ring buffer as a bounded queue

The queue keeps all bytes that were ever put, and how many of them were read. What is read next is next in
the order in which it was put.
-/

namespace PuttyNd.Adb

/-- A call of a function of the ring buffer; `theBuffer` is `false` for a pointer that is `NULL`. -/
inductive Op where
  | put (theBuffer : List UInt8)
  | putn (theBuffer : List UInt8)
  | get (theBuffer : Bool) (theLen : UInt32)
  | getn (theBuffer : Bool) (theLen : UInt32)
  | peek (theLen : UInt32)
  | peekn (theLen : UInt32)
  | commitRead (theLen : UInt32)
deriving DecidableEq, Repr

namespace KfifoBuffer

/-- The number that is returned, and the bytes that are copied to the buffer of the caller. -/
def call (b : KfifoBuffer) : Op → KfifoBuffer × UInt32 × List UInt8
  | .put theBuffer => ((b.put theBuffer).1, (b.put theBuffer).2, [])
  | .putn theBuffer => ((b.putn theBuffer).1, (b.putn theBuffer).2, [])
  | .get theBuffer theLen => b.getInto theBuffer theLen
  | .getn theBuffer theLen => b.getn theBuffer theLen
  | .peek theLen => (b, b.getLen theLen, b.peek theLen)
  | .peekn theLen => (b, b.peekn theLen)
  | .commitRead theLen => (b.commitRead theLen, theLen, [])

/-- What the calls return, one after the other -/
def calls (b : KfifoBuffer) : List Op → KfifoBuffer × List (ℕ × List UInt8)
  | [] => (b, [])
  | op :: ops =>
    let rest := (b.call op).1.calls ops
    (rest.1, ((b.call op).2.1.toNat, (b.call op).2.2) :: rest.2)

/-- A length fits in an `unsigned`, and no more is committed than there is. -/
def Permits (b : KfifoBuffer) : Op → Prop
  | .put theBuffer => theBuffer.length < 2 ^ 32
  | .putn theBuffer => theBuffer.length < 2 ^ 32
  | .commitRead theLen => theLen ≤ b.size
  | _ => True

def PermitsAll (b : KfifoBuffer) : List Op → Prop
  | [] => True
  | op :: ops => b.Permits op ∧ (b.call op).1.PermitsAll ops

end KfifoBuffer

/-- All bytes that were put, and the number of those that were read -/
structure Fifo where
  written : List UInt8
  read : ℕ

namespace Fifo

def empty : Fifo := ⟨[], 0⟩

def contents (q : Fifo) : List UInt8 := q.written.drop q.read

variable (capacity : ℕ)

def write (q : Fifo) (bytes : List UInt8) : Fifo := { q with written := q.written ++ bytes }

def skip (q : Fifo) (n : ℕ) : Fifo := { q with read := q.read + n }

/-- What a call means for the queue -/
def call (q : Fifo) : Op → Fifo × ℕ × List UInt8
  | .put theBuffer =>
    let fits := theBuffer.take (capacity - q.contents.length)
    (q.write fits, fits.length, [])
  | .putn theBuffer =>
    if q.contents.length + theBuffer.length ≤ capacity then (q.write theBuffer, theBuffer.length, []) else (q, 0, [])
  | .get theBuffer theLen =>
    let taken := q.contents.take theLen.toNat
    (q.skip taken.length, taken.length, if theBuffer then taken else [])
  | .getn theBuffer theLen =>
    if theLen.toNat ≤ q.contents.length then
      (q.skip theLen.toNat, theLen.toNat, if theBuffer then q.contents.take theLen.toNat else [])
    else (q, 0, [])
  | .peek theLen =>
    let taken := q.contents.take theLen.toNat
    (q, taken.length, taken)
  | .peekn theLen =>
    if theLen.toNat ≤ q.contents.length then (q, theLen.toNat, q.contents.take theLen.toNat) else (q, 0, [])
  | .commitRead theLen => (q.skip theLen.toNat, theLen.toNat, [])

def calls (q : Fifo) : List Op → Fifo × List (ℕ × List UInt8)
  | [] => (q, [])
  | op :: ops =>
    let rest := (q.call capacity op).1.calls ops
    (rest.1, (q.call capacity op).2 :: rest.2)

end Fifo

end PuttyNd.Adb
