import PuttyNd.Terminal.Termline

/-!
# The compressed form of a line (`compressline`, `decompressline` in `terminal.c`)

A line is stored in the scrollback as a byte string: the column count and the line attributes, seven
bits at a time, and then three run-length encoded fragments (characters, attributes, combining
characters) with one literal for each column.

A `struct buf` that is written to is the list of its first `len` bytes; one that is read from is the
data with the read position.
-/

namespace PuttyNd.Terminal

/-- A `struct buf` under construction. -/
abbrev Buf := List UInt8

/-! ## Literals -/

/-- `makeliteral_chr`. -/
def makeliteralChr (b : Buf) (chr state : UInt32) : Buf × UInt32 :=
  let b :=
    if chr &&& ~~~0x7F = state then
      b ++ [(chr &&& 0x7F).toUInt8]
    else if chr < 0x4000 then
      b ++ [((chr >>> 8 &&& 0x3F) ||| 0x80).toUInt8, (chr &&& 0xFF).toUInt8]
    else if chr < 0x200000 then
      b ++ [((chr >>> 16 &&& 0x1F) ||| 0xC0).toUInt8, (chr >>> 8 &&& 0xFF).toUInt8,
        (chr &&& 0xFF).toUInt8]
    else if chr < 0x10000000 then
      b ++ [((chr >>> 24 &&& 0x0F) ||| 0xE0).toUInt8, (chr >>> 16 &&& 0xFF).toUInt8,
        (chr >>> 8 &&& 0xFF).toUInt8, (chr &&& 0xFF).toUInt8]
    else
      b ++ [(0xF0 : UInt8), (chr >>> 24 &&& 0xFF).toUInt8, (chr >>> 16 &&& 0xFF).toUInt8,
        (chr >>> 8 &&& 0xFF).toUInt8, (chr &&& 0xFF).toUInt8]
  (b, chr &&& ~~~0xFF)

/-- The permutation of the attribute bits that `makeliteral_attr` makes: the high half of the two
eight-bit colours moves to the top (`ATTR_FGSHIFT` is 0, `ATTR_BGSHIFT` is 9). -/
def packAttr (attr : UInt32) : UInt32 :=
  let colourbits := attr >>> 13 &&& 0xF
  let colourbits := colourbits <<< 4
  let colourbits := colourbits ||| (attr >>> 4 &&& 0xF)
  let attr := (attr >>> 17 <<< 13) ||| (attr &&& 0x1FFF)
  let attr := (attr >>> 8 <<< 4) ||| (attr &&& 0xF)
  attr ||| (colourbits <<< 23)

/-- `makeliteral_attr`. -/
def makeliteralAttr (b : Buf) (attr state : UInt32) : Buf × UInt32 :=
  let attr := packAttr attr
  if attr < 0x8000 then
    (b ++ [(attr >>> 8 &&& 0xFF).toUInt8, (attr &&& 0xFF).toUInt8], state)
  else
    (b ++ [((attr >>> 24 &&& 0x7F) ||| 0x80).toUInt8, (attr >>> 16 &&& 0xFF).toUInt8,
      (attr >>> 8 &&& 0xFF).toUInt8, (attr &&& 0xFF).toUInt8], state)

/-- The loop of `makeliteral_cc`, with at most `fuel` combining characters. -/
def makeliteralCcLoop (line : Termline) : Nat → Buf → Nat → Except Fault Buf
  | 0, _, _ => .error .endless
  | fuel + 1, b, c =>
    let nx := (line.cell c).ccNext
    if nx = 0 then .ok b
    else do
      let c : Int := c + nx
      check (0 ≤ c ∧ c < line.size) .column
      let chr := (line.cell c.toNat).chr
      check (chr ≠ 0) .assertion
      makeliteralCcLoop line fuel (makeliteralChr b chr 0).1 c.toNat

/-- A `makeliteral` function: it appends the literal of a column to the buffer and updates its
state. -/
abbrev Makeliteral := Termline → Buf → Nat → UInt32 → Except Fault (Buf × UInt32)

/-- `makeliteral_chr` as the argument of `makerle`. -/
def makeChr : Makeliteral := fun line b c state => .ok (makeliteralChr b (line.cell c).chr state)

/-- `makeliteral_attr` as the argument of `makerle`. -/
def makeAttr : Makeliteral := fun line b c state => .ok (makeliteralAttr b (line.cell c).attr state)

/-- `makeliteral_cc`. -/
def makeCc : Makeliteral := fun line b c state => do
  let b ← makeliteralCcLoop line (line.size + 1) b c
  pure ((makeliteralChr b 0 0).1, state)

/-! ## Run-length encoding -/

/-- The local variables of `makerle`. -/
structure Makerle where
  b : Buf
  hdrpos : Nat
  hdrsize : Nat
  prevlen : Nat
  prevpos : Nat
  prev2 : Bool
  state : UInt32

/-- `!memcmp(b->data + p, b->data + q, len)`. -/
def sameBytes (b : Buf) (p q len : Nat) : Bool :=
  (b.drop p).take len == (b.drop q).take len

/-- The inner loop of `makerle`, which extends a run by the columns that have the literal stored at
`runpos + 1`. It returns the columns that are left, the state and the length of the run. -/
def extendRun (make : Makeliteral) (line : Termline) (b : Buf) (runpos thislen : Nat) :
    List Nat → UInt32 → Nat → Except Fault (List Nat × UInt32 × Nat)
  | [], state, runlen => .ok ([], state, runlen)
  | c :: cs, state, runlen =>
    if runlen < 129 then do
      let tmppos := b.length
      let (b', state') ← make line b c state
      let tmplen := b'.length - tmppos
      if tmplen ≠ thislen ∨ ¬ sameBytes b' (runpos + 1) tmppos tmplen then
        pure (c :: cs, state, runlen)
      else
        extendRun make line b runpos thislen cs state' (runlen + 1)
    else .ok (c :: cs, state, runlen)

/-- The start of a run in `makerle`, after the literal of the current column has been added: the
literals of the run are taken back, up to the first, which moves behind the header of the run. The
result is the buffer and `runpos`. -/
def startRun (s : Makerle) (b : Buf) : Except Fault (Buf × Nat) := do
  check (s.prev2 → s.hdrsize - 1 > 0) .assertion
  let hdrsize := if s.prev2 then s.hdrsize - 1 - 1 else s.hdrsize - 1
  let prevpos := if s.prev2 then s.prevpos - s.prevlen else s.prevpos
  if hdrsize = 0 then
    check (prevpos = s.hdrpos + 1) .assertion
    pure (b.take (prevpos + s.prevlen), s.hdrpos)
  else
    let lit := (b.drop prevpos).take s.prevlen
    let b := b.take prevpos ++ b[prevpos]?.toList ++ lit
    -- End the sequence of literals before the run.
    check (1 ≤ hdrsize ∧ hdrsize ≤ 128) .assertion
    pure (b.set s.hdrpos (hdrsize - 1).toUInt8, prevpos)

/-- The body of the loop of `makerle` for the column `c`; `cs` are the columns after it, and the
result has those that are left. -/
def makerleStep (make : Makeliteral) (line : Termline) (c : Nat) (cs : List Nat) (s : Makerle) :
    Except Fault (List Nat × Makerle) := do
  let thispos := s.b.length
  let (b, state) ← make line s.b c s.state
  let thislen := b.length - thispos
  let same := decide (thislen = s.prevlen) && sameBytes b s.prevpos thispos thislen
  if same ∧ (thislen > 1 ∨ s.prev2) then
    let (b, runpos) ← startRun s b
    let (cs, state, runlen) ←
      extendRun make line b runpos thislen cs state (if s.prev2 then 3 else 2)
    check (2 ≤ runlen ∧ runlen ≤ 129) .assertion
    let b := b.set runpos (runlen + 0x80 - 2).toUInt8
    pure (cs, { b := b ++ [0], hdrpos := b.length, hdrsize := 0, prevlen := 0, prevpos := 0,
                prev2 := false, state := state })
  else
    let hdrsize := s.hdrsize + 1
    if hdrsize = 128 then
      let b := b.set s.hdrpos (hdrsize - 1).toUInt8
      pure (cs, { b := b ++ [0], hdrpos := b.length, hdrsize := 0, prevlen := 0, prevpos := 0,
                  prev2 := false, state := state })
    else
      pure (cs, { b := b, hdrpos := s.hdrpos, hdrsize := hdrsize, prevlen := thislen,
                  prevpos := thispos, prev2 := same, state := state })

/-- The loop of `makerle` over the columns `cs`; each iteration consumes at least one column, so
`fuel := cs.length` iterations are enough. -/
def makerleLoop (make : Makeliteral) (line : Termline) :
    Nat → List Nat → Makerle → Except Fault Makerle
  | _, [], s => .ok s
  | 0, _ :: _, _ => .error .endless
  | fuel + 1, c :: cs, s => do
    let (cs, s) ← makerleStep make line c cs s
    makerleLoop make line fuel cs s

/-- `makerle`. -/
def makerle (make : Makeliteral) (line : Termline) (b : Buf) : Except Fault Buf := do
  let s ← makerleLoop make line line.cols (List.range line.cols)
    { b := b ++ [0], hdrpos := b.length, hdrsize := 0, prevlen := 0, prevpos := 0,
      prev2 := false, state := 0 }
  if s.hdrsize > 0 then
    check (s.hdrsize ≤ 128) .assertion
    pure (s.b.set s.hdrpos (s.hdrsize - 1).toUInt8)
  else
    pure (s.b.take s.hdrpos)

/-- The loop that stores a number seven bits at a time, least significant digit first. -/
def addSeptets (b : Buf) (n : Nat) : Buf :=
  if n ≥ 128 then addSeptets (b ++ [((n &&& 0x7F) ||| 0x80).toUInt8]) (n >>> 7)
  else b ++ [n.toUInt8]
termination_by n
decreasing_by
  rw [Nat.shiftRight_eq_div_pow]
  omega

/-- `compressline`. -/
def compressline (ldata : Termline) : Except Fault Buf := do
  let b := addSeptets [] ldata.cols
  let b := addSeptets b ldata.lattr.toNat
  let b ← makerle makeChr ldata b
  let b ← makerle makeAttr ldata b
  makerle makeCc ldata b

/-! ## Reading -/

/-- A `struct buf` that is read: the data and the read position. -/
structure RBuf where
  data : List UInt8
  len : Nat
deriving DecidableEq, Repr

/-- `get`. -/
def get (b : RBuf) : Except Fault (UInt8 × RBuf) :=
  match b.data[b.len]? with
  | some c => .ok (c, { b with len := b.len + 1 })
  | none => .error .overrun

/-- `readliteral_chr`: the character, the buffer and the new state. -/
def readliteralChr (b : RBuf) (state : UInt32) : Except Fault (UInt32 × RBuf × UInt32) := do
  let (byte, b) ← get b
  let (chr, b) ←
    if byte < 0x80 then
      pure (byte.toUInt32 ||| state, b)
    else if byte < 0xC0 then do
      let (x, b) ← get b
      pure ((byte.toUInt32 &&& ~~~0xC0) <<< 8 ||| x.toUInt32, b)
    else if byte < 0xE0 then do
      let (x, b) ← get b
      let (y, b) ← get b
      pure ((byte.toUInt32 &&& ~~~0xE0) <<< 16 ||| x.toUInt32 <<< 8 ||| y.toUInt32, b)
    else if byte < 0xF0 then do
      let (x, b) ← get b
      let (y, b) ← get b
      let (z, b) ← get b
      pure ((byte.toUInt32 &&& ~~~0xF0) <<< 24 ||| x.toUInt32 <<< 16 ||| y.toUInt32 <<< 8 |||
        z.toUInt32, b)
    else do
      check (byte = 0xF0) .assertion
      let (w, b) ← get b
      let (x, b) ← get b
      let (y, b) ← get b
      let (z, b) ← get b
      pure (w.toUInt32 <<< 24 ||| x.toUInt32 <<< 16 ||| y.toUInt32 <<< 8 ||| z.toUInt32, b)
  pure (chr, b, chr &&& ~~~0xFF)

/-- The inverse permutation of the attribute bits in `readliteral_attr`. -/
def unpackAttr (val : UInt32) : UInt32 :=
  let colourbits := val >>> 23 &&& 0xFF
  let attr := val &&& 0x7FFFFF
  let attr := (attr >>> 4 <<< 8) ||| (attr &&& 0xF)
  let attr := (attr >>> 13 <<< 17) ||| (attr &&& 0x1FFF)
  let attr := attr ||| (colourbits >>> 4 <<< 13)
  attr ||| ((colourbits &&& 0xF) <<< 4)

/-- `readliteral_attr`. -/
def readliteralAttr (b : RBuf) : Except Fault (UInt32 × RBuf) := do
  let (w, b) ← get b
  let (x, b) ← get b
  let val := w.toUInt32 <<< 8 ||| x.toUInt32
  if val ≥ 0x8000 then
    let val := (val &&& ~~~0x8000) <<< 16
    let (y, b) ← get b
    let (z, b) ← get b
    pure (unpackAttr (val ||| y.toUInt32 <<< 8 ||| z.toUInt32), b)
  else
    pure (unpackAttr val, b)

/-- The loop of `readliteral_cc`, for the column `x`, with at most `fuel` iterations. -/
def readliteralCcLoop (x : Nat) : Nat → RBuf → Termline → Except Fault (RBuf × Termline)
  | 0, _, _ => .error .endless
  | fuel + 1, b, ldata => do
    let (chr, b, _) ← readliteralChr b 0
    if chr = 0 then pure (b, ldata)
    else
      let ldata ← addCc ldata x chr
      readliteralCcLoop x fuel b ldata

/-- A `readliteral` function: it reads the literal of a column into the line. -/
abbrev Readliteral := RBuf → Termline → Nat → UInt32 → Except Fault (RBuf × Termline × UInt32)

/-- `readliteral_chr` as the argument of `readrle`. -/
def readChr : Readliteral := fun b ldata c state => do
  let (chr, b, state) ← readliteralChr b state
  pure (b, { ldata with chars := ldata.chars.modify c fun t => { t with chr := chr } }, state)

/-- `readliteral_attr` as the argument of `readrle`. -/
def readAttr : Readliteral := fun b ldata c state => do
  let (attr, b) ← readliteralAttr b
  pure (b, { ldata with chars := ldata.chars.modify c fun t => { t with attr := attr } }, state)

/-- `readliteral_cc`. Each iteration of its loop reads at least one byte. -/
def readCc : Readliteral := fun b ldata c state => do
  let ldata := { ldata with chars := ldata.chars.modify c fun t => { t with ccNext := 0 } }
  let (b, ldata) ← readliteralCcLoop c (b.data.length + 1) b ldata
  pure (b, ldata, state)

/-- `while (count--)` for a sequence of literals. -/
def readLits (read : Readliteral) :
    Nat → RBuf → Termline → Nat → UInt32 → Except Fault (RBuf × Termline × Nat × UInt32)
  | 0, b, ldata, n, state => .ok (b, ldata, n, state)
  | count + 1, b, ldata, n, state => do
    check (n < ldata.cols) .assertion
    let (b, ldata, state) ← read b ldata n state
    readLits read count b ldata (n + 1) state

/-- `while (count--)` for a run whose literal is at `pos`. -/
def readRun (read : Readliteral) (pos : Nat) :
    Nat → RBuf → Termline → Nat → UInt32 → Except Fault (RBuf × Termline × Nat × UInt32)
  | 0, b, ldata, n, state => .ok (b, ldata, n, state)
  | count + 1, b, ldata, n, state => do
    check (n < ldata.cols) .assertion
    let (b, ldata, state) ← read { b with len := pos } ldata n state
    readRun read pos count b ldata (n + 1) state

/-- The loop of `readrle`; each iteration reads at least one byte. -/
def readrleLoop (read : Readliteral) :
    Nat → RBuf → Termline → Nat → UInt32 → Except Fault (RBuf × Termline)
  | 0, _, _, _, _ => .error .endless
  | fuel + 1, b, ldata, n, state =>
    if n < ldata.cols then do
      let (hdr, b) ← get b
      let (b, ldata, n, state) ←
        if hdr ≥ 0x80 then readRun read b.len (hdr.toNat + 2 - 0x80) b ldata n state
        else readLits read (hdr.toNat + 1) b ldata n state
      readrleLoop read fuel b ldata n state
    else do
      check (n = ldata.cols) .assertion
      pure (b, ldata)

/-- `readrle`. -/
def readrle (read : Readliteral) (b : RBuf) (ldata : Termline) : Except Fault (RBuf × Termline) :=
  readrleLoop read (b.data.length + 1) b ldata 0 0

/-- The loop that reads a number written by `addSeptets`; `n` and `shift` are its variables. -/
def getSeptets : Nat → RBuf → Nat → Nat → Except Fault (Nat × RBuf)
  | 0, _, _, _ => .error .endless
  | fuel + 1, b, n, shift => do
    let (byte, b) ← get b
    let n := n ||| (byte.toNat &&& 0x7F) <<< shift
    if byte &&& 0x80 ≠ 0 then getSeptets fuel b n (shift + 7)
    else pure (n, b)

/-- `decompressline`: the line and `*bytes_used`. `NULL` gives a line without columns, whose
line attributes are not set. -/
def decompressline (data : Option Buf) : Except Fault (Termline × Nat) :=
  match data with
  | none => .ok ({ lattr := 0, cols := 0, temporary := true, ccFree := 0, chars := [] }, 0)
  | some data => do
    let b : RBuf := { data := data, len := 0 }
    let (ncols, b) ← getSeptets (data.length + 1) b 0 0
    let ldata : Termline :=
      { lattr := 0, cols := ncols, temporary := true, ccFree := 0,
        chars := List.replicate ncols { chr := 0, attr := 0, ccNext := 0 } }
    let (lattr, b) ← getSeptets (data.length + 1) b 0 0
    let ldata := { ldata with lattr := lattr.toUInt16 }
    let (b, ldata) ← readrle readChr b ldata
    let (b, ldata) ← readrle readAttr b ldata
    let (b, ldata) ← readrle readCc b ldata
    pure (ldata, b.len)

end PuttyNd.Terminal
