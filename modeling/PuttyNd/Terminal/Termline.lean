import Mathlib.Data.List.Basic

/-!
# Character cells and lines of the terminal (`terminal.h`, `terminal.c`)

A `termline` is an array of `termchar`s. The first `cols` entries are the columns of the line; the
entries above them hold combining characters. Every entry links to the next combining character of
its cell by a relative offset `cc_next` (0 ends the list), and the unused entries form a free list
that starts at `cc_free` (0 if there is none).

`unsigned long` is 32 bits wide on the Windows targets of the code. The allocated size
(`line->size`) is the length of the array.
-/

namespace PuttyNd.Terminal

/-- The ways in which the C code leaves its defined behaviour. -/
inductive Fault where
  /-- An `assert` on a column number fails, or a cell outside the columns of a line is accessed. -/
  | column
  /-- Another `assert` fails. -/
  | assertion
  /-- The compressed form of a line is read past its end. -/
  | overrun
  /-- A line that does not exist is used (`index234` or `delpos234` returned `NULL`). -/
  | noLine
  /-- A combining character list that does not end is followed. -/
  | endless
deriving DecidableEq, Repr

/-- `assert(p)`. -/
def check (p : Prop) [Decidable p] (f : Fault) : Except Fault Unit :=
  if p then .ok () else .error f

/-- `struct termchar`. -/
structure Termchar where
  chr : UInt32
  attr : UInt32
  ccNext : Int
deriving DecidableEq, Repr, Inhabited

/-- `struct termline`. -/
structure Termline where
  lattr : UInt16
  cols : Nat
  temporary : Bool
  ccFree : Nat
  chars : List Termchar
deriving DecidableEq, Repr, Inhabited

namespace Termline

/-- `line->size`, the number of allocated cells. -/
def size (line : Termline) : Nat := line.chars.length

/-- `line->chars[j]`. -/
def cell (line : Termline) (j : Nat) : Termchar := line.chars.getD j default

end Termline

/-- `newline`; `c` is the erase character it fills the line with. -/
def newline (c : Termchar) (cols : Nat) : Termline :=
  { lattr := 0, cols := cols, temporary := false, ccFree := 0, chars := List.replicate cols c }

/-- `while (chars[col].cc_next) col += chars[col].cc_next;` with at most `fuel` iterations. -/
def lastCc (chars : List Termchar) : Nat → Nat → Nat
  | 0, col => col
  | fuel + 1, col =>
    let nx := (chars.getD col default).ccNext
    if nx = 0 then col else lastCc chars fuel (col + nx).toNat

/-- The cells by which `add_cc` extends an empty free list: each is linked to the next one. -/
def ccBlock (k : Nat) : List Termchar :=
  (List.range k).map fun i => { (default : Termchar) with ccNext := if i + 1 < k then 1 else 0 }

/-- The first part of `add_cc`: extend the array if the free list is empty. -/
def extendCc (line : Termline) : Termline :=
  if line.ccFree = 0 then
    { line with
      ccFree := line.size
      chars := line.chars ++ ccBlock (16 + (line.size - line.cols) / 2) }
  else line

/-- `add_cc` after its `assert`. -/
def addCcAt (line : Termline) (col : Nat) (chr : UInt32) : Termline :=
  let line := extendCc line
  let last := lastCc line.chars line.size col
  let newcc := line.ccFree
  let nx := (line.cell newcc).ccNext
  { line with
    ccFree := if nx ≠ 0 then (newcc + nx).toNat else 0
    chars := (line.chars.modify newcc fun c => { c with ccNext := 0, chr := chr }).modify last
      fun c => { c with ccNext := newcc - last } }

/-- `add_cc`. -/
def addCc (line : Termline) (col : Int) (chr : UInt32) : Except Fault Termline := do
  check (0 ≤ col ∧ col < line.cols) .column
  pure (addCcAt line col.toNat chr)

/-- `clear_cc` after its `assert`. -/
def clearCcAt (line : Termline) (col : Nat) : Termline :=
  let nx := (line.cell col).ccNext
  if nx = 0 then line
  else
    let last := lastCc line.chars line.size col
    { line with
      ccFree := (col + nx).toNat
      chars := (line.chars.modify last fun c =>
        { c with ccNext := if line.ccFree ≠ 0 then line.ccFree - last else 0 }).modify col
          fun c => { c with ccNext := 0 } }

/-- `clear_cc`. -/
def clearCc (line : Termline) (col : Int) : Except Fault Termline := do
  check (0 ≤ col ∧ col < line.cols) .column
  pure (clearCcAt line col.toNat)

/-- The characters that `copy_termchar` finds by following the list of the cell `src`. -/
def ccChrs (chars : List Termchar) : Nat → Nat → List UInt32
  | 0, _ => []
  | fuel + 1, src =>
    let nx := (chars.getD src default).ccNext
    if nx = 0 then []
    else
      let src := (src + nx).toNat
      (chars.getD src default).chr :: ccChrs chars fuel src

/-- `copy_termchar`; `ccs` are the combining characters of the source cell. -/
def copyTermchar (destline : Termline) (x : Int) (src : Termchar) (ccs : List UInt32) :
    Except Fault Termline := do
  let line ← clearCc destline x
  let line := { line with chars := line.chars.set x.toNat { src with ccNext := 0 } }
  ccs.foldlM (fun line chr => addCc line x chr) line

/-- `move_termchar`; `dest` and `src` are the columns its pointers denote. -/
def moveTermchar (line : Termline) (dest src : Int) : Except Fault Termline := do
  let line ← clearCc line dest
  check (0 ≤ src ∧ src < line.cols) .column
  let s := line.cell src.toNat
  pure { line with
    chars := (line.chars.set dest.toNat
      { s with ccNext := if s.ccNext ≠ 0 then s.ccNext - (dest - src) else s.ccNext }).modify
        src.toNat fun c => { c with ccNext := 0 } }

/-- `basic_erase_char`: `CSET_ASCII | ' '` with `ATTR_DEFAULT`. -/
def basicEraseChar : Termchar := { chr := 0xD820, attr := 0x20500, ccNext := 0 }

/-- `erase_char` as `set_erase_char` makes it: `basic_erase_char` with other attributes. -/
def eraseChar (attr : UInt32) : Termchar := { basicEraseChar with attr := attr }

/-- `memmove` of `n` cells from the index `src` to the index `dst`. -/
def memmove (chars : List Termchar) (dst src n : Nat) : List Termchar :=
  chars.take dst ++ (chars.drop src).take n ++ chars.drop (dst + n)

/-- `sresize`: the new cells are not initialised. -/
def sresize (chars : List Termchar) (size : Nat) : List Termchar :=
  chars.take size ++ List.replicate (size - chars.length) default

/-- `resizeline`, the part that returns the lists of the columns thrown out to the free list. -/
def clearCcs (line : Termline) (cols : Nat) : Except Fault Termline :=
  (List.range' cols (line.cols - cols)).foldlM (fun line (i : Nat) => clearCc line i) line

/-- `resizeline` after the lists have been returned: the section of the combining characters is moved,
and the first link of each list is adjusted. -/
def resizelineAt (line : Termline) (cols : Nat) : Termline :=
  let oldcols := line.cols
  let chars :=
    if cols < oldcols then memmove line.chars cols oldcols (line.size - line.cols) else line.chars
  let size := line.size + cols - oldcols
  let chars := sresize chars size
  let chars := if cols > oldcols then memmove chars cols oldcols (size - cols) else chars
  let shift : Int := cols - oldcols
  let chars := chars.mapIdx fun i c =>
    if i < oldcols ∧ i < cols ∧ c.ccNext ≠ 0 then { c with ccNext := c.ccNext + shift } else c
  let chars := chars.mapIdx fun i c => if oldcols ≤ i ∧ i < cols then basicEraseChar else c
  { line with
    cols := cols
    ccFree := if line.ccFree ≠ 0 then (line.ccFree + shift).toNat else 0
    chars := chars }

/-- `resizeline`. -/
def resizeline (line : Termline) (cols : Nat) : Except Fault Termline :=
  if line.cols ≠ cols then do
    let line ← clearCcs line cols
    pure (resizelineAt line cols)
  else .ok line

/-! ## The diagnostic check -/

/-- `assert(j >= line->cols && j < line->size); assert(!flags[j]); flags[j] = TRUE;` -/
def ccFlag (line : Termline) (flags : List Bool) (j : Int) : Except Fault (List Bool) := do
  check (line.cols ≤ j ∧ j < line.size) .assertion
  check (flags.getD j.toNat true = false) .assertion
  pure (flags.set j.toNat true)

/-- The loop of `cc_check` over the list that goes on from the cell `j`. -/
def ccWalk (line : Termline) : Nat → Int → List Bool → Except Fault (List Bool)
  | 0, _, _ => .error .endless
  | fuel + 1, j, flags =>
    let nx := (line.cell j.toNat).ccNext
    if nx = 0 then .ok flags
    else do
      let flags ← ccFlag line flags (j + nx)
      ccWalk line fuel (j + nx) flags

/-- The part of `cc_check` for the free list. -/
def ccWalkFree (line : Termline) (flags : List Bool) : Except Fault (List Bool) :=
  if line.ccFree ≠ 0 then do
    let flags ← ccFlag line flags line.ccFree
    ccWalk line (line.size + 1) line.ccFree flags
  else .ok flags

/-- `cc_check`. A list that does not end comes to a flag that is set. -/
def ccCheck (line : Termline) : Except Fault Unit := do
  check (line.cols ≤ line.size) .assertion
  let flags := (List.range line.size).map fun i => decide (i < line.cols)
  let flags ← (List.range line.cols).foldlM
    (fun flags (i : Nat) => ccWalk line (line.size + 1) i flags) flags
  let flags ← ccWalkFree line flags
  check (flags.count true = line.size) .assertion

end PuttyNd.Terminal

/-!
## Lines as rows of cells

What the linked lists in a `termline` are for: every cell of a line has a character, its attributes and
a sequence of combining characters. The operations of `terminal.c` on a collection of lines, and what
each of them means for the cells.
-/

namespace PuttyNd.Terminal

/-- The content of a cell. -/
structure Content where
  chr : UInt32
  attr : UInt32
  ccs : List UInt32
deriving DecidableEq, Repr, Inhabited

/-- A cell without combining characters. -/
def Termchar.content (c : Termchar) : Content := ⟨c.chr, c.attr, []⟩

/-- The content of the cell in a column. -/
def Termline.content (line : Termline) (j : ℕ) : Content :=
  ⟨(line.cell j).chr, (line.cell j).attr, ccChrs line.chars line.size j⟩

/-- The contents of all columns. -/
def Termline.contents (line : Termline) : List Content := (List.range line.cols).map line.content

/-- What `copy_termchar` copies from: an erase character, or a cell of a line. -/
inductive CcSource where
  | erase (attr : UInt32)
  | cell (l i : ℕ)
deriving DecidableEq, Repr

/-- The operations on the line with the number `l`. -/
inductive CcOp where
  | newline (cols : ℕ) (attr : UInt32)
  | addCc (l col : ℕ) (chr : UInt32)
  | clearCc (l col : ℕ)
  | copyTermchar (l x : ℕ) (src : CcSource)
  | moveTermchar (l dest src : ℕ)
  | resizeline (l cols : ℕ)
deriving DecidableEq, Repr

/-- The line with the number `l`. -/
def lineAt (lines : List Termline) (l : ℕ) : Except Fault Termline :=
  match lines[l]? with
  | some line => .ok line
  | none => .error .noLine

/-- The cell a source stands for, and the combining characters that are found by following its list. -/
def ccSource (lines : List Termline) : CcSource → Except Fault (Termchar × List UInt32)
  | .erase attr => .ok (eraseChar attr, [])
  | .cell l i => do
    let line ← lineAt lines l
    pure (line.cell i, ccChrs line.chars line.size i)

/-- A step of the code. -/
def ccStep (lines : List Termline) : CcOp → Except Fault (List Termline)
  | .newline cols attr => .ok (lines ++ [newline (eraseChar attr) cols])
  | .addCc l col chr => do
    let line ← lineAt lines l
    let line ← addCc line col chr
    pure (lines.set l line)
  | .clearCc l col => do
    let line ← lineAt lines l
    let line ← clearCc line col
    pure (lines.set l line)
  | .copyTermchar l x src => do
    let line ← lineAt lines l
    let (c, ccs) ← ccSource lines src
    let line ← copyTermchar line x c ccs
    pure (lines.set l line)
  | .moveTermchar l dest src => do
    let line ← lineAt lines l
    let line ← moveTermchar line dest src
    pure (lines.set l line)
  | .resizeline l cols => do
    let line ← lineAt lines l
    let line ← resizeline line cols
    pure (lines.set l line)

/-- A run of the code. -/
def ccRun (lines : List Termline) (ops : List CcOp) : Except Fault (List Termline) :=
  ops.foldlM ccStep lines

/-- The content a source stands for; it has to be outside the line `l`. -/
def contentSource (rows : List (List Content)) (l : ℕ) : CcSource → Option Content
  | .erase attr => some (eraseChar attr).content
  | .cell l' i => if l' = l then none else rows[l']?.bind (·[i]?)

/-- A step on the cells; none if an operation is not meant for its arguments: the columns have to be in
the line, `move_termchar` takes two different ones, and a line has at least one column. -/
def contentStep (rows : List (List Content)) : CcOp → Option (List (List Content))
  | .newline cols attr =>
    if 1 ≤ cols then some (rows ++ [List.replicate cols (eraseChar attr).content]) else none
  | .addCc l col chr =>
    rows[l]?.bind fun row =>
      if col < row.length then
        some (rows.set l (row.modify col fun c => { c with ccs := c.ccs ++ [chr] }))
      else none
  | .clearCc l col =>
    rows[l]?.bind fun row =>
      if col < row.length then some (rows.set l (row.modify col fun c => { c with ccs := [] })) else none
  | .copyTermchar l x src =>
    rows[l]?.bind fun row =>
      if x < row.length then (contentSource rows l src).map fun c => rows.set l (row.set x c) else none
  | .moveTermchar l dest src =>
    rows[l]?.bind fun row =>
      if dest < row.length ∧ dest ≠ src then
        row[src]?.map fun c => rows.set l ((row.set dest c).modify src fun c => { c with ccs := [] })
      else none
  | .resizeline l cols =>
    rows[l]?.bind fun row =>
      if 1 ≤ cols then
        some (rows.set l (row.take cols ++ List.replicate (cols - row.length) basicEraseChar.content))
      else none

/-- A run on the cells. -/
def contentRun (rows : List (List Content)) (ops : List CcOp) : Option (List (List Content)) :=
  ops.foldlM contentStep rows

end PuttyNd.Terminal
