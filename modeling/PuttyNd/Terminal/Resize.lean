import PuttyNd.Terminal.Termline
import PuttyNd.Terminal.Scrollback
import Mathlib.Data.Int.Notation

/-!
# The size of the terminal (`terminal.c`)

`term_size`, which sets the numbers of rows and columns, and `lineptr`, which retrieves a line and makes
it at least as wide as the terminal. Lines of the scrollback are kept in their compressed form.

The terminal has been given a size before, so that its trees exist. Of the positions, only the rows of the
two cursors are kept, which decide how the screen becomes shorter.
-/

namespace PuttyNd.Terminal

/-- `Terminal`: the lines, and what decides where they are. -/
structure Term where
  rows : ℤ
  cols : ℤ
  savelines : ℤ
  scrollback : List Buf
  tempsblines : ℕ
  screen : List Termline
  altScreen : List Termline
  altSblines : ℕ
  altWhich : Bool
  eraseToScrollback : Bool
  eraseAttr : UInt32
  cursY : ℤ
  altY : ℤ
deriving DecidableEq, Repr

/-- `DATTR_MASK`. -/
def dattrMask : UInt32 := 0xF0000000

/-- `termchars_equal`: the lists of combining characters are compared character by character. -/
def termcharsEqual (a b : Content) : Bool :=
  a.chr = b.chr && a.attr &&& ~~~dattrMask = b.attr &&& ~~~dattrMask && a.ccs = b.ccs

namespace Term

/-- `term->erase_char`. -/
def eraseChar (t : Term) : Termchar := Terminal.eraseChar t.eraseAttr

/-- A line in which all cells are erase characters, as `find_last_nonempty_line` compares them. -/
def emptyLine (t : Term) (line : Termline) : Bool :=
  line.contents.all (termcharsEqual · t.eraseChar.content)

/-- `find_last_nonempty_line` plus one: the number of lines down to the last one with any content. -/
def nonemptyLines (t : Term) (screen : List Termline) : ℕ :=
  (screen.reverse.dropWhile t.emptyLine).length

/-- `swap_screen`, with neither `reset` nor `keep_cur_pos`. -/
def swapScreen (t : Term) (which : Bool) : Term :=
  if which ≠ t.altWhich then
    { t with
      altWhich := which
      screen := t.altScreen
      altScreen := t.screen
      altSblines := t.nonemptyLines t.screen
      cursY := t.altY
      altY := t.cursY }
  else t

/-- A round of the loop in `term_size` that makes the screen longer. -/
def addRow (t : Term) (newcols : ℕ) : Except Fault Term :=
  if t.tempsblines > 0 then do
    check (t.scrollback.length ≥ t.tempsblines) .assertion
    let (line, _) ← decompressline t.scrollback.getLast?
    pure { t with
      scrollback := t.scrollback.dropLast
      tempsblines := t.tempsblines - 1
      screen := { line with temporary := false } :: t.screen
      cursY := t.cursY + 1
      altY := t.altY + 1
      rows := t.rows + 1 }
  else
    .ok { t with screen := t.screen ++ [newline basicEraseChar newcols], rows := t.rows + 1 }

/-- A round of the loop in `term_size` that makes the screen shorter. -/
def dropRow (t : Term) : Except Fault Term :=
  if t.cursY < t.rows - 1 then .ok { t with screen := t.screen.dropLast, rows := t.rows - 1 }
  else
    match t.screen with
    | [] => .error .noLine
    | line :: screen => do
      let cline ← compressline line
      pure { t with
        screen := screen
        scrollback := t.scrollback ++ [cline]
        tempsblines := t.tempsblines + 1
        cursY := t.cursY - 1
        altY := t.altY - 1
        rows := t.rows - 1 }

/-- `while (term->rows < newrows)`, which is `n` rounds. -/
def addRows (newcols : ℕ) : ℕ → Term → Except Fault Term
  | 0, t => .ok t
  | n + 1, t => do
    let t ← t.addRow newcols
    addRows newcols n t

/-- `while (term->rows > newrows)`, which is `n` rounds. -/
def dropRows : ℕ → Term → Except Fault Term
  | 0, t => .ok t
  | n + 1, t => do
    let t ← t.dropRow
    dropRows n t

/-- A row number that is still valid. -/
def clampRow (y newrows : ℤ) : ℤ := if y < 0 then 0 else if y ≥ newrows then newrows - 1 else y

/-- `term_size` after the check for a change, with at least one row and one column. -/
def resize (t : Term) (newrows newcols newsavelines : ℤ) : Except Fault Term := do
  let saveAltWhich := t.altWhich
  let t := t.swapScreen false
  check (t.rows = t.screen.length) .assertion
  let t ← addRows newcols.toNat (newrows - t.rows).toNat t
  let t ← dropRows (t.rows - newrows).toNat t
  check (t.rows = newrows ∧ (t.screen.length : ℤ) = newrows) .assertion
  -- delete any excess lines from the scrollback
  let scrollback := t.scrollback.drop (t.scrollback.length - newsavelines).toNat
  let tempsblines := min t.tempsblines scrollback.length
  check ((scrollback.length : ℤ) ≤ newsavelines ∧ scrollback.length ≥ tempsblines) .assertion
  let t :=
    { t with
      scrollback := scrollback
      tempsblines := tempsblines
      altScreen := List.replicate newrows.toNat (newline t.eraseChar newcols.toNat)
      altSblines := 0
      cursY := clampRow t.cursY newrows
      altY := 0
      rows := newrows
      cols := newcols
      savelines := newsavelines }
  pure (t.swapScreen saveAltWhich)

/-- `term_size`. -/
def termSize (t : Term) (newrows newcols newsavelines : ℤ) : Except Fault Term :=
  if newrows = t.rows ∧ newcols = t.cols ∧ newsavelines = t.savelines then .ok t
  else t.resize (max newrows 1) (max newcols 1) newsavelines

/-- The end of `lineptr`: a line that is narrower than the terminal is resized. -/
def widen (cols : ℤ) (line : Termline) : Except Fault Termline :=
  if cols > line.cols then resizeline line cols.toNat else .ok line

/-- Retrieve a line that is kept as such, and put it back as it is now. -/
def lineIn (cols : ℤ) (lines : List Termline) (treeindex : ℤ) : Except Fault (List Termline × Termline) :=
  if treeindex < 0 then .error .noLine
  else do
    let line ← lineAt lines treeindex.toNat
    let line ← widen cols line
    pure (lines.set treeindex.toNat line, line)

/-- `lineptr`. A line of the scrollback is decompressed each time, and not stored. -/
def lineptr (t : Term) (y : ℤ) : Except Fault (Term × Termline) :=
  if y ≥ 0 then do
    let (screen, line) ← lineIn t.cols t.screen y
    pure ({ t with screen := screen }, line)
  else
    let altlines : ℕ := if t.eraseToScrollback ∧ t.altWhich then t.altSblines else 0
    if y < -altlines then do
      let treeindex := y + altlines + t.scrollback.length
      let (line, _) ← decompressline (if treeindex < 0 then none else t.scrollback[treeindex.toNat]?)
      let line ← widen t.cols line
      pure (t, line)
    else do
      let (altScreen, line) ← lineIn t.cols t.altScreen (y + t.altSblines)
      pure ({ t with altScreen := altScreen }, line)

/-- What can be seen of a line: its cells in the columns of the terminal. -/
def cellsAt (t : Term) (y : ℤ) : Except Fault (List Content) := do
  let (_, line) ← t.lineptr y
  pure (line.contents.take t.cols.toNat)

end Term

/-- What happens to a terminal between two outputs: its width is set, or a line is retrieved. -/
inductive SizeEvent where
  | size (newcols : ℤ)
  | access (y : ℤ)
deriving DecidableEq, Repr

namespace Term

/-- A step: `term_size` with the same number of rows and lines of scrollback, or `lineptr`. -/
def sizeStep (t : Term) : SizeEvent → Except Fault Term
  | .size newcols => t.termSize t.rows newcols t.savelines
  | .access y => do
    let (t, _) ← t.lineptr y
    pure t

/-- A run of such steps. -/
def sizeRun (t : Term) (events : List SizeEvent) : Except Fault Term := events.foldlM sizeStep t

/-- The main screen, displayed or not. -/
def mainScreen (t : Term) : List Termline := if t.altWhich then t.altScreen else t.screen

/-- The alternate screen, displayed or not. -/
def alternateScreen (t : Term) : List Termline := if t.altWhich then t.screen else t.altScreen

/-- The cells of the main screen in the columns of the terminal. -/
def mainCells (t : Term) : Except Fault (List (List Content)) :=
  t.mainScreen.mapM fun line => do
    let line ← widen t.cols line
    pure (line.contents.take t.cols.toNat)

end Term

end PuttyNd.Terminal
