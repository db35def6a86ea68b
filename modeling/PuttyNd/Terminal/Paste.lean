import Mathlib.Data.List.Basic
import PuttyNd.Lib.CInt
import PuttyNd.Lib.Outcome

/-!
# Pasted text (`term_add_paste_buffer` and `term_paste_callback` in `putty/terminal.c`)

The timers are those of the paste, by the times when they are due. What is sent is what `luni_send` is called with.
-/

namespace PuttyNd.Terminal

open CInt

inductive PasteFault where
  /-- The program ends with a message. -/
  | outOfMemory
  | badPointer
  | overrun
  | endlessLoop
deriving DecidableEq, Repr

/-- `SEL_NL` -/
def selNl : List ℕ := [13, 10]

/-- The fields `paste_buffer`, `paste_len` and `paste_pos` of the terminal, and its timers -/
structure Paste where
  buffer : Option (List ℕ)
  len : ℕ
  pos : ℕ
  timers : List UInt32
deriving DecidableEq, Repr

def noPaste : Paste := ⟨none, 0, 0, []⟩

/-- `INT_MAX / sizeof(wchar_t)` -/
def maxChars : ℕ := 1073741823

/-- `snewn(n, wchar_t)`; a number that is negative is very large as a `size_t`. -/
def newChars (n : ℤ) : Except PasteFault (List ℕ) :=
  if 0 ≤ n ∧ n ≤ maxChars then .ok (List.replicate n.toNat 0) else .error .outOfMemory

def storeChar (buf : List ℕ) (i c : ℕ) : Except PasteFault (List ℕ) :=
  if i < buf.length then .ok (buf.set i c) else .error .overrun

/-- `memcpy`, and the loop that copies a part of the text -/
def storeChars (buf : List ℕ) (i : ℕ) : List ℕ → Except PasteFault (List ℕ)
  | [] => .ok buf
  | c :: cs => do
    let buf ← storeChar buf i c
    storeChars buf (i + 1) cs

/-- Characters are stored at `paste_len`, which is then past them. -/
def appendChars (b : List ℕ × ℕ) (cs : List ℕ) : Except PasteFault (List ℕ × ℕ) := do
  let buf ← storeChars b.1 b.2 cs
  return (buf, b.2 + cs.length)

/-- `schedule_timer`: a timer that is there already is not added. -/
def scheduleTimer (timers : List UInt32) (ticks now : UInt32) : List UInt32 :=
  let due := ticks + now
  let due := if due - now = 0 then now + 1 else due
  if due ∈ timers then timers else due :: timers

/-- `luni_send`, if there is a line discipline -/
def luniSend (ldisc : Bool) (data : List ℕ) : List ℕ := if ldisc then data else []

/-- Up to the end of the line -/
def takeLine : List ℕ → List ℕ
  | [] => []
  | c :: cs => if c = 13 then [c] else c :: takeLine cs

/-- The loop sends one line, and goes on only to leave. -/
def termPasteCallback (ldisc : Bool) (ticks now : UInt32) (term : Paste) : Except PasteFault (Paste × List ℕ) :=
  if term.len = 0 then .ok (term, [])
  else
    match term.buffer with
    | none => .error .badPointer
    | some buf =>
      if buf.length < term.len then .error .overrun
      else if term.pos < term.len then
        let line := takeLine ((buf.take term.len).drop term.pos)
        let pos := term.pos + line.length
        if pos < term.len then
          .ok ({ term with pos := pos, timers := scheduleTimer term.timers ticks now }, luniSend ldisc line)
        else .ok ({ term with buffer := none, len := 0, pos := pos }, luniSend ldisc line)
      else .ok ({ term with buffer := none, len := 0 }, [])

/-- A line end is next. -/
def atNl (p : List ℕ) : Bool := selNl.isPrefixOf p

/-- What is before the next line end, and the rest -/
def scanNl : List ℕ → List ℕ × List ℕ
  | [] => ([], [])
  | c :: p => if atNl (c :: p) then ([], c :: p) else (c :: (scanNl p).1, (scanNl p).2)

/-- The loop over the text: `q` is what is left of it. -/
def convertLoop : ℕ → List ℕ × ℕ → List ℕ → Except PasteFault (List ℕ × ℕ)
  | 0, _, _ => .error .endlessLoop
  | rounds + 1, b, q =>
    if q = [] then .ok b
    else do
      let p := (scanNl q).2
      let b ← appendChars b (scanNl q).1
      if atNl p then do
        let b ← appendChars b [13]
        convertLoop rounds b (p.drop selNl.length)
      else convertLoop rounds b p

/-- `L"\033[200~"` -/
def pasteStart : List ℕ := [27, 91, 50, 48, 48, 126]

/-- `L"\033[201~"` -/
def pasteEnd : List ℕ := [27, 91, 50, 48, 49, 126]

/-- A new buffer with what is left of the old one, and how much that is -/
def newPasteBuffer (term : Paste) (len : ℕ) : Except PasteFault (List ℕ × ℕ) :=
  match term.buffer with
  | some old => do
    let left := term.len - term.pos
    let buf ← newChars (toInt32 (len + 12 + left))
    appendChars (buf, 0) ((old.drop term.pos).take left)
  | none => do
    let buf ← newChars (toInt32 (len + 12))
    return (buf, 0)

def termAddPasteBuffer (ldisc bracketed : Bool) (now : UInt32) (term : Paste) (data : List ℕ) :
    Except PasteFault (Paste × List ℕ) := do
  let start ← newPasteBuffer term data.length
  let left := start.2
  let b ← if bracketed then appendChars start pasteStart else .ok start
  let b ← convertLoop (data.length + 1) b data
  let b ← if bracketed then appendChars b pasteEnd else .ok b
  -- Assume a small paste will be OK in one go
  if b.2 < 32 then return ({ term with buffer := none, len := 0, pos := 0 }, luniSend ldisc (b.1.take b.2))
  else
    return ({ buffer := some b.1, len := b.2, pos := 0,
              timers := if left = 0 then scheduleTimer term.timers 0 now else term.timers }, [])

/-! ## Pastes and timers in any order -/

/-- The length of a text is an `int`. -/
abbrev Text := { data : List ℕ // data.length < 2 ^ 31 }

inductive PasteEvent where
  | paste (bracketed : Bool) (text : Text) (now : UInt32)
  /-- The timer that is due at the time, with the delay to the next line -/
  | timer (due ticks now : UInt32)

def pasteStep (ldisc : Bool) (term : Paste) : PasteEvent → Except PasteFault (Paste × List ℕ)
  | .paste bracketed text now => termAddPasteBuffer ldisc bracketed now term text.val
  | .timer due ticks now =>
    if due ∈ term.timers then
      termPasteCallback ldisc ticks now { term with timers := term.timers.erase due }
    else .ok (term, [])

def pasteRun (ldisc : Bool) : Paste → List PasteEvent → Except PasteFault (Paste × List ℕ)
  | term, [] => .ok (term, [])
  | term, e :: events => do
    let r ← pasteStep ldisc term e
    let rest ← pasteRun ldisc r.1 events
    return (rest.1, r.2 ++ rest.2)

/-! ## What is to be sent -/

/-- Each line end becomes a carriage return. -/
def convertNl : List ℕ → List ℕ
  | [] => []
  | [c] => [c]
  | c :: d :: text => if c = 13 ∧ d = 10 then 13 :: convertNl text else c :: convertNl (d :: text)

/-- A text as it is sent -/
def pasted (bracketed : Bool) (text : List ℕ) : List ℕ :=
  if bracketed then pasteStart ++ convertNl text ++ pasteEnd else convertNl text

def PasteEvent.pasted : PasteEvent → List ℕ
  | .paste bracketed text _ => Terminal.pasted bracketed text.val
  | .timer _ _ _ => []

/-- What is in the buffer and was not sent -/
def Paste.unsent (term : Paste) : List ℕ :=
  match term.buffer with
  | none => []
  | some buf => (buf.take term.len).drop term.pos

/-- The room that the event asks for -/
def PasteEvent.room : PasteEvent → ℕ
  | .paste _ text _ => text.val.length + 12
  | .timer _ _ _ => 0

end PuttyNd.Terminal
