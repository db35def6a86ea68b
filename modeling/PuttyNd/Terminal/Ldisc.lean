import Mathlib.Algebra.GroupWithZero.Nat
import PuttyNd.Lib.LineDisplay
import PuttyNd.Lib.Memory
import PuttyNd.Terminal.Utf8

/-!
# The line discipline (`putty/ldisc.c`)

The first `buflen` bytes of `buf` are a list. Where the terminal and the back end are asked for their modes, the
answers come with the call. What `ldisc_send` does to the tool bar and to a paste in progress is left out.
-/

namespace PuttyNd.Terminal

open Memory LineDisplay

/-- `FORCE_ON`, `FORCE_OFF` and `AUTO` -/
inductive Force where
  | on
  | off
  | auto
deriving DecidableEq, Repr

inductive Protocol where
  | raw
  | telnet
  | other
deriving DecidableEq, Repr

/-- The `Telnet_Special`s that are sent -/
inductive Special where
  | ec
  | el
  | ip
  | susp
  | abort
  | eof
  | eol
deriving DecidableEq, Repr

/-- What is configured -/
structure LdiscConf where
  telnetKeyboard : Bool
  telnetNewline : Bool
  protocol : Protocol
  localecho : Force
  localedit : Force
deriving DecidableEq, Repr

inductive Output where
  /-- `from_backend` -/
  | write (bytes : List UInt8)
  /-- `back->send` -/
  | send (bytes : List UInt8)
  /-- `back->special` -/
  | special (s : Special)
deriving DecidableEq, Repr

/-- `struct ldisc_tag` -/
structure Ldisc where
  buf : List UInt8
  bufsiz : ℕ
  quotenext : Bool
  bound : buf.length ≤ bufsiz

/-- `ldisc_create` -/
def ldiscCreate : Ldisc := ⟨[], 0, false, Nat.le_refl 0⟩

/-- A call of `ldisc_send`; its length is negative if `isSpecial`. `utf`, `echo` and `edit` are the modes. -/
structure Call where
  bytes : List UInt8
  isSpecial : Bool
  interactive : Bool
  utf : Bool
  echo : Bool
  edit : Bool
deriving DecidableEq, Repr

/-- `ECHOING` and `EDITING` -/
def forced (f : Force) (mode : Bool) : Bool :=
  match f with
  | .on => true
  | .off => false
  | .auto => mode

/-! ## Bytes on the screen -/

def plen (utf : Bool) (c : UInt8) : ℕ :=
  if (32 ≤ c ∧ c ≤ 126) ∨ (160 ≤ c ∧ ¬utf) then 1
  else if c < 128 then 2
  else if utf ∧ 0xC0 ≤ c then 1
  else if utf ∧ 0x80 ≤ c ∧ c < 0xC0 then 0
  else 4

/-- A digit of `%02X` -/
def hexDigit (n : UInt8) : UInt8 := if n < 10 then 48 + n else 55 + n

def pwrite (utf : Bool) (c : UInt8) : List UInt8 :=
  if (32 ≤ c ∧ c ≤ 126) ∨ (¬utf ∧ 0xA0 ≤ c) ∨ (utf ∧ 0x80 ≤ c) then [c]
  else if c < 128 then [94, if c = 127 then 63 else c + 0x40]
  else [60, hexDigit (c / 16), hexDigit (c % 16), 62]

def charStart (utf : Bool) (c : UInt8) : Bool := if utf then c < 0x80 ∨ 0xC0 ≤ c else true

def bsb (n : ℕ) : List Output := List.replicate n (.write [8, 32, 8])

/-- `if (ECHOING) bsb(ldisc, plen(ldisc, c))` -/
def echoErase (utf echoing : Bool) (c : UInt8) : List Output := if echoing then bsb (plen utf c) else []

/-! ## Keys -/

/-- `CTRL` -/
def ctrl (x : Char) : ℕ := x.toNat ^^^ '@'.toNat

/-- `KCTRL` -/
def kctrl (x : Char) : ℕ := (x.toNat ^^^ '@'.toNat) ||| 0x100

/-- The cases of the `switch` -/
inductive Key where
  | delete
  | deleteWord
  /-- `^u`, `^c`, `^\` and `^z`, with what is sent for the last three -/
  | clear (sent : Option Special)
  | redraw
  | quote
  | endOfFile
  | lineFeed
  | enter
  | ordinary
deriving DecidableEq, Repr

def keyOf (c : ℕ) : Key :=
  if c = kctrl 'H' ∨ c = kctrl '?' then .delete
  else if c = ctrl 'W' then .deleteWord
  else if c = ctrl 'U' then .clear none
  else if c = ctrl 'C' then .clear (some .ip)
  else if c = ctrl '\\' then .clear (some .abort)
  else if c = ctrl 'Z' then .clear (some .susp)
  else if c = ctrl 'R' then .redraw
  else if c = ctrl 'V' then .quote
  else if c = ctrl 'D' then .endOfFile
  else if c = ctrl 'J' then .lineFeed
  else if c = kctrl 'M' then .enter
  else .ordinary

/-- `isspace` of the C locale -/
def isspaceByte (c : UInt8) : Bool := c == 32 || (9 ≤ c && c ≤ 13)

/-- The loop of a delete key, for the bytes from the last one on. Without one, a byte in front of `buf` is read. -/
def deleteLoop (utf echoing : Bool) : List UInt8 → Except Memory.Fault (List UInt8 × List Output)
  | [] => .error .overrun
  | c :: buf =>
    if charStart utf c then .ok (buf, echoErase utf echoing c)
    else do
      let (buf, out) ← deleteLoop utf echoing buf
      .ok (buf, echoErase utf echoing c ++ out)

/-- The loop of `^w` -/
def deleteWordLoop (utf echoing : Bool) : List UInt8 → List UInt8 × List Output
  | [] => ([], [])
  | [c] => ([], echoErase utf echoing c)
  | c :: d :: buf =>
    if isspaceByte d ∧ ¬isspaceByte c then (d :: buf, echoErase utf echoing c)
    else
      let (buf, out) := deleteWordLoop utf echoing (d :: buf)
      (buf, echoErase utf echoing c ++ out)

/-- `buflen` becomes `n`, which is not more than it was. -/
def Ldisc.setBuflen (ldisc : Ldisc) (n : ℕ) : Ldisc :=
  { ldisc with
    buf := ldisc.buf.take n
    bound := Nat.le_trans (List.length_take_le' n ldisc.buf) ldisc.bound }

/-- `default_case` -/
def insertChar (utf echoing : Bool) (ldisc : Ldisc) (c : UInt8) : Ldisc × List Output :=
  (⟨ldisc.buf ++ [c], if ldisc.bufsiz ≤ ldisc.buf.length then ldisc.buf.length + 256 else ldisc.bufsiz, false, by
      have hbound := ldisc.bound
      rw [List.length_append, List.length_singleton]
      split <;> omega⟩,
    if echoing then [.write (pwrite utf c)] else [])

/-- What the line is ended with -/
def endOfLine (conf : LdiscConf) : Output :=
  if conf.protocol = .raw then .send [13, 10]
  else if conf.protocol = .telnet ∧ conf.telnetNewline then .special .eol
  else .send [13]

/-- `case KCTRL('M')` -/
def sendLine (conf : LdiscConf) (echoing : Bool) (ldisc : Ldisc) : Ldisc × List Output :=
  (ldisc.setBuflen 0,
    (if 0 < ldisc.buf.length then [.send ldisc.buf] else []) ++ [endOfLine conf] ++
      if echoing then [.write [13, 10]] else [])

/-- One round of the loop with local editing -/
def ldiscChar (conf : LdiscConf) (utf echoing : Bool) (ldisc : Ldisc) (c : ℕ) : Except Memory.Fault (Ldisc × List Output) :=
  if ldisc.quotenext then .ok (insertChar utf echoing ldisc (UInt8.ofNat c))
  else
    match keyOf c with
    | .delete =>
      if 0 < ldisc.buf.length then do
        let (buf, out) ← deleteLoop utf echoing ldisc.buf.reverse
        .ok (ldisc.setBuflen buf.length, out)
      else .ok (ldisc, [])
    | .deleteWord =>
      let (buf, out) := deleteWordLoop utf echoing ldisc.buf.reverse
      .ok (ldisc.setBuflen buf.length, out)
    | .clear sent =>
      let out := ldisc.buf.reverse.flatMap (echoErase utf echoing) ++ [.special .el]
      let ldisc := ldisc.setBuflen 0
      if conf.telnetKeyboard then .ok (ldisc, out ++ (sent.map Output.special).toList)
      else
        let (ldisc, echoed) := insertChar utf echoing ldisc (UInt8.ofNat c)
        .ok (ldisc, out ++ echoed)
    | .redraw =>
      .ok (ldisc, if echoing then .write [94, 82, 13, 10] :: ldisc.buf.map fun b => .write (pwrite utf b) else [])
    | .quote => .ok ({ ldisc with quotenext := true }, [])
    | .endOfFile =>
      if ldisc.buf.length = 0 then .ok (ldisc, [.special .eof])
      else .ok (ldisc.setBuflen 0, [.send ldisc.buf])
    | .lineFeed =>
      if conf.protocol = .raw ∧ ldisc.buf.getLast? = some 13 then
        let (ldisc', out) := sendLine conf echoing (ldisc.setBuflen (ldisc.buf.length - 1))
        .ok (ldisc', echoErase utf echoing 13 ++ out)
      else .ok (insertChar utf echoing ldisc (UInt8.ofNat c))
    | .enter => .ok (sendLine conf echoing ldisc)
    | .ordinary => .ok (insertChar utf echoing ldisc (UInt8.ofNat c))

def ldiscChars (conf : LdiscConf) (utf echoing : Bool) : Ldisc → List ℕ → Except Memory.Fault (Ldisc × List Output)
  | ldisc, [] => .ok (ldisc, [])
  | ldisc, c :: cs => do
    let (ldisc, out) ← ldiscChar conf utf echoing ldisc c
    let (ldisc, out') ← ldiscChars conf utf echoing ldisc cs
    .ok (ldisc, out ++ out')

/-- The bytes of a call; those of a special string end before its NUL. -/
def Call.string (call : Call) : List UInt8 :=
  if call.isSpecial then call.bytes.takeWhile (· ≠ 0) else call.bytes

/-- `c`, with `keyflag` and what is added to a return that is not typed -/
def Call.char (call : Call) (b : UInt8) : ℕ :=
  let c := b.toNat + if call.isSpecial then kctrl '@' else 0
  if ¬call.interactive ∧ c = 13 then c + kctrl '@' else c

/-- What is sent for a key without local editing -/
def sendUnedited (conf : LdiscConf) (call : Call) : Output :=
  if call.isSpecial ∧ conf.protocol = .telnet ∧ call.string.length = 1 then
    let c := (call.string.headD 0).toNat
    if c = ctrl 'M' then
      if conf.protocol = .telnet ∧ conf.telnetNewline then .special .eol else .send [13]
    else if ¬conf.telnetKeyboard then .send call.string
    else if c = ctrl '?' ∨ c = ctrl 'H' then .special .ec
    else if c = ctrl 'C' then .special .ip
    else if c = ctrl 'Z' then .special .susp
    else .send call.string
  else .send call.string

/-- `ldisc_send` without local editing -/
def ldiscPass (conf : LdiscConf) (ldisc : Ldisc) (call : Call) : Ldisc × List Output :=
  let flushed := if 0 < ldisc.buf.length then
      .send ldisc.buf :: ldisc.buf.reverse.flatMap fun c => bsb (plen call.utf c)
    else []
  (ldisc.setBuflen 0,
    flushed ++
      if 0 < call.string.length then
        (if forced conf.localecho call.echo then [.write call.string] else []) ++ [sendUnedited conf call]
      else [])

def ldiscSend (conf : LdiscConf) (ldisc : Ldisc) (call : Call) : Except Memory.Fault (Ldisc × List Output) :=
  if call.bytes = [] ∧ ¬call.isSpecial then .ok (ldisc, [])
  else if forced conf.localedit call.edit then
    ldiscChars conf call.utf (forced conf.localecho call.echo) ldisc (call.string.map call.char)
  else .ok (ldiscPass conf ldisc call)

def ldiscSends (conf : LdiscConf) : Ldisc → List Call → Except Memory.Fault (Ldisc × List Output)
  | ldisc, [] => .ok (ldisc, [])
  | ldisc, call :: calls => do
    let (ldisc, out) ← ldiscSend conf ldisc call
    let (ldisc, out') ← ldiscSends conf ldisc calls
    .ok (ldisc, out ++ out')

/-! ## A line editor -/

/-- A line and whether the next byte is quoted -/
structure Editor where
  line : List UInt8
  quoting : Bool
deriving DecidableEq, Repr

/-- What is left without the last character. In UTF-8, its last bytes are the continuation bytes at the end. -/
def withoutChar (utf : Bool) (line : List UInt8) : List UInt8 :=
  if utf then ((line.reverse.dropWhile isContinuation).drop 1).reverse else line.dropLast

/-- What is left without the last word and the spaces after it -/
def withoutWord (line : List UInt8) : List UInt8 :=
  ((line.reverse.dropWhile isspaceByte).dropWhile fun c => !isspaceByte c).reverse

namespace Editor

def type (e : Editor) (b : UInt8) : Editor := ⟨e.line ++ [b], false⟩

/-- The line is sent, unless it is empty, and what ends it. -/
def submit (conf : LdiscConf) (line : List UInt8) : List Output :=
  (if line = [] then [] else [.send line]) ++ [endOfLine conf]

/-- What a key does, and what is sent. A key that clears the line is then typed, unless Telnet has a special for
it. -/
def press (conf : LdiscConf) (utf : Bool) (e : Editor) (c : ℕ) : Editor × List Output :=
  if e.quoting then (e.type (UInt8.ofNat c), [])
  else
    match keyOf c with
    | .delete => ({ e with line := withoutChar utf e.line }, [])
    | .deleteWord => ({ e with line := withoutWord e.line }, [])
    | .clear sent =>
      if conf.telnetKeyboard then ({ e with line := [] }, .special .el :: (sent.map Output.special).toList)
      else (({ e with line := [] } : Editor).type (UInt8.ofNat c), [.special .el])
    | .redraw => (e, [])
    | .quote => ({ e with quoting := true }, [])
    | .endOfFile => if e.line = [] then (e, [.special .eof]) else ({ e with line := [] }, [.send e.line])
    | .lineFeed =>
      if conf.protocol = .raw ∧ e.line.getLast? = some 13 then
        ({ e with line := [] }, submit conf e.line.dropLast)
      else (e.type (UInt8.ofNat c), [])
    | .enter => ({ e with line := [] }, submit conf e.line)
    | .ordinary => (e.type (UInt8.ofNat c), [])

def run (conf : LdiscConf) : Editor → List (Bool × ℕ) → Editor × List Output
  | e, [] => (e, [])
  | e, (utf, c) :: keys =>
    let (e, out) := press conf utf e c
    let (e, out') := run conf e keys
    (e, out ++ out')

/-- Whenever a delete key is pressed in UTF-8 mode, the line is empty or a character starts in it. -/
def Deletable (conf : LdiscConf) : Editor → List (Bool × ℕ) → Prop
  | _, [] => True
  | e, (utf, c) :: keys =>
    (¬e.quoting → keyOf c = .delete → e.line = [] ∨ ∃ b ∈ e.line, charStart utf b) ∧
      Deletable conf (press conf utf e c).1 keys

/-- No continuation byte is at the start of the line or after a byte of ASCII, which is so if the text consists of
whole characters. -/
def Complete (utf : Bool) (line : List UInt8) : Prop :=
  ∀ front b rest, line = front ++ b :: rest → charStart utf b = false → ∃ a, front.getLast? = some a ∧ 0x80 ≤ a

/-- The line is so before each key. -/
def AlwaysComplete (conf : LdiscConf) : Editor → List (Bool × ℕ) → Prop
  | _, [] => True
  | e, (utf, c) :: keys => Complete utf e.line ∧ AlwaysComplete conf (press conf utf e c).1 keys

end Editor

/-- The keys of a sequence of calls, each with the mode of the terminal -/
def keysOf (calls : List Call) : List (Bool × ℕ) :=
  calls.flatMap fun call => call.string.map fun b => (call.utf, call.char b)

/-! ## The screen -/

/-- A character of the screen, by its bytes -/
abbrev Cell := List UInt8

def extendLast (cells : List Cell) (b : UInt8) : List Cell :=
  match cells.getLast? with
  | none => [[b]]
  | some cell => cells.dropLast ++ [cell ++ [b]]

/-- A byte that is echoed, on a line that never ends. In UTF-8, a continuation byte belongs to the character before
it. -/
def screenByte (utf : Bool) (l : Line Cell) (b : UInt8) : Line Cell :=
  if b = 8 then back l
  else if b = 13 then ⟨[], l.before ++ l.after⟩
  else if b = 10 then ⟨[], []⟩
  else if charStart utf b then put l [b]
  else { l with before := extendLast l.before b }

/-- What is replayed. A new line starts at the cursor when the old one was sent. -/
def screenOutput (utf : Bool) (l : Line Cell) : Output → Line Cell
  | .write bytes => bytes.foldl (screenByte utf) l
  | .send _ => { l with before := [] }
  | .special _ => l

/-- How a line is displayed -/
def displayForm (utf : Bool) (line : List UInt8) : List Cell :=
  ((line.flatMap (pwrite utf)).foldl (screenByte utf) ⟨[], []⟩).before

/-- What is left of the outputs without the echo -/
def isSent : Output → Bool
  | .write _ => false
  | _ => true

/-- The settings with local editing and echo forced on -/
def forcedOn (telnetKeyboard telnetNewline : Bool) (protocol : Protocol) : LdiscConf :=
  ⟨telnetKeyboard, telnetNewline, protocol, .on, .on⟩

/-- The line discipline is the line editor: no byte out of the line is read, the same is in the buffer and was
sent, and the line is on the screen. -/
def EditsFaithfully (conf : LdiscConf) (calls : List Call) : Prop :=
  ∃ ldisc out, ldiscSends conf ldiscCreate calls = .ok (ldisc, out) ∧
    ldisc.buf = (Editor.run conf ⟨[], false⟩ (keysOf calls)).1.line ∧
    out.filter isSent = (Editor.run conf ⟨[], false⟩ (keysOf calls)).2 ∧
    ∀ utf, (∀ call ∈ calls, call.utf = utf) → Editor.AlwaysComplete conf ⟨[], false⟩ (keysOf calls) →
      (out.foldl (screenOutput utf) ⟨[], []⟩).before = displayForm utf ldisc.buf ∧
        Clear [32] (out.foldl (screenOutput utf) ⟨[], []⟩)

end PuttyNd.Terminal
