import Mathlib.Data.Int.Notation
import PuttyNd.Lib.Memory

/-!
# Removing control characters from text (`psftp/stripctrl.c`)

The functions that convert multibyte characters of the locale, with the tables of `wcwidth.c`, are parameters.
What is sent to `bs_out` is returned.
-/

namespace PuttyNd.Psftp

open Memory

/-- What `mbrtowc` finds: the return value is -2, -1, or the length of the character, where it is 0 for the
null character. -/
inductive Mbrtowc (In : Type) where
  | incomplete (mbs : In)
  | illegal
  | character (wc : ℕ) (len : ℕ) (mbs : In)

/-- The C library in some locale, with conversion states `In` of input and `Out` of output -/
structure Locale (In Out : Type) where
  zeroIn : In
  zeroOut : Out
  mbrtowc : In → List UInt8 → Mbrtowc In
  /-- Nothing if the return value is -1 -/
  wcrtomb : Out → ℕ → Option (List UInt8 × Out)
  iswprint : ℕ → Bool
  /-- The tables `combining` and `wide` of `mk_wcwidth` -/
  combining : ℕ → Bool
  wide : ℕ → Bool

/-- The arguments of `stripctrl_new`, where a substitution 0 means none, and whether
`stripctrl_enable_line_limiting` was called -/
structure ScSettings where
  permitCr : Bool
  substitution : ℕ
  lineLimit : Bool

def sccBufsize : ℕ := 64

/-- `LINE_LIMIT` -/
def lineLimitChars : ℕ := 77

/-- The fields that change while text is converted -/
structure Conversion (In Out : Type) where
  mbsIn : In
  mbsOut : Out
  lineStart : Bool
  lineCharsRemaining : ℕ

/-- `StripCtrlCharsImpl`, with the first `buflen` bytes of `buf` -/
structure StripCtrlChars (In Out : Type) where
  conv : Conversion In Out
  buf : List UInt8
  bound : buf.length ≤ sccBufsize

section

variable {In Out : Type} (L : Locale In Out) (set : ScSettings)

/-- `stripctrl_new` -/
def stripctrlNew : StripCtrlChars In Out where
  conv := ⟨L.zeroIn, L.zeroOut, false, 0⟩
  buf := []
  bound := Nat.zero_le _

def enableLineLimiting (scc : StripCtrlChars In Out) : StripCtrlChars In Out :=
  { scc with conv := { scc.conv with lineStart := true } }

/-- What a caller makes that wants these settings -/
def stripctrlCreate : StripCtrlChars In Out :=
  if set.lineLimit then enableLineLimiting (stripctrlNew L) else stripctrlNew L

/-- `stripctrl_reset`, which `stripctrl_retarget` calls -/
def stripctrlReset (scc : StripCtrlChars In Out) : StripCtrlChars In Out :=
  { scc with conv := { scc.conv with mbsIn := L.zeroIn, mbsOut := L.zeroOut, lineStart := true } }

def mkWcwidth (ucs : ℕ) : ℤ :=
  if ucs = 0 then 0
  else if ucs < 32 ∨ 0x7f ≤ ucs ∧ ucs < 0xa0 then -1
  else if L.combining ucs then 0
  else if L.wide ucs then 2
  else 1

/-- `stripctrl_ctrlchar_ok` -/
def ctrlcharOk (wc : ℕ) : Bool := wc = 10 ∨ wc = 13 ∧ set.permitCr

/-- `"| "` -/
def lineStartMark : List UInt8 := [124, 32]

/-- `"\r\n> "` -/
def lineWrapMark : List UInt8 := [13, 10, 62, 32]

/-- `stripctrl_check_line_limit` -/
def checkLineLimit (conv : Conversion In Out) (wc width : ℕ) :
    Except Fault (Conversion In Out × List UInt8) :=
  if set.lineLimit then
    let (conv, out) :=
      if conv.lineStart then
        ({ conv with lineStart := false, lineCharsRemaining := lineLimitChars }, lineStartMark)
      else (conv, [])
    if wc = 10 then .ok ({ conv with lineStart := true }, out)
    else
      let (conv, out) :=
        if conv.lineCharsRemaining < width then
          ({ conv with lineCharsRemaining := lineLimitChars }, out ++ lineWrapMark)
        else (conv, out)
      if width ≤ conv.lineCharsRemaining then
        .ok ({ conv with lineCharsRemaining := conv.lineCharsRemaining - width }, out)
      else .error .assertion
  else .ok (conv, [])

/-- The end of `stripctrl_locale_put_wc`. If the wide character cannot be written, -1 is used as the number of
bytes that are sent. -/
def emitWc (conv : Conversion In Out) (wc width : ℕ) : Except Fault (Conversion In Out × List UInt8) := do
  let (conv, out) ← checkLineLimit set conv wc width
  match L.wcrtomb conv.mbsOut wc with
  | none => .error .overrun
  | some (outbuf, mbs) => .ok ({ conv with mbsOut := mbs }, out ++ outbuf)

/-- `stripctrl_locale_put_wc` -/
def putWc (conv : Conversion In Out) (wc : ℕ) : Except Fault (Conversion In Out × List UInt8) :=
  if (L.iswprint wc ∧ 0 ≤ mkWcwidth L wc) ∨ ctrlcharOk set wc then
    -- a negative width is made 0
    emitWc L set conv wc (mkWcwidth L wc).toNat
  else if set.substitution ≠ 0 then
    if 0 ≤ mkWcwidth L set.substitution then
      emitWc L set conv set.substitution (mkWcwidth L set.substitution).toNat
    else .error .assertion
  else .ok (conv, [])

/-- `stripctrl_locale_try_consume`: how many bytes are consumed -/
def tryConsume (conv : Conversion In Out) (p : List UInt8) :
    Except Fault (ℕ × Conversion In Out × List UInt8) :=
  match L.mbrtowc conv.mbsIn p with
  -- the state from before is restored
  | .incomplete _ => .ok (0, conv, [])
  | .illegal => .ok (1, { conv with mbsIn := L.zeroIn }, [])
  | .character wc len mbs => do
    let (conv, out) ← putWc L set { conv with mbsIn := mbs } wc
    .ok (if wc = 0 then 1 else len, conv, out)

/-- The first loop of `stripctrl_locale_BinarySink_write`: what is left of the main string, or nothing if the
function returns -/
def bufferLoop : ℕ → StripCtrlChars In Out → List UInt8 →
    Except Fault (StripCtrlChars In Out × List UInt8 × Option (List UInt8))
  | 0, _, _ => .error .endlessLoop
  | fuel + 1, scc, p =>
    if scc.buf = [] then .ok (scc, [], some p)
    else do
      let toCopy := min (sccBufsize - scc.buf.length) p.length
      let (consumed, conv, out) ← tryConsume L set scc.conv (scc.buf ++ p.take toCopy)
      if scc.buf.length ≤ consumed then
        let consumedFromMain := consumed - scc.buf.length
        if consumedFromMain ≤ p.length then
          .ok (⟨conv, [], Nat.zero_le _⟩, out, some (p.drop consumedFromMain))
        else .error .assertion
      else if consumed = 0 then
        if toCopy = p.length then
          .ok (⟨conv, scc.buf ++ p.take toCopy, by
            have := scc.bound
            rw [List.length_append, List.length_take]
            omega⟩, out, none)
        else .error .assertion
      else do
        let (scc, out', rest) ← bufferLoop fuel
          ⟨conv, scc.buf.drop consumed, by
            have := scc.bound
            rw [List.length_drop]
            omega⟩ p
        .ok (scc, out ++ out', rest)

/-- The second loop: what is left of the main string -/
def mainLoop : ℕ → Conversion In Out → List UInt8 →
    Except Fault (Conversion In Out × List UInt8 × List UInt8)
  | 0, _, _ => .error .endlessLoop
  | fuel + 1, conv, p =>
    if p = [] then .ok (conv, [], [])
    else do
      let (consumed, conv, out) ← tryConsume L set conv p
      if consumed = 0 then .ok (conv, out, p)
      else if consumed ≤ p.length then
        let (conv, out', rest) ← mainLoop fuel conv (p.drop consumed)
        .ok (conv, out ++ out', rest)
      else .error .assertion

/-- `stripctrl_locale_BinarySink_write` -/
def stripctrlWrite (scc : StripCtrlChars In Out) (p : List UInt8) :
    Except Fault (StripCtrlChars In Out × List UInt8) := do
  let (scc, out, main) ← bufferLoop L set (scc.buf.length + 1) scc p
  match main with
  | none => .ok (scc, out)
  | some p =>
    let (conv, out', rest) ← mainLoop L set (p.length + 1) scc.conv p
    if bound : rest.length ≤ sccBufsize then .ok (⟨conv, rest, bound⟩, out ++ out')
    else .error .assertion

/-! ## Runs -/

inductive ScOp where
  | write (data : List UInt8)
  /-- `stripctrl_retarget`, or `stripctrl_reset` alone -/
  | reset

/-- With the text that was written since the last reset, and what was then sent -/
structure ScRun (In Out : Type) where
  scc : StripCtrlChars In Out
  written : List UInt8
  sent : List UInt8

def scStart : ScRun In Out := ⟨stripctrlCreate L set, [], []⟩

def scStep (s : ScRun In Out) : ScOp → Except Fault (ScRun In Out)
  | .write data => do
    let (scc, out) ← stripctrlWrite L set s.scc data
    .ok ⟨scc, s.written ++ data, s.sent ++ out⟩
  | .reset => .ok ⟨stripctrlReset L s.scc, [], []⟩

end

end PuttyNd.Psftp
