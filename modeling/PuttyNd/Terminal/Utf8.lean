import Mathlib.Algebra.GroupWithZero.Nat
import PuttyNd.Lib.Memory
import PuttyNd.Lib.Transducer
import PuttyNd.Psftp.Bufchain

/-!
# UTF-8 in the terminal (`term_out` in `putty/terminal.c`)

The terminal is in UTF-8 mode and in the state `TOPLEVEL`, and does not print. What follows the translation of a
character is left out; the characters are those that leave it. `unitabCtrl` is the table of the line controls.
-/

namespace PuttyNd.Terminal

open Memory Psftp

def CSET_ASCII : ℕ := 0xD800
def CSET_LINEDRW : ℕ := 0xD900

/-- UCS Format error character. -/
def UCSERR : ℕ := CSET_LINEDRW ||| 97

/-- The fields `utf_state`, `utf_char` and `utf_size` of `struct terminal_tag` -/
structure UtfState where
  utfState : ℕ
  utfChar : ℕ
  utfSize : ℕ
deriving DecidableEq, Repr

/-- A character below 0x80 -/
def asciiChar (unitabCtrl : ℕ → ℕ) (c : ℕ) : ℕ :=
  if unitabCtrl c ≠ 0xFF then unitabCtrl c else c ||| CSET_ASCII

/-- Case 0 of the translation, with the character that leaves it -/
def translateFirst (unitabCtrl : ℕ → ℕ) (s : UtfState) (c : ℕ) : UtfState × Option ℕ :=
  if c < 0x80 then (s, some (asciiChar unitabCtrl c))
  else if c &&& 0xe0 = 0xc0 then (⟨1, c &&& 0x1f, 1⟩, none)
  else if c &&& 0xf0 = 0xe0 then (⟨2, c &&& 0x0f, 2⟩, none)
  else if c &&& 0xf8 = 0xf0 then (⟨3, c &&& 0x07, 3⟩, none)
  else if c &&& 0xfc = 0xf8 then (⟨4, c &&& 0x03, 4⟩, none)
  else if c &&& 0xfe = 0xfc then (⟨5, c &&& 0x01, 5⟩, none)
  else (s, some UCSERR)

/-- Is somebody trying to be evil! -/
def overlong (size c : ℕ) : Prop :=
  c < 0x80 ∨ (c < 0x800 ∧ size ≥ 2) ∨ (c < 0x10000 ∧ size ≥ 3) ∨ (c < 0x200000 ∧ size ≥ 4) ∨
    (c < 0x4000000 ∧ size ≥ 5)

instance (size c : ℕ) : Decidable (overlong size c) :=
  inferInstanceAs (Decidable (c < 0x80 ∨ (c < 0x800 ∧ size ≥ 2) ∨ (c < 0x10000 ∧ size ≥ 3) ∨
    (c < 0x200000 ∧ size ≥ 4) ∨ (c < 0x4000000 ∧ size ≥ 5)))

/-- The tests of a sequence that is complete -/
def finishSequence (size c : ℕ) : Option ℕ :=
  let c := if overlong size c then UCSERR else c
  -- Unicode line separator and paragraph separator are CR-LF
  let c := if c = 0x2028 ∨ c = 0x2029 then 0x85 else c
  let c := if c < 0xA0 then 0xFFFD else c
  let c := if c ≥ 0xD800 ∧ c < 0xE000 then UCSERR else c
  let c := if c > 0x10FFFF then UCSERR else c
  if c ≥ 0xE0000 ∧ c ≤ 0xE007F then none
  else if c = 0xFEFF then none
  else if c = 0xFFFE ∨ c = 0xFFFF then some UCSERR
  else some c

/-- Cases 1 to 5, also with the byte that is put back -/
def translateNext (s : UtfState) (c : ℕ) : UtfState × Option ℕ × Option ℕ :=
  if c &&& 0xC0 ≠ 0x80 then ({ s with utfState := 0 }, some UCSERR, some c)
  else
    let s : UtfState := { s with utfChar := (s.utfChar <<< 6) ||| (c &&& 0x3f), utfState := s.utfState - 1 }
    if s.utfState ≠ 0 then (s, none, none) else (s, finishSequence s.utfSize s.utfChar, none)

def translate (unitabCtrl : ℕ → ℕ) (s : UtfState) (c : ℕ) : UtfState × Option ℕ × Option ℕ :=
  if s.utfState = 0 then
    let r := translateFirst unitabCtrl s c
    (r.1, r.2, none)
  else translateNext s c

/-! ## The input loop -/

structure Input where
  utf : UtfState
  inbuf : Bufchain

/-- `sizeof(localbuf)` -/
def localbufSize : ℕ := 256

/-- The loop of `term_out`: `chars` is what is left in `localbuf`. -/
def termOutLoop (unitabCtrl : ℕ → ℕ) : ℕ → Input → List UInt8 → Option ℕ → Except Memory.Fault (Input × List ℕ)
  | 0, _, _, _ => .error .endlessLoop
  | rounds + 1, term, chars, unget =>
    if chars.length > 0 ∨ unget ≠ none ∨ term.inbuf.size > 0 then
      match unget with
      | some c => do
        let r := translate unitabCtrl term.utf c
        let rest ← termOutLoop unitabCtrl rounds { term with utf := r.1 } chars r.2.2
        return (rest.1, r.2.1.toList ++ rest.2)
      | none => do
        let front := term.inbuf.front.take localbufSize
        let inbuf := if chars = [] then term.inbuf.consume front.length else term.inbuf
        let chars := if chars = [] then front else chars
        let r := translate unitabCtrl term.utf (chars.headD 0).toNat
        let rest ← termOutLoop unitabCtrl rounds ⟨r.1, inbuf⟩ chars.tail r.2.2
        return (rest.1, r.2.1.toList ++ rest.2)
    else .ok (term, [])

/-- Each byte is put back once at most. -/
def termOut (unitabCtrl : ℕ → ℕ) (term : Input) : Except Memory.Fault (Input × List ℕ) :=
  termOutLoop unitabCtrl (2 * term.inbuf.size + 1) term [] none

def termData (unitabCtrl : ℕ → ℕ) (term : Input) (data : List UInt8) : Except Memory.Fault (Input × List ℕ) :=
  termOut unitabCtrl { term with inbuf := term.inbuf.add data }

/-- Chunks of data, one after the other -/
def termDataAll (unitabCtrl : ℕ → ℕ) : Input → List (List UInt8) → Except Memory.Fault (Input × List ℕ)
  | term, [] => .ok (term, [])
  | term, data :: chunks => do
    let r ← termData unitabCtrl term data
    let rest ← termDataAll unitabCtrl r.1 chunks
    return (rest.1, r.2 ++ rest.2)

/-- Nothing is pending. -/
def initialInput : Input := ⟨⟨0, 0, 0⟩, .empty⟩

/-! ## The reference decoder -/

def isContinuation (b : UInt8) : Bool := decide (0x80 ≤ b.toNat ∧ b.toNat < 0xC0)

/-- How many bytes follow the first one of a sequence -/
def following (b : UInt8) : Option ℕ :=
  if 0xC0 ≤ b.toNat ∧ b.toNat < 0xE0 then some 1
  else if 0xE0 ≤ b.toNat ∧ b.toNat < 0xF0 then some 2
  else if 0xF0 ≤ b.toNat ∧ b.toNat < 0xF8 then some 3
  else if 0xF8 ≤ b.toNat ∧ b.toNat < 0xFC then some 4
  else if 0xFC ≤ b.toNat ∧ b.toNat < 0xFE then some 5
  else none

/-- The value of a sequence, six bits from each byte after the first one -/
def sequenceValue (n : ℕ) (lead : UInt8) (cont : List UInt8) : ℕ :=
  cont.foldl (fun v b => v * 64 + b.toNat % 64) (lead.toNat % 2 ^ (6 - n))

/-- The least value that needs so many bytes after the first one -/
def leastValue : ℕ → ℕ
  | 0 => 0
  | 1 => 0x80
  | 2 => 0x800
  | 3 => 0x10000
  | 4 => 0x200000
  | _ => 0x4000000

def lineSeparator (c : ℕ) : Prop := c = 0x2028 ∨ c = 0x2029

instance (c : ℕ) : Decidable (lineSeparator c) := inferInstanceAs (Decidable (c = 0x2028 ∨ c = 0x2029))

/-- What a code point in the shortest form yields, if the line separators yield `separator` -/
def yields (separator c : ℕ) : Option ℕ :=
  if lineSeparator c then some separator
  else if c < 0xA0 then some 0xFFFD
  else if (0xD800 ≤ c ∧ c < 0xE000) ∨ c = 0xFFFE ∨ c = 0xFFFF ∨ c > 0x10FFFF then some UCSERR
  else if c = 0xFEFF ∨ (0xE0000 ≤ c ∧ c ≤ 0xE007F) then none
  else some c

/-- The characters of a string of bytes. A sequence that is not complete at the end yields nothing yet. -/
def decodeUtf8 (unitabCtrl : ℕ → ℕ) (separator : ℕ) : List UInt8 → List ℕ
  | [] => []
  | b :: rest =>
    if b.toNat < 0x80 then asciiChar unitabCtrl b.toNat :: decodeUtf8 unitabCtrl separator rest
    else
      match following b with
      | none => UCSERR :: decodeUtf8 unitabCtrl separator rest
      | some n =>
        let cont := (rest.take n).takeWhile isContinuation
        if cont.length = n then
          let c := sequenceValue n b cont
          (if c < leastValue n then some UCSERR else yields separator c).toList ++
            decodeUtf8 unitabCtrl separator (rest.drop n)
        else if rest.length = cont.length then []
        else UCSERR :: decodeUtf8 unitabCtrl separator (rest.drop cont.length)
termination_by bytes => bytes.length
decreasing_by
  · exact Nat.lt_succ_self _
  · exact Nat.lt_succ_self _
  · rw [List.length_drop, List.length_cons]
    omega
  · rw [List.length_drop, List.length_cons]
    omega

/-- The line separators yield the next-line control. -/
def NEL : ℕ := 0x85

/-- The bytes of a line or paragraph separator occur. -/
def HasSeparator (bytes : List UInt8) : Prop :=
  [0xE2, 0x80, 0xA8] <:+: bytes ∨ [0xE2, 0x80, 0xA9] <:+: bytes

end PuttyNd.Terminal
