import Mathlib.Algebra.GroupWithZero.Nat
import Mathlib.Data.List.Nodup
import Mathlib.Data.List.TakeWhile
import PuttyNd.Lib.CInt
import PuttyNd.Lib.Outcome

/-!
# Maps in the settings (`gppmap` and `wmap` in `putty/settings.c`)

The values of a map setting are a list of pairs with different keys; in which order a map goes through them is not
used. The storage is left out: `gppmap` is given the string that `gpps_raw` returns.
-/

namespace PuttyNd.Settings

open CInt

inductive Fault where
  /-- The program ends with a message. -/
  | outOfMemory
  /-- An access past the end of a buffer or of a string -/
  | overrun
  | assertion
  | endlessLoop
deriving DecidableEq, Repr

def NUL : Char := Char.ofNat 0

/-- The characters of a string before its NUL -/
structure CString where
  chars : List Char
  noNul : ∀ c ∈ chars, c ≠ NUL
deriving DecidableEq

/-- The string at the start of a buffer -/
def CString.ofBuffer (buf : List Char) : CString :=
  ⟨buf.takeWhile (· != NUL), fun _ hc => bne_iff_ne.mp (List.mem_takeWhile_imp (p := (· != NUL)) hc)⟩

theorem noNul_of_all {chars : List Char} (h : chars.all (· != NUL) = true) : ∀ c ∈ chars, c ≠ NUL :=
  fun c hc => bne_iff_ne.mp (List.all_eq_true.mp h c hc)

/-- `"D"` -/
def dynamicValue : CString := ⟨['D'], noNul_of_all rfl⟩

/-- `""` -/
def emptyString : CString := ⟨[], fun _ hc => absurd hc List.not_mem_nil⟩

/-- The subkeys of a primary key, with their values -/
structure StrMap where
  entries : List (CString × CString)
  distinct : (entries.map (·.1)).Nodup

namespace StrMap

def empty : StrMap := ⟨[], List.nodup_nil⟩

/-- `conf_del_str_str` on the pairs -/
def deleteKey (entries : List (CString × CString)) (key : CString) : List (CString × CString) :=
  entries.filter fun e => e.1 ≠ key

/-- `conf_set_str_str` on the pairs -/
def insertPair (entries : List (CString × CString)) (key val : CString) : List (CString × CString) :=
  if key ∈ entries.map (·.1) then entries.map fun e => if e.1 = key then (key, val) else e
  else entries ++ [(key, val)]

theorem keys_insertPair (entries : List (CString × CString)) (key val : CString) :
    (insertPair entries key val).map (·.1) =
      if key ∈ entries.map (·.1) then entries.map (·.1) else entries.map (·.1) ++ [key] := by
  unfold insertPair
  by_cases hkey : key ∈ entries.map (·.1)
  · rw [if_pos hkey, if_pos hkey, List.map_map]
    apply List.map_congr_left
    intro e _
    dsimp only [Function.comp]
    by_cases he : e.1 = key
    · rw [if_pos he]
      exact he.symm
    · rw [if_neg he]
  · rw [if_neg hkey, if_neg hkey, List.map_append]
    rfl

/-- `conf_set_str_str` -/
def setStrStr (m : StrMap) (key val : CString) : StrMap where
  entries := insertPair m.entries key val
  distinct := by
    rw [keys_insertPair]
    by_cases hkey : key ∈ m.entries.map (·.1)
    · rw [if_pos hkey]
      exact m.distinct
    · rw [if_neg hkey]
      exact List.nodup_append.mpr ⟨m.distinct, List.nodup_singleton key, fun a ha b hb hab =>
        hkey (List.mem_singleton.mp hb ▸ hab ▸ ha)⟩

/-- The loop at the start of `gppmap`: the first key is deleted until there is none. -/
def clearEntries : List (CString × CString) → List (CString × CString)
  | [] => []
  | e :: entries => clearEntries (deleteKey entries e.1)
termination_by entries => entries.length
decreasing_by exact Nat.lt_succ_of_le (List.length_filter_le _ _)

theorem clearEntries_eq (entries : List (CString × CString)) : clearEntries entries = [] := by
  induction entries using clearEntries.induct with
  | case1 => rw [clearEntries]
  | case2 e entries ih => rw [clearEntries, ih]

/-- The map without its subkeys -/
def clear (m : StrMap) : StrMap := ⟨clearEntries m.entries, by rw [clearEntries_eq]; exact List.nodup_nil⟩

end StrMap

inductive MapSetting where
  | ttymodes
  | environmt
  | portfwd
deriving DecidableEq, Repr

/-- `*strchr(s, c) = d`, if the character is there -/
def replaceFirst (c d : Char) : List Char → List Char
  | [] => []
  | a :: s => if a = c then d :: s else a :: replaceFirst c d s

theorem replaceFirst_noNul {c d : Char} (hd : d ≠ NUL) {s : List Char} (h : ∀ a ∈ s, a ≠ NUL) :
    ∀ a ∈ replaceFirst c d s, a ≠ NUL := by
  induction s with
  | nil => exact h
  | cons b s ih =>
    obtain ⟨hb, hs⟩ := List.forall_mem_cons.mp h
    unfold replaceFirst
    by_cases hbc : b = c
    · rw [if_pos hbc]
      exact List.forall_mem_cons.mpr ⟨hd, hs⟩
    · rw [if_neg hbc]
      exact List.forall_mem_cons.mpr ⟨hb, ih hs⟩

/-- The key of a dynamic forwarding in the storage -/
def storedKey (key : CString) : CString := ⟨replaceFirst 'L' 'D' key.chars, replaceFirst_noNul (by decide) key.noNul⟩

/-- The key of a dynamic forwarding from the storage -/
def dynamicKey (key : CString) : CString := ⟨replaceFirst 'D' 'L' key.chars, replaceFirst_noNul (by decide) key.noNul⟩

/-! ## Reading -/

/-- One field of `gppmap`: what is left at `p`, what was written up to `q`, and where `val` is. What is written is
never past what is read. -/
def readField : List Char → List Char → Option ℕ → Except Fault (List Char × List Char × Option ℕ)
  | [], out, val => .ok ([], out, val)
  | c :: p, out, val =>
    if c = ',' then .ok (c :: p, out, val)
    else if c = '=' then readField p (out ++ [NUL]) (some (out.length + 1))
    else if c = '\\' then
      match p with
      | [] => .error .overrun
      | c :: p => readField p (out ++ [c]) val
    else readField p (out ++ [c]) val

/-- The pair of a field is put into the map. -/
def setPair (primary : MapSetting) (m : StrMap) (buf : List Char) (val : Option ℕ) : StrMap :=
  let key := CString.ofBuffer buf
  let val := CString.ofBuffer (buf.drop (val.getD buf.length))
  if primary = .portfwd ∧ 'D' ∈ key.chars then m.setStrStr (dynamicKey key) dynamicValue
  else m.setStrStr key val

/-- The loop over the fields -/
def readFields (primary : MapSetting) : ℕ → StrMap → List Char → Except Fault StrMap
  | 0, _, _ => .error .endlessLoop
  | rounds + 1, m, p =>
    if p = [] then .ok m
    else do
      let field ← readField p [] none
      let p := if field.1.head? = some ',' then field.1.tail else field.1
      readFields primary rounds (setPair primary m field.2.1 field.2.2) p

/-- `gppmap` -/
def gppmap (primary : MapSetting) (m : StrMap) (stored : Option CString) : Except Fault (Bool × StrMap) :=
  match stored with
  | none => .ok (false, m.clear)
  | some buf => do
    let m ← readFields primary (buf.chars.length + 1) m.clear buf.chars
    return (true, m)

/-! ## Writing -/

/-- `*p++ = c`, in a buffer of so many characters -/
def writeChar (size : ℕ) (out : List Char) (c : Char) : Except Fault (List Char) :=
  if out.length < size then .ok (out ++ [c]) else .error .overrun

def special (c : Char) : Bool := c == '=' || c == ',' || c == '\\'

/-- The loop over a key or a value -/
def writeEscaped (size : ℕ) : List Char → List Char → Except Fault (List Char)
  | out, [] => .ok out
  | out, c :: q => do
    let out ← if special c then writeChar size out '\\' else .ok out
    let out ← writeChar size out c
    writeEscaped size out q

/-- A pair as it is stored -/
def storedPair (primary : MapSetting) (e : CString × CString) : CString × CString :=
  if primary = .portfwd ∧ e.2 = dynamicValue then (storedKey e.1, emptyString) else e

/-- The loop over the pairs -/
def writePairs (primary : MapSetting) (includeValues : Bool) (size : ℕ) :
    List Char → List (CString × CString) → Except Fault (List Char)
  | out, [] => .ok out
  | out, e :: entries => do
    let pair := storedPair primary e
    let out ← if out ≠ [] then writeChar size out ',' else .ok out
    let out ← writeEscaped size out pair.1.chars
    let out ← if includeValues then do
        let out ← writeChar size out '='
        writeEscaped size out pair.2.chars
      else .ok out
    writePairs primary includeValues size out entries

/-- The sum of `len`, an `int` -/
def bufferLen (m : StrMap) : ℤ :=
  m.entries.foldl (fun len e => toInt32 (len + (2 + 2 * (e.1.chars.length + e.2.chars.length) : ℕ))) 1

/-- `snewn(len, char)`; a number that is negative is very large as a `size_t`. -/
def newBuffer (len : ℤ) : Except Fault ℕ := if 0 ≤ len then .ok len.toNat else .error .outOfMemory

/-- `wmap`, with the string that is stored -/
def wmap (primary : MapSetting) (includeValues : Bool) (m : StrMap) : Except Fault CString := do
  let size ← newBuffer (bufferLen m)
  let out ← writePairs primary includeValues size [] m.entries
  let buf ← writeChar size out NUL
  return CString.ofBuffer buf

/-! ## Round trips -/

/-- A forwarding as the program builds it: a family, the type, and the address and port; a dynamic one is of the
type of local ones. -/
def ForwardingForm (e : CString × CString) : Prop :=
  ∃ family ∈ [[], ['4'], ['6']], ∃ type ∈ ['L', 'R'], ∃ source, e.1.chars = family ++ type :: source ∧
    (e.2 = dynamicValue → type = 'L')

/-- What is written is read back into any map, as the same pairs. -/
def RoundTrips (primary : MapSetting) (m old : StrMap) : Prop :=
  ∃ text, wmap primary true m = .ok text ∧ ∃ m', gppmap primary old (some text) = .ok (true, m') ∧
    ∀ e, e ∈ m'.entries ↔ e ∈ m.entries

/-- What `wmap` counts for a buffer, as a number -/
def countedLength (m : StrMap) : ℕ :=
  1 + (m.entries.map fun e => 2 + 2 * (e.1.chars.length + e.2.chars.length)).sum

end PuttyNd.Settings
