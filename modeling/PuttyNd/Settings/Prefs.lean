import PuttyNd.Settings.Maps

/-!
# Preference lists (`gprefs` and `wprefs` in `putty/settings.c`)

A preference list is a value of each number from 0 on, under one primary key. The string that is read is the one
that `gpps_raw` returns.
-/

namespace PuttyNd.Settings

/-- `struct keyvalwhere`; the value -1 of `vrel` is `none`. -/
structure KeyValWhere where
  s : List Char
  v : ℕ
  vrel : Option ℕ
  place : ℤ
deriving DecidableEq, Repr

def CIPHER_WARN : ℕ := 0
def CIPHER_3DES : ℕ := 1
def CIPHER_BLOWFISH : ℕ := 2
def CIPHER_AES : ℕ := 3
def CIPHER_DES : ℕ := 4
def CIPHER_ARCFOUR : ℕ := 5
def CIPHER_CHACHA20 : ℕ := 6

def ciphernames : List KeyValWhere := [
  ⟨"chacha20".toList, CIPHER_CHACHA20, none, -1⟩,
  ⟨"aes".toList, CIPHER_AES, none, -1⟩,
  ⟨"blowfish".toList, CIPHER_BLOWFISH, none, -1⟩,
  ⟨"3des".toList, CIPHER_3DES, none, -1⟩,
  ⟨"WARN".toList, CIPHER_WARN, none, -1⟩,
  ⟨"arcfour".toList, CIPHER_ARCFOUR, none, -1⟩,
  ⟨"des".toList, CIPHER_DES, none, -1⟩]

def KEX_WARN : ℕ := 0
def KEX_DHGROUP1 : ℕ := 1
def KEX_DHGROUP14 : ℕ := 2
def KEX_DHGEX : ℕ := 3
def KEX_RSA : ℕ := 4
def KEX_ECDH : ℕ := 5

def kexnames : List KeyValWhere := [
  ⟨"ecdh".toList, KEX_ECDH, none, 1⟩,
  ⟨"dh-gex-sha1".toList, KEX_DHGEX, none, -1⟩,
  ⟨"dh-group14-sha1".toList, KEX_DHGROUP14, none, -1⟩,
  ⟨"dh-group1-sha1".toList, KEX_DHGROUP1, none, -1⟩,
  ⟨"rsa".toList, KEX_RSA, some KEX_WARN, -1⟩,
  ⟨"WARN".toList, KEX_WARN, none, -1⟩]

/-- The values of the primary key in the configuration -/
abbrev Prefs := ℕ → Option ℕ

/-- `conf_get_int_int` -/
def getInt (conf : Prefs) (i : ℕ) : Except Fault ℕ :=
  match conf i with
  | some v => .ok v
  | none => .error .assertion

/-- `conf_set_int_int` -/
def setInt (conf : Prefs) (i v : ℕ) : Prefs := Function.update conf i (some v)

def key2val (mapping : List KeyValWhere) (key : List Char) : Option ℕ :=
  (mapping.find? fun m => m.s = key).map KeyValWhere.v

def val2key (mapping : List KeyValWhere) (val : ℕ) : Option (List Char) :=
  (mapping.find? fun m => m.v = val).map KeyValWhere.s

/-- `seen & (1 << v)` -/
def isSeen (seen v : ℕ) : Bool := (seen &&& (1 <<< v)) ≠ 0

/-- The list as it is read: what is in the configuration, the number of values, and the bitmap -/
structure Reading where
  conf : Prefs
  n : ℕ
  seen : ℕ

/-- A word of the list -/
def addWord (mapping : List KeyValWhere) (r : Reading) (q : List Char) : Reading :=
  match key2val mapping q with
  | none => r
  | some v =>
    if isSeen r.seen v then r else ⟨setInt r.conf r.n v, r.n + 1, r.seen ||| (1 <<< v)⟩

/-- The loop over the words -/
def readWords (mapping : List KeyValWhere) : ℕ → Reading → List Char → Except Fault Reading
  | 0, _, _ => .error .endlessLoop
  | rounds + 1, r, p =>
    let p := p.dropWhile (· == ',')
    if p = [] then .ok r
    else readWords mapping rounds (addWord mapping r (p.takeWhile (· != ','))) (p.dropWhile (· != ',')).tail

/-- The loop that looks for `vrel` in the list -/
def findValue (conf : Prefs) (v : ℕ) : ℕ → ℕ → Except Fault ℕ
  | 0, j => .ok j
  | left + 1, j => do
    if (← getInt conf j) = v then return j
    findValue conf v left (j + 1)

/-- The loop that makes room: `j` counts down to `pos`. -/
def moveUp (conf : Prefs) (pos : ℕ) : ℕ → Except Fault Prefs
  | 0 => .ok conf
  | j + 1 =>
    if j < pos then .ok conf
    else do
      let v ← getInt conf j
      moveUp (setInt conf (j + 1) v) pos j

/-- Where a value goes that was not in the string -/
def insertPosition (m : KeyValWhere) (r : Reading) : Except Fault ℕ :=
  match m.vrel with
  | none => .ok (if m.place < 0 then r.n else 0)
  | some vrel => do
    let j ← findValue r.conf vrel r.n 0
    if j < r.n then return if m.place < 0 then j else j + 1
    else .error .assertion

/-- One round of the loop over `mapping`. The bitmap is not changed. -/
def addMissing (r : Reading) (m : KeyValWhere) : Except Fault Reading :=
  if ¬m.v < 32 then .error .assertion
  else if isSeen r.seen m.v then .ok r
  else if m.vrel.any fun vrel => !isSeen r.seen vrel then .ok r
  else do
    let pos ← insertPosition m r
    let conf ← moveUp r.conf pos r.n
    return ⟨setInt conf pos m.v, r.n + 1, r.seen⟩

/-- The loop over `mapping`, again and again until there are enough values -/
def addAllMissing (mapping : List KeyValWhere) (nvals : ℕ) : ℕ → Reading → Except Fault Reading
  | 0, _ => .error .endlessLoop
  | rounds + 1, r =>
    if r.n < nvals then do
      let r ← mapping.foldlM addMissing r
      addAllMissing mapping nvals rounds r
    else .ok r

/-- `gprefs`; a pass that adds nothing would be repeated without end. -/
def gprefs (mapping : List KeyValWhere) (commalist : CString) (conf : Prefs) : Except Fault Prefs := do
  let r ← readWords mapping (commalist.chars.length + 1) ⟨conf, 0, 0⟩ commalist.chars
  let r ← addAllMissing mapping mapping.length (mapping.length + 1) r
  return r.conf

/-- The first loop of `wprefs`: `maxlen` -/
def prefsLength (mapping : List KeyValWhere) (conf : Prefs) : List ℕ → ℕ → Except Fault ℕ
  | [], maxlen => .ok maxlen
  | i :: is, maxlen => do
    match val2key mapping (← getInt conf i) with
    | some s => prefsLength mapping conf is (maxlen + (if maxlen > 0 then 1 else 0) + s.length)
    | none => prefsLength mapping conf is maxlen

/-- The second loop, with `sprintf` to a buffer of `maxlen + 1` characters -/
def writePrefs (mapping : List KeyValWhere) (conf : Prefs) (maxlen : ℕ) :
    List ℕ → List Char → Except Fault (List Char)
  | [], buf => .ok buf
  | i :: is, buf => do
    match val2key mapping (← getInt conf i) with
    | some s =>
      let buf := buf ++ (if buf.length > 0 then [','] else []) ++ s
      if buf.length ≤ maxlen then writePrefs mapping conf maxlen is buf else .error .overrun
    | none => writePrefs mapping conf maxlen is buf

/-- `wprefs`, with the string that is stored -/
def wprefs (mapping : List KeyValWhere) (conf : Prefs) : Except Fault (List Char) := do
  let maxlen ← prefsLength mapping conf (List.range mapping.length) 0
  let buf ← writePrefs mapping conf maxlen (List.range mapping.length) []
  if buf.length = maxlen then return buf else .error .assertion

/-! ## What a preference list is -/

/-- The values from 0 on are those of the list. -/
def Holds (conf : Prefs) (l : List ℕ) : Prop := ∀ i < l.length, conf i = l[i]?

/-- The words between the commas -/
def commaWords (s : List Char) : List (List Char) := (s.splitOn ',').filter (· ≠ [])

/-- A value is added to the end unless it is there. -/
def addNew (l : List ℕ) (v : ℕ) : List ℕ := if v ∈ l then l else l ++ [v]

/-- The values of the known words, in the order of their first occurrence -/
def knownValues (mapping : List KeyValWhere) (s : List Char) : List ℕ :=
  ((commaWords s).filterMap (key2val mapping)).foldl addNew []

/-- The values of a mapping, each once, with the known ones of the string in their order -/
def Permutation (mapping : List KeyValWhere) (s : List Char) (conf : Prefs) : Prop :=
  ∃ l : List ℕ, Holds conf l ∧ l.Perm (mapping.map KeyValWhere.v) ∧ (knownValues mapping s).Sublist l

/-- Whatever was in the configuration, the string is read as a preference list. -/
def Correct (mapping : List KeyValWhere) (s : CString) : Prop :=
  ∀ conf, ∃ conf', gprefs mapping s conf = .ok conf' ∧ Permutation mapping s.chars conf'

/-- Every preference list is read back as it was written. -/
def Restores (mapping : List KeyValWhere) : Prop :=
  ∀ conf l old, Holds conf l → l.Perm (mapping.map KeyValWhere.v) →
    ∃ text : CString, wprefs mapping conf = .ok text.chars ∧ ∃ conf', gprefs mapping text old = .ok conf' ∧ Holds conf' l

/-- The preference lists that are saved -/
inductive PrefsSetting where
  | cipher
  | kex
deriving DecidableEq, Repr

def PrefsSetting.mapping : PrefsSetting → List KeyValWhere
  | cipher => ciphernames
  | kex => kexnames

end PuttyNd.Settings
