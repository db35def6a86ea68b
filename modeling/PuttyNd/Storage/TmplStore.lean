import Mathlib.Data.List.Perm.Basic
import PuttyNd.Storage.Text

/-!
# Sessions that inherit (`putty/tmplstore.c`, `putty/windows/winstore.c`)

A `TmplStore` over the registry. The session `a#b#c` inherits from `a#b#`, `a#` and the default
session. Only what differs from the inherited value, or from the default value of a key that is not
inherited, is written.

The registry is a map from the names of keys to their values. `none` in place of a result means that
an assertion fails or that a name does not fit its buffer.
-/

namespace PuttyNd.Storage

/-- A value in the registry: `REG_SZ`, `REG_DWORD` or data of another type. -/
inductive RegValue where
  | sz (s : Text)
  | dword (value : Int32)
  | other (data : List UInt8)
deriving DecidableEq, Repr

namespace RegValue

/-- The size of the data; that of a string counts its NUL. -/
def size : RegValue → ℕ
  | sz s => s.length + 1
  | dword _ => 4
  | other data => data.length

/-- The text that `load_settings_to_tree234` makes of a value; a value of another type is passed over. -/
def text : RegValue → Option Text
  | sz s => some s
  | dword value => some (decimal value.toInt)
  | other _ => none

end RegValue

/-- The values of a key, with their names. -/
abbrev Values := List (Text × RegValue)

/-- `RegSetValueEx` -/
def setValue (vs : Values) (name : Text) (value : RegValue) : Values :=
  if name ∈ vs.map (·.1) then vs.map fun v => if v.1 = name then (name, value) else v
  else vs ++ [(name, value)]

/-- `RegEnumValue`: in which order the values of a key are enumerated. All of them are. -/
structure Registry where
  enumerate : Values → Values
  perm : ∀ vs, (enumerate vs).Perm vs

/-- The keys under `Sessions`, by their names in the registry. -/
abbrev Sessions := Text → Option Values

/-- `RegDeleteKey` and the like: the key becomes `vs`. -/
def Sessions.put (s : Sessions) (name : Text) (vs : Option Values) : Sessions :=
  fun a => if a = name then vs else s a

/-- `DEFAULT_SESSION_NAME` -/
def DEFAULT_SESSION_NAME : Text := "Default Settings".toList

/-- `DATA_VERSION` -/
def DATA_VERSION : Int32 := 2

namespace WinRegStore

/-- `hex` -/
def hex (n : ℕ) : Char := "0123456789ABCDEF".toList.getD n '0'

/-- Whether `mungestr` escapes a character. A `char` is signed, so that one above 127 is below a space. -/
def escaped (candot : Bool) (c : Char) : Bool :=
  c == ' ' || c == '\\' || c == '*' || c == '?' || c == '%' || c.toNat < 32 || 126 < c.toNat ||
    (c == '.' && !candot)

def mungeChar (candot : Bool) (c : Char) : Text :=
  if escaped candot c then ['%', hex (c.toNat / 16), hex (c.toNat % 16)] else [c]

def mungeFrom : Bool → Text → Text
  | _, [] => []
  | candot, c :: s => mungeChar candot c ++ mungeFrom true s

/-- `mungestr` -/
def mungestr (s : Text) : Text := mungeFrom false s

/-- `del_settings_only` -/
def delSettingsOnly (s : Sessions) (sessionname : Text) : Sessions := s.put (mungestr sessionname) none

end WinRegStore

open WinRegStore

/-- The `skeyval`s in a `tree234`. -/
abbrev Tree := List (Text × Text)

/-- `find234` -/
def Tree.find (tree : Tree) (key : Text) : Option Text := tree.lookup key

namespace WinRegStore

/-- The loop of `load_settings_to_tree234`, with `n` rounds left. It ends at a value whose name or data
does not fit the buffer. -/
def loadValues : ℕ → Values → Tree → Tree
  | 0, _, tree => tree
  | _, [], tree => tree
  | n + 1, (key, value) :: rest, tree =>
    if 1023 ≤ key.length ∨ 4096 < value.size then tree
    else
      match value.text with
      | none => loadValues n rest tree
      | some text =>
        match tree.find key with
        | some _ => loadValues n rest tree
        | none => loadValues n rest (tree ++ [(key, text)])

/-- `load_settings_to_tree234` -/
def loadSettingsToTree234 (R : Registry) (s : Sessions) (sessionname : Text) (tree : Tree) :
    Option Tree :=
  if sessionname = [] then some tree
  else if 4096 ≤ (mungestr sessionname).length then none
  else
    match s (mungestr sessionname) with
    | none => some tree
    | some vs => some (loadValues 10000 (R.enumerate vs) tree)

end WinRegStore

/-- The default-value maps. -/
structure DefaultValues where
  str : Text → Option Text
  int : Text → Option Int32

/-- `WriteHandler` -/
structure WriteHandler where
  parentConf : Option Tree
  implStoreHandle : Text

/-- What the calls between `open_settings_w` and `close_settings_w` change. -/
structure WriteState where
  autoCmdWritten : Bool
  sessions : Sessions

/-- `RegSetValueEx` on the key of the session. -/
def WriteState.regSetValueEx (st : WriteState) (hkey key : Text) (value : RegValue) : WriteState :=
  { st with sessions := st.sessions.put hkey (some (setValue ((st.sessions hkey).getD []) key value)) }

theorem strrchr_length {c : Char} {s before : Text} (h : strrchr c s = some before) :
    before.length < s.length := by
  induction s generalizing before with
  | nil => cases h
  | cons a s ih =>
    rw [strrchr] at h
    cases hrest : strrchr c s with
    | some before' =>
      rw [hrest] at h
      cases h
      simpa using ih hrest
    | none =>
      simp only [hrest] at h
      split at h
      · cases h
        simp
      · cases h

namespace TmplStore

/-- The loop of `open_settings_r` over the ancestors. -/
def loadParents (R : Registry) (s : Sessions) (loadingSession : Text) (tree : Tree) : Option Tree :=
  match _h : strrchr '#' loadingSession with
  | none => some tree
  | some before => do
    let tree ← loadSettingsToTree234 R s (before ++ ['#']) tree
    loadParents R s before tree
termination_by loadingSession.length
decreasing_by exact strrchr_length _h

/-- `open_settings_r` -/
def openSettingsR (R : Registry) (s : Sessions) (sessionname : Text) : Option Tree :=
  if 4096 ≤ sessionname.length then none
  else do
    let tree ← loadSettingsToTree234 R s sessionname []
    let tree ← loadParents R s sessionname.dropLast tree
    if sessionname ≠ DEFAULT_SESSION_NAME then loadSettingsToTree234 R s DEFAULT_SESSION_NAME tree
    else some tree

/-- `open_settings_w`; there is no handle for the empty name. -/
def openSettingsW (R : Registry) (s : Sessions) (sessionname : Text) :
    Option (Sessions × Option WriteHandler) :=
  if sessionname = [] then some (s, none)
  else
    let hkey := mungestr sessionname
    let s := s.put hkey (some ((s hkey).getD []))
    if sessionname = DEFAULT_SESSION_NAME then some (s, some ⟨none, hkey⟩)
    else if 4096 ≤ sessionname.length then none
    else
      match strrchr '#' sessionname.dropLast with
      | some before => do
        let parentConf ← openSettingsR R s (before ++ ['#'])
        some (s, some ⟨some parentConf, hkey⟩)
      | none => do
        let parentConf ← openSettingsR R s DEFAULT_SESSION_NAME
        some (s, some ⟨some parentConf, hkey⟩)

/-- The value of a string is inherited: the parent has it, or it is the default value of a key that the
parent does not have. -/
def inheritsS (D : DefaultValues) (inherited : Option Text) (key value : Text) : Bool :=
  match inherited with
  | some text => text == value
  | none => D.str key == some value

/-- The same for an integer. -/
def inheritsI (D : DefaultValues) (inherited : Option Text) (key : Text) (value : Int32) : Bool :=
  match inherited with
  | some text => atoi text == value
  | none => D.int key == some value

/-- `is_auto_cmd_key` -/
def isAutoCmdKey (key : Text) : Bool := "Autocmd".toList.isPrefixOf key

/-- The integers that are written also when they are inherited. -/
def isException (autoCmdWritten : Bool) (key : Text) : Bool :=
  key == "GroupCollapse".toList || (autoCmdWritten &&
    ("AutocmdEncrypted".toList.isPrefixOf key || "AutocmdHide".toList.isPrefixOf key))

/-- `write_setting_s` -/
def writeSettingS (D : DefaultValues) (handle : Option WriteHandler) (key value : Text)
    (st : WriteState) : WriteState :=
  let st := if isAutoCmdKey key then { st with autoCmdWritten := false } else st
  match handle with
  | none => st
  | some hd =>
    if inheritsS D (hd.parentConf.bind (·.find key)) key value then st
    else
      let st := if isAutoCmdKey key then { st with autoCmdWritten := true } else st
      st.regSetValueEx hd.implStoreHandle key (.sz value)

/-- `write_setting_i` -/
def writeSettingI (D : DefaultValues) (handle : Option WriteHandler) (key : Text) (value : Int32)
    (st : WriteState) : WriteState :=
  match handle with
  | none => st
  | some hd =>
    if isException st.autoCmdWritten key then st.regSetValueEx hd.implStoreHandle key (.dword value)
    else if inheritsI D (hd.parentConf.bind (·.find key)) key value then st
    else st.regSetValueEx hd.implStoreHandle key (.dword value)

/-- `close_settings_w` -/
def closeSettingsW (handle : Option WriteHandler) (st : WriteState) : WriteState :=
  match handle with
  | none => st
  | some hd => st.regSetValueEx hd.implStoreHandle "DataVersion".toList (.dword DATA_VERSION)

/-- `IStore::read_setting_s`, with its buffer of 1024 characters. -/
def readSettingS (tree : Tree) (key : Text) : Option Text := (tree.find key).map (·.take 1023)

/-- `read_setting_i` -/
def readSettingI (tree : Tree) (key : Text) (defvalue : Int32) : Int32 :=
  match tree.find key with
  | none => defvalue
  | some val => atoi val

end TmplStore

/-! ## What a session is written and read for -/

/-- A call of `write_setting_s` or `write_setting_i`. -/
inductive Setting where
  | str (key value : Text)
  | int (key : Text) (value : Int32)
deriving DecidableEq, Repr

namespace Setting

def key : Setting → Text
  | str key _ => key
  | int key _ => key

def regValue : Setting → RegValue
  | str _ value => .sz value
  | int _ value => .dword value

def write (D : DefaultValues) (handle : Option WriteHandler) (st : WriteState) : Setting → WriteState
  | str key value => TmplStore.writeSettingS D handle key value st
  | int key value => TmplStore.writeSettingI D handle key value st

/-- What is read for the key is the value of the setting, or the key is absent and the value is the
default value. -/
def Read (D : DefaultValues) (tree : Tree) : Setting → Prop
  | str key value =>
    TmplStore.readSettingS tree key = some value ∨
      TmplStore.readSettingS tree key = none ∧ D.str key = some value
  | int key value =>
    (∀ defvalue, TmplStore.readSettingI tree key defvalue = value) ∨
      (∀ defvalue, TmplStore.readSettingI tree key defvalue = defvalue) ∧ D.int key = some value

/-- A string is short enough for the buffer of `IStore::read_setting_s`. -/
def Short : Setting → Prop
  | str _ value => value.length ≤ 1023
  | int _ _ => True

end Setting

/-- The name of a session: a string of bytes. -/
abbrev SessionName := { s : Text // ∀ c ∈ s, c.toNat < 256 }

/-- The settings of a session: one for each key, with keys of up to 255 characters (`storage.h`). -/
structure Settings where
  list : List Setting
  distinct : (list.map Setting.key).Nodup
  short : ∀ w ∈ list, w.key.length ≤ 255

/-- The session is written after `del_settings_only`. -/
def saveSession (R : Registry) (D : DefaultValues) (st : WriteState) (name : Text)
    (settings : List Setting) : Option WriteState := do
  let (s, handle) ← TmplStore.openSettingsW R (delSettingsOnly st.sessions name) name
  some (TmplStore.closeSettingsW handle
    (settings.foldl (Setting.write D handle) { st with sessions := s }))

/-- What `open_settings_r` reads after the session was written answers every setting. -/
def Transparent (R : Registry) (D : DefaultValues) (st : WriteState) (name : Text)
    (settings : List Setting) : Prop :=
  ∃ st' tree, saveSession R D st name settings = some st' ∧
    TmplStore.openSettingsR R st'.sessions name = some tree ∧ ∀ w ∈ settings, w.Read D tree

/-- The settings that are not inherited, as the values that are written for them. -/
def storedValues (D : DefaultValues) (parent : Tree) : Bool → List Setting → Values
  | _, [] => []
  | autoCmdWritten, .str key value :: rest =>
    if TmplStore.inheritsS D (parent.find key) key value then
      storedValues D parent (autoCmdWritten && !TmplStore.isAutoCmdKey key) rest
    else (key, .sz value) :: storedValues D parent (autoCmdWritten || TmplStore.isAutoCmdKey key) rest
  | autoCmdWritten, .int key value :: rest =>
    if !TmplStore.isException autoCmdWritten key && TmplStore.inheritsI D (parent.find key) key value then
      storedValues D parent autoCmdWritten rest
    else (key, .dword value) :: storedValues D parent autoCmdWritten rest

/-- The values of the session, with the version that `close_settings_w` adds. There is no session with the
empty name. -/
def ownValues (D : DefaultValues) (parent : Tree) (autoCmdWritten : Bool) (name : Text)
    (settings : List Setting) : Values :=
  if name = [] then []
  else
    setValue (storedValues D parent autoCmdWritten settings) "DataVersion".toList (.dword DATA_VERSION)

/-- A value is among those that the loop over the values of a key comes to. -/
def Reached (R : Registry) (own : Values) (key : Text) : Prop :=
  key ∈ ((R.enumerate own).take 10000).map (·.1)

namespace Setting

/-- The value is that of `DATA_VERSION`. -/
def IsVersion : Setting → Prop
  | str _ value => value = ['2']
  | int _ value => value = DATA_VERSION

/-- When a setting is read back: its own value if the session has one, else what is inherited. -/
def Answered (R : Registry) (D : DefaultValues) (parent : Tree) (own : Values) (w : Setting) : Prop :=
  (Reached R own w.key ∧ w.Short ∧ (w.key = "DataVersion".toList → w.IsVersion)) ∨
    (¬ Reached R own w.key ∧ w.Read D parent)

end Setting

end PuttyNd.Storage
