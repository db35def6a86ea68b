import PuttyNd.Storage.TmplStore

/-!
# One setting of a session (`TmplStore::load_ssetting` in `putty/tmplstore.c`)

The setting is looked up in the registry (`WinRegStore` in `putty/windows/winstore.c`) from session to session, and
not in the settings that `open_settings_r` collects.
-/

namespace PuttyNd.Storage

/-- `platform_default_s` in `putty/windows/windefs.c` -/
def platformDefaultS (name : Text) : Option Text :=
  if name = "SerialLine".toList then some "COM1".toList else none

namespace WinRegStore

/-- `WinRegStore::open_settings_r`; the handle is that of a key in the registry, if it is there. -/
def openSettingsR (s : Sessions) (sessionname : Text) : Option Values :=
  s (mungestr (if sessionname = [] then DEFAULT_SESSION_NAME else sessionname))

/-- `WinRegStore::read_setting_s` -/
def readSettingS (handle : Option Values) (key : Text) (buflen : ℕ) : Option Text :=
  match handle.bind (·.lookup key) with
  | some (.sz text) => if (RegValue.sz text).size ≤ buflen then some text else none
  | _ => none

end WinRegStore

/-- `load_ssettings_from_impl`, with the buffer of 1024 characters -/
def loadSsettingsFromImpl (s : Sessions) (sectionName name : Text) : Option Text :=
  WinRegStore.readSettingS (WinRegStore.openSettingsR s sectionName) name 1024

namespace TmplStore

/-- The loop of `load_ssetting`: the value, and what is then left in `loading_session` -/
def loadFromParents (s : Sessions) (setting loadingSession : Text) : Option Text × Text :=
  match _h : strrchr '#' loadingSession with
  | none => (none, loadingSession)
  | some before =>
    match loadSsettingsFromImpl s (before ++ ['#']) setting with
    | some ret => (some ret, before ++ ['#'])
    | none => loadFromParents s setting before
termination_by loadingSession.length
decreasing_by exact strrchr_length _h

/-- `load_ssetting`; the section may be `NULL`. -/
def loadSsetting (s : Sessions) (sectionName : Option Text) (setting : Text) (defaultValue : Option Text) :
    Option (Option Text) :=
  let name := sectionName.getD DEFAULT_SESSION_NAME
  if 4096 ≤ name.length then none
  else
    match loadSsettingsFromImpl s name setting with
    | some ret => some (some ret)
    | none =>
      let r := loadFromParents s setting name.dropLast
      match r.1 with
      | some ret => some (some ret)
      | none =>
        match if name ≠ DEFAULT_SESSION_NAME then loadSsettingsFromImpl s r.2 setting else none with
        | some ret => some (some ret)
        | none =>
          match platformDefaultS setting with
          | some ret => some (some ret)
          | none => some defaultValue

/-- `open_settings_r` and `read_setting_s`; `NULL` is taken for the default session. -/
def openAndRead (R : Registry) (s : Sessions) (sectionName : Option Text) (key : Text) : Option (Option Text) :=
  (TmplStore.openSettingsR R s (sectionName.getD DEFAULT_SESSION_NAME)).map fun tree => readSettingS tree key

end TmplStore

/-- The registry, with values that fit the buffers and the loop they are read with. -/
structure Store where
  sessions : Sessions
  distinct : ∀ key vs, sessions key = some vs → (vs.map (·.1)).Nodup
  few : ∀ key vs, sessions key = some vs → vs.length ≤ 10000
  short : ∀ key vs, sessions key = some vs → ∀ v ∈ vs, v.1.length < 1023 ∧ v.2.size ≤ 1024

end PuttyNd.Storage
