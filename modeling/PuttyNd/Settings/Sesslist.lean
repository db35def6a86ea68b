import Mathlib.Data.Char
import Mathlib.Data.List.Lex
import PuttyNd.Lib.Search
import PuttyNd.Storage.TmplStore

/-!
# Groups of sessions (`get_sesslist` and `for_grouped_session_do` in `putty/settings.c`)

The sessions are given by their names, in the order in which the storage enumerates them. `qsort` puts a list in the
order of the comparison.
-/

namespace PuttyNd.Settings

open PuttyNd.Storage

/-- A `strcmp`: only the sign of the result is specified. -/
structure Strcmp where
  cmp : Text → Text → ℤ
  eq_zero (a b : Text) : cmp a b = 0 ↔ a = b
  neg (a b : Text) : cmp a b < 0 ↔ a < b

def ANDROID_DIR_FOLDER_NAME : Text := "Android Device#".toList

def START_LOCAL_SSH_SERVER_NAME : Text := "Android Device#_start_localhost_sshserver_in_git".toList

def LOCAL_SSH_SESSION_NAME : Text := "Android Device#_localhost".toList

def GLOBAL_SESSION_NAME : Text := "Global Settings".toList

variable (S : Strcmp)

/-- `memcmp` with the name of the folder says that the string begins with it; a shorter one differs at its NUL. -/
def inAndroidDir (a : Text) : Bool := !strncmp a ANDROID_DIR_FOLDER_NAME ANDROID_DIR_FOLDER_NAME.length

def sessioncmp (a b : Text) : ℤ :=
  let ret := S.cmp a b
  if ret = 0 then 0
  else if a = DEFAULT_SESSION_NAME then -1
  else if b = DEFAULT_SESSION_NAME then 1
  else if a = GLOBAL_SESSION_NAME then -1
  else if b = GLOBAL_SESSION_NAME then 1
  else if a = ANDROID_DIR_FOLDER_NAME then -1
  else if b = ANDROID_DIR_FOLDER_NAME then 1
  else if inAndroidDir a && !inAndroidDir b then -1
  else if !inAndroidDir a && inAndroidDir b then 1
  else ret

def predefinedSessions : List Text :=
  [GLOBAL_SESSION_NAME, DEFAULT_SESSION_NAME, ANDROID_DIR_FOLDER_NAME, START_LOCAL_SSH_SERVER_NAME,
    LOCAL_SSH_SESSION_NAME]

/-- `is_pre_defined_session` -/
def isPreDefinedSession (name : Text) : Bool := name ∈ predefinedSessions

/-- `get_sesslist`. In the buffer, an empty name would be the end. -/
def getSesslist (stored : List Text) : List Text :=
  (predefinedSessions ++ (stored.takeWhile (· ≠ [])).filter fun name => !isPreDefinedSession name).mergeSort
    fun a b => decide (sessioncmp S a b ≤ 0)

/-- `lower_bound_in_sesslist` -/
def lowerBoundInSesslist (list : List Text) (session : Text) : ℕ :=
  LowerBound.search (fun it => decide (sessioncmp S (list.getD it []) session = -1)) 0 list.length

variable {σ : Type} (handler : σ → Text → Bool × σ)

/-- The loop over the sessions of a group: the state of the handler, the number of successes and the calls -/
def groupLoop (group : Text) (maxNum : ℤ) : σ → ℕ → List Text → σ × ℕ × List Text
  | s, success, [] => (s, success, [])
  | s, success, sub :: rest =>
    if sub = group then groupLoop group maxNum s success rest
    else if strncmp sub group group.length then (s, success, [])
    else
      let (ok, s) := handler s sub
      let success := if ok then success + 1 else success
      if maxNum ≤ success then (s, success, [sub])
      else
        let (s, success, calls) := groupLoop group maxNum s success rest
        (s, success, sub :: calls)

/-- `for_grouped_session_do` -/
def forGroupedSessionDo (stored : List Text) (group : Text) (s : σ) (maxNum : ℤ) : σ × ℕ × List Text :=
  if group ≠ [] ∧ group.getLast? = some '#' then
    let sesslist := getSesslist S stored
    groupLoop handler group maxNum s 0 (sesslist.drop (lowerBoundInSesslist S sesslist group))
  else
    let (ok, s) := handler s group
    (s, if ok then 1 else 0, [group])

end PuttyNd.Settings
