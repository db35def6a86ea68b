import PuttyNd.Storage.Text

/-!
# The host key database (`putty/filestore.c`, `putty/tmplstore.c`)

Lines in the host keys file are of the form `type@port:hostname keydata`. File operations succeed, so
that the temporary file and `rename` are left out: the new file replaces the old one.
-/

namespace PuttyNd.Storage

/-- The host key part of `IStore`, for a store whose state is a `σ`. -/
structure IStore (σ : Type) where
  verifyHostKey : σ → Text → ℤ → Text → Text → ℕ
  storeHostKey : σ → Text → ℤ → Text → Text → σ

namespace FileStore

/-- `if (strncmp(p, field, i)) goto done; p += i;` with `i = strlen(field)` -/
def skip (field p : Text) : Option Text :=
  if strncmp p field field.length then none else some (p.drop field.length)

/-- `if (*p != c) goto done; p++;` -/
def skipChar (c : Char) : Text → Option Text
  | [] => none
  | a :: p => if a = c then some p else none

/-- The key data of a line that is for this type, port and host. -/
def keydata (hostname : Text) (port : ℤ) (keytype line : Text) : Option Text := do
  let p := line.take (strcspn line '\n')
  let p ← skip keytype p
  let p ← skipChar '@' p
  let p ← skip (decimal port) p
  let p ← skipChar ':' p
  let p ← skip hostname p
  skipChar ' ' p

/-- The loop of `verify_host_key`. -/
def verifyLines (hostname : Text) (port : ℤ) (keytype key : Text) : List Text → ℕ
  | [] => 1
  | line :: rest =>
    match keydata hostname port keytype line with
    | none => verifyLines hostname port keytype key rest
    | some p => if p = key then 0 else 2

/-- `FileStore::verify_host_key`; the state is the host keys file, if there is one. -/
def verifyHostKey (file : Option Text) (hostname : Text) (port : ℤ) (keytype key : Text) : ℕ :=
  match file with
  | none => 1
  | some text => verifyLines hostname port keytype key (fgetlines text)

/-- `newtext` -/
def newtext (hostname : Text) (port : ℤ) (keytype key : Text) : Text :=
  keytype ++ '@' :: (decimal port ++ ':' :: (hostname ++ ' ' :: (key ++ ['\n'])))

/-- `FileStore::store_host_key` -/
def storeHostKey (file : Option Text) (hostname : Text) (port : ℤ) (keytype key : Text) :
    Option Text :=
  let newtext := newtext hostname port keytype key
  let headerlen := 1 + strcspn newtext ' '
  let kept :=
    match file with
    | none => []
    | some text => (fgetlines text).filter fun line => strncmp line newtext headerlen
  some (kept.flatten ++ newtext)

end FileStore

/-- `FileStore` -/
def fileStore : IStore (Option Text) where
  verifyHostKey := FileStore.verifyHostKey
  storeHostKey := FileStore.storeHostKey

/-- `TmplStore`; its `store_host_key` calls `verify_host_key` of the store below. -/
def tmplStore {σ : Type} (impl : IStore σ) : IStore σ where
  verifyHostKey := impl.verifyHostKey
  storeHostKey := fun s hostname port keytype key =>
    let _ := impl.verifyHostKey s hostname port keytype key
    s

/-! ## What the database is for -/

/-- A string without spaces and newlines. -/
abbrev Word := { s : Text // ∀ c ∈ s, c ≠ ' ' ∧ c ≠ '\n' }

/-- The arguments of a call. -/
structure HostKey where
  hostname : Word
  port : ℤ
  keytype : Word
  key : Word
deriving DecidableEq

namespace HostKey

/-- The calls are for the same type, port and host. -/
def SameHost (q c : HostKey) : Prop :=
  c.keytype = q.keytype ∧ c.port = q.port ∧ c.hostname = q.hostname

instance (q c : HostKey) : Decidable (SameHost q c) := inferInstanceAs (Decidable (_ ∧ _ ∧ _))

/-- The text before the space in the line of a call. -/
def header (c : HostKey) : Text := c.keytype ++ '@' :: (decimal c.port ++ ':' :: c.hostname)

end HostKey

/-- The last call for which `p` holds. -/
def lastCall (p : HostKey → Bool) (calls : List HostKey) : Option HostKey := (calls.filter p).getLast?

/-- What `verify_host_key` is to return when `stored` is the last call for the host. -/
def verdict (key : Word) : Option HostKey → ℕ
  | none => 1
  | some stored => if stored.key = key then 0 else 2

namespace IStore

variable {σ : Type} (S : IStore σ)

def store (s : σ) (c : HostKey) : σ := S.storeHostKey s c.hostname c.port c.keytype c.key

def verify (s : σ) (q : HostKey) : ℕ := S.verifyHostKey s q.hostname q.port q.keytype q.key

/-- After the calls, `verify_host_key` answers by the last key that was stored for exactly this host. -/
def Faithful (s : σ) (calls : List HostKey) (q : HostKey) : Prop :=
  S.verify (calls.foldl S.store s) q = verdict q.key (lastCall (q.SameHost ·) calls)

end IStore

/-- The last call whose line has the header of `q` gives the answer of the last call for the host. -/
def Unshadowed (calls : List HostKey) (q : HostKey) : Prop :=
  ∀ c, lastCall (·.header == q.header) calls = some c →
    ∃ c', lastCall (q.SameHost ·) calls = some c' ∧ (c.key = q.key ↔ c'.key = q.key)

end PuttyNd.Storage
