import PuttyNd.Storage.TmplStore

/-!
# Names of files and registry keys (`putty/filestore.c`, `putty/windows/winstore.c`)

`mungestr` of the registry is with the other functions on sessions. The characters of a name are bytes; a `char`
is signed.
-/

namespace PuttyNd.Storage

open WinRegStore

/-- The value of a `char` -/
def charValue (c : Char) : ℤ := if c.toNat < 128 then c.toNat else (c.toNat : ℤ) - 256

/-- What `unmungestr` takes as the value of a hexadecimal digit -/
def hexValue (c : Char) : ℤ :=
  let i := charValue c - 48
  i - if 9 < i then 7 else 0

/-- `(i << 4) + j`, as a `char` -/
def unmungeChar (a b : Char) : Char := Char.ofNat ((hexValue a * 16 + hexValue b) % 256).toNat

namespace FileStore

/-- A character that `mungestr` does not escape -/
def safe (c : Char) : Bool :=
  c == '+' || c == '-' || c == '.' || c == '@' || c == '_' || ('0' ≤ c && c ≤ '9') ||
    ('A' ≤ c && c ≤ 'Z') || ('a' ≤ c && c ≤ 'z')

def mungeChar (c : Char) : Text :=
  if safe c then [c] else ['%', hex (c.toNat / 16), hex (c.toNat % 16)]

def mungestr (s : Text) : Text := (if s = [] then DEFAULT_SESSION_NAME else s).flatMap mungeChar

def unmungestr : Text → Text
  | '%' :: a :: b :: s => unmungeChar a b :: unmungestr s
  | c :: s => c :: unmungestr s
  | [] => []

end FileStore

namespace WinRegStore

/-- What `unmungestr` writes to `out`, from its start on -/
def unmungestr : Text → ℤ → Text
  | '%' :: a :: b :: s, outlen => unmungeChar a b :: if outlen - 1 = 0 then [] else unmungestr s (outlen - 1)
  | c :: s, outlen => c :: if outlen - 1 = 0 then [] else unmungestr s (outlen - 1)
  | [], _ => ['\x00']

end WinRegStore

end PuttyNd.Storage
