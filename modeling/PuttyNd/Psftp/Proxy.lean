import Mathlib.Data.Int.Notation
import Mathlib.Data.List.Basic
import PuttyNd.Lib.Memory

/-!
# Whether a connection is made through a proxy (`proxy_for_destination` in `psftp/proxy.c`)

Strings are the lists of their characters before the NUL. What the network code says about an address is given.
-/

namespace PuttyNd.Psftp

open Memory

/-- A `SockAddr`, with the text that `sk_getaddr` writes for it -/
structure ProxyAddr where
  isSpecialLocal : Bool
  isLocal : Bool
  text : List Char

/-- `isspace` in the C locale -/
def isspace (c : Char) : Bool := c == ' ' || ('\t' ≤ c && c ≤ '\r')

/-- What is between entries -/
def isSeparator (c : Char) : Bool := isspace c || c == ','

/-- What an entry is made of -/
def isEntryChar (c : Char) : Bool := c.isAlphanum || c == '-' || c == '.' || c == '*'

/-- Whether `strnicmp` gives 0. A negative length is converted to one that no string has. -/
def strnicmpEq (a b : List Char) (n : ℤ) : Bool :=
  if n < 0 then a.map Char.toLower == b.map Char.toLower
  else (a.take n.toNat).map Char.toLower == (b.take n.toNat).map Char.toLower

/-- `a + i`, which must be in the string -/
def pointInto (a : List Char) (i : ℤ) : Except Fault (List Char) :=
  if 0 ≤ i ∧ i ≤ a.length then .ok (a.drop i.toNat) else .error .overrun

/-- `while (list[s] && p(list[s])) s++` -/
def skipWhile (p : Char → Bool) (list : List Char) (s : ℕ) : ℕ := s + ((list.drop s).takeWhile p).length

/-- Whether the entry from `s` to `e` begins with a wildcard and matches -/
def suffixTest (text list : List Char) (s e : ℕ) : Except Fault Bool := do
  let n : ℤ := e - s - 1
  let p ← pointInto text (text.length - n)
  .ok (strnicmpEq p (list.drop (s + 1)) n)

/-- The tests of one entry -/
def testEntry (hostip : Option (List Char)) (hostname list : List Char) (s e : ℕ) : Except Fault Bool :=
  if list[s]? = some '*' then do
    let ip ←
      match hostip with
      | none => .ok false
      | some ip => suffixTest ip list s e
    if ip then .ok true else suffixTest hostname list s e
  -- `exclude_list[e-1]`
  else if e = 0 then .error .overrun
  else if list[e - 1]? = some '*' then
    let n : ℤ := e - s - 1
    .ok ((hostip.any fun ip => strnicmpEq ip (list.drop s) n) || strnicmpEq hostname (list.drop s) n)
  else
    let n : ℤ := e - s
    .ok ((hostip.any fun ip => strnicmpEq ip (list.drop s) n) || strnicmpEq hostname (list.drop s) n)

def excludeLoop (hostip : Option (List Char)) (hostname list : List Char) : ℕ → ℕ → Except Fault Bool
  | 0, _ => .error .endlessLoop
  | fuel + 1, s =>
    if list.length ≤ s then .ok true
    else
      let s := skipWhile isSeparator list s
      if list.length ≤ s then .ok true
      else do
        let e := skipWhile isEntryChar list s
        let excluded ← testEntry hostip hostname list s e
        if excluded then .ok false
        else excludeLoop hostip hostname list fuel (skipWhile (fun c => !isSeparator c) list e)

/-- `proxy_for_destination`, where `hostLocal` is what `sk_hostname_is_local` says about the host name -/
def proxyForDestination (addr : Option ProxyAddr) (hostname : List Char) (hostLocal evenLocalhost : Bool)
    (list : List Char) : Except Fault Bool :=
  if addr.any ProxyAddr.isSpecialLocal then .ok false
  else if !evenLocalhost && (hostLocal || addr.any ProxyAddr.isLocal) then .ok false
  else excludeLoop (addr.map ProxyAddr.text) hostname list (list.length + 1) 0

end PuttyNd.Psftp
