import PuttyNd.Psftp.Marshal
import Mathlib.Logic.Function.Basic

/-!
# Negotiating the algorithms of a key exchange (`psftp/ssh2transport.c`, `psftp/sshcommon.c`)

The methods of an algorithm (`ssh_kex`, `ssh_keyalg`, ...) are one object for each algorithm in the
source: here it is a record of what the negotiation reads of it.
-/

namespace PuttyNd.Transport

open Psftp

/-- A name in a list of a KEXINIT packet -/
abbrev Name := List UInt8

/-- The bytes of a text -/
def ascii (s : String) : Name := s.toList.map fun c => UInt8.ofNat c.toNat

/-- `KEXTYPE_DH`, ... -/
inductive KexType where
  | dh | rsa | ecdh | gss
deriving DecidableEq

structure SshKex where
  name : Name
  mainType : KexType
deriving DecidableEq

structure SshKeyalg where
  sshId : Name
  cacheId : Name
deriving DecidableEq

structure Ssh2Macalg where
  name : Name
  etmName : Option Name
deriving DecidableEq

structure SshCipheralg where
  ssh2Id : Name
  requiredMac : Option Ssh2Macalg
deriving DecidableEq

structure SshCompressionAlg where
  name : Name
deriving DecidableEq

/-- `ssh2_hostkey_algs`, of which only the algorithms are used here -/
def ssh2HostkeyAlgs : List SshKeyalg :=
  [⟨ascii "ssh-ed25519", ascii "ssh-ed25519"⟩,
   ⟨ascii "ecdsa-sha2-nistp256", ascii "ecdsa-sha2-nistp256"⟩,
   ⟨ascii "ecdsa-sha2-nistp384", ascii "ecdsa-sha2-nistp384"⟩,
   ⟨ascii "ecdsa-sha2-nistp521", ascii "ecdsa-sha2-nistp521"⟩,
   ⟨ascii "ssh-dss", ascii "dss"⟩,
   ⟨ascii "ssh-rsa", ascii "rsa2"⟩]

/-- `enum kexlist`: the indices of the negotiation strings in the KEXINIT packet -/
inductive KexList where
  | kex | hostkey | cscipher | sccipher | csmac | scmac | cscomp | sccomp
deriving DecidableEq

namespace KexList

/-- The lists in the order of the packet, `NKEXLIST` of them -/
def all : List KexList := [kex, hostkey, cscipher, sccipher, csmac, scmac, cscomp, sccomp]

/-- `kexlist_descr` -/
def descr : KexList → String
  | kex => "key exchange algorithm"
  | hostkey => "host key algorithm"
  | cscipher => "client-to-server cipher"
  | sccipher => "server-to-client cipher"
  | csmac => "client-to-server MAC"
  | scmac => "server-to-client MAC"
  | cscomp => "client-to-server compression method"
  | sccomp => "server-to-client compression method"

/-- The member of the union `u` that the entries of a list use. The `bool` beside an algorithm is `warn`,
`etm` or `delayed`. The host key algorithm of the entry "null" is a null pointer. -/
abbrev Data : KexList → Type
  | kex => SshKex × Bool
  | hostkey => Option SshKeyalg × Bool
  | cscipher | sccipher => SshCipheralg × Bool
  | csmac | scmac => Ssh2Macalg × Bool
  | cscomp | sccomp => SshCompressionAlg × Bool

end KexList

def MAXKEXLIST : ℕ := 16

/-- `struct kexinit_algorithm`. The name of an unused entry is a null pointer. -/
structure KexinitAlgorithm (i : KexList) where
  name : Option Name
  u : i.Data

/-- `kexlists` -/
abbrev KexLists := (i : KexList) → List (KexinitAlgorithm i)

/-- `transport_direction`, as far as it is negotiated -/
structure TransportDirection where
  cipher : Option SshCipheralg := none
  mac : Option Ssh2Macalg := none
  etmMode : Bool := false
  comp : Option SshCompressionAlg := none
  compDelayed : Bool := false
deriving DecidableEq

/-- The variables of the transport layer in which the negotiation leaves the algorithms -/
structure Algorithms where
  kexAlg : Option SshKex := none
  hostkeyAlg : Option SshKeyalg := none
  cs : TransportDirection := {}
  sc : TransportDirection := {}
  warnKex : Bool := false
  warnHk : Bool := false
  warnCscipher : Bool := false
  warnSccipher : Bool := false
deriving DecidableEq

/-- The errors that end the connection -/
inductive KexinitError where
  /-- `"KEXINIT packet was incomplete"` -/
  | incomplete
  /-- `"Selected %s \"%.*s\" does not correspond to any supported algorithm"` -/
  | unsupported (i : KexList) (found : Name)
  /-- `"Couldn't agree a %s (available: %.*s)"` -/
  | notAgreed (i : KexList) (available : List UInt8)
deriving DecidableEq

/-! ## Lists of names -/

def comma : UInt8 := 44

/-- `get_commasep_word`: the next word, and what is left of the list -/
def getCommasepWord (list : List UInt8) : Option (Name × List UInt8) :=
  match list.dropWhile (· = comma) with
  | [] => none
  | c :: rest => some ((c :: rest).takeWhile (· ≠ comma), ((c :: rest).dropWhile (· ≠ comma)).tail)

theorem getCommasepWord_lt {list rest : List UInt8} {word : Name}
    (h : getCommasepWord list = some (word, rest)) : rest.length < list.length := by
  unfold getCommasepWord at h
  have hle := (List.dropWhile_suffix (l := list) (· = comma)).length_le
  split at h
  · cases h
  case _ c rest' heq =>
    rw [heq] at hle
    simp only [Option.some.injEq, Prod.mk.injEq] at h
    rw [← h.2]
    have htail := (List.dropWhile_suffix (l := c :: rest') (· ≠ comma)).length_le
    rw [List.length_tail]
    rw [List.length_cons] at hle htail
    omega

/-- The words that a loop over `get_commasep_word` gets -/
def commasepWords (list : List UInt8) : List Name :=
  match _h : getCommasepWord list with
  | none => []
  | some (word, rest) => word :: commasepWords rest
termination_by list.length
decreasing_by exact getCommasepWord_lt ‹_›

/-- The loop over the server's words: whether there is a match, and then `sfirst` -/
def matchServer (cword : Name) (sfirst : Bool) : List Name → Option Bool
  | [] => none
  | sword :: rest => if cword = sword then some sfirst else matchServer cword false rest

/-- The loop over the client's words: `found`, `cfirst` and `sfirst` -/
def matchClient (slist : List Name) (cfirst : Bool) : List Name → Option (Name × Bool × Bool)
  | [] => none
  | cword :: rest =>
    match matchServer cword true slist with
    | some sfirst => some (cword, cfirst, sfirst)
    | none => matchClient slist false rest

/-! ## `ssh2_scan_kexinits` -/

/-- The local variables of `ssh2_scan_kexinits` -/
structure Scan where
  client : BinarySource
  server : BinarySource
  guessCorrect : Bool
  slists : KexList → List UInt8
  selected : (i : KexList) → Option (KexinitAlgorithm i)

/-- The body of the loop that finds the matching string in each list -/
def scanList (kexlists : KexLists) (s : Scan) (i : KexList) : Except KexinitError Scan :=
  let (clist, client) := getString s.client
  let (slist, server) := getString s.server
  let s := { s with client, server, slists := Function.update s.slists i slist }
  if client.err || server.err then .error .incomplete
  else match matchClient (commasepWords slist) true (commasepWords clist) with
    | none => .ok { s with selected := Function.update s.selected i none, guessCorrect := false }
    | some (found, cfirst, sfirst) =>
      match (kexlists i).find? fun alg => alg.name = some found with
      | none => .error (.unsupported i found)
      | some alg =>
        .ok { s with
          selected := Function.update s.selected i (some alg)
          guessCorrect :=
            if (i = .kex ∨ i = .hostkey) ∧ ¬ (cfirst || sfirst) then false else s.guessCorrect }

/-- The MAC that the cipher of a direction requires -/
def TransportDirection.requiredMac (d : TransportDirection) : Option Ssh2Macalg :=
  d.cipher.bind (·.requiredMac)

/-- Select the MAC that the cipher requires. -/
def TransportDirection.setRequiredMac (d : TransportDirection) (mac : Ssh2Macalg) :
    TransportDirection :=
  { d with mac := some mac, etmMode := mac.etmName.isSome }

/-- The `switch` that stores the algorithm of a list -/
def Algorithms.store (a : Algorithms) : (i : KexList) → i.Data → Algorithms
  | .kex, (kex, warn) => { a with kexAlg := some kex, warnKex := warn }
  | .hostkey, (hostkey, warn) =>
    -- an offer of "null" is ignored, unless it comes with a GSS key exchange
    if hostkey = none ∧ a.kexAlg.map (·.mainType) ≠ some .gss then a
    else { a with hostkeyAlg := hostkey, warnHk := warn }
  | .cscipher, (cipher, warn) =>
    { a with cs := { a.cs with cipher := some cipher }, warnCscipher := warn }
  | .sccipher, (cipher, warn) =>
    { a with sc := { a.sc with cipher := some cipher }, warnSccipher := warn }
  | .csmac, (mac, etm) => { a with cs := { a.cs with mac := some mac, etmMode := etm } }
  | .scmac, (mac, etm) => { a with sc := { a.sc with mac := some mac, etmMode := etm } }
  | .cscomp, (comp, delayed) => { a with cs := { a.cs with comp := some comp, compDelayed := delayed } }
  | .sccomp, (comp, delayed) => { a with sc := { a.sc with comp := some comp, compDelayed := delayed } }

/-- The algorithms once the MAC of a list is implied by the cipher, if it is. -/
def Algorithms.implied (a : Algorithms) : KexList → Option Algorithms
  | .csmac => a.cs.requiredMac.map fun mac => { a with cs := a.cs.setRequiredMac mac }
  | .scmac => a.sc.requiredMac.map fun mac => { a with sc := a.sc.setRequiredMac mac }
  | _ => none

/-- The body of the loop that transcribes the selected algorithms -/
def transcribe (s : Scan) (a : Algorithms) (i : KexList) : Except KexinitError Algorithms :=
  match a.implied i with
  | some a' => .ok a'
  | none =>
    match s.selected i with
    | none => .error (.notAgreed i (s.slists i))
    | some alg => .ok (a.store i alg.u)

/-- The pass over the server's host key list: the indices written to `server_hostkeys` -/
def serverHostkeys (list : List UInt8) : List ℕ :=
  (commasepWords list).filterMap fun word => ssh2HostkeyAlgs.findIdx? (·.sshId = word)

/-- What `ssh2_scan_kexinits` leaves in its out-parameters -/
structure Agreement where
  algorithms : Algorithms
  ignoreGuessCsPacket : Bool
  ignoreGuessScPacket : Bool
  serverHostkeys : List ℕ

/-- Skip the language strings, and read the flag that says whether a guessed packet follows. -/
def getFirstKexPacketFollows (src : BinarySource) : Bool :=
  (getBool (getString (getString src).2).2).1

def ssh2ScanKexinits (clientKexinit serverKexinit : List UInt8) (kexlists : KexLists)
    (a : Algorithms) : Except KexinitError Agreement := do
  let s ← KexList.all.foldlM (scanList kexlists)
    { client := (avail ⟨clientKexinit, false⟩ (1 + 16)).2
      server := (avail ⟨serverKexinit, false⟩ (1 + 16)).2
      guessCorrect := true
      slists := fun _ => []
      selected := fun _ => none }
  let a ← KexList.all.foldlM (transcribe s) a
  pure
    { algorithms := a
      ignoreGuessCsPacket := getFirstKexPacketFollows s.client && !s.guessCorrect
      ignoreGuessScPacket := getFirstKexPacketFollows s.server && !s.guessCorrect
      serverHostkeys := serverHostkeys (s.slists .hostkey) }

end PuttyNd.Transport
