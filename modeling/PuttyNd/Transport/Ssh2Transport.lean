import PuttyNd.Transport.Kexinit
import PuttyNd.Transport.Limits
import Mathlib.Data.Int.Notation

/-!
# The SSH-2 transport layer (`psftp/ssh2transport.c`, `psftp/ssh2kex-client.c`)

The layer is a coroutine between two pairs of packet queues. What its callers and the other files do is
an argument: the packets, the answers of the user, what `ssh2_write_kexinit_lists` writes, and how the key
exchange method talks to the other side up to the host key it ends with.

`wire`, `keys` and `counts` are histories that the code does not keep.
-/

namespace PuttyNd.Transport

open Psftp

variable {w : ℕ}

/-! ## Data types -/

/-- The message types that the transport layer knows -/
def msgDisconnect : ℕ := 1
def msgIgnore : ℕ := 2
def msgDebug : ℕ := 4
def msgServiceRequest : ℕ := 5
def msgServiceAccept : ℕ := 6
def msgNewkeys : ℕ := 21

/-- An incoming packet: its type, and the rest of its payload -/
structure PktIn where
  type : ℕ
  data : List UInt8
deriving DecidableEq

structure PktOut where
  type : ℕ
  data : List UInt8
deriving DecidableEq

/-- What the transport layer reads of a `Conf` to decide on a repeat key exchange -/
structure Conf where
  sshRekeyData : List UInt8
  compression : Bool
  sshCipherlist : List ℤ
  ssh2DesCbc : Bool
deriving DecidableEq

/-- `RekeyClass`. The first key exchange has no class of its own here, as `RK_INITIAL` is not used. -/
inductive RekeyClass where
  | none | server | normal | postUserauth | gssUpdate
deriving DecidableEq

/-- An `ssh_key`: its algorithm, and `ssh_key_cache_str` -/
structure HostKey where
  alg : SshKeyalg
  cacheStr : Name
deriving DecidableEq

/-- What a key exchange method does, up to the checks that all methods share. At its end, `hkey` may be a
null pointer, and `verified` says whether the signature or the MIC is right. -/
inductive KexMethod where
  | pop (next : PktIn → KexMethod)
  | push (pkt : PktOut) (next : KexMethod)
  | abort
  | done (hkey : Option HostKey) (verified : Bool)

/-- The algorithms that the user may have to be warned of -/
inductive Weak where
  | kex | hk | cscipher | sccipher
deriving DecidableEq

/-- `crStateKex`: where the coroutine of the key exchange waits -/
inductive CrStateKex where
  | method (m : KexMethod)
  /-- for the user to accept the host key -/
  | verify (key : HostKey)

/-- `crState`: where the coroutine of the transport layer waits -/
inductive CrState where
  | start
  | kexinit
  /-- for the answer to a warning, with the warnings that may come after it -/
  | confirm (rest : List Weak)
  | ignored
  | kex (k : CrStateKex)
  | newkeys
  | service
  | idle

/-- How a connection ends -/
inductive Ending where
  /-- `ssh_proto_error`, `ssh_sw_abort`, `ssh_user_close`, `ssh_remote_error` -/
  | aborted
  /-- a failed assertion -/
  | assertion
deriving DecidableEq

/-- What has passed, in order -/
inductive Wire where
  | sentKexinit (payload : List UInt8)
  | receivedKexinit (payload : List UInt8)
  /-- the two KEXINIT strings that go into the exchange hash -/
  | hashed (clientKexinit serverKexinit : List UInt8)
  | sentNewkeys
  | receivedNewkeys
  /-- any other packet of the transport layer -/
  | sent (pkt : PktOut)
  /-- a packet of the higher layer that is put on the output queue -/
  | passedOut (pkt : PktOut)
  | passedUp (pkt : PktIn)
deriving DecidableEq

/-- What has happened to host keys, in order -/
inductive KeyEvent where
  /-- an `SS_XCERT` command that is taken up -/
  | xcert (alg : SshKeyalg)
  /-- the manual list or the user accepts a key -/
  | accepted (cacheStr : Name)
  /-- `store_host_key` -/
  | stored (cacheStr : Name)
  /-- a key exchange is done, with this host key -/
  | completed (cacheStr : Option Name)
deriving DecidableEq

/-- What has been counted, the last first -/
inductive Count where
  | counted (d : Direction) (bytes : ℕ)
  | reset (d : Direction)
deriving DecidableEq

/-- `ssh2_transport_state` -/
structure Ssh2Transport (w : ℕ) where
  conf : Conf
  crState : CrState := .start
  ended : Option Ending := none
  inPq : List PktIn := []
  pqOutHigher : List PktOut := []
  rekeyReason : Option String := none
  rekeyClass : RekeyClass := .none
  deferredRekeyReason : Option String := none
  kexInProgress : Bool := false
  higherLayerOk : Bool := false
  maxDataSize : BitVec w
  inStats : DataTransferStatsDirection w := {}
  outStats : DataTransferStatsDirection w := {}
  kexlists : KexLists := fun _ => []
  outgoingKexinit : List UInt8 := []
  incomingKexinit : List UInt8 := []
  algs : Algorithms := {}
  ignorepkt : Bool := false
  uncertHostkeys : List ℕ := []
  dlgret : ℤ := 0
  gotSessionId : Bool := false
  hostkeyStr : Option Name := none
  crossCertifying : Option SshKeyalg := none
  gssKexUsed : Bool := false
  needGssTransientHostkey : Bool := false
  warnedAboutNoGssTransientHostkey : Bool := false
  /-- `thc` -/
  transientHostkeys : List HostKey := []
  wire : List Wire := []
  keys : List KeyEvent := []
  counts : List Count := []

/-- What is not in these files, or is asked of the user. It may depend on the whole state. -/
structure Env (w : ℕ) where
  isServer : Bool
  /-- `BUG_SSH2_REKEY` is among the bugs of the other side. -/
  bugRekey : Bool
  /-- the name of the higher layer -/
  serviceName : List UInt8
  cookie : Ssh2Transport w → List UInt8
  writeKexinitLists : Ssh2Transport w → List UInt8 × KexLists
  haveSshHostKey : SshKeyalg → Bool
  /-- the answer to a warning, negative while there is none -/
  confirmWeak : Ssh2Transport w → Weak → ℤ
  kexMethod : Ssh2Transport w → KexMethod
  verifySshManualHostKey : Ssh2Transport w → HostKey → ℤ
  seatVerifySshHostKey : Ssh2Transport w → HostKey → ℤ

namespace Ssh2Transport

/-- `ssh2_transport_new` -/
def new (conf : Conf) : Ssh2Transport w :=
  { conf := conf, maxDataSize := parseBlocksize w conf.sshRekeyData }

def stats (s : Ssh2Transport w) : Direction → DataTransferStatsDirection w
  | .«in» => s.inStats
  | .out => s.outStats

def abort (s : Ssh2Transport w) : Ssh2Transport w := { s with ended := some .aborted }

def note (s : Ssh2Transport w) (n : Wire) : Ssh2Transport w := { s with wire := s.wire ++ [n] }

def noteKey (s : Ssh2Transport w) (n : KeyEvent) : Ssh2Transport w := { s with keys := s.keys ++ [n] }

/-- `dts_consume` -/
def consume (s : Ssh2Transport w) (d : Direction) (size : BitVec w) : Ssh2Transport w :=
  match d with
  | .«in» => { s with inStats := dtsConsume s.inStats size, counts := .counted .«in» size.toNat :: s.counts }
  | .out => { s with outStats := dtsConsume s.outStats size, counts := .counted .out size.toNat :: s.counts }

/-- `dts_reset` -/
def resetStats (s : Ssh2Transport w) (d : Direction) : Ssh2Transport w :=
  match d with
  | .«in» => { s with inStats := dtsReset s.maxDataSize, counts := .reset .«in» :: s.counts }
  | .out => { s with outStats := dtsReset s.maxDataSize, counts := .reset .out :: s.counts }

/-! ## The queues -/

/-- `ssh2_transport_filter_queue` on the packets of the queue. The connection has ended afterwards if the
code returns `true`. -/
def filterFrom (s : Ssh2Transport w) : List PktIn → Ssh2Transport w
  | [] => { s with inPq := [] }
  | pktin :: rest =>
    if pktin.type = msgDisconnect then { s with inPq := pktin :: rest }.abort
    else if pktin.type = msgDebug ∨ pktin.type = msgIgnore then filterFrom s rest
    else if 50 ≤ pktin.type then
      if s.higherLayerOk then filterFrom (s.note (.passedUp pktin)) rest
      else { s with inPq := pktin :: rest }.abort
    else { s with inPq := pktin :: rest }

def filterQueue (s : Ssh2Transport w) : Ssh2Transport w := filterFrom s s.inPq

/-- `pq_pop`, unless the connection has ended -/
def popFront (s : Ssh2Transport w) : Option PktIn × Ssh2Transport w :=
  if s.ended.isSome then (none, s)
  else match s.inPq with
    | [] => (none, s)
    | pktin :: rest => (some pktin, { s with inPq := rest })

/-- `ssh2_transport_pop` -/
def pop (s : Ssh2Transport w) : Option PktIn × Ssh2Transport w := s.filterQueue.popFront

/-- `pq_concatenate` of the output queue and the one of the higher layer -/
def concatenate (s : Ssh2Transport w) : Ssh2Transport w :=
  { s with wire := s.wire ++ s.pqOutHigher.map .passedOut, pqOutHigher := [] }

/-! ## The host key (`ssh2kex_coroutine`) -/

section HostKey

variable (env : Env w)

/-- The key exchange is done. -/
def completeKex (s : Ssh2Transport w) (hkey : Option HostKey) : Ssh2Transport w × Bool :=
  (s.noteKey (.completed (hkey.map (·.cacheStr))), true)

/-- A host key that the manual list or the user accepts is saved, to be compared with later ones. -/
def acceptHostKey (s : Ssh2Transport w) (key : HostKey) : Ssh2Transport w × Bool :=
  completeKex { s.noteKey (.accepted key.cacheStr) with hostkeyStr := some key.cacheStr } (some key)

/-- Go on once the user has answered. -/
def verifyAnswer (s : Ssh2Transport w) (key : HostKey) : Ssh2Transport w × Bool :=
  if s.dlgret < 0 then ({ s with crState := .kex (.verify key) }, false)
  else if s.dlgret = 0 then (s.abort, false)
  else s.acceptHostKey key

/-- The transient host key cache has one key for each algorithm. -/
def addTransientHostkey (s : Ssh2Transport w) (key : HostKey) : Ssh2Transport w :=
  { s with transientHostkeys := key :: s.transientHostkeys.filter (·.alg ≠ key.alg) }

/-- The host key after a GSS key exchange -/
def gssHostKey (s : Ssh2Transport w) (hkey : Option HostKey) : Ssh2Transport w × Bool :=
  match hkey with
  | some key => (s.addTransientHostkey key).completeKex hkey
  | none =>
    if s.transientHostkeys ≠ [] then s.completeKex hkey
    else if s.algs.hostkeyAlg.isSome then
      { s with needGssTransientHostkey := true }.completeKex hkey
    else { s with warnedAboutNoGssTransientHostkey := true }.completeKex hkey

/-- The host key after another key exchange in a session that has used GSS -/
def fallbackHostKey (s : Ssh2Transport w) (key : HostKey) : Ssh2Transport w × Bool :=
  if s.needGssTransientHostkey then
    { s.addTransientHostkey key with needGssTransientHostkey := false }.completeKex (some key)
  else if key ∈ s.transientHostkeys then s.completeKex (some key)
  else (s.abort, false)

/-- The host key of a repeat key exchange -/
def repeatHostKey (s : Ssh2Transport w) (key : HostKey) : Ssh2Transport w × Bool :=
  match s.crossCertifying with
  | some alg =>
    if key.alg ≠ alg then ({ s with ended := some .assertion }, false)
    else { s.noteKey (.stored key.cacheStr) with
        hostkeyStr := some key.cacheStr }.completeKex (some key)
  | none =>
    if s.hostkeyStr ≠ some key.cacheStr then (s.abort, false)
    else s.completeKex (some key)

/-- The host key of the first key exchange -/
def firstHostKey (s : Ssh2Transport w) (key : HostKey) : Ssh2Transport w × Bool :=
  let s := { s with dlgret := env.verifySshManualHostKey s key }
  if s.dlgret = 0 then (s.abort, false)
  else if s.dlgret < 0 then { s with dlgret := env.seatVerifySshHostKey s key }.verifyAnswer key
  else s.acceptHostKey key

/-- What `ssh2kex_coroutine` does once the key exchange method is through -/
def checkHostKey (s : Ssh2Transport w) (hkey : Option HostKey) (verified : Bool) : Ssh2Transport w × Bool :=
  if s.algs.kexAlg.map (·.mainType) = some .gss then
    if verified then { s with gssKexUsed := true }.gssHostKey hkey else (s.abort, false)
  else
    match hkey with
    | none => (s.abort, false)
    | some key =>
      if !verified then (s.abort, false)
      else if s.gssKexUsed then s.fallbackHostKey key
      else if s.gotSessionId then s.repeatHostKey key
      else firstHostKey env s key

/-- Run a key exchange method until it waits, aborts or is done. -/
def runMethod (s : Ssh2Transport w) : KexMethod → Ssh2Transport w × Option (Option HostKey × Bool)
  | .abort => (s.abort, none)
  | .push pkt next => runMethod (s.note (.sent pkt)) next
  | .pop next =>
    match s.pop with
    | (none, s) => ({ s with crState := .kex (.method (.pop next)) }, none)
    | (some pktin, s) => runMethod s (next pktin)
  | .done hkey verified => (s, some (hkey, verified))

/-- `ssh2kex_coroutine`, and whether it has terminated normally. A server has no host key to check. -/
def ssh2kexCoroutine (s : Ssh2Transport w) : CrStateKex → Ssh2Transport w × Bool
  | .verify key => s.verifyAnswer key
  | .method m =>
    match s.runMethod m with
    | (s, none) => (s, false)
    | (s, some (hkey, verified)) =>
      if env.isServer then s.completeKex hkey else checkHostKey env s hkey verified

end HostKey

/-! ## The coroutine (`ssh2_transport_process_queue`) -/

section ProcessQueue

variable (env : Env w)

/-- `client_kexinit` -/
def clientKexinit (s : Ssh2Transport w) : List UInt8 :=
  if env.isServer then s.incomingKexinit else s.outgoingKexinit

/-- `server_kexinit` -/
def serverKexinit (s : Ssh2Transport w) : List UInt8 :=
  if env.isServer then s.outgoingKexinit else s.incomingKexinit

/-- From the label `begin_key_exchange`: construct and send our KEXINIT. -/
def beginKeyExchange (s : Ssh2Transport w) : Ssh2Transport w :=
  -- only `client_kexinit` is emptied
  let s := if env.isServer then { s with incomingKexinit := [] } else { s with outgoingKexinit := [] }
  let (lists, kexlists) := env.writeKexinitLists s
  let s := { s with
    kexlists
    outgoingKexinit := s.outgoingKexinit ++
      (20 :: (env.cookie s ++ lists ++ putBool false ++ putUint32 0)) }
  { s.note (.sentKexinit (20 :: s.outgoingKexinit.tail)) with
    kexInProgress := true, crState := .kexinit }

/-- Start the exchange hash and the key exchange method. -/
def startKex (s : Ssh2Transport w) : Ssh2Transport w :=
  let s := s.note (.hashed (s.clientKexinit env) (s.serverKexinit env))
  { s with crState := .kex (.method (env.kexMethod s)) }

def warns (s : Ssh2Transport w) : Weak → Bool
  | .kex => s.algs.warnKex
  | .hk => s.algs.warnHk
  | .cscipher => s.algs.warnCscipher
  | .sccipher => s.algs.warnSccipher

/-- Warn the user of weak algorithms, and then start the key exchange. -/
def askWeak (s : Ssh2Transport w) : List Weak → Ssh2Transport w
  | [] => if s.ignorepkt then { s with crState := .ignored } else startKex env s
  | weak :: rest =>
    if s.warns weak then
      { s with dlgret := env.confirmWeak s weak, crState := .confirm rest }
    else askWeak s rest

/-- The host key algorithms that the server offers and that have no key stored -/
def listUncertHostkeys (s : Ssh2Transport w) (hks : List ℕ) : List ℕ :=
  hks.filter fun j => match ssh2HostkeyAlgs[j]? with
    | none => false
    | some alg => some alg ≠ s.algs.hostkeyAlg && !env.haveSshHostKey alg

def receiveKexinit (s : Ssh2Transport w) (pktin : PktIn) : Ssh2Transport w :=
  if pktin.type ≠ 20 then s.abort
  else
    let s := { s.note (.receivedKexinit (20 :: pktin.data)) with incomingKexinit := 20 :: pktin.data }
    match ssh2ScanKexinits (s.clientKexinit env) (s.serverKexinit env) s.kexlists s.algs with
    | .error _ => s.abort
    | .ok agreement =>
      let s := { s with algs := agreement.algorithms, ignorepkt := agreement.ignoreGuessScPacket }
      askWeak env { s with uncertHostkeys := s.listUncertHostkeys env agreement.serverHostkeys }
        [.kex, .hk, .cscipher, .sccipher]

/-- The key exchange coroutine has terminated normally: send NEWKEYS, and after it what the higher layer
has sent in the meantime. -/
def sendNewkeys (s : Ssh2Transport w) : Ssh2Transport w :=
  { (({ s with gotSessionId := true }.note .sentNewkeys).resetStats .out).concatenate with
    crState := .newkeys }

/-- Wait for the next reason to do a key exchange. -/
def becomeIdle (s : Ssh2Transport w) : Ssh2Transport w :=
  { s with rekeyClass := .none, crState := .idle }

/-- After the other side's NEWKEYS, and whether the coroutine goes on -/
def receiveNewkeys (s : Ssh2Transport w) (pktin : PktIn) : Ssh2Transport w × Bool :=
  if pktin.type ≠ msgNewkeys then (s.abort, false)
  else
    let s := (s.resetStats .«in»).note .receivedNewkeys
    if s.deferredRekeyReason.isSome then
      (beginKeyExchange env { s with deferredRekeyReason := none }, true)
    else
      let s := { s with kexInProgress := false }
      if s.higherLayerOk then (s.becomeIdle, false)
      else if env.isServer then ({ s with crState := .service }, true)
      else ({ s.note (.sent ⟨msgServiceRequest, putUint32 (UInt32.ofNat env.serviceName.length) ++
          env.serviceName⟩) with crState := .service }, true)

/-- The reply of a server to the request for its service, or the request of a client -/
def receiveService (s : Ssh2Transport w) (pktin : PktIn) : Ssh2Transport w :=
  if env.isServer then
    if pktin.type ≠ msgServiceRequest then s.abort
    else if (getString ⟨pktin.data, false⟩).1 ≠ env.serviceName then s.abort
    else { s.note (.sent ⟨msgServiceAccept, putUint32 (UInt32.ofNat env.serviceName.length) ++
        env.serviceName⟩) with higherLayerOk := true }.becomeIdle
  else if pktin.type ≠ msgServiceAccept then s.abort
  else { s with higherLayerOk := true }.becomeIdle

/-- Decide whether there has to be a key exchange now. -/
def considerRekey (s : Ssh2Transport w) : Ssh2Transport w :=
  let s :=
    if s.rekeyClass = .postUserauth then
      if s.needGssTransientHostkey then
        { s with
          rekeyReason := some "populating transient host key cache"
          rekeyClass := .normal }
      else { s with rekeyClass := .none }
    else s
  let s :=
    if s.rekeyClass = .none then
      if s.inStats.expired then
        { s with rekeyReason := some "too much data received", rekeyClass := .normal }
      else if s.outStats.expired then
        { s with rekeyReason := some "too much data sent", rekeyClass := .normal }
      else s
    else s
  if s.rekeyClass ≠ .none ∧ s.rekeyClass ≠ .server ∧ env.bugRekey = true then
    { (s.resetStats .«in»).resetStats .out with rekeyClass := .none }
  else s

/-- The body of the loop that waits for a reason to do a key exchange, and whether there is one -/
def idle (s : Ssh2Transport w) : Ssh2Transport w × Bool :=
  match s.concatenate.pop with
  | (some pktin, s) =>
    if pktin.type ≠ 20 then (s.abort, false)
    else
      let s := considerRekey env { s with inPq := pktin :: s.inPq, rekeyClass := .server }
      if s.rekeyClass = .none then (s, false) else (beginKeyExchange env s, true)
  | (none, s) =>
    if s.ended.isSome then (s, false)
    else
      let s := considerRekey env s
      if s.rekeyClass = .none then (s, false) else (beginKeyExchange env s, true)

/-- Resume the coroutine where it waits, up to the next place where it may wait, and say whether it goes on
there. -/
def resume (s : Ssh2Transport w) : Ssh2Transport w × Bool :=
  match s.crState with
  | .start =>
    let algs := { s.algs with
      cs := { s.algs.cs with cipher := none, mac := none, comp := none }
      sc := { s.algs.sc with cipher := none, mac := none, comp := none } }
    (beginKeyExchange env { s with
      algs, gotSessionId := false, needGssTransientHostkey := false
      warnedAboutNoGssTransientHostkey := false }, true)
  | .kexinit =>
    match s.pop with
    | (none, s) => (s, false)
    | (some pktin, s) => (receiveKexinit env s pktin, true)
  | .confirm rest =>
    if s.dlgret < 0 then (s, false)
    else if s.dlgret = 0 then (s.abort, false)
    else (askWeak env s rest, true)
  | .ignored =>
    match s.pop with
    | (none, s) => (s, false)
    | (some _, s) => (startKex env s, true)
  | .kex k =>
    match ssh2kexCoroutine env s k with
    | (s, false) => (s, false)
    | (s, true) => (s.sendNewkeys, true)
  | .newkeys =>
    match s.pop with
    | (none, s) => (s, false)
    | (some pktin, s) => receiveNewkeys env s pktin
  | .service =>
    match s.pop with
    | (none, s) => (s, false)
    | (some pktin, s) => (receiveService env s pktin, false)
  | .idle => idle env s

/-- Run the coroutine until it waits. -/
def runCoroutine : ℕ → Ssh2Transport w → Ssh2Transport w
  | 0, s => s
  | n + 1, s =>
    if s.ended.isSome then s
    else match resume env s with
      | (s, false) => s
      | (s, true) => runCoroutine n s

/-- How far the coroutine is from waiting, if it gets no packet -/
def CrState.rank : CrState → ℕ
  | .start | .idle => 2
  | .kexinit => 1
  | .confirm rest => 4 + rest.length
  | .ignored => 3
  | .kex _ => 2
  | .newkeys => 1
  | .service => 0

/-- A bound on the times that the coroutine is resumed in one call -/
def rounds (s : Ssh2Transport w) : ℕ := 10 * s.inPq.length + CrState.rank s.crState

def processQueue (s : Ssh2Transport w) : Ssh2Transport w :=
  let s := s.filterQueue
  if s.ended.isSome then s else runCoroutine env (s.rounds + 1) s

end ProcessQueue

/-! ## Commands and callbacks -/

/-- The commands that the transport layer handles itself -/
inductive SpecialCode where
  | rekey
  | xcert (arg : Fin ssh2HostkeyAlgs.length)
  | other

def specialCmd (s : Ssh2Transport w) : SpecialCode → Ssh2Transport w
  | .rekey =>
    if s.kexInProgress then s
    else { s with rekeyReason := some "at user request", rekeyClass := .normal }
  | .xcert arg =>
    if s.kexInProgress then s
    else
      let alg := ssh2HostkeyAlgs.get arg
      { s.noteKey (.xcert alg) with
        crossCertifying := some alg
        algs := { s.algs with hostkeyAlg := some alg }
        rekeyReason := some "cross-certifying new host key"
        rekeyClass := .normal }
  | .other => s

/-- `ssh2_transport_set_max_data_size`, which reads the configuration of the state -/
def setMaxDataSize (s : Ssh2Transport w) : Ssh2Transport w :=
  { s with maxDataSize := parseBlocksize w s.conf.sshRekeyData }

/-- Adjust what remains of the allowances to a limit that was `oldMaxDataSize`, and say whether this makes
one expire. -/
def adjustStats (s : Ssh2Transport w) (oldMaxDataSize : BitVec w) : Ssh2Transport w × Bool :=
  if oldMaxDataSize ≠ s.maxDataSize ∧ s.maxDataSize ≠ 0 then
    if s.maxDataSize < oldMaxDataSize then
      let diff := oldMaxDataSize - s.maxDataSize
      let s := { s with outStats := dtsConsume s.outStats diff, inStats := dtsConsume s.inStats diff }
      (s, s.outStats.expired || s.inStats.expired)
    else
      let diff := s.maxDataSize - oldMaxDataSize
      let add (d : DataTransferStatsDirection w) : DataTransferStatsDirection w :=
        if d.running then { d with remaining := d.remaining + diff } else d
      ({ s with outStats := add s.outStats, inStats := add s.inStats }, false)
  else (s, false)

/-- `ssh2_transport_reconfigure`. Whether the timeout has become so short that it is over, and whether a key
exchange is inadvisable now, is found out elsewhere. -/
def reconfigure (s : Ssh2Transport w) (conf : Conf) (timeoutShortened rekeyInadvisable : Bool) :
    Ssh2Transport w :=
  let rekeyReason := if timeoutShortened then some "timeout shortened" else none
  let (s, lowered) := s.setMaxDataSize.adjustStats s.maxDataSize
  let rekeyReason := if lowered then some "data limit lowered" else rekeyReason
  let compressionChanged := s.conf.compression ≠ conf.compression
  let ciphersChanged :=
    s.conf.sshCipherlist ≠ conf.sshCipherlist ∨ s.conf.ssh2DesCbc ≠ conf.ssh2DesCbc
  let rekeyReason := if compressionChanged then some "compression setting changed" else rekeyReason
  let rekeyReason := if ciphersChanged then some "cipher settings changed" else rekeyReason
  let s := { s with conf }
  match rekeyReason with
  | none => s
  | some reason =>
    if !s.kexInProgress && !rekeyInadvisable then
      { s with rekeyReason := some reason, rekeyClass := .normal }
    else if compressionChanged ∨ ciphersChanged then
      { s with deferredRekeyReason := some reason }
    else s

/-- `ssh2_transport_timer` when it finds that it is time to exchange keys, or that there are new GSS
credentials -/
def timer (s : Ssh2Transport w) (gssUpdate : Bool) : Ssh2Transport w :=
  if s.kexInProgress then s
  else if gssUpdate then
    { s with rekeyReason := some "GSS credentials updated", rekeyClass := .gssUpdate }
  else { s with rekeyReason := some "timeout", rekeyClass := .normal }

/-- `ssh2_transport_notify_auth_done` -/
def notifyAuthDone (s : Ssh2Transport w) : Ssh2Transport w :=
  { s with rekeyReason := none, rekeyClass := .postUserauth }

/-- `ssh2_transport_dialog_callback` -/
def dialogCallback (env : Env w) (s : Ssh2Transport w) (ret : ℤ) : Ssh2Transport w :=
  { s with dlgret := ret }.processQueue env

/-! ## Runs -/

/-- What comes from outside -/
inductive Event (w : ℕ) where
  /-- the other side's packet arrives -/
  | incoming (pktin : PktIn)
  /-- the higher layer sends a packet -/
  | higher (pkt : PktOut)
  /-- a packet of this size has been read or written -/
  | consumed (d : Direction) (size : BitVec w)
  | processQueue
  | dialog (ret : ℤ)
  | specialCmd (code : SpecialCode)
  | reconfigure (conf : Conf) (timeoutShortened rekeyInadvisable : Bool)
  | timer (gssUpdate : Bool)
  | notifyAuthDone

/-- Nothing is left of the layer once the connection has ended. -/
def step (env : Env w) (s : Ssh2Transport w) (e : Event w) : Ssh2Transport w :=
  if s.ended.isSome then s
  else match e with
    | .incoming pktin => { s with inPq := s.inPq ++ [pktin] }
    | .higher pkt => { s with pqOutHigher := s.pqOutHigher ++ [pkt] }
    | .consumed d size => s.consume d size
    | .processQueue => s.processQueue env
    | .dialog ret => s.dialogCallback env ret
    | .specialCmd code => s.specialCmd code
    | .reconfigure conf timeoutShortened rekeyInadvisable =>
      s.reconfigure conf timeoutShortened rekeyInadvisable
    | .timer gssUpdate => s.timer gssUpdate
    | .notifyAuthDone => s.notifyAuthDone

/-- The layer after a run -/
def run (env : Env w) (conf : Conf) (events : List (Event w)) : Ssh2Transport w :=
  events.foldl (step env) (new conf)

end Ssh2Transport

end PuttyNd.Transport
