import PuttyNd.Transport.Ssh2Transport

/-!
# Compression in the binary packet protocol (`psftp/ssh2bpp.c`)

Of a packet only its type is kept, and of its encoding only whether its payload has been compressed. A client
and a server are joined by two links that deliver in order.
-/

namespace PuttyNd.Transport

def msgUnimplemented : ℕ := 3
def msgUserauthRequest : ℕ := 50
def msgUserauthFailure : ℕ := 51
def msgUserauthSuccess : ℕ := 52
def msgUserauthBanner : ℕ := 53

/-- The values of `SSH2_MESSAGE_TYPES` -/
def ssh2MessageTypes : List ℕ :=
  [1, 2, 3, 4, 5, 6, 20, 21, 30, 31, 32, 33, 34, 40, 41, 50, 51, 52, 53, 60, 61, 63, 64, 65, 66, 80, 81, 82, 90,
    91, 92, 93, 94, 95, 96, 97, 98, 99, 100]

/-- `ssh2_bpp_check_unimplemented`, which lets `SSH_MSG_NO_TYPE_CODE` pass -/
def checkUnimplemented (type : ℕ) : Bool := type < 256 && type ∉ ssh2MessageTypes

/-- `userauth_range` -/
def userauthRange (type : ℕ) : Bool := 50 ≤ type && type - 50 < 20

/-- A packet that waits to be sent -/
structure QueuedPkt where
  type : ℕ
  /-- Without compression it would be shorter than its `minlen`. -/
  short : Bool := false
deriving DecidableEq

/-- A packet on the link -/
structure Frame where
  type : ℕ
  compressed : Bool
deriving DecidableEq

/-- `ssh_compressor_new` and `ssh_decompressor_new`. The method "none" has a null pointer. -/
def sshCompressorNew (alg : SshCompressionAlg) : Option SshCompressionAlg :=
  if alg.name = ascii "none" then none else some alg

/-- `ssh2_bpp_state`, as far as compression is concerned -/
structure Ssh2Bpp where
  isServer : Bool
  outPq : List QueuedPkt := []
  /-- `in.pending_compression` -/
  inPending : Option SshCompressionAlg := none
  /-- `out.pending_compression` -/
  outPending : Option SshCompressionAlg := none
  inDecomp : Option SshCompressionAlg := none
  outComp : Option SshCompressionAlg := none
  cbcIgnoreWorkaround : Bool := false
  pendingNewkeys : Bool := false
  pendingCompression : Bool := false
  seenUserauthSuccess : Bool := false
deriving DecidableEq

namespace Ssh2Bpp

def push (s : Ssh2Bpp) (pkt : QueuedPkt) : Ssh2Bpp := { s with outPq := s.outPq ++ [pkt] }

/-- `ssh2_bpp_new_outgoing_crypto` with a delayed compression method -/
def newOutgoingCrypto (s : Ssh2Bpp) (alg : SshCompressionAlg) (cbcIgnoreWorkaround : Bool) : Ssh2Bpp :=
  if !s.seenUserauthSuccess then { s with cbcIgnoreWorkaround, outPending := some alg, outComp := none }
  else { s with cbcIgnoreWorkaround, outPending := none, outComp := sshCompressorNew alg }

/-- `ssh2_bpp_new_incoming_crypto` with a delayed compression method -/
def newIncomingCrypto (s : Ssh2Bpp) (alg : SshCompressionAlg) : Ssh2Bpp :=
  if !s.seenUserauthSuccess then
    { s with inPending := some alg, inDecomp := none, pendingNewkeys := false }
  else { s with inPending := none, inDecomp := sshCompressorNew alg, pendingNewkeys := false }

def enablePendingCompression (s : Ssh2Bpp) : Ssh2Bpp :=
  let s := match s.inPending with
    | some alg => { s with inDecomp := sshCompressorNew alg, inPending := none }
    | none => s
  match s.outPending with
  | some alg => { s with outComp := sshCompressorNew alg, outPending := none }
  | none => s

/-- `ssh2_bpp_format_packet`. A packet may be padded by an IGNORE in front of it. -/
def formatPacket (s : Ssh2Bpp) (pkt : QueuedPkt) : List Frame :=
  if pkt.short && s.outComp.isNone then [⟨msgIgnore, s.outComp.isSome⟩, ⟨pkt.type, s.outComp.isSome⟩]
  else [⟨pkt.type, s.outComp.isSome⟩]

/-- The loop of `ssh2_bpp_handle_output`, with the number of userauth packets that are left -/
def outputLoop (s : Ssh2Bpp) (nUserauth : ℤ) : List QueuedPkt → Ssh2Bpp × List Frame
  | [] => ({ s with outPq := [] }, [])
  | pkt :: rest =>
    let nUserauth := if userauthRange pkt.type then nUserauth - 1 else nUserauth
    let frames := s.formatPacket pkt
    if nUserauth = 0 ∧ s.outPending.isSome ∧ !s.isServer then
      ({ s with outPq := rest, pendingCompression := true }, frames)
    else
      let s := if pkt.type = msgUserauthSuccess ∧ s.isServer then s.enablePendingCompression else s
      let (s, more) := outputLoop s nUserauth rest
      (s, frames ++ more)

/-- `ssh2_bpp_handle_output`. `drained` says that the last cipher block has left the output buffer. -/
def handleOutput (s : Ssh2Bpp) (drained : Bool) : Ssh2Bpp × List Frame :=
  let nUserauth := s.outPq.countP fun pkt => userauthRange pkt.type
  if s.pendingCompression && nUserauth == 0 then (s, [])
  else
    let ignore := if s.cbcIgnoreWorkaround && drained then s.formatPacket ⟨msgIgnore, false⟩ else []
    let (s, frames) := s.outputLoop nUserauth s.outPq
    (s, ignore ++ frames)

/-- `ssh2_bpp_handle_input` once a packet of this type has been decoded -/
def handleInput (s : Ssh2Bpp) (type : ℕ) : Ssh2Bpp :=
  if checkUnimplemented type then s.push ⟨msgUnimplemented, false⟩
  else if type = msgNewkeys then { s with pendingNewkeys := true }
  else
    let s :=
      if type = msgUserauthSuccess ∧ !s.isServer then
        { s.enablePendingCompression with seenUserauthSuccess := true }
      else s
    if s.pendingCompression && userauthRange type then { s with pendingCompression := false } else s

end Ssh2Bpp

/-! ## A client and a server -/

inductive Side where
  | client | server
deriving DecidableEq

structure Link where
  client : Ssh2Bpp
  server : Ssh2Bpp
  toServer : List Frame := []
  toClient : List Frame := []
  /-- The client has pushed a userauth packet, and has not received one since. -/
  awaiting : Bool := false
  /-- the packets that have been delivered, and whether they were decompressed -/
  received : List (Frame × Bool) := []
deriving DecidableEq

namespace Link

/-- Both ends have keys, and a delayed compression method. -/
def established (alg : SshCompressionAlg) (cbcIgnoreClient cbcIgnoreServer : Bool) : Link where
  client := (Ssh2Bpp.newOutgoingCrypto { isServer := false } alg cbcIgnoreClient).newIncomingCrypto alg
  server := (Ssh2Bpp.newOutgoingCrypto { isServer := true } alg cbcIgnoreServer).newIncomingCrypto alg

inductive Event where
  /-- The upper layers of a side push a packet. -/
  | push (side : Side) (pkt : QueuedPkt)
  | handleOutput (side : Side) (drained : Bool)
  /-- The next packet arrives at a side. -/
  | deliver (side : Side)
  /-- The transport layer of a side sets up new keys. -/
  | newOutgoing (side : Side) (cbcIgnoreWorkaround : Bool)
  | newIncoming (side : Side)
deriving DecidableEq

def step (alg : SshCompressionAlg) (l : Link) : Event → Link
  | .push .client pkt =>
    { l with client := l.client.push pkt, awaiting := l.awaiting || userauthRange pkt.type }
  | .push .server pkt => { l with server := l.server.push pkt }
  | .handleOutput .client drained =>
    let (client, frames) := l.client.handleOutput drained
    { l with client, toServer := l.toServer ++ frames }
  | .handleOutput .server drained =>
    let (server, frames) := l.server.handleOutput drained
    { l with server, toClient := l.toClient ++ frames }
  | .deliver .client =>
    -- nothing is read between a NEWKEYS packet and the new keys
    if l.client.pendingNewkeys then l
    else match l.toClient with
      | [] => l
      | frame :: rest =>
        { l with
          client := l.client.handleInput frame.type
          toClient := rest
          awaiting := l.awaiting && !userauthRange frame.type
          received := l.received ++ [(frame, l.client.inDecomp.isSome)] }
  | .deliver .server =>
    if l.server.pendingNewkeys then l
    else match l.toServer with
      | [] => l
      | frame :: rest =>
        { l with
          server := l.server.handleInput frame.type
          toServer := rest
          received := l.received ++ [(frame, l.server.inDecomp.isSome)] }
  | .newOutgoing .client cbcIgnoreWorkaround =>
    { l with client := l.client.newOutgoingCrypto alg cbcIgnoreWorkaround }
  | .newOutgoing .server cbcIgnoreWorkaround =>
    { l with server := l.server.newOutgoingCrypto alg cbcIgnoreWorkaround }
  | .newIncoming .client => { l with client := l.client.newIncomingCrypto alg }
  | .newIncoming .server => { l with server := l.server.newIncomingCrypto alg }

end Link

end PuttyNd.Transport
