import Mathlib.Data.List.Sort
import Mathlib.Data.UInt
import PuttyNd.Share.Connstate

/-!
# Connection sharing: packets from the server, and cleaning up (`psftp/sshshare.c`)
-/

namespace PuttyNd.Share

open Psftp Outcome

/-- `put_stringz` -/
def putString (s : List UInt8) : List UInt8 := putUint32 (UInt32.ofNat s.length) ++ s

/-- `PUT_32BIT_MSB_FIRST` at a place in a buffer -/
def put32bitAt (pkt : List UInt8) (pos : ℕ) (val : UInt32) : List UInt8 :=
  pkt.take pos ++ putUint32 val ++ pkt.drop (pos + 4)

/-! ## Sending to the downstream -/

/-- A packet as it is written to the downstream -/
def downstreamPacket (type : Msg) (pkt : List UInt8) : List UInt8 :=
  putUint32 (UInt32.ofNat (pkt.length + 1)) ++ type.code :: pkt

/-- The pieces of the data of a `CHANNEL_DATA`; a round takes at least one byte unless `maxpkt` is 0, so
a loop that ends has at most this many rounds. -/
def chop (maxpkt : ℕ) : ℕ → List UInt8 → Except Fault (List (List UInt8))
  | 0, _ => .error .endlessLoop
  | rounds + 1, data =>
    let thisLen := if data.length > maxpkt then maxpkt else data.length
    if (data.drop thisLen).length > 0 then do
      let rest ← chop maxpkt rounds (data.drop thisLen)
      return data.take thisLen :: rest
    else return [data.take thisLen]

/-- An `int` that is converted to `size_t` -/
def sizeT (n : ℤ) : ℕ := (n % 2 ^ 64).toNat

/-- `send_packet_to_downstream` -/
def sendPacketToDownstream (s : Sharing) (type : Msg) (pkt : List UInt8) (chan : Option ℕ) :
    Except Fault Sharing := do
  if ¬ s.cs.sock then return s
  else if type = .channelData then
    let (channel, src) := getUint32 ⟨pkt, false⟩
    let (data, _) := getString src
    let (_, chan) ← deref s.cs.channels.heap chan
    let pieces ← chop (sizeT chan.downstreamMaxpkt) (data.length + 1) data
    return pieces.foldl (fun s piece =>
      s.emit (.skWrite (downstreamPacket type (putUint32 channel ++ putString piece)))) s
  else return s.emit (.skWrite (downstreamPacket type pkt))

/-! ## Cleaning up -/

/-- The `CHANNEL_OPEN_FAILURE` of `share_try_cleanup` -/
def cleanupFailure (serverId : UInt32) : List UInt8 :=
  putUint32 serverId ++ putUint32 2 ++ putString (ascii "PuTTY downstream no longer available") ++
    putString (ascii "en")

def cleanupHalfchannel (s : Sharing) (serverId : UInt32) : Sharing :=
  shareRemoveHalfchannel
    (s.sendPacketFromDownstream .channelOpenFailure (cleanupFailure serverId)) serverId

def cleanupChannel (s : Sharing) (a : ℕ) : Except Fault Sharing := do
  let (_, chan) ← deref s.cs.channels.heap (some a)
  if chan.state ≠ .sentClose ∧ chan.state ≠ .unacknowledged then
    let s := s.sendPacketFromDownstream .channelClose (putUint32 chan.serverId)
    if chan.state ≠ .rcvdClose then return setChannelState s a chan .sentClose
    else return shareRemoveChannel (sshDeleteSharingChannel s chan.upstreamId) a chan
  else return s

/-- The `cancel-tcpip-forward` of `share_try_cleanup` -/
def cleanupCancel (address : HostPort) : List UInt8 :=
  putString (ascii "cancel-tcpip-forward") ++ putBool false ++ putString address.host ++
    putUint32 (UInt32.ofInt address.port)

def cleanupForwarding (s : Sharing) (a : ℕ) : Except Fault Sharing := do
  let (_, fwd) ← deref s.cs.forwardings.heap (some a)
  if fwd.active then
    let s := s.sendPacketFromDownstream .globalRequest (cleanupCancel fwd.address)
    let s ← sshRportfwdRemove s fwd.rpf
    shareRemoveForwarding s a
  else return s

/-- `share_try_cleanup`; each loop goes over what is in its tree, where an element that is removed does
not make the loop skip another one. -/
def shareTryCleanup (s : Sharing) : Except Fault Sharing := do
  let s := s.cs.halfchannels.foldl cleanupHalfchannel s
  let s ← s.cs.channels.byUs.foldlM cleanupChannel s
  let s ← s.cs.forwardings.tree.foldlM cleanupForwarding s
  if s.cs.halfchannels = [] ∧ s.cs.channels.byUs = [] ∧ s.cs.forwardings.tree = [] then
    return { s with freed := true }
  else return s

/-- `share_begin_cleanup`, where `sk_close` is given a socket -/
def shareBeginCleanup (s : Sharing) : Except Fault Sharing :=
  if s.cs.sock then shareTryCleanup { s with cs := { s.cs with sock := false } }
  else .error .badPointer

/-- `share_disconnect` -/
def shareDisconnect (s : Sharing) (message : List UInt8) : Except Fault Sharing := do
  let packet := putUint32 2 ++ putString message ++ putString (ascii "en")
  let s ← sendPacketToDownstream s .disconnect packet none
  shareBeginCleanup s

/-! ## X channels -/

/-- The answer of `share_dead_xchannel_respond` to a message -/
def deadXchannelAnswer (s : Sharing) (xc : ShareXchannel) (msg : Msg × List UInt8) : Sharing :=
  if msg.1 = .channelRequest ∧ msg.2.length > 4 then
    let (_, src) := getUint32 ⟨msg.2, false⟩
    let (_, src) := getString src
    if (getBool src).1 then s.sendPacketFromDownstream .channelFailure (putUint32 xc.serverId)
    else s
  else s

/-- `share_dead_xchannel_respond` -/
def shareDeadXchannelRespond (s : Sharing) (a : ℕ) : Except Fault Sharing := do
  let (_, xc) ← deref s.cs.xchannels.heap (some a)
  let s := xc.msgs.foldl (fun s msg => deadXchannelAnswer s xc msg) s
  if xc.msgs.any fun msg => msg.1 = .channelClose then
    return shareRemoveXchannel (sshDeleteSharingChannel s xc.upstreamId) a xc
  else return setXchannel s a { xc with msgs := [] }

/-! ## `share_got_pkt_from_server` -/

/-- What a reply does to the forwarding that it is for -/
def replyToForwarding (s : Sharing) (globreq : ShareGlobreq) (success : Bool) :
    Except Fault Sharing :=
  match globreq.type, success with
  | .tcpipForward, false => shareRemoveForwarding s globreq.fwd
  | .tcpipForward, true => do
    let f := s.cs.forwardings
    let (fwd, v) ← deref f.heap (some globreq.fwd)
    return s.setForwardings { f with heap := f.heap.set fwd { v with active := true } }
  | .cancelTcpipForward, true => shareRemoveForwarding s globreq.fwd
  | .cancelTcpipForward, false => return s

/-- A reply is passed on, if the downstream wants it. -/
def passReply (s : Sharing) (globreq : ShareGlobreq) (success : Bool) (pkt : List UInt8) :
    Except Fault Sharing :=
  if globreq.wantReply then
    sendPacketToDownstream s (if success then .requestSuccess else .requestFailure) pkt none
  else return s

/-- `globreq` is freed, and the next one is the first one. -/
def freeGlobreq (s : Sharing) (a : ℕ) (next : Option ℕ) : Sharing :=
  let f := s.cs.forwardings
  s.setForwardings { f with
    globreqs := f.globreqs.free a
    globreqHead := next
    globreqTail := if next.isNone then none else f.globreqTail }

/-- `REQUEST_SUCCESS` and `REQUEST_FAILURE` -/
def gotReplyFromServer (s : Sharing) (success : Bool) (pkt : List UInt8) : Except Fault Sharing := do
  if s.cs.forwardings.globreqHead.isNone then .error .assertion
  else
    let (a, cell) ← deref s.cs.forwardings.globreqs s.cs.forwardings.globreqHead
    let s ← replyToForwarding s cell.content success
    let s ← passReply s cell.content success pkt
    let s := freeGlobreq s a cell.next
    if ¬ s.cs.sock then shareTryCleanup s else return s

/-- `CHANNEL_OPEN` -/
def gotChannelOpenFromServer (s : Sharing) (pkt : List UInt8) : Except Fault Sharing := do
  let (_, src) := getString ⟨pkt, false⟩
  let (serverId, src) := getUint32 src
  if src.err then .error .assertion
  else sendPacketToDownstream (shareAddHalfchannel s serverId) .channelOpen pkt none

/-- A message for the channel at `a`: the state is updated. -/
def updateChannel (s : Sharing) (a : ℕ) (type : Msg) (pkt : List UInt8) : Except Fault Sharing := do
  let (_, chan) ← deref s.cs.channels.heap (some a)
  match type with
  | .channelOpenConfirmation =>
    if chan.state = .unacknowledged ∧ pkt.length ≥ 8 then
      let s := shareChannelSetServerId s a chan (get32bitMsbFirst (pkt.drop 4))
      if ¬ s.cs.sock then shareTryCleanup s else return s
    else return s
  | .channelOpenFailure =>
    return shareRemoveChannel (sshDeleteSharingChannel s chan.upstreamId) a chan
  | .channelClose =>
    if chan.state = .sentClose then
      let s := shareRemoveChannel (sshDeleteSharingChannel s chan.upstreamId) a chan
      if ¬ s.cs.sock then shareTryCleanup s else return s
    else return setChannelState s a chan .rcvdClose
  | _ => return s

/-- The messages that have the channel of the recipient as their first field -/
def gotChannelMessageFromServer (s : Sharing) (type : Msg) (pkt : List UInt8) :
    Except Fault Sharing := do
  let (upstreamId, _) := getUint32 ⟨pkt, false⟩
  match s.cs.channels.findUs upstreamId with
  | some a =>
    let (_, chan) ← deref s.cs.channels.heap (some a)
    if pkt.length < 4 then .error .overrun
    else
      let rewritten := put32bitAt pkt 0 chan.downstreamId
      let s ← sendPacketToDownstream s type rewritten (some a)
      updateChannel s a type pkt
  | none =>
    match s.cs.xchannels.findUs upstreamId with
    | some a =>
      let (_, xc) ← deref s.cs.xchannels.heap (some a)
      let s := setXchannel s a { xc with msgs := xc.msgs ++ [(type, pkt)] }
      if ¬ xc.live then shareDeadXchannelRespond s a else return s
    | none => return s

/-- `share_got_pkt_from_server` -/
def shareGotPktFromServer (s : Sharing) (type : Msg) (pkt : List UInt8) : Except Fault Sharing :=
  if s.freed then .error .badPointer
  else
    match type with
    | .requestSuccess => gotReplyFromServer s true pkt
    | .requestFailure => gotReplyFromServer s false pkt
    | .channelOpen => gotChannelOpenFromServer s pkt
    | .channelOpenConfirmation | .channelOpenFailure | .channelClose | .channelWindowAdjust
    | .channelData | .channelExtendedData | .channelEof | .channelRequest | .channelSuccess
    | .channelFailure => gotChannelMessageFromServer s type pkt
    | _ => .error .assertion

end PuttyNd.Share

/-!
## Connection sharing: the ids of the downstreams (`psftp/sshshare.c`)

`connections` is the tree of the downstreams in the order of their ids, and here the ids in it.
-/

namespace PuttyNd.Share

open Outcome

/-! ## Finding an id -/

/-- The loop of `share_find_unused_id`; each round leaves fewer indexes between `low` and `high`, so that
`rounds` is no limit when it is greater than their number. -/
def sequenceEnd (connections : List UInt32) (first : UInt32) (lowOrig : ℕ) :
    ℕ → ℕ → ℕ → Except Fault ℕ
  | 0, _, _ => .error .endlessLoop
  | rounds + 1, low, high =>
    if high - low > 1 then
      let mid := (high + low) / 2
      match connections[mid]? with
      | none => .error .badPointer
      | some id =>
        if id = first + UInt32.ofNat (mid - lowOrig) then
          sequenceEnd connections first lowOrig rounds mid high
        else sequenceEnd connections first lowOrig rounds low mid
    else .ok low

/-- `share_find_unused_id` -/
def shareFindUnusedId (connections : List UInt32) (first : UInt32) : Except Fault UInt32 :=
  -- `findrelpos234` with `REL234_GE`
  match connections.findIdx? (first ≤ ·) with
  | none => .ok first
  | some lowOrig => do
    let count := connections.length
    let low ← sequenceEnd connections first lowOrig (count + 1) lowOrig count
    let ret := first + UInt32.ofNat (low - lowOrig) + 1
    if ret ∈ connections then .error .assertion else return ret

/-! ## Downstreams that come and go -/

structure Sharestate where
  connections : List UInt32
  nextid : UInt32
  /-- The `id` of each `ssh_sharing_connstate` that there is -/
  live : List UInt32
deriving DecidableEq, Repr

def Sharestate.init : Sharestate := ⟨[], 1, []⟩

/-- `add234`, which leaves the tree as it is if the id is there -/
def addConnection (id : UInt32) (connections : List UInt32) : List UInt32 :=
  if id ∈ connections then connections else connections.orderedInsert (· ≤ ·) id

/-- The id for a new downstream -/
def newId (s : Sharestate) : Except Fault UInt32 := do
  let id ← shareFindUnusedId s.connections s.nextid
  if id = 0 then shareFindUnusedId s.connections 1 else return id

/-- The rest of `share_listen_accepting`; `sockOk` tells if the constructor of the socket succeeds. -/
def acceptWith (s : Sharestate) (sockOk : Bool) (id : UInt32) : Except Fault Sharestate :=
  if id = 0 then return s
  else
    let nextid := if id + 1 = 0 then id + 1 + 1 else id + 1
    if sockOk then return ⟨addConnection id s.connections, nextid, id :: s.live⟩
    else return { s with nextid := nextid }

/-- `share_listen_accepting` -/
def shareListenAccepting (s : Sharestate) (sockOk : Bool) : Except Fault Sharestate := do
  let id ← newId s
  acceptWith s sockOk id

/-- The end of `share_try_cleanup`, for the downstream at this place among those that there are -/
def shareCleanedUp (s : Sharestate) (i : ℕ) : Sharestate :=
  match s.live[i]? with
  | none => s
  | some id => { s with connections := s.connections.erase id, live := s.live.eraseIdx i }

inductive ListenEvent where
  | accepting (sockOk : Bool)
  | cleanedUp (i : ℕ)

def listenStep (s : Sharestate) : ListenEvent → Except Fault Sharestate
  | .accepting sockOk => shareListenAccepting s sockOk
  | .cleanedUp i => .ok (shareCleanedUp s i)

def listenRun (s : Sharestate) (events : List ListenEvent) : Except Fault Sharestate :=
  events.foldlM listenStep s

end PuttyNd.Share
