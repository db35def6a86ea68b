import PuttyNd.Lib.Index
import PuttyNd.Lib.LinkedLists
import PuttyNd.Lib.Outcome
import PuttyNd.Psftp.Marshal

/-!
# Connection sharing: what is kept for a downstream (`psftp/sshshare.c`)

The trees hold pointers, and so do their models: an object that is freed while a tree still holds it is
seen. What the rest of the program keeps for a downstream (`psftp/ssh2connection.c`) is the
`ConnectionLayer`. Text of the log is left out.
-/

namespace PuttyNd.Share

open Psftp Outcome

/-- The bytes of a string constant. -/
def ascii (s : String) : List UInt8 := s.toList.map fun c => c.toNat.toUInt8

/-- `SSH2_MSG_*` -/
inductive Msg where
  | disconnect | ignore | debug
  | globalRequest | requestSuccess | requestFailure
  | channelOpen | channelOpenConfirmation | channelOpenFailure
  | channelWindowAdjust | channelData | channelExtendedData | channelEof | channelClose
  | channelRequest | channelSuccess | channelFailure
  | other (type : UInt8)
deriving DecidableEq, Repr

def Msg.code : Msg → UInt8
  | disconnect => 1 | ignore => 2 | debug => 4
  | globalRequest => 80 | requestSuccess => 81 | requestFailure => 82
  | channelOpen => 90 | channelOpenConfirmation => 91 | channelOpenFailure => 92
  | channelWindowAdjust => 93 | channelData => 94 | channelExtendedData => 95 | channelEof => 96
  | channelClose => 97 | channelRequest => 98 | channelSuccess => 99 | channelFailure => 100
  | other type => type

inductive Fault where
  /-- A pointer is used that is `NULL` or that points to what was freed. -/
  | badPointer
  /-- An `assert` fails, or an `unreachable` is reached. -/
  | assertion
  /-- A write past the end of a buffer -/
  | overrun
  | endlessLoop
deriving DecidableEq, Repr

def deref {α : Type} (h : Heap α) (p : Option ℕ) : Except Fault (ℕ × α) :=
  match p with
  | none => .error .badPointer
  | some a =>
    match h.cell a with
    | none => .error .badPointer
    | some v => .ok (a, v)

/-! ## Channels -/

inductive ChannelState where
  | open | sentClose | rcvdClose | unacknowledged
deriving DecidableEq, Repr

structure X11FakeAuth where
  protoname : List UInt8
  datastring : List UInt8
deriving DecidableEq, Repr

/-- `share_channel`, without the authorisation data that only `x11_make_greeting` reads -/
structure ShareChannel where
  downstreamId : UInt32
  upstreamId : UInt32
  serverId : UInt32
  downstreamMaxpkt : ℤ
  state : ChannelState
  x11AuthUpstream : Option X11FakeAuth
  x11OneShot : Bool
deriving DecidableEq, Repr

structure Channels where
  heap : Heap ShareChannel
  byUs : List ℕ
  byServer : List ℕ

structure ShareXchannel where
  upstreamId : UInt32
  serverId : UInt32
  live : Bool
  window : UInt32
  /-- The list from `msghead` to `msgtail` -/
  msgs : List (Msg × List UInt8)
deriving DecidableEq, Repr

structure Xchannels where
  heap : Heap ShareXchannel
  byUs : List ℕ
  byServer : List ℕ

/-! ## Remote port forwardings -/

structure HostPort where
  host : List UInt8
  port : ℤ
deriving DecidableEq, Repr

/-- `share_forwarding_cmp` -/
instance : LT HostPort := ⟨fun a b => a.host < b.host ∨ a.host = b.host ∧ a.port < b.port⟩

instance : DecidableLT HostPort := fun a b =>
  inferInstanceAs (Decidable (a.host < b.host ∨ a.host = b.host ∧ a.port < b.port))

/-- `share_forwarding`, where `rpf` is `none` before it is set -/
structure ShareForwarding where
  address : HostPort
  active : Bool
  rpf : Option ℕ
deriving DecidableEq, Repr

inductive GlobreqType where
  | tcpipForward | cancelTcpipForward
deriving DecidableEq, Repr

structure ShareGlobreq where
  type : GlobreqType
  wantReply : Bool
  fwd : ℕ
deriving DecidableEq, Repr

structure Forwardings where
  heap : Heap ShareForwarding
  tree : List ℕ
  globreqs : Heap (LinkedQueue.Cell ShareGlobreq)
  globreqHead : Option ℕ
  globreqTail : Option ℕ

/-! ## The state -/

/-- What `share_receive` waits for: the values of `crLine` -/
inductive CrLine where
  | start | verstring | header | body | dead
deriving DecidableEq, Repr

structure Connstate where
  /-- Whether `sock` is there -/
  sock : Bool
  gotVerstring : Bool
  crLine : CrLine
  currPacketlen : ℤ
  /-- The first `recvlen` bytes -/
  recvbuf : List UInt8
  halfchannels : List UInt32
  channels : Channels
  xchannels : Xchannels
  forwardings : Forwardings

/-- What a request was for that `ssh_sharing_queue_global_request` has queued; the queue itself has only
the downstream that the reply goes to. -/
structure GlobalRequest where
  type : GlobreqType
  wantReply : Bool
  address : HostPort
deriving DecidableEq, Repr

structure SshRportfwd where
  address : HostPort
  shareCtx : Option ℕ
deriving DecidableEq, Repr

structure ConnectionLayer where
  /-- `localid` and `sharectx` of the channels -/
  channels : List (UInt32 × Option ℕ)
  rportfwds : Heap SshRportfwd
  rportfwdTree : List ℕ

/-- What a step does, in order -/
inductive Effect where
  /-- `sk_write` to the downstream -/
  | skWrite (data : List UInt8)
  /-- `ssh_send_packet_from_downstream` -/
  | sendPacketFromDownstream (type : Msg) (pkt : List UInt8)
  | removeSharingX11Display (auth : X11FakeAuth)
deriving DecidableEq, Repr

structure Sharing where
  /-- The pointer `cs` -/
  ctx : ℕ
  cs : Connstate
  /-- Whether `cs` was freed -/
  freed : Bool
  cl : ConnectionLayer
  /-- The requests of this downstream whose replies are outstanding -/
  globreqs : List GlobalRequest
  effects : List Effect

def Connstate.init : Connstate where
  sock := true
  gotVerstring := false
  crLine := .start
  currPacketlen := 0
  recvbuf := []
  halfchannels := []
  channels := ⟨.empty, [], []⟩
  xchannels := ⟨.empty, [], []⟩
  forwardings := ⟨.empty, [], .empty, none, none⟩

def ConnectionLayer.init : ConnectionLayer := ⟨[], .empty, []⟩

def Sharing.init : Sharing := ⟨0, .init, false, .init, [], []⟩

namespace Sharing

variable (s : Sharing)

def emit (e : Effect) : Sharing := { s with effects := s.effects ++ [e] }

/-- `ssh_send_packet_from_downstream` -/
def sendPacketFromDownstream (type : Msg) (pkt : List UInt8) : Sharing :=
  s.emit (.sendPacketFromDownstream type pkt)

def setChannels (channels : Channels) : Sharing :=
  { s with cs := { s.cs with channels := channels } }

def setXchannels (xchannels : Xchannels) : Sharing :=
  { s with cs := { s.cs with xchannels := xchannels } }

def setForwardings (forwardings : Forwardings) : Sharing :=
  { s with cs := { s.cs with forwardings := forwardings } }

end Sharing

/-! ## The connection layer -/

/-- `alloc_channel_id_general`, with the `localid`s of the channels that there are -/
def allocChannelId (localids : List UInt32) : UInt32 :=
  let taken := (List.range localids.length).takeWhile fun i => UInt32.ofNat (i + 256) ∈ localids
  UInt32.ofNat (taken.length + 256)

/-- `ssh_alloc_sharing_channel` -/
def sshAllocSharingChannel (s : Sharing) : UInt32 × Sharing :=
  let localid := allocChannelId (s.cl.channels.map Prod.fst)
  (localid, { s with cl := { s.cl with channels := (localid, some s.ctx) :: s.cl.channels } })

/-- `ssh_delete_sharing_channel` -/
def sshDeleteSharingChannel (s : Sharing) (localid : UInt32) : Sharing :=
  { s with cl := { s.cl with channels := s.cl.channels.eraseP fun c => c.1 == localid } }

/-- `ssh_rportfwd_alloc` -/
def sshRportfwdAlloc (s : Sharing) (address : HostPort) (shareCtx : Option ℕ) :
    Option ℕ × Sharing :=
  let a := s.cl.rportfwds.next
  let heap := s.cl.rportfwds.alloc ⟨address, shareCtx⟩
  match Index.add heap.cell SshRportfwd.address address a s.cl.rportfwdTree with
  | none => (none, { s with cl := { s.cl with rportfwds := heap.free a } })
  | some tree => (some a, { s with cl := { s.cl with rportfwds := heap, rportfwdTree := tree } })

/-- `ssh_rportfwd_remove` -/
def sshRportfwdRemove (s : Sharing) (rpf : Option ℕ) : Except Fault Sharing := do
  let (a, v) ← deref s.cl.rportfwds rpf
  if Index.find s.cl.rportfwds.cell SshRportfwd.address v.address s.cl.rportfwdTree = some a then
    return { s with cl := {
      s.cl with
      rportfwds := s.cl.rportfwds.free a
      rportfwdTree := Index.del s.cl.rportfwds.cell SshRportfwd.address v.address s.cl.rportfwdTree } }
  else .error .assertion

/-- `ssh_sharing_queue_global_request` -/
def sshSharingQueueGlobalRequest (s : Sharing) (request : GlobalRequest) : Sharing :=
  { s with globreqs := s.globreqs ++ [request] }

/-! ## Half channels -/

/-- `share_add_halfchannel` -/
def shareAddHalfchannel (s : Sharing) (serverId : UInt32) : Sharing :=
  if serverId ∈ s.cs.halfchannels then s
  else
    let hcs := s.cs.halfchannels
    { s with cs := { s.cs with
      halfchannels := hcs.takeWhile (· < serverId) ++ serverId :: hcs.dropWhile (· < serverId) } }

/-- `share_remove_halfchannel` -/
def shareRemoveHalfchannel (s : Sharing) (serverId : UInt32) : Sharing :=
  { s with cs := { s.cs with halfchannels := s.cs.halfchannels.erase serverId } }

/-! ## Channels -/

def Channels.findUs (c : Channels) (upstreamId : UInt32) : Option ℕ :=
  Index.find c.heap.cell ShareChannel.upstreamId upstreamId c.byUs

def Channels.findServer (c : Channels) (serverId : UInt32) : Option ℕ :=
  Index.find c.heap.cell ShareChannel.serverId serverId c.byServer

/-- `share_add_channel` -/
def shareAddChannel (s : Sharing) (downstreamId upstreamId serverId : UInt32) (state : ChannelState)
    (maxpkt : ℤ) : Option ℕ × Sharing :=
  let c := s.cs.channels
  let a := c.heap.next
  let heap := c.heap.alloc ⟨downstreamId, upstreamId, serverId, maxpkt, state, none, false⟩
  match Index.add heap.cell ShareChannel.upstreamId upstreamId a c.byUs with
  | none => (none, s.setChannels ⟨heap.free a, c.byUs, c.byServer⟩)
  | some byUs =>
    if state = .unacknowledged then (some a, s.setChannels ⟨heap, byUs, c.byServer⟩)
    else
      match Index.add heap.cell ShareChannel.serverId serverId a c.byServer with
      | none =>
        let byUs := Index.del heap.cell ShareChannel.upstreamId upstreamId byUs
        (none, s.setChannels ⟨heap.free a, byUs, c.byServer⟩)
      | some byServer => (some a, s.setChannels ⟨heap, byUs, byServer⟩)

/-- `share_channel_set_server_id`; it does not look at the result of `add234`. -/
def shareChannelSetServerId (s : Sharing) (a : ℕ) (chan : ShareChannel) (serverId : UInt32) :
    Sharing :=
  let c := s.cs.channels
  let heap := c.heap.set a { chan with serverId := serverId, state := .open }
  match Index.add heap.cell ShareChannel.serverId serverId a c.byServer with
  | none => s.setChannels ⟨heap, c.byUs, c.byServer⟩
  | some byServer => s.setChannels ⟨heap, c.byUs, byServer⟩

/-- `chan->state = state` -/
def setChannelState (s : Sharing) (a : ℕ) (chan : ShareChannel) (state : ChannelState) :
    Sharing :=
  let c := s.cs.channels
  s.setChannels ⟨c.heap.set a { chan with state := state }, c.byUs, c.byServer⟩

/-- `share_remove_channel` -/
def shareRemoveChannel (s : Sharing) (a : ℕ) (chan : ShareChannel) : Sharing :=
  let c := s.cs.channels
  let s := s.setChannels {
    heap := c.heap.free a
    byUs := Index.del c.heap.cell ShareChannel.upstreamId chan.upstreamId c.byUs
    byServer := Index.del c.heap.cell ShareChannel.serverId chan.serverId c.byServer }
  match chan.x11AuthUpstream with
  | none => s
  | some auth => s.emit (.removeSharingX11Display auth)

/-! ## X channels -/

def Xchannels.findUs (c : Xchannels) (upstreamId : UInt32) : Option ℕ :=
  Index.find c.heap.cell ShareXchannel.upstreamId upstreamId c.byUs

def Xchannels.findServer (c : Xchannels) (serverId : UInt32) : Option ℕ :=
  Index.find c.heap.cell ShareXchannel.serverId serverId c.byServer

/-- `share_add_xchannel`, with the value of `window` that its caller sets -/
def shareAddXchannel (s : Sharing) (upstreamId serverId window : UInt32) : Option ℕ × Sharing :=
  let c := s.cs.xchannels
  let a := c.heap.next
  let heap := c.heap.alloc ⟨upstreamId, serverId, true, window, []⟩
  match Index.add heap.cell ShareXchannel.upstreamId upstreamId a c.byUs with
  | none => (none, s.setXchannels ⟨heap.free a, c.byUs, c.byServer⟩)
  | some byUs =>
    match Index.add heap.cell ShareXchannel.serverId serverId a c.byServer with
    | none =>
      let byUs := Index.del heap.cell ShareXchannel.upstreamId upstreamId byUs
      (none, s.setXchannels ⟨heap.free a, byUs, c.byServer⟩)
    | some byServer => (some a, s.setXchannels ⟨heap, byUs, byServer⟩)

/-- Writes to an xchannel; the keys stay as they are. -/
def setXchannel (s : Sharing) (a : ℕ) (xc : ShareXchannel) : Sharing :=
  let c := s.cs.xchannels
  s.setXchannels ⟨c.heap.set a xc, c.byUs, c.byServer⟩

/-- `share_remove_xchannel` -/
def shareRemoveXchannel (s : Sharing) (a : ℕ) (xc : ShareXchannel) : Sharing :=
  let c := s.cs.xchannels
  s.setXchannels {
    heap := c.heap.free a
    byUs := Index.del c.heap.cell ShareXchannel.upstreamId xc.upstreamId c.byUs
    byServer := Index.del c.heap.cell ShareXchannel.serverId xc.serverId c.byServer }

/-! ## Forwardings -/

/-- `share_find_forwarding` -/
def Forwardings.find (f : Forwardings) (address : HostPort) : Option ℕ :=
  Index.find f.heap.cell ShareForwarding.address address f.tree

/-- `share_add_forwarding` -/
def shareAddForwarding (s : Sharing) (address : HostPort) : Option ℕ × Sharing :=
  let f := s.cs.forwardings
  let a := f.heap.next
  let heap := f.heap.alloc ⟨address, false, none⟩
  match Index.add heap.cell ShareForwarding.address address a f.tree with
  | none => (none, s.setForwardings { f with heap := heap.free a })
  | some tree => (some a, s.setForwardings { f with heap := heap, tree := tree })

/-- `share_remove_forwarding` -/
def shareRemoveForwarding (s : Sharing) (fwd : ℕ) : Except Fault Sharing := do
  let f := s.cs.forwardings
  let (a, v) ← deref f.heap (some fwd)
  return s.setForwardings { f with
    heap := f.heap.free a
    tree := Index.del f.heap.cell ShareForwarding.address v.address f.tree }

/-- `globreq` is put at the end of the list of the global requests; `globreq_tail` stays as it is. -/
def queueGlobreq (s : Sharing) (globreq : ShareGlobreq) : Except Fault Sharing := do
  let f := s.cs.forwardings
  let a := f.globreqs.next
  let globreqs := f.globreqs.alloc ⟨globreq, none⟩
  if f.globreqTail.isSome then
    let (tail, cell) ← deref globreqs f.globreqTail
    return s.setForwardings { f with globreqs := globreqs.set tail { cell with next := some a } }
  else return s.setForwardings { f with globreqs := globreqs, globreqHead := some a }

end PuttyNd.Share
