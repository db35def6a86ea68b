import PuttyNd.Lib.Machine
import PuttyNd.Share.Server

/-!
# Connection sharing: packets from a downstream (`psftp/sshshare.c`)

The branches of `share_got_pkt_from_downstream` give the message with which they jump to `confused`, or
with which they call `share_disconnect` and return.
-/

namespace PuttyNd.Share

open Psftp Outcome

/-- What the rest of the program decides: whether agents may be forwarded, and the data of a fake X11
authorisation. -/
structure Env where
  sshAgentForwardingPermitted : Bool
  fakeAuthDatastring : List UInt8
deriving DecidableEq, Repr

abbrev Message := List UInt8

/-- `BinarySource`'s `pos` -/
def srcPos (pkt : List UInt8) (src : BinarySource) : ℕ := pkt.length - src.data.length

/-- `%u` -/
def decimal (n : UInt32) : List UInt8 := ascii (toString n.toNat)

/-! ## Global requests -/

/-- The host and the port of a request; `none` if the packet is too short. -/
def getHostPort (src : BinarySource) : Option HostPort :=
  let (hostpl, src) := getString src
  let (port, src) := getUint32 src
  if src.err then none else some ⟨(upToNul hostpl).val, port.toBitVec.toInt⟩

/-- A failure that the downstream gets from here -/
def manufactureFailure (s : Sharing) (origWantreply : Bool) : Except Fault Sharing :=
  if origWantreply then sendPacketToDownstream s .requestFailure [] none else .ok s

/-- `tcpip-forward` -/
def gotTcpipForward (s : Sharing) (pkt : List UInt8) (wantreplypos : ℕ) (origWantreply : Bool)
    (address : HostPort) : Except Fault Sharing :=
  match sshRportfwdAlloc s address (some s.ctx) with
  | (none, s) => manufactureFailure s origWantreply
  | (some rpf, s) => do
    let s := s.sendPacketFromDownstream .globalRequest (pkt.set wantreplypos 1)
    let (fwd, s) := shareAddForwarding s address
    let s := sshSharingQueueGlobalRequest s ⟨.tcpipForward, origWantreply, address⟩
    match fwd with
    | none => return s
    | some fwd =>
      let s ← queueGlobreq s ⟨.tcpipForward, origWantreply, fwd⟩
      let f := s.cs.forwardings
      let (fwd, v) ← deref f.heap (some fwd)
      return s.setForwardings { f with heap := f.heap.set fwd { v with rpf := some rpf } }

/-- `cancel-tcpip-forward` -/
def gotCancelTcpipForward (s : Sharing) (pkt : List UInt8) (wantreplypos : ℕ) (origWantreply : Bool)
    (address : HostPort) : Except Fault Sharing :=
  match s.cs.forwardings.find address with
  | none => manufactureFailure s origWantreply
  | some fwd => do
    let (_, v) ← deref s.cs.forwardings.heap (some fwd)
    let s ← sshRportfwdRemove s v.rpf
    let s := s.sendPacketFromDownstream .globalRequest (pkt.set wantreplypos 1)
    let s := sshSharingQueueGlobalRequest s ⟨.cancelTcpipForward, origWantreply, address⟩
    queueGlobreq s ⟨.cancelTcpipForward, origWantreply, fwd⟩

/-- `GLOBAL_REQUEST` -/
def gotGlobalRequest (s : Sharing) (pkt : List UInt8) : Except Fault (Sharing × Option Message) := do
  let (requestName, src) := getString ⟨pkt, false⟩
  let wantreplypos := srcPos pkt src
  let (origWantreply, src) := getBool src
  if requestName = ascii "tcpip-forward" then
    match getHostPort src with
    | none => return (s, some (ascii "Truncated GLOBAL_REQUEST packet"))
    | some address =>
      let s ← gotTcpipForward s pkt wantreplypos origWantreply address
      return (s, none)
  else if requestName = ascii "cancel-tcpip-forward" then
    match getHostPort src with
    | none => return (s, some (ascii "Truncated GLOBAL_REQUEST packet"))
    | some address =>
      let s ← gotCancelTcpipForward s pkt wantreplypos origWantreply address
      return (s, none)
  else
    let s ← manufactureFailure s origWantreply
    return (s, none)

/-! ## Opening channels -/

/-- `CHANNEL_OPEN` -/
def gotChannelOpen (s : Sharing) (pkt : List UInt8) : Except Fault (Sharing × Option Message) :=
  let (_, src) := getString ⟨pkt, false⟩
  let idPos := srcPos pkt src
  let (oldId, src) := getUint32 src
  let (newId, s) := sshAllocSharingChannel s
  let (_, src) := getUint32 src
  let (maxpkt, src) := getUint32 src
  if src.err then .ok (s, some (ascii "Truncated CHANNEL_OPEN packet"))
  else
    let (_, s) := shareAddChannel s oldId newId 0 .unacknowledged maxpkt.toBitVec.toInt
    .ok (s.sendPacketFromDownstream .channelOpen (put32bitAt pkt idPos newId), none)

/-- A queued message, as it is for the downstream -/
def queuedMessage (s : Sharing) (chan : Option ℕ) (data : List UInt8) : Except Fault (List UInt8) :=
  if data.length ≥ 4 then do
    let (_, chan) ← deref s.cs.channels.heap chan
    return put32bitAt data 0 chan.downstreamId
  else return data

/-- `share_xchannel_confirmation` -/
def shareXchannelConfirmation (s : Sharing) (xc : ShareXchannel) (chan : Option ℕ)
    (downstreamWindow : UInt32) : Except Fault Sharing := do
  let s ← xc.msgs.foldlM (fun s msg => do
    let data ← queuedMessage s chan msg.2
    sendPacketToDownstream s msg.1 data chan) s
  return s.sendPacketFromDownstream .channelWindowAdjust
    (putUint32 xc.serverId ++ putUint32 (downstreamWindow - xc.window))

/-- `share_xchannel_failure` -/
def shareXchannelFailure (s : Sharing) (a : ℕ) (xc : ShareXchannel) : Except Fault Sharing :=
  let s := s.sendPacketFromDownstream .channelClose (putUint32 xc.serverId)
  shareDeadXchannelRespond (setXchannel s a { xc with live := false }) a

/-- `CHANNEL_OPEN_CONFIRMATION` -/
def gotChannelOpenConfirmation (s : Sharing) (pkt : List UInt8) :
    Except Fault (Sharing × Option Message) := do
  if pkt.length < 16 then
    return (s, some (ascii "Truncated CHANNEL_OPEN_CONFIRMATION packet"))
  else
    let (serverId, src) := getUint32 ⟨pkt, false⟩
    let idPos := srcPos pkt src
    let (oldId, src) := getUint32 src
    let (_, src) := getUint32 src
    let (maxpkt, _) := getUint32 src
    let maxpkt := maxpkt.toBitVec.toInt
    if serverId ∈ s.cs.halfchannels then
      let (newId, s) := sshAllocSharingChannel s
      let (_, s) := shareAddChannel s oldId newId serverId .open maxpkt
      let s := s.sendPacketFromDownstream .channelOpenConfirmation (put32bitAt pkt idPos newId)
      return (shareRemoveHalfchannel s serverId, none)
    else
      match s.cs.xchannels.findServer serverId with
      | none =>
        return (s, some (ascii "CHANNEL_OPEN_CONFIRMATION packet cited unknown channel " ++
          decimal serverId))
      | some xa =>
        let (_, xc) ← deref s.cs.xchannels.heap (some xa)
        let (chan, s) := shareAddChannel s oldId xc.upstreamId serverId .open maxpkt
        let downstreamWindow := get32bitMsbFirst (pkt.drop 8)
        if downstreamWindow < 256 then
          return (s, some (ascii "Initial window size for x11 channel must be at least 256 (got " ++
            decimal downstreamWindow ++ ascii ")"))
        else
          let s ← shareXchannelConfirmation s xc chan downstreamWindow
          return (shareRemoveXchannel s xa xc, none)

/-- `CHANNEL_OPEN_FAILURE` -/
def gotChannelOpenFailure (s : Sharing) (pkt : List UInt8) :
    Except Fault (Sharing × Option Message) := do
  let (serverId, src) := getUint32 ⟨pkt, false⟩
  if src.err then return (s, some (ascii "Truncated CHANNEL_OPEN_FAILURE packet"))
  else if serverId ∈ s.cs.halfchannels then
    let s := s.sendPacketFromDownstream .channelOpenFailure pkt
    return (shareRemoveHalfchannel s serverId, none)
  else
    match s.cs.xchannels.findServer serverId with
    | none =>
      return (s, some (ascii "CHANNEL_OPEN_FAILURE packet cited unknown channel " ++
        decimal serverId))
    | some xa =>
      let (_, xc) ← deref s.cs.xchannels.heap (some xa)
      let s ← shareXchannelFailure s xa xc
      return (s, none)

/-! ## Messages for channels -/

/-- `x11_authnames` -/
def x11Authnames : List (List UInt8) :=
  [[], ascii "MIT-MAGIC-COOKIE-1", ascii "XDM-AUTHORIZATION-1"]

/-- `x11_identify_auth_proto`; `none` is -1. -/
def x11IdentifyAuthProto (protoname : List UInt8) : Option ℕ :=
  [1, 2].find? fun protocol => protoname = x11Authnames.getD protocol []

/-- `ssh_add_sharing_x11_display` -/
def sshAddSharingX11Display (env : Env) (authProto : ℕ) : X11FakeAuth :=
  ⟨x11Authnames.getD authProto [], env.fakeAuthDatastring⟩

/-- A message is passed on to the server. -/
def passOn (s : Sharing) (type : Msg) (pkt : List UInt8) (serverId : UInt32) :
    Except Fault (Sharing × Option Message) := do
  let s := s.sendPacketFromDownstream type pkt
  if type = .channelClose ∧ pkt.length ≥ 4 then
    match s.cs.channels.findServer serverId with
    | none => return (s, none)
    | some a =>
      let (_, chan) ← deref s.cs.channels.heap (some a)
      if chan.state = .rcvdClose then
        return (shareRemoveChannel (sshDeleteSharingChannel s chan.upstreamId) a chan, none)
      else return (setChannelState s a chan .sentClose, none)
  else return (s, none)

/-- `CHANNEL_FAILURE` that the downstream gets from here -/
def refuseRequest (s : Sharing) (chan : ShareChannel) : Except Fault (Sharing × Option Message) := do
  let s ← sendPacketToDownstream s .channelFailure (putUint32 chan.downstreamId) none
  return (s, none)

/-- An `x11-req` -/
def gotX11Req (env : Env) (s : Sharing) (src : BinarySource) (serverId : UInt32) :
    Except Fault (Sharing × Option Message) :=
  match s.cs.channels.findServer serverId with
  | none =>
    .ok (s, some (ascii "X11 forwarding request for unrecognised channel " ++ decimal serverId))
  | some a => do
    let (_, chan) ← deref s.cs.channels.heap (some a)
    let (wantReply, src) := getBool src
    let (singleConnection, src) := getBool src
    let (protoname, src) := getString src
    let (_, src) := getString src
    let (screen, src) := getUint32 src
    if src.err then
      return (s, some (ascii "Truncated CHANNEL_REQUEST(\"x11-req\") packet"))
    else
      match x11IdentifyAuthProto protoname with
      | none => refuseRequest s chan
      | some authProto =>
        let auth := sshAddSharingX11Display env authProto
        let c := s.cs.channels
        let s := s.setChannels ⟨c.heap.set a
          { chan with x11AuthUpstream := some auth, x11OneShot := singleConnection },
          c.byUs, c.byServer⟩
        return (s.sendPacketFromDownstream .channelRequest (putUint32 serverId ++
          putString (ascii "x11-req") ++ putBool wantReply ++ putBool singleConnection ++
          putString auth.protoname ++ putString auth.datastring ++ putUint32 screen), none)

/-- The other messages that a downstream may send -/
def gotChannelMessage (env : Env) (s : Sharing) (type : Msg) (pkt : List UInt8) :
    Except Fault (Sharing × Option Message) :=
  let (serverId, src) := getUint32 ⟨pkt, false⟩
  if type = .channelRequest then
    let (requestName, src) := getString src
    if requestName = ascii "auth-agent-req@openssh.com" ∧ ¬ env.sshAgentForwardingPermitted then
      match s.cs.channels.findServer serverId with
      | some a => do
        let (_, chan) ← deref s.cs.channels.heap (some a)
        refuseRequest s chan
      | none =>
        .ok (s, some (ascii "Agent forwarding request for unrecognised channel " ++
          decimal serverId))
    else if requestName = ascii "x11-req" then gotX11Req env s src serverId
    else passOn s type pkt serverId
  else passOn s type pkt serverId

/-! ## `share_got_pkt_from_downstream` -/

/-- The branches, apart from `DISCONNECT` -/
def handlePacket (env : Env) (s : Sharing) (type : Msg) (pkt : List UInt8) :
    Except Fault (Sharing × Option Message) :=
  match type with
  | .globalRequest => gotGlobalRequest s pkt
  | .channelOpen => gotChannelOpen s pkt
  | .channelOpenConfirmation => gotChannelOpenConfirmation s pkt
  | .channelOpenFailure => gotChannelOpenFailure s pkt
  | .channelWindowAdjust | .channelData | .channelExtendedData | .channelEof | .channelClose
  | .channelRequest | .channelSuccess | .channelFailure | .ignore | .debug =>
    gotChannelMessage env s type pkt
  | _ => .ok (s, some (ascii "Unexpected packet type " ++ ascii (toString type.code.toNat) ++ [10]))

/-- `share_got_pkt_from_downstream` -/
def shareGotPktFromDownstream (env : Env) (s : Sharing) (type : Msg) (pkt : List UInt8) :
    Except Fault Sharing :=
  if s.freed then .error .badPointer
  else if type = .disconnect then shareBeginCleanup s
  else do
    let (s, err) ← handlePacket env s type pkt
    match err with
    | none => return s
    | some message => shareDisconnect s message

/-! ## X11 connections -/

/-- The arguments of `share_setup_x11_channel`, with the greeting that `x11_make_greeting` makes -/
structure X11Channel where
  chan : ℕ
  upstreamId : UInt32
  serverId : UInt32
  serverCurrwin : UInt32
  serverMaxpkt : UInt32
  clientAdjustedWindow : UInt32
  peerAddr : List UInt8
  peerPort : UInt32
  greeting : List UInt8
  initialData : List UInt8
deriving DecidableEq, Repr

/-- `share_setup_x11_channel` -/
def shareSetupX11Channel (s : Sharing) (x : X11Channel) : Except Fault Sharing := do
  if s.freed then .error .badPointer
  else
    let window := x.clientAdjustedWindow + UInt32.ofNat x.greeting.length
    let (xc, s) := shareAddXchannel s x.upstreamId x.serverId window
    let (_, chan) ← deref s.cs.channels.heap (some x.chan)
    let (a, xc) ← deref s.cs.xchannels.heap xc
    let data := putUint32 0 ++ putString (x.greeting ++ x.initialData)
    let s := setXchannel s a { xc with msgs := [(.channelData, data)] }
    let s ← sendPacketToDownstream s .channelOpen (putString (ascii "x11") ++ putUint32 x.serverId ++
      putUint32 x.serverCurrwin ++ putUint32 x.serverMaxpkt ++ putString x.peerAddr ++
      putUint32 x.peerPort) none
    match chan.x11OneShot, chan.x11AuthUpstream with
    | false, _ => return s
    | true, none => .error .badPointer
    | true, some auth =>
      let c := s.cs.channels
      let s := s.setChannels ⟨c.heap.set x.chan
        { chan with x11AuthUpstream := none, x11OneShot := false }, c.byUs, c.byServer⟩
      return s.emit (.removeSharingX11Display auth)

/-- `c->sharectx = share_cs` -/
def setSharectx (s : Sharing) (localid : UInt32) : Sharing :=
  { s with cl := { s.cl with
    channels := s.cl.channels.map fun c => if c.1 = localid then (c.1, some s.ctx) else c } }

/-- `ssh2channel_x11_sharing_handover` -/
def x11SharingHandover (s : Sharing) (x : X11Channel) : Except Fault Sharing :=
  shareSetupX11Channel (setSharectx s x.upstreamId) x

end PuttyNd.Share

/-!
## Connection sharing: runs

The events in the life of a downstream. What the connection layer does for others, for its own channels
or for other downstreams, is an event as well.
-/

namespace PuttyNd.Share

open Outcome

inductive ShareEvent where
  /-- `share_got_pkt_from_server` -/
  | server (type : Msg) (pkt : List UInt8)
  /-- `share_got_pkt_from_downstream` -/
  | downstream (env : Env) (type : Msg) (pkt : List UInt8)
  /-- `share_closing` -/
  | closing
  /-- An X11 connection is found to be for this downstream. -/
  | x11 (x : X11Channel)
  /-- A channel for someone else -/
  | otherChannel (sharectx : Option ℕ)
  | deleteOtherChannel (localid : UInt32)
  /-- A remote port forwarding for someone else -/
  | otherRportfwd (address : HostPort) (shareCtx : Option ℕ)
  | removeOtherRportfwd (rpf : ℕ)

/-- The reply that comes next is for the oldest of the requests that are outstanding. -/
def popGlobreq (type : Msg) (s : Sharing) : Sharing :=
  if type = .requestSuccess ∨ type = .requestFailure then { s with globreqs := s.globreqs.tail }
  else s

/-- What others do has an effect only on what is theirs. -/
def shareStep (s : Sharing) : ShareEvent → Except Fault Sharing
  | .server type pkt => do
    let s ← shareGotPktFromServer s type pkt
    return popGlobreq type s
  | .downstream env type pkt => shareGotPktFromDownstream env s type pkt
  | .closing => if s.freed then .error .badPointer else shareBeginCleanup s
  | .x11 x => x11SharingHandover s x
  | .otherChannel sharectx =>
    if sharectx = some s.ctx then .ok s
    else
      let localid := allocChannelId (s.cl.channels.map Prod.fst)
      .ok { s with cl := { s.cl with channels := (localid, sharectx) :: s.cl.channels } }
  | .deleteOtherChannel localid =>
    if (localid, some s.ctx) ∈ s.cl.channels then .ok s else .ok (sshDeleteSharingChannel s localid)
  | .otherRportfwd address shareCtx =>
    if shareCtx = some s.ctx then .ok s else .ok (sshRportfwdAlloc s address shareCtx).2
  | .removeOtherRportfwd rpf =>
    match s.cl.rportfwds.cell rpf with
    | none => .ok s
    | some v => if v.shareCtx = some s.ctx then .ok s else sshRportfwdRemove s (some rpf)

/-- The run of these events -/
def shareRun (s : Sharing) (events : List ShareEvent) : Except Fault Sharing :=
  events.foldlM shareStep s

/-- The states that are reached by events that `Allowed` allows. -/
abbrev Reached (Allowed : Sharing → ShareEvent → Prop) : Sharing → Prop :=
  Reach (· = .init) fun s s' => ∃ e, Allowed s e ∧ shareStep s e = .ok s'

end PuttyNd.Share
