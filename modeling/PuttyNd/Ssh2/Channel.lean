import PuttyNd.Lib.CInt
import PuttyNd.Lib.Outcome
import PuttyNd.Psftp.Bufchain
import Mathlib.Data.UInt

/-!
# Channels of the SSH-2 connection layer (`psftp/ssh2connection.c`)

A connection is modelled as one of its channels sees it: the channel, what all channels share, and a trace
of what is sent, of the messages that are handled, of the data that is written to the channel and of the
handlers of channel requests.
-/

namespace PuttyNd.Ssh2

open Psftp CInt Outcome

inductive Fault where
  | assertion
  /-- A method that a `Channel` says is never called -/
  | unreachable
  /-- A pointer to something that was freed, or that is NULL -/
  | badPointer
  /-- A handler uses the packet, but gets NULL. -/
  | nullPacket
  | endlessLoop
deriving DecidableEq, Repr

/-! ## The state -/

/-- A message of the connection layer that is sent about a channel -/
inductive Msg where
  | windowAdjust (size : UInt32)
  | data (data : List UInt8)
  /-- With the type `SSH2_EXTENDED_DATA_STDERR` -/
  | extendedData (data : List UInt8)
  | request (type : String) (wantReply : Bool)
  | success
  | failure
  | eof
  | close
deriving DecidableEq, Repr

/-- A message from the server about a channel. A channel request comes with the answer of the `Channel`. -/
inductive ServerMsg where
  | openConfirmation (remoteid remwindow remmaxpkt : UInt32)
  | openFailure
  | data (extType : UInt32) (data : List UInt8)
  | windowAdjust (size : UInt32)
  | request (wantReply success : Bool)
  | success
  | failure
  | eof
  | close
deriving DecidableEq, Repr

/-- The handlers of outstanding channel requests: `ssh2_handle_winadj_response`, `ssh2_channel_response` -/
inductive Handler where
  | winadj (size : UInt32)
  | response
deriving DecidableEq, Repr

inductive ThrottleState where
  | throttled
  | unthrottling
  | unthrottled
deriving DecidableEq, Repr

/-- The implementations of `Channel`; port forwarding, X11 and the agent are `forwarding`. -/
inductive ChannelVtable where
  | mainchan
  | forwarding
  | zombie
deriving DecidableEq, Repr

structure Channel where
  vt : ChannelVtable
  initialFixedWindowSize : UInt32
  inputWanted : Bool
deriving DecidableEq, Repr

/-- `zombiechan_new` -/
def zombiechanNew : Channel := ⟨.zombie, 0, true⟩

/-- `struct ssh2_channel`. The bits of `closes` are fields. -/
structure Ssh2Channel where
  remoteid : UInt32
  localid : ℕ
  halfopen : Bool
  sentEof : Bool
  sentClose : Bool
  rcvdEof : Bool
  rcvdClose : Bool
  pendingEof : Bool
  throttlingConn : Bool
  throttledByBacklog : Bool
  outbuffer : Bufchain
  errbuffer : Bufchain
  remwindow : UInt32
  remmaxpkt : UInt32
  locwindow : ℤ
  locmaxwin : ℤ
  remlocwin : ℤ
  chanreqs : List Handler
  throttleState : ThrottleState
  sharectx : Option ℕ
  chan : Option Channel
deriving DecidableEq, Repr

inductive Trace where
  | sent (m : Msg)
  | got (m : ServerMsg)
  /-- `ssh2channel_write` -/
  | wrote (isStderr : Bool) (data : List UInt8)
  /-- The channel is open, with this window and this maximal packet size. -/
  | opened (remwindow remmaxpkt : UInt32)
  /-- A channel request is sent that has a handler. -/
  | asked (h : Handler)
  /-- A handler is called, with whether its request succeeded, or with NULL. -/
  | handled (h : Handler) (reply : Option Bool)
  /-- The downstream that the channel was handed over to deletes it. -/
  | deleted
deriving DecidableEq, Repr

/-- What does not change in a connection. The bugs are those of the server. -/
structure Config where
  sshIsSimple : Bool
  bugMaxpkt : Bool
  bugChokesOnWinadj : Bool
  bugSendsLateRequestReply : Bool
  packetSizeLimit : UInt32
deriving DecidableEq, Repr

/-- A message whose handling waits for a method of the `Channel` to return -/
inductive Rest where
  | openConfirmation
  | data
  | response
  | eof
  | close
deriving DecidableEq, Repr

/-- A connection as one of its channels sees it; a channel that was freed is `none`. -/
structure Conn where
  cfg : Config
  allChannelsThrottled : Bool
  connThrottleCount : ℤ
  logicallyFrozen : Bool
  trace : List Trace
  channel : Option Ssh2Channel
  /-- `mainchan_sc` is this channel. -/
  isMainchan : Bool
  calling : Option Rest
  /-- `ssh_proto_error` -/
  aborted : Bool
deriving DecidableEq, Repr

/-- `OUR_V2_WINSIZE` -/
def ourV2Winsize : ℤ := 16384

/-- `OUR_V2_BIGWIN` -/
def ourV2Bigwin : ℤ := 0x7fffffff

/-- `OUR_V2_MAXPKT` -/
def ourV2Maxpkt : ℤ := 0x4000

namespace Conn

variable (s : Conn)

def get : Except Fault Ssh2Channel :=
  match s.channel with
  | none => .error .badPointer
  | some c => .ok c

def set (c : Ssh2Channel) : Conn := { s with channel := some c }

def note (t : Trace) : Conn := { s with trace := s.trace ++ [t] }

/-- `pq_push` -/
def push (m : Msg) : Conn := s.note (.sent m)

end Conn

/-- The `Channel` of a channel that is not shared -/
def Ssh2Channel.getChan (c : Ssh2Channel) : Except Fault Channel :=
  match c.chan with
  | none => .error .badPointer
  | some chan => .ok chan

/-! ## Closing -/

/-- `ssh_throttle_conn` -/
def sshThrottleConn (s : Conn) (adjust : ℤ) : Except Fault Conn :=
  let count := s.connThrottleCount + adjust
  if count < 0 then .error .assertion
  else if count ≠ 0 ∧ s.connThrottleCount = 0 then
    .ok { s with connThrottleCount := count, logicallyFrozen := true }
  else if count = 0 ∧ s.connThrottleCount ≠ 0 then
    .ok { s with connThrottleCount := count, logicallyFrozen := false }
  else .ok { s with connThrottleCount := count }

/-- `chan_want_close` -/
def chanWantClose (chan : Channel) (sentLocalEof rcvdRemoteEof : Bool) : Bool :=
  match chan.vt with
  | .zombie => true
  | _ => sentLocalEof && rcvdRemoteEof

/-- `ssh2_chanreq_init`, and the request is sent -/
def ssh2ChanreqInit (s : Conn) (type : String) (handler : Option Handler) : Except Fault Conn := do
  let c ← s.get
  if c.sentClose ∨ c.rcvdClose then .error .assertion
  else
    let s := s.push (.request type handler.isSome)
    match handler with
    | none => return s
    | some h => return (s.note (.asked h)).set { c with chanreqs := c.chanreqs ++ [h] }

/-- `ssh2_channel_close_local` -/
def ssh2ChannelCloseLocal (s : Conn) : Except Fault Conn := do
  let c ← s.get
  if c.sharectx.isSome then return s
  else
    let _ ← c.getChan
    return s.set { c with chan := some zombiechanNew }

/-- `ssh2_channel_destroy` -/
def ssh2ChannelDestroy (s : Conn) : Except Fault Conn := do
  let c ← s.get
  if c.chanreqs ≠ [] then .error .assertion
  else
    let s ← ssh2ChannelCloseLocal s
    return { s with channel := none }

/-- CLOSE is sent. -/
def sendClose (s : Conn) (c : Ssh2Channel) : Conn :=
  (s.push .close).set { c with sentEof := true, sentClose := true }

/-- `ssh2_channel_check_close` -/
def ssh2ChannelCheckClose (s : Conn) : Except Fault Conn := do
  let c ← s.get
  if c.halfopen then return s
  else
    let chan ← c.getChan
    let s :=
      if chanWantClose chan c.sentEof c.rcvdEof ∧ c.chanreqs = [] ∧ ¬ c.sentClose then sendClose s c
      else s
    let c ← s.get
    if c.sentClose ∧ c.rcvdClose then
      if c.chanreqs ≠ [] then .error .assertion else ssh2ChannelDestroy s
    else return s

/-- EOF is sent. -/
def sendEof (s : Conn) (c : Ssh2Channel) : Conn :=
  (s.push .eof).set { c with pendingEof := false, sentEof := true }

/-- `ssh2_channel_try_eof` -/
def ssh2ChannelTryEof (s : Conn) : Except Fault Conn := do
  let c ← s.get
  if ¬ c.pendingEof then .error .assertion
  else if c.halfopen then return s
  else if c.outbuffer.size > 0 ∨ c.errbuffer.size > 0 then return s
  else ssh2ChannelCheckClose (sendEof s c)

/-! ## Sending data -/

/-- The message for a round of the loop in `ssh2_try_send`, and the channel after it -/
def nextData (c : Ssh2Channel) : Msg × Ssh2Channel :=
  let limit (data : List UInt8) := (data.take c.remwindow.toNat).take c.remmaxpkt.toNat
  if c.errbuffer.size > 0 then
    let data := limit c.errbuffer.front
    (.extendedData data, {
      c with
      errbuffer := c.errbuffer.consume data.length
      remwindow := c.remwindow - UInt32.ofNat data.length })
  else
    let data := limit c.outbuffer.front
    (.data data, {
      c with
      outbuffer := c.outbuffer.consume data.length
      remwindow := c.remwindow - UInt32.ofNat data.length })

/-- The loop of `ssh2_try_send`; there is less data after each round that sends some. -/
def sendLoop : ℕ → Conn → Except Fault Conn
  | 0, _ => .error .endlessLoop
  | rounds + 1, s => do
    let c ← s.get
    if c.remwindow > 0 ∧ (c.outbuffer.size > 0 ∨ c.errbuffer.size > 0) then
      sendLoop rounds ((s.push (nextData c).1).set (nextData c).2)
    else return s

/-- The data that is waiting to be sent -/
def Ssh2Channel.backlog (c : Ssh2Channel) : ℕ := c.outbuffer.size + c.errbuffer.size

/-- `ssh2_try_send` -/
def ssh2TrySend (s : Conn) : Except Fault (ℕ × Conn) := do
  let c ← s.get
  let s ← (if c.halfopen then .ok s else sendLoop (c.backlog + 1) s)
  let c ← s.get
  let s ← (if c.backlog = 0 ∧ c.pendingEof then ssh2ChannelTryEof s else .ok s)
  return (c.backlog, s)

/-- `ssh2_channel_check_throttle` -/
def ssh2ChannelCheckThrottle (s : Conn) : Except Fault Conn := do
  let c ← s.get
  let chan ← c.getChan
  return s.set { c with chan := some { chan with
    inputWanted := !c.throttledByBacklog && !s.allChannelsThrottled && !c.pendingEof && !c.sentEof } }

/-- `ssh2_try_send_and_unthrottle` -/
def ssh2TrySendAndUnthrottle (s : Conn) : Except Fault Conn := do
  let c ← s.get
  if c.sentEof then return s
  else
    let (bufsize, s) ← ssh2TrySend s
    if toInt32 bufsize = 0 then
      let c ← s.get
      ssh2ChannelCheckThrottle (s.set { c with throttledByBacklog := false })
    else return s

/-! ## The local window -/

/-- `ssh2_handle_winadj_response`, for a channel that it adds the size to -/
def winadjResponse (c : Ssh2Channel) (size : UInt32) : Ssh2Channel :=
  { c with
    remlocwin := toInt32 (c.remlocwin + size.toNat)
    throttleState :=
      if c.throttleState = .unthrottling then .unthrottled else c.throttleState }

/-- The new size of a window, for servers that ignore the maximal packet size. The comparison is one of
unsigned numbers. -/
def limitWindow (cfg : Config) (newwin : ℤ) : ℤ :=
  if cfg.bugMaxpkt ∧ (newwin > ourV2Maxpkt ∨ newwin < 0) then ourV2Maxpkt else newwin

/-- The server is asked to acknowledge that the window has become larger. -/
def askForAck (s : Conn) (size : UInt32) : Except Fault Conn := do
  let s ← ssh2ChanreqInit s "winadj@putty.projects.tartarus.org" (some (.winadj size))
  let c ← s.get
  return s.set { c with
    throttleState := if c.throttleState = .unthrottled then .unthrottled else .unthrottling }

/-- The WINDOW_ADJUST is taken as acknowledged. -/
def pretendAck (s : Conn) (c : Ssh2Channel) (newwin : ℤ) : Conn :=
  s.set { c with remlocwin := newwin, throttleState := .throttled }

/-- `ssh2_set_window`, when the window has become much larger -/
def enlargeWindow (s : Conn) (c : Ssh2Channel) (newwin : ℤ) : Except Fault Conn := do
  let size := UInt32.ofInt (newwin - c.locwindow)
  let s ← (if newwin = c.locmaxwin ∧ ¬ s.cfg.bugChokesOnWinadj then askForAck s size
    else .ok (pretendAck s c newwin))
  let s := s.push (.windowAdjust size)
  let c ← s.get
  return s.set { c with locwindow := newwin }

/-- `ssh2_set_window` -/
def ssh2SetWindow (s : Conn) (newwin : ℤ) : Except Fault Conn := do
  let c ← s.get
  if c.rcvdEof ∨ c.sentClose then return s
  else
    let chan ← c.getChan
    if chan.initialFixedWindowSize ≠ 0 then return s
    else if (limitWindow s.cfg newwin).tdiv 2 ≥ c.locwindow then
      enlargeWindow s c (limitWindow s.cfg newwin)
    else return s

/-! ## Calls from the `Channel` -/

/-- `ssh2channel_write` -/
def ssh2channelWrite (s : Conn) (isStderr : Bool) (data : List UInt8) : Except Fault Conn := do
  let c ← s.get
  if c.sentEof then .error .assertion
  else
    let s := s.note (.wrote isStderr data)
    let (_, s) ← ssh2TrySend (s.set (
      if isStderr then { c with errbuffer := c.errbuffer.add data }
      else { c with outbuffer := c.outbuffer.add data }))
    return s

/-- `ssh2channel_write_eof` -/
def ssh2channelWriteEof (s : Conn) : Except Fault Conn := do
  let c ← s.get
  if c.sentEof then return s
  else ssh2ChannelTryEof (s.set { c with pendingEof := true })

/-- `ssh2channel_initiate_close` -/
def ssh2channelInitiateClose (s : Conn) : Except Fault Conn := do
  let s ← ssh2ChannelCloseLocal s
  let c ← s.get
  ssh2ChannelCheckClose (s.set { c with pendingEof := false })

/-- `ssh2channel_unthrottle` -/
def ssh2channelUnthrottle (s : Conn) (bufsize : ℕ) : Except Fault Conn := do
  let c ← s.get
  let buflimit := if s.cfg.sshIsSimple then 0 else c.locmaxwin
  let s ← (if bufsize < buflimit then ssh2SetWindow s (buflimit - bufsize) else .ok s)
  let c ← s.get
  if c.throttlingConn ∧ bufsize ≤ buflimit then
    sshThrottleConn (s.set { c with throttlingConn := false }) (-1)
  else return s

/-- The initial size of a window -/
def initialWindow (cfg : Config) : ℤ := if cfg.sshIsSimple then ourV2Bigwin else ourV2Winsize

/-- `ssh2channel_window_override_removed` -/
def ssh2channelWindowOverrideRemoved (s : Conn) : Except Fault Conn := do
  let c ← s.get
  let chan ← c.getChan
  if chan.initialFixedWindowSize ≠ 0 then .error .assertion
  else ssh2SetWindow s (initialWindow s.cfg)

/-- `ssh2channel_x11_sharing_handover` -/
def ssh2channelX11SharingHandover (s : Conn) (shareCs : ℕ) : Except Fault Conn := do
  let c ← s.get
  return s.set { c with sharectx := some shareCs, chan := none }

end PuttyNd.Ssh2
