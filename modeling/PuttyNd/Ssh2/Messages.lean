import PuttyNd.Ssh2.Channel

/-!
# Messages about a channel (`psftp/ssh2connection.c`, `psftp/mainchan.c`)

A message that calls a method of the `Channel` is handled in two parts. Between them the method runs, and
what it calls are steps of their own.
-/

namespace PuttyNd.Ssh2

open Psftp CInt Outcome

/-! ## Messages from the server -/

/-- A method of the `Channel` is called; the rest of the handler runs when it returns. -/
def callMethod (s : Conn) (rest : Rest) : Except Fault Conn := do
  let c ← s.get
  let _ ← c.getChan
  return { s with calling := some rest }

/-- CHANNEL_OPEN_CONFIRMATION, up to `chan_open_confirmation` -/
def openConfirmation (s : Conn) (remoteid remwindow remmaxpkt : UInt32) : Except Fault Conn := do
  let c ← s.get
  let remmaxpkt := if remmaxpkt > s.cfg.packetSizeLimit then s.cfg.packetSizeLimit else remmaxpkt
  let s := s.note (.opened remwindow remmaxpkt)
  callMethod (s.set {
    c with
    remoteid := remoteid
    halfopen := false
    remwindow := remwindow
    remmaxpkt := remmaxpkt }) .openConfirmation

def openConfirmationRest (s : Conn) : Except Fault Conn := do
  let s ← ssh2ChannelCheckClose s
  let c ← s.get
  if c.pendingEof then ssh2ChannelTryEof s else return s

/-- CHANNEL_OPEN_FAILURE -/
def openFailure (s : Conn) : Except Fault Conn := do
  let c ← s.get
  let _ ← c.getChan
  return { s with channel := none }

/-- CHANNEL_DATA and CHANNEL_EXTENDED_DATA, up to `chan_send` -/
def receiveData (s : Conn) (data : List UInt8) : Except Fault Conn := do
  let c ← s.get
  callMethod (s.set {
    c with
    locwindow := toInt32 (c.locwindow - data.length)
    remlocwin := toInt32 (c.remlocwin - data.length) }) .data

/-- The window is made larger if the remote end hit the end of it. -/
def growWindow (c : Ssh2Channel) : Ssh2Channel :=
  if c.remlocwin ≤ 0 ∧ c.throttleState = .unthrottled ∧ c.locmaxwin < 0x40000000 then
    { c with locmaxwin := c.locmaxwin + ourV2Winsize }
  else c

/-- A channel that buffers too much throttles the connection. -/
def throttleIfFull (s : Conn) (bufsize : ℤ) : Except Fault Conn := do
  let c ← s.get
  if (bufsize > c.locmaxwin ∨ s.cfg.sshIsSimple ∧ bufsize > 0) ∧ ¬ c.throttlingConn then
    sshThrottleConn (s.set { c with throttlingConn := true }) 1
  else return s

def receiveDataRest (s : Conn) (bufsize : ℕ) : Except Fault Conn := do
  let c ← s.get
  if c.sharectx.isSome then return s
  else
    let bufsize := toInt32 bufsize
    let c := growWindow c
    let s := s.set c
    let s ← (if bufsize < c.locmaxwin then ssh2SetWindow s (toInt32 (c.locmaxwin - bufsize))
      else .ok s)
    throttleIfFull s bufsize

/-- CHANNEL_WINDOW_ADJUST -/
def receiveWindowAdjust (s : Conn) (size : UInt32) : Except Fault Conn := do
  let c ← s.get
  if c.sentEof then return s
  else ssh2TrySendAndUnthrottle (s.set { c with remwindow := c.remwindow + size })

/-- CHANNEL_REQUEST; only the main channel accepts some. -/
def receiveRequest (s : Conn) (wantReply success : Bool) : Except Fault Conn := do
  let c ← s.get
  let chan ← c.getChan
  if wantReply ∧ ¬ c.sentClose then
    return s.push (if success ∧ chan.vt = .mainchan then .success else .failure)
  else return s

/-- What comes after the handler of a channel request -/
def responseRest (s : Conn) : Except Fault Conn := do
  let c ← s.get
  ssh2ChannelCheckClose (s.set { c with chanreqs := c.chanreqs.tail })

/-- A handler of a channel request is called, with whether the request succeeded. -/
def handleResponse (s : Conn) (c : Ssh2Channel) (h : Handler) (success : Bool) :
    Except Fault Conn := do
  let s := s.note (.handled h (some success))
  match h with
  | .winadj size => responseRest (s.set (winadjResponse c size))
  | .response =>
    let chan ← c.getChan
    match chan.vt with
    | .mainchan => callMethod s .response
    | _ => .error .unreachable

/-- CHANNEL_SUCCESS and CHANNEL_FAILURE -/
def receiveResponse (s : Conn) (success : Bool) : Except Fault Conn := do
  let c ← s.get
  match c.chanreqs with
  | [] => return { s with aborted := true }
  | h :: _ => handleResponse s c h success

/-- CHANNEL_EOF, up to `chan_send_eof` -/
def receiveEof (s : Conn) : Except Fault Conn := do
  let c ← s.get
  if c.rcvdEof then return s
  else callMethod (s.set { c with rcvdEof := true }) .eof

/-- The handlers of all outstanding channel requests are called with NULL. -/
def abandonRequests : List Handler → Conn → Except Fault Conn
  | [], s => .ok s
  | h :: hs, s => do
    let c ← s.get
    let s := s.note (.handled h none)
    match h with
    | .winadj size => abandonRequests hs (s.set { winadjResponse c size with chanreqs := hs })
    | .response => .error .nullPacket

/-- EOF is sent; what was not sent yet is abandoned. -/
def closeOutgoing (s : Conn) : Except Fault Conn := do
  let c ← s.get
  if c.sentEof then return s
  else
    let s ← ssh2channelWriteEof (s.set { c with outbuffer := .empty, errbuffer := .empty })
    ssh2ChannelCheckThrottle s

/-- CHANNEL_CLOSE, after EOF -/
def receiveCloseRest (s : Conn) : Except Fault Conn := do
  let c ← s.get
  let s ← (if s.cfg.bugSendsLateRequestReply then .ok s else abandonRequests c.chanreqs s)
  let s ← closeOutgoing s
  let c ← s.get
  if c.rcvdClose then return s
  else ssh2ChannelCheckClose (s.set { c with rcvdClose := true })

/-- CHANNEL_CLOSE, up to `chan_send_eof` -/
def receiveClose (s : Conn) : Except Fault Conn := do
  let c ← s.get
  if c.rcvdEof then receiveCloseRest s
  else callMethod (s.set { c with rcvdEof := true }) .close

/-- The part of `ssh2_connection_filter_queue` for a message about a channel -/
def receive (s : Conn) : ServerMsg → Except Fault Conn
  | .openConfirmation remoteid remwindow remmaxpkt => openConfirmation s remoteid remwindow remmaxpkt
  | .openFailure => openFailure s
  | .data _ data => receiveData s data
  | .windowAdjust size => receiveWindowAdjust s size
  | .request wantReply success => receiveRequest s wantReply success
  | .success => receiveResponse s true
  | .failure => receiveResponse s false
  | .eof => receiveEof s
  | .close => receiveClose s

/-- What comes after a method of the `Channel` has returned; only `chan_send` returns something. -/
def methodReturns (s : Conn) (rest : Rest) (bufsize : ℕ) : Except Fault Conn :=
  let s := { s with calling := none }
  match rest with
  | .openConfirmation => openConfirmationRest s
  | .data => receiveDataRest s bufsize
  | .response => responseRest s
  | .eof => ssh2ChannelCheckClose s
  | .close => receiveCloseRest s

def ServerMsg.expectHalfopen : ServerMsg → Bool
  | .openConfirmation _ _ _ => true
  | .openFailure => true
  | _ => false

/-- A message from the server. What is for a downstream is passed on to it; a message for a channel that
does not exist, or that is or is not half-open, ends the connection. -/
def serverStep (s : Conn) (m : ServerMsg) : Except Fault Conn :=
  match s.channel with
  | none => .ok { s with aborted := true }
  | some c =>
    if c.sharectx.isSome then .ok s
    else if c.halfopen ≠ m.expectHalfopen then .ok { s with aborted := true }
    else receive (s.note (.got m)) m

/-! ## The main channel -/

/-- What `mainchan_special_cmd` and `mainchan_terminal_size` use of `struct mainchan` -/
structure Mainchan where
  ready : Bool
  eofPending : Bool
  eofSent : Bool
  reqPty : Bool
  gotPty : Bool
deriving DecidableEq, Repr

/-- `SessionSpecialCode` -/
inductive SpecialCode where
  | eof
  | brk
  | signal (name : String)
  | other
deriving DecidableEq, Repr

/-- What a `Channel` calls -/
inductive Call where
  | write (isStderr : Bool) (data : List UInt8)
  | writeEof
  | chanreq (type : String) (wantReply : Bool)
deriving DecidableEq, Repr

/-- `mainchan_special_cmd` -/
def mainchanSpecialCmd (mc : Mainchan) : SpecialCode → Mainchan × List Call
  | .eof =>
    if ¬ mc.ready then ({ mc with eofPending := true }, [])
    else if ¬ mc.eofSent then ({ mc with eofSent := true }, [.writeEof])
    else (mc, [])
  | .brk => (mc, [.chanreq "break" false])
  | .signal _ => (mc, [.chanreq "signal" false])
  | .other => (mc, [])

/-- `mainchan_terminal_size` -/
def mainchanTerminalSize (mc : Mainchan) : List Call :=
  if mc.reqPty ∨ mc.gotPty then [.chanreq "window-change" false] else []

/-! ## Steps -/

inductive Event where
  | server (m : ServerMsg)
  /-- The method of the `Channel` returns. -/
  | returns (bufsize : ℕ)
  | call (k : Call)
  | initiateClose
  | unthrottle (bufsize : ℕ)
  /-- The end of the X11 authorisation: `initial_fixed_window_size` is set to 0. -/
  | windowOverrideRemoved
  | x11SharingHandover (shareCs : ℕ)
  | deleteSharingChannel
  | throttleAllChannels (throttled : Bool)
  /-- `ssh2_connection_got_user_input`, which writes to the main channel -/
  | userInput (data : List UInt8)
  /-- `ssh2_stdout_unthrottle` -/
  | stdoutUnthrottle (bufsize : ℕ)
  | terminalSize (mc : Mainchan)
  | specialCmd (mc : Mainchan) (code : SpecialCode)

def callStep (s : Conn) : Call → Except Fault Conn
  | .write isStderr data => ssh2channelWrite s isStderr data
  | .writeEof => ssh2channelWriteEof s
  | .chanreq type wantReply => ssh2ChanreqInit s type (if wantReply then some .response else none)

/-- The `Channel`, if there is one and it is not a zombie -/
def Conn.chan (s : Conn) : Option Channel :=
  match s.channel with
  | none => none
  | some c =>
    match c.chan with
    | none => none
    | some chan => if chan.vt = .zombie then none else some chan

/-- Only the main channel sends channel requests of its own. -/
def canCall (chan : Channel) : Call → Bool
  | .chanreq _ _ => chan.vt = .mainchan
  | _ => true

/-- A step of the connection with a channel. What is not possible does nothing. -/
def step (s : Conn) (e : Event) : Except Fault Conn :=
  if s.aborted then .ok s
  else
    match e with
    | .server m => if s.calling = none then serverStep s m else .ok s
    | .returns bufsize =>
      match s.calling with
      | none => .ok s
      -- a zombie buffers nothing
      | some rest => methodReturns s rest (if s.chan.isSome then bufsize else 0)
    | .call k =>
      match s.chan with
      | none => .ok s
      | some chan => if canCall chan k then callStep s k else .ok s
    | .initiateClose =>
      if s.chan.isSome ∧ s.calling = none then ssh2channelInitiateClose s else .ok s
    | .unthrottle bufsize =>
      if s.chan.isSome ∧ s.calling = none then ssh2channelUnthrottle s bufsize else .ok s
    | .windowOverrideRemoved =>
      match s.channel, s.chan with
      | some c, some chan =>
        if chan.initialFixedWindowSize ≠ 0 ∧ s.calling = some .data then
          ssh2channelWindowOverrideRemoved
            (s.set { c with chan := some { chan with initialFixedWindowSize := 0 } })
        else .ok s
      | _, _ => .ok s
    | .x11SharingHandover shareCs =>
      match s.chan with
      | none => .ok s
      | some chan =>
        if chan.initialFixedWindowSize ≠ 0 ∧ s.calling = some .data then
          ssh2channelX11SharingHandover s shareCs
        else .ok s
    | .deleteSharingChannel =>
      match s.channel with
      | none => .ok s
      | some c =>
        if c.sharectx.isSome ∧ s.calling = none then ssh2ChannelDestroy (s.note .deleted) else .ok s
    | .throttleAllChannels throttled =>
      let s := { s with allChannelsThrottled := throttled }
      match s.channel with
      | none => .ok s
      | some c => if c.sharectx.isSome then .ok s else ssh2ChannelCheckThrottle s
    | .userInput data =>
      if s.channel.isSome ∧ s.isMainchan then ssh2channelWrite s false data else .ok s
    | .stdoutUnthrottle bufsize =>
      if s.channel.isSome ∧ s.isMainchan ∧ s.calling = none then ssh2channelUnthrottle s bufsize
      else .ok s
    | .terminalSize mc =>
      if s.channel.isSome ∧ s.isMainchan then
        if s.chan.isNone then .error .badPointer else (mainchanTerminalSize mc).foldlM callStep s
      else .ok s
    | .specialCmd mc code =>
      if s.channel.isSome ∧ s.isMainchan then
        if s.chan.isNone then .error .badPointer
        else (mainchanSpecialCmd mc code).2.foldlM callStep s
      else .ok s

def run (s : Conn) (events : List Event) : Except Fault Conn := events.foldlM step s

/-! ## Channels that begin -/

/-- `ssh2_channel_init` -/
def ssh2ChannelInit (cfg : Config) (localid : ℕ) (chan : Option Channel) : Ssh2Channel where
  remoteid := 0
  localid := localid
  halfopen := false
  sentEof := false
  sentClose := false
  rcvdEof := false
  rcvdClose := false
  pendingEof := false
  throttlingConn := false
  throttledByBacklog := false
  outbuffer := .empty
  errbuffer := .empty
  remwindow := 0
  remmaxpkt := 0
  locwindow := initialWindow cfg
  locmaxwin := initialWindow cfg
  remlocwin := initialWindow cfg
  chanreqs := []
  throttleState := .unthrottled
  sharectx := none
  chan := chan

/-- A channel that we open: `ssh2_lportfwd_open`, `ssh2_session_open` -/
def channelOpen (cfg : Config) (localid : ℕ) (chan : Channel) : Ssh2Channel :=
  { ssh2ChannelInit cfg localid (some chan) with halfopen := true }

/-- A channel that the server opens with CHANNEL_OPEN -/
def channelOpened (cfg : Config) (localid : ℕ) (chan : Channel) (remoteid winsize pktsize : UInt32) :
    Ssh2Channel :=
  let c := ssh2ChannelInit cfg localid (some chan)
  let window :=
    if chan.initialFixedWindowSize ≠ 0 then toInt32 chan.initialFixedWindowSize.toNat
    else initialWindow cfg
  { c with
    remoteid := remoteid
    remwindow := winsize
    remmaxpkt := if pktsize > cfg.packetSizeLimit then cfg.packetSizeLimit else pktsize
    locwindow := window
    locmaxwin := window
    remlocwin := window }

/-- A connection with a channel that we open -/
def connOpen (cfg : Config) (throttled : Bool) (count : ℕ) (localid : ℕ) (chan : Channel) : Conn where
  cfg := cfg
  allChannelsThrottled := throttled
  connThrottleCount := count
  logicallyFrozen := count ≠ 0
  trace := []
  channel := some (channelOpen cfg localid chan)
  isMainchan := chan.vt = .mainchan
  calling := none
  aborted := false

/-- A connection with a channel that the server opens -/
def connOpened (cfg : Config) (throttled : Bool) (count : ℕ) (localid : ℕ) (chan : Channel)
    (remoteid winsize pktsize : UInt32) : Conn :=
  let c := channelOpened cfg localid chan remoteid winsize pktsize
  { connOpen cfg throttled count localid chan with
    trace := [.opened c.remwindow c.remmaxpkt]
    channel := some c
    isMainchan := false }

/-- The connections in which a channel begins. A fixed size of the window fits into an `int`. -/
inductive Begins : Conn → Prop where
  | open {cfg : Config} {throttled : Bool} {count localid : ℕ} {chan : Channel} :
    chan.vt ≠ .zombie → chan.initialFixedWindowSize = 0 →
      Begins (connOpen cfg throttled count localid chan)
  | opened {cfg : Config} {throttled : Bool} {count localid : ℕ} {chan : Channel}
      {remoteid winsize pktsize : UInt32} :
    chan.vt = .forwarding → chan.initialFixedWindowSize.toNat < 2 ^ 31 →
      Begins (connOpened cfg throttled count localid chan remoteid winsize pktsize)

end PuttyNd.Ssh2

/-!
## A connection with all its channels

Each step of a channel is made in the connection as that channel sees it.
-/

namespace PuttyNd.Ssh2

/-- What belongs to one channel of a connection -/
structure View where
  channel : Option Ssh2Channel
  isMainchan : Bool
  calling : Option Rest
  trace : List Trace
deriving DecidableEq, Repr

/-- `struct ssh2_connection_state`; channels that were freed keep their place in the list. -/
structure Connection where
  cfg : Config
  allChannelsThrottled : Bool
  connThrottleCount : ℤ
  logicallyFrozen : Bool
  aborted : Bool
  views : List View
deriving DecidableEq, Repr

namespace Connection

/-- The connection as a channel sees it -/
def conn (s : Connection) (v : View) : Conn where
  cfg := s.cfg
  allChannelsThrottled := s.allChannelsThrottled
  connThrottleCount := s.connThrottleCount
  logicallyFrozen := s.logicallyFrozen
  trace := v.trace
  channel := v.channel
  isMainchan := v.isMainchan
  calling := v.calling
  aborted := s.aborted

end Connection

def Conn.view (s : Conn) : View where
  channel := s.channel
  isMainchan := s.isMainchan
  calling := s.calling
  trace := s.trace

namespace Connection

/-- A channel has made a step. -/
def put (s : Connection) (i : ℕ) (s' : Conn) : Connection where
  cfg := s'.cfg
  allChannelsThrottled := s'.allChannelsThrottled
  connThrottleCount := s'.connThrottleCount
  logicallyFrozen := s'.logicallyFrozen
  aborted := s'.aborted
  views := s.views.set i s'.view

/-- A channel makes a step. Messages wait until no method of a `Channel` runs. -/
def stepChannel (s : Connection) (i : ℕ) (e : Event) : Except Fault Connection :=
  match s.views[i]? with
  | none => .ok s
  | some v => do
    let s' ← step (s.conn v) e
    return s.put i s'

/-- Messages are handled one after another. -/
def busy (s : Connection) : Bool := s.views.any fun v => v.calling.isSome

inductive Event where
  /-- We open a channel: `ssh2_session_open`, `ssh2_lportfwd_open` -/
  | open (localid : ℕ) (chan : Channel)
  /-- The server opens a channel. -/
  | opened (localid : ℕ) (chan : Channel) (remoteid winsize pktsize : UInt32)
  | channel (i : ℕ) (e : Ssh2.Event)
  /-- `ssh2_throttle_all_channels` -/
  | throttleAllChannels (throttled : Bool)

/-- A channel is added. -/
def add (s : Connection) (begins : Conn) : Connection := { s with views := s.views ++ [begins.view] }

/-- A step of the connection. What is not possible does nothing. -/
def step (s : Connection) : Event → Except Fault Connection
  | .open localid chan =>
    if chan.vt ≠ .zombie ∧ chan.initialFixedWindowSize = 0 then
      .ok (s.add (connOpen s.cfg s.allChannelsThrottled 0 localid chan))
    else .ok s
  | .opened localid chan remoteid winsize pktsize =>
    if chan.vt = .forwarding ∧ chan.initialFixedWindowSize.toNat < 2 ^ 31 then
      .ok (s.add (connOpened s.cfg s.allChannelsThrottled 0 localid chan remoteid winsize pktsize))
    else .ok s
  | .channel _ (.throttleAllChannels _) => .ok s
  | .channel i (.server m) => if s.busy then .ok s else s.stepChannel i (.server m)
  | .channel i e => s.stepChannel i e
  | .throttleAllChannels throttled =>
    (List.range s.views.length).foldlM (fun s i => s.stepChannel i (.throttleAllChannels throttled))
      { s with allChannelsThrottled := throttled }

def run (s : Connection) (events : List Event) : Except Fault Connection := events.foldlM step s

/-- A connection that has no channels yet -/
def empty (cfg : Config) : Connection := ⟨cfg, false, 0, false, false, []⟩

end Connection

end PuttyNd.Ssh2
