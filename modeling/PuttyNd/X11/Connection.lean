import PuttyNd.X11.Auth

/-!
# A forwarded X connection (`psftp/x11fwd.c`)

What a client sends at the beginning of a connection is gathered in three buffers, and decides what
becomes of the connection. `unsigned long` has 64 bits and `int` has 32. Bytes of an array that were
not set are zero; what the functions do does not depend on them.
-/

namespace PuttyNd.X11

open Psftp

/-- What must not happen here: a fault of `x11_verify`, a store beyond an array, a failed assertion. -/
inductive ConnFault
  | auth (fault : Fault)
  | overflow
  | assertion
deriving DecidableEq, Repr

/-! ## Words -/

/-- `GET_16BIT_LSB_FIRST` -/
def get16bitLsbFirst (p : List UInt8) : UInt16 :=
  (p.getD 0 0).toUInt16 ||| (p.getD 1 0).toUInt16 <<< 8

/-- `GET_16BIT_X11` -/
def get16bitX11 (endian : UInt8) (p : List UInt8) : UInt16 :=
  if endian = 'B'.toNat.toUInt8 then get16bit p else get16bitLsbFirst p

/-- `PUT_16BIT_X11` -/
def put16bitX11 (endian : UInt8) (value : UInt16) : List UInt8 :=
  if endian = 'B'.toNat.toUInt8 then [(value >>> 8).toUInt8, value.toUInt8]
  else [value.toUInt8, (value >>> 8).toUInt8]

/-- `(n + 3) & ~3` -/
def roundUp (n : ℕ) : ℕ := (n + 3) / 4 * 4

/-! ## The address of the peer -/

/-- `isspace` -/
def isSpace (b : UInt8) : Bool := b = 32 ∨ 9 ≤ b ∧ b ≤ 13

def isDigit (b : UInt8) : Bool := 48 ≤ b ∧ b ≤ 57

/-- `%d` of `sscanf`: the number, and what is left. A number that is too large is reduced. -/
def scanInt (s : List UInt8) : Option (Int32 × List UInt8) :=
  let s := s.dropWhile isSpace
  let (negative, s) :=
    match s with
    | 45 :: s => (true, s)
    | 43 :: s => (false, s)
    | s => (false, s)
  let digits := s.takeWhile isDigit
  if digits = [] then none
  else
    let n : ℕ := digits.foldl (fun n b => 10 * n + (b.toNat - 48)) 0
    some (Int32.ofInt (if negative then -n else n), s.dropWhile isDigit)

/-- A dot of the format of `sscanf` -/
def scanDot : List UInt8 → Option (List UInt8)
  | 46 :: s => some s
  | _ => none

/-- `x11_parse_ip`. A first number of 128 or more gives a negative `int`. -/
def x11ParseIp (addrString : Option CStr) : Option UInt64 := do
  let s ← addrString
  let (i0, s) ← scanInt s.val
  let (i1, s) ← scanInt (← scanDot s)
  let (i2, s) ← scanInt (← scanDot s)
  let (i3, _) ← scanInt (← scanDot s)
  return ((i0 <<< 24) ||| (i1 <<< 16) ||| (i2 <<< 8) ||| i3).toInt64.toUInt64

/-! ## Displays -/

/-- `struct X11Display`, with the fields that are used for a connection; no `localauthproto` stands for
`X11_NO_AUTH`. -/
structure X11Display where
  addr : ℕ
  realhost : CStr
  port : ℤ
  localauthproto : Option AuthType
  localauthdata : List UInt8
deriving DecidableEq, Repr

/-- What a record of a fake authorisation is for: a downstream of connection sharing with a channel, or a
display. -/
inductive Target
  | share (cs : ℕ) (chan : ℕ)
  | display (disp : X11Display)
deriving DecidableEq, Repr

/-- What stays the same while a client is authorised: the cipher, the time, the name of the program, the
records' targets, the result of `sk_socket_error` for a connection to a display, and what `sk_getxdmdata`
says of it. -/
structure Env where
  des : Des
  tim : Int64
  appname : List UInt8
  target : X11FakeAuth → Target
  socketError : X11Display → Option (List UInt8)
  getxdmdata : X11Display → Option (List UInt8)

/-- The authorisation that a greeting presents: its name, and the data. -/
def greetingAuth (env : Env) (authProto : Option AuthType) (authData : List UInt8)
    (peerAddr : Option CStr) (peerPort : ℤ) : List UInt8 × List UInt8 :=
  match authProto with
  | some .mit => (x11Authname .mit, authData)
  | some .xdm =>
    if authData.length = 16 then
      let peerIp := (x11ParseIp peerAddr).getD 0
      let port : UInt16 := UInt16.ofInt peerPort
      (x11Authname .xdm,
        env.des.encrypt (authData.drop 9)
          (authData.take 8 ++ putUint32 peerIp.toUInt32 ++ [(port >>> 8).toUInt8, port.toUInt8] ++
            putUint32 env.tim.toUInt64.toUInt32 ++ [0, 0, 0, 0, 0, 0]))
    else (x11Authname .xdm, [])
  | none => ([], [])

/-- Padding to a multiple of four -/
def padded (data : List UInt8) : List UInt8 :=
  data ++ List.replicate (roundUp data.length - data.length) 0

/-- `x11_make_greeting` -/
def x11MakeGreeting (env : Env) (endian : UInt8) (protomajor protominor : UInt16)
    (authProto : Option AuthType) (authData : List UInt8) (peerAddr : Option CStr) (peerPort : ℤ) :
    List UInt8 :=
  let (authname, authdata) := greetingAuth env authProto authData peerAddr peerPort
  [endian, 0] ++ put16bitX11 endian protomajor ++ put16bitX11 endian protominor ++
    put16bitX11 endian (UInt16.ofNat authname.length) ++
    put16bitX11 endian (UInt16.ofNat authdata.length) ++ [0, 0] ++ padded authname ++ padded authdata

/-! ## The connection -/

/-- `X11Connection`. The arrays are lists of their length; whether there is a socket stands for the pointer
to it. -/
structure X11Connection where
  firstpkt : List UInt8
  disp : Option X11Display
  authProtocol : Option (List UInt8)
  authData : List UInt8
  dataRead : ℕ
  authPlen : ℕ
  authPsize : ℕ
  authDlen : ℕ
  authDsize : ℕ
  verified : Bool
  peerAddr : Option CStr
  peerPort : ℤ
  s : Bool
deriving DecidableEq, Repr

/-- What is done in the world, in order. -/
inductive Action
  | verify (call : Call) (verdict : Verdict)
  | sshfwdWrite (data : List UInt8)
  | sshfwdWriteEof
  | windowOverrideRemoved
  | newConnection (disp : X11Display)
  | skWrite (data : List UInt8)
  /-- `sshfwd_x11_sharing_handover` -/
  | handover (cs chan : ℕ) (peerAddr : Option CStr) (peerPort : ℤ) (endian : UInt8)
    (protomajor protominor : UInt16) (initialData : List UInt8)
  /-- data of the channel that go to the downstream, after the hand-over -/
  | downstream (data : List UInt8)
deriving DecidableEq, Repr

/-- The connection, none after the hand-over to a downstream freed it, the authorisations, and what has been
done. -/
structure State where
  xconn : Option X11Connection
  auths : Auths
  log : List Action

namespace State

def set (s : State) (xconn : X11Connection) : State := { s with xconn := some xconn }

def act (s : State) (actions : List Action) : State := { s with log := s.log ++ actions }

end State

/-- `x11_new_channel` -/
def x11NewChannel (peerAddr : Option CStr) (peerPort : ℤ) : X11Connection :=
  { firstpkt := List.replicate 12 0
    disp := none
    authProtocol := none
    authData := []
    dataRead := 0
    authPlen := 0
    authPsize := 0
    authDlen := 0
    authDsize := 0
    verified := false
    peerAddr := peerAddr
    peerPort := peerPort
    s := false }

/-- `array[index - base] = b` -/
def store (array : List UInt8) (base index : ℕ) (b : UInt8) : Except ConnFault (List UInt8) :=
  if base ≤ index ∧ index - base < array.length then .ok (array.set (index - base) b)
  else .error .overflow

/-- A loop `while (len > 0 && data_read < limit) array[data_read++ - base] = (len--, *data++)`: the array,
`data_read`, and the data that are left. -/
def gather (base limit : ℕ) (array : List UInt8) (dataRead : ℕ) :
    List UInt8 → Except ConnFault (List UInt8 × ℕ × List UInt8)
  | [] => .ok (array, dataRead, [])
  | b :: data =>
    if dataRead < limit then do
      let array ← store array base dataRead b
      gather base limit array (dataRead + 1) data
    else .ok (array, dataRead, b :: data)

/-- `x11_send_init_error` -/
def x11SendInitError (env : Env) (firstpkt errMessage : List UInt8) : List Action :=
  let fullMessage := env.appname ++ ascii " X11 proxy: " ++ errMessage ++ ascii "\n"
  let msgsize := roundUp fullMessage.length
  let reply := [0, UInt8.ofNat fullMessage.length] ++ (firstpkt.drop 2).take 4 ++
    put16bitX11 (firstpkt.getD 0 0) (UInt16.ofNat (msgsize / 4)) ++ padded fullMessage
  [.sshfwdWrite reply, .sshfwdWriteEof]

/-- The first part of `x11_send`: the header, and the room for the authorisation. Nothing is returned where
the function returns. -/
def readHeader (xconn : X11Connection) (data : List UInt8) :
    Except ConnFault (X11Connection × Option (List UInt8)) := do
  let (firstpkt, dataRead, data) ← gather 0 12 xconn.firstpkt xconn.dataRead data
  let xconn := { xconn with firstpkt := firstpkt, dataRead := dataRead }
  if xconn.dataRead < 12 then return (xconn, none)
  match xconn.authProtocol with
  | some _ => return (xconn, some data)
  | none =>
    let endian := xconn.firstpkt.getD 0 0
    let authPlen := (get16bitX11 endian (xconn.firstpkt.drop 6)).toNat
    let authDlen := (get16bitX11 endian (xconn.firstpkt.drop 8)).toNat
    return ({ xconn with
        authPlen := authPlen
        authDlen := authDlen
        authPsize := roundUp authPlen
        authDsize := roundUp authDlen
        -- leave room for a terminating zero
        authProtocol := some (List.replicate (roundUp authPlen + 1) 0)
        authData := List.replicate (roundUp authDlen) 0 }, some data)

/-- The second part: the name and the data of the authorisation. -/
def readAuth (xconn : X11Connection) (authProtocol data : List UInt8) :
    Except ConnFault (X11Connection × Option (List UInt8)) := do
  let limit := 12 + xconn.authPsize
  let (authProtocol, dataRead, data) ← gather 12 limit authProtocol xconn.dataRead data
  let (authData, dataRead, data) ← gather limit (limit + xconn.authDsize) xconn.authData dataRead data
  let xconn :=
    { xconn with authProtocol := some authProtocol, authData := authData, dataRead := dataRead }
  if xconn.dataRead < limit + xconn.authDsize then return (xconn, none)
  else return (xconn, some data)

/-- `new_peer_addr` and `new_peer_port`, from what `sk_getxdmdata` says -/
def newPeer (env : Env) (disp : X11Display) : Option CStr × ℤ :=
  match env.getxdmdata disp with
  | some socketdata =>
    if socketdata.length = 6 then
      let part (i : ℕ) : String := toString (socketdata.getD i 0).toNat
      (some (upToNul (ascii (part 0 ++ "." ++ part 1 ++ "." ++ part 2 ++ "." ++ part 3))),
        ((get16bit (socketdata.drop 4)).toNat : ℤ))
    else (some (upToNul (ascii "0.0.0.0")), 0)
  | none => (some (upToNul (ascii "0.0.0.0")), 0)

/-- The connection to the display of a record that was accepted -/
def connectDisplay (env : Env) (s : State) (xconn : X11Connection) (disp : X11Display)
    (data : List UInt8) : State :=
  let endian := xconn.firstpkt.getD 0 0
  let protomajor := get16bitX11 endian (xconn.firstpkt.drop 2)
  let protominor := get16bitX11 endian (xconn.firstpkt.drop 4)
  let s := s.act [.windowOverrideRemoved, .newConnection disp]
  let xconn := { xconn with disp := some disp, s := true }
  match env.socketError disp with
  | some err =>
    (s.set xconn).act (x11SendInitError env xconn.firstpkt
      (ascii "unable to connect to forwarded X server: " ++ err))
  | none =>
    let (newPeerAddr, newPeerPort) := newPeer env disp
    let greeting := x11MakeGreeting env endian protomajor protominor disp.localauthproto
      disp.localauthdata newPeerAddr newPeerPort
    (s.set { xconn with verified := true }).act [.skWrite greeting, .skWrite data]

/-- `peer_ip` and `peer_port`; the port -1 signals that there is no address. -/
def peerData (xconn : X11Connection) : UInt64 × ℤ :=
  match x11ParseIp xconn.peerAddr with
  | some peerIp => (peerIp, xconn.peerPort)
  | none => (0, -1)

/-- The third part, where the authorisation is complete but not verified. -/
def x11Decide (env : Env) (s : State) (xconn : X11Connection) (authProtocol data : List UInt8) :
    Except ConnFault State := do
  if xconn.s then throw .assertion
  let authProtocol ← store authProtocol 0 xconn.authPlen 0
  let xconn := { xconn with authProtocol := some authProtocol }
  let (peerIp, peerPort) := peerData xconn
  let call : Call := ⟨peerIp, peerPort, upToNul authProtocol, xconn.authData.take xconn.authDlen, env.tim⟩
  let (auths, authData, verdict) ← (x11Verify env.des s.auths call).mapError .auth
  -- the data are decrypted in place
  let xconn := { xconn with authData := authData ++ xconn.authData.drop xconn.authDlen }
  let s := ({ s with auths := auths }.set xconn).act [.verify call verdict]
  match verdict with
  | .rejected err => return s.act (x11SendInitError env xconn.firstpkt (ascii err))
  | .accepted auth =>
    match env.target auth with
    | .share cs chan =>
      let endian := xconn.firstpkt.getD 0 0
      return { s.act [.handover cs chan xconn.peerAddr xconn.peerPort endian
        (get16bitX11 endian (xconn.firstpkt.drop 2)) (get16bitX11 endian (xconn.firstpkt.drop 4)) data]
        with xconn := none }
    | .display disp => return connectDisplay env s xconn disp data

/-- `x11_send` -/
def x11Send (env : Env) (s : State) (xconn : X11Connection) (data : List UInt8) :
    Except ConnFault State := do
  match ← readHeader xconn data with
  | (xconn, none) => return s.set xconn
  | (xconn, some data) =>
    match xconn.authProtocol with
    | none => throw .assertion
    | some authProtocol =>
      match ← readAuth xconn authProtocol data with
      | (xconn, none) => return s.set xconn
      | (xconn, some data) =>
        match xconn.authProtocol with
        | none => throw .assertion
        | some authProtocol =>
          if xconn.verified then return (s.set xconn).act [.skWrite data]
          else x11Decide env s xconn authProtocol data

/-- Data arrive on the channel. After the hand-over they are not for `x11_send`. -/
def send (env : Env) (s : State) (data : List UInt8) : Except ConnFault State :=
  match s.xconn with
  | none => .ok (s.act [.downstream data])
  | some xconn => x11Send env s xconn data

def sendAll (env : Env) (s : State) (chunks : List (List UInt8)) : Except ConnFault State :=
  chunks.foldlM (send env) s

/-- A channel that was opened for an X client -/
def opened (auths : Auths) (peerAddr : Option CStr) (peerPort : ℤ) : State :=
  ⟨some (x11NewChannel peerAddr peerPort), auths, []⟩

end PuttyNd.X11

/-!
## What becomes of a forwarded X connection

What a client says to be authorised, and what is done about it: the connection waits, is rejected, is
handed over to a downstream, or goes to a display.
-/

namespace PuttyNd.X11

open Psftp

/-- The first twelve bytes of a client -/
abbrev Header := { h : List UInt8 // h.length = 12 }

namespace Header

def endian (h : Header) : UInt8 := h.val.getD 0 0

def plen (h : Header) : ℕ := (get16bitX11 h.endian (h.val.drop 6)).toNat

def dlen (h : Header) : ℕ := (get16bitX11 h.endian (h.val.drop 8)).toNat

/-- How many bytes of authorisation follow the header -/
def size (h : Header) : ℕ := roundUp h.plen + roundUp h.dlen

def protomajor (h : Header) : UInt16 := get16bitX11 h.endian (h.val.drop 2)

def protominor (h : Header) : UInt16 := get16bitX11 h.endian (h.val.drop 4)

end Header

/-- All that a client says before it is authorised: the header, and name and data of its authorisation, both
with padding. -/
structure Hello where
  header : Header
  auth : List UInt8
  length_auth : auth.length = header.size

/-- The end of the SSH connection at which a client arrived, and the authorisations at the time -/
structure Arrival where
  auths : Auths
  peerAddr : Option CStr
  peerPort : ℤ

namespace Hello

def wire (hello : Hello) : List UInt8 := hello.header.val ++ hello.auth

/-- How `x11_verify` is asked about the client -/
def call (hello : Hello) (env : Env) (arrival : Arrival) : Call :=
  { peerIp := (x11ParseIp arrival.peerAddr).getD 0
    peerPort := if (x11ParseIp arrival.peerAddr).isSome then arrival.peerPort else -1
    proto := upToNul (hello.auth.take hello.header.plen)
    data := (hello.auth.drop (roundUp hello.header.plen)).take hello.header.dlen
    tim := env.tim }

end Hello

/-- What is seen of a connection: how the client was verified, what was done on its channel, where
connections were made to, hand-overs (without data), and what the display and the downstream got. -/
@[ext]
structure Outcome where
  verified : List (Call × Verdict)
  channel : List Action
  connections : List X11Display
  handovers : List Action
  server : List UInt8
  downstream : List UInt8
deriving DecidableEq, Repr

namespace Outcome

def empty : Outcome := ⟨[], [], [], [], [], []⟩

/-- One thing more is done. -/
def add (o : Outcome) : Action → Outcome
  | .verify call verdict => { o with verified := o.verified ++ [(call, verdict)] }
  | .sshfwdWrite data => { o with channel := o.channel ++ [.sshfwdWrite data] }
  | .sshfwdWriteEof => { o with channel := o.channel ++ [.sshfwdWriteEof] }
  | .windowOverrideRemoved => o
  | .newConnection disp => { o with connections := o.connections ++ [disp] }
  | .skWrite data => { o with server := o.server ++ data }
  | .handover cs chan peerAddr peerPort endian protomajor protominor initialData =>
    { o with
      handovers := o.handovers ++ [.handover cs chan peerAddr peerPort endian protomajor protominor []]
      downstream := o.downstream ++ initialData }
  | .downstream data => { o with downstream := o.downstream ++ data }

/-- What is seen of all that is done. -/
def ofLog (log : List Action) : Outcome := log.foldl add empty

end Outcome

/-- The one greeting for a display -/
def greeting (env : Env) (header : Header) (disp : X11Display) : List UInt8 :=
  x11MakeGreeting env header.endian header.protomajor header.protominor disp.localauthproto
    disp.localauthdata (newPeer env disp).1 (newPeer env disp).2

/-- `x11_verify` gives the verdict on the client. -/
def Judged (env : Env) (arrival : Arrival) (hello : Hello) (verdict : Verdict) : Prop :=
  ∃ auths data,
    x11Verify env.des arrival.auths (hello.call env arrival) = .ok (auths, data, verdict)

/-- What may be seen of a connection whose client has sent the data -/
inductive Decision (env : Env) (arrival : Arrival) : List UInt8 → Outcome → Prop
  | waiting (data : List UInt8) (h : ∀ hello rest, data ≠ Hello.wire hello ++ rest) :
    Decision env arrival data .empty
  | rejected (hello : Hello) (rest : List UInt8) (err : String)
    (h : Judged env arrival hello (.rejected err)) :
    Decision env arrival (hello.wire ++ rest)
      { Outcome.empty with
        verified := [(hello.call env arrival, .rejected err)]
        channel := x11SendInitError env hello.header.val (ascii err) }
  | unreachable (hello : Hello) (rest : List UInt8) (auth : X11FakeAuth) (disp : X11Display)
    (err : List UInt8) (h : Judged env arrival hello (.accepted auth))
    (htarget : env.target auth = .display disp) (herr : env.socketError disp = some err) :
    Decision env arrival (hello.wire ++ rest)
      { Outcome.empty with
        verified := [(hello.call env arrival, .accepted auth)]
        connections := [disp]
        channel := x11SendInitError env hello.header.val
          (ascii "unable to connect to forwarded X server: " ++ err) }
  | handedOver (hello : Hello) (rest : List UInt8) (auth : X11FakeAuth) (cs chan : ℕ)
    (h : Judged env arrival hello (.accepted auth)) (htarget : env.target auth = .share cs chan) :
    Decision env arrival (hello.wire ++ rest)
      { Outcome.empty with
        verified := [(hello.call env arrival, .accepted auth)]
        handovers := [.handover cs chan arrival.peerAddr arrival.peerPort hello.header.endian
          hello.header.protomajor hello.header.protominor []]
        downstream := rest }
  | connected (hello : Hello) (rest : List UInt8) (auth : X11FakeAuth) (disp : X11Display)
    (h : Judged env arrival hello (.accepted auth)) (htarget : env.target auth = .display disp)
    (hok : env.socketError disp = none) :
    Decision env arrival (hello.wire ++ rest)
      { Outcome.empty with
        verified := [(hello.call env arrival, .accepted auth)]
        connections := [disp]
        server := greeting env hello.header disp ++ rest }

/-! ## What a run meets -/

/-- No data arrive on a connection that has all of its client's authorisation and was not accepted. -/
def NotRejected (s : State) (_ : List UInt8) : Prop :=
  ∀ xconn, s.xconn = some xconn → xconn.authProtocol.isSome →
    12 + xconn.authPsize + xconn.authDsize ≤ xconn.dataRead → xconn.verified = true

end PuttyNd.X11
