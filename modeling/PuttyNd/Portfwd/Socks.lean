import PuttyNd.Psftp.Marshal

/-!
# Dynamic forwardings (`psftp/portfwd.c`)

A client that connects to the listener of a dynamic forwarding says with SOCKS where it wants to be
connected. What is read is kept in `socksbuf`, and looked at from the last complete message on.
-/

namespace PuttyNd.Portfwd

open Psftp

/-- What must not happen: a failed assertion, the use of a `NULL` pointer or of a state that was freed. -/
inductive Fault
  | assertion
  | null
  | freed
deriving DecidableEq, Repr

/-- The bytes of a text -/
def text (s : String) : CStr := upToNul (s.toList.map fun c => c.toNat.toUInt8)

/-! ## Texts of addresses -/

/-- `ipv4_to_string` -/
def ipv4ToString (ipv4 : UInt32) : CStr :=
  let part (shift : UInt32) : String := toString ((ipv4 >>> shift) &&& 0xFF).toNat
  text (part 24 ++ "." ++ part 16 ++ "." ++ part 8 ++ "." ++ part 0)

/-- A number as `%04x` -/
def hex4 (n : ℕ) : String := String.ofList ((Nat.toDigits 16 n).leftpad 4 '0')

/-- `ipv6_to_string` -/
def ipv6ToString (ipv6 : List UInt8) : Except Fault CStr :=
  if ipv6.length ≠ 16 then .error .assertion
  else
    let part (pos : ℕ) : String := hex4 (get16bit (ipv6.drop pos)).toNat
    .ok (text (":".intercalate [part 0, part 2, part 4, part 6, part 8, part 10, part 12, part 14]))

/-! ## The state -/

inductive SocksState
  /-- direct connection (no SOCKS, or SOCKS already done) -/
  | none
  /-- don't know if we're SOCKS 4 or 5 yet -/
  | initial
  | socks4
  | socks5Initial
  | socks5Connect
deriving DecidableEq, Repr

/-- `PortForwarding`. Whether there is a channel stands for the pointer to it. -/
structure PortForwarding where
  c : Bool
  inputWanted : Bool
  ready : Bool
  socksState : SocksState
  hostname : Option CStr
  port : ℕ
  socksbuf : Option (List UInt8)
  socksbufConsumed : ℕ
deriving DecidableEq, Repr

/-- A forwarded connection with what it did: the state, none after `pfd_close`, whether the socket is frozen,
what was written to the socket, where channels were opened to, and what was written to the channel. -/
structure Conn where
  pf : Option PortForwarding
  frozen : Bool
  sent : List UInt8
  opened : List (Option CStr × ℕ)
  channel : List UInt8
deriving DecidableEq, Repr

namespace Conn

def setPf (conn : Conn) (pf : PortForwarding) : Conn := { conn with pf := some pf }

def skWrite (conn : Conn) (data : List UInt8) : Conn := { conn with sent := conn.sent ++ data }

def pfdClose (conn : Conn) : Conn := { conn with pf := none }

def sshfwdWrite (conn : Conn) (data : List UInt8) : Conn :=
  { conn with channel := conn.channel ++ data }

end Conn

/-- `pfl_accepting` for a dynamic listener. -/
def accepted : Conn :=
  { pf := some
      { c := false
        inputWanted := true
        ready := false
        socksState := .initial
        hostname := none
        port := 0
        socksbuf := some []
        socksbufConsumed := 0 }
    frozen := false
    sent := []
    opened := []
    channel := [] }

/-! ## Messages -/

/-- How a turn of the loop ends: the data are not complete, the connection is closed, or the request is
done. -/
inductive Turn
  | wait (conn : Conn)
  | closed (conn : Conn)
  | done (conn : Conn)
deriving DecidableEq, Repr

/-- A reply of SOCKS 4, with null port and address fields -/
def socks4Reply (code : UInt8) : List UInt8 := [0, code, 0, 0, 0, 0, 0, 0]

/-- A reply of SOCKS 5, with a bound address that is not used -/
def socks5Reply (code : UInt8) : List UInt8 := [5, code, 0, 1, 0, 0, 0, 0, 0, 0]

/-- The rest of a CONNECT message of SOCKS 4 or 4A: the port, and the host by address or name. -/
def socks4Connect (src : BinarySource) : (UInt16 × CStr) × BinarySource :=
  let (port, src) := getUint16 src
  let (ipv4, src) := getUint32 src
  -- addresses in this range indicate the SOCKS 4A extension
  let nameBased := ipv4 > 0x00000000 ∧ ipv4 < 0x00000100
  let (_, src) := getAsciz src
  if nameBased then
    let (hostname, src) := getAsciz src
    ((port, hostname), src)
  else ((port, ipv4ToString ipv4), src)

/-- SOCKS 4/4A connect message -/
def socks4 (conn : Conn) (pf : PortForwarding) (buflen : ℕ) (src : BinarySource) : Turn :=
  let (socksVersion, src) := getByte src
  let (messageType, src) := getByte src
  if src.err then .wait (conn.setPf pf)
  else if socksVersion = 4 ∧ messageType = 1 then
    let ((port, hostname), src) := socks4Connect src
    if src.err then .wait (conn.setPf pf)
    else
      .done ((conn.skWrite (socks4Reply 90)).setPf
        { pf with
          port := port.toNat
          hostname := some hostname
          socksState := .none
          socksbufConsumed := buflen - src.data.length })
  else .closed (conn.skWrite (socks4Reply 91)).pfdClose

/-- The address in a connect message of SOCKS 5: the reply code, and the host. -/
def socks5Address (src : BinarySource) : Except Fault ((UInt8 × Option CStr) × BinarySource) := do
  let (type, src) := getByte src
  if type = 1 then
    let (ipv4, src) := getUint32 src
    return ((0, some (ipv4ToString ipv4)), src)
  else if type = 4 then
    let (ipv6, src) := getData src 16
    let hostname ← ipv6ToString ipv6
    return ((0, some hostname), src)
  else if type = 3 then
    let (name, src) := getPstring src
    return ((0, some (upToNul name)), src)
  else return ((8, none), src)

/-- SOCKS 5 connect message. The host and the port are stored before it is known whether the message is
complete. -/
def socks5Connect (conn : Conn) (pf : PortForwarding) (buflen : ℕ) (src : BinarySource) :
    Except Fault Turn := do
  let (socksVersion, src) := getByte src
  let (messageType, src) := getByte src
  let (reservedByte, src) := getByte src
  let (replyCode, pf, src) ←
    if socksVersion = 5 ∧ messageType = 1 ∧ reservedByte = 0 then do
      let ((replyCode, hostname), src) ← socks5Address src
      let (port, src) := getUint16 src
      pure (replyCode, { pf with hostname := hostname, port := port.toNat }, src)
    else pure ((7 : UInt8), pf, src)
  if src.err then return .wait (conn.setPf pf)
  else
    let conn := conn.skWrite (socks5Reply replyCode)
    if replyCode ≠ 0 then return .closed conn.pfdClose
    else
      return .done (conn.setPf
        { pf with socksState := .none, socksbufConsumed := buflen - src.data.length })

/-- SOCKS 5 initial method list. If a method is found, the loop takes its next turn with the connect
message. -/
def socks5Initial (conn : Conn) (pf : PortForwarding) (buflen : ℕ) (src : BinarySource) :
    Except Fault Turn :=
  let (_, src) := getByte src
  let (methods, src) := getPstring src
  let method : UInt8 := if methods.any (· == 0) then 0 else 0xFF
  if src.err then .ok (.wait (conn.setPf pf))
  else
    let conn := conn.skWrite [5, method]
    if method = 0xFF then .ok (.closed conn.pfdClose)
    else
      socks5Connect conn
        { pf with socksState := .socks5Connect, socksbufConsumed := buflen - src.data.length } buflen src

/-- The loop `while (pf->socks_state != SOCKS_NONE)`. -/
def socksLoop (conn : Conn) (pf : PortForwarding) (buflen : ℕ) (src : BinarySource) :
    Except Fault Turn :=
  match pf.socksState with
  | .none => .ok (.done (conn.setPf pf))
  | .initial => .error .assertion
  | .socks4 => .ok (socks4 conn pf buflen src)
  | .socks5Initial => socks5Initial conn pf buflen src
  | .socks5Connect => socks5Connect conn pf buflen src

/-- The first byte of the data says which major version is spoken. -/
def socksVersionState (state : SocksState) (socksbuf : List UInt8) : Option SocksState :=
  if state = .initial then
    match socksbuf.headD 0 with
    | 4 => some .socks4
    | 5 => some .socks5Initial
    | _ => none
  else some state

/-- A connection is made: the socket is frozen until the server confirms it. -/
def connect (conn : Conn) : Except Fault Conn :=
  match conn.pf with
  | none => .error .freed
  | some pf =>
    .ok { conn.setPf { pf with c := true } with
      frozen := true
      opened := conn.opened ++ [(pf.hostname, pf.port)] }

/-- The end of `pfd_receive` -/
def forward (conn : Conn) (data : List UInt8) : Except Fault Conn :=
  match conn.pf with
  | none => .error .freed
  | some pf =>
    if pf.ready then
      if pf.c then .ok (conn.sshfwdWrite data) else .error .null
    else .ok conn

/-- `pfd_receive` -/
def pfdReceive (conn : Conn) (data : List UInt8) : Except Fault Conn := do
  match conn.pf with
  | none => throw .freed
  | some pf =>
    if data = [] then return conn
    else if pf.socksState ≠ .none then
      match pf.socksbuf with
      | none => throw .null
      | some socksbuf =>
        let socksbuf := socksbuf ++ data
        match socksVersionState pf.socksState socksbuf with
        | none => return conn.pfdClose
        | some socksState =>
          let pf := { pf with socksbuf := some socksbuf, socksState := socksState }
          let (_, src) := getData ⟨socksbuf, false⟩ pf.socksbufConsumed
          match ← socksLoop conn pf socksbuf.length src with
          | .wait conn => return conn
          | .closed conn => return conn
          | .done conn =>
            let conn ← connect conn
            forward conn data
    else forward conn data

/-- `pfd_open_confirmation` -/
def pfdOpenConfirmation (conn : Conn) : Except Fault Conn :=
  match conn.pf with
  | none => .error .freed
  | some pf =>
    let pf := { pf with ready := true }
    let conn := { conn with frozen := false }
    match pf.socksbuf with
    | some socksbuf =>
      if pf.c then
        .ok ((conn.sshfwdWrite (socksbuf.drop pf.socksbufConsumed)).setPf { pf with socksbuf := none })
      else .error .null
    | none => .ok (conn.setPf pf)

/-- `pfd_set_input_wanted` -/
def pfdSetInputWanted (conn : Conn) (wanted : Bool) : Except Fault Conn :=
  match conn.pf with
  | none => .error .freed
  | some pf => .ok { conn.setPf { pf with inputWanted := wanted } with frozen := !wanted }

/-! ## Runs -/

inductive Event
  | receive (data : List UInt8)
  | openConfirmation
  | setInputWanted (wanted : Bool)
deriving DecidableEq, Repr

/-- A socket that is closed delivers nothing any more. -/
def step (conn : Conn) : Event → Except Fault Conn
  | .receive data => if conn.pf.isNone then .ok conn else pfdReceive conn data
  | .openConfirmation => pfdOpenConfirmation conn
  | .setInputWanted wanted => pfdSetInputWanted conn wanted

def run (conn : Conn) (events : List Event) : Except Fault Conn :=
  events.foldlM step conn

end PuttyNd.Portfwd

/-!
## What a SOCKS client can say

The messages of SOCKS 4, 4A and 5, each with its bytes, the reply to it, and where a connection is asked
for. A message is as short as what is needed to decide.
-/

namespace PuttyNd.Portfwd

open Psftp

/-- As many bytes -/
abbrev Bytes (n : ℕ) := { b : List UInt8 // b.length = n }

/-- The address of a connect message of SOCKS 5 -/
inductive Address
  | ipv4 (address : Bytes 4)
  | ipv6 (address : Bytes 16)
  | domain (length : UInt8) (name : Bytes length.toNat)
  | other (type : UInt8) (h : type ≠ 1 ∧ type ≠ 4 ∧ type ≠ 3)

namespace Address

def wire : Address → List UInt8
  | ipv4 address => 1 :: address.val
  | ipv6 address => 4 :: address.val
  | domain length name => 3 :: length :: name.val
  | other type _ => [type]

def replyCode : Address → UInt8
  | other _ _ => 8
  | _ => 0

def host : Address → Option CStr
  | ipv4 address => some (ipv4ToString (get32bitMsbFirst address.val))
  | ipv6 address => (ipv6ToString address.val).toOption
  | domain _ name => some (upToNul name.val)
  | other _ _ => none

end Address

/-- The methods of authentication that a client of SOCKS 5 can use. -/
structure Methods where
  count : UInt8
  methods : Bytes count.toNat

def Methods.wire (m : Methods) : List UInt8 := m.count :: m.methods.val

/-- An address of SOCKS 4A that says that a name follows. -/
def NameBased (ipv4 : Bytes 4) : Prop :=
  get32bitMsbFirst ipv4.val > 0 ∧ get32bitMsbFirst ipv4.val < 0x100

inductive Message
  | unknownVersion (version : UInt8) (h : version ≠ 4 ∧ version ≠ 5)
  | socks4 (port : Bytes 2) (ipv4 : Bytes 4) (h : ¬ NameBased ipv4) (user : CStr)
  | socks4a (port : Bytes 2) (ipv4 : Bytes 4) (h : NameBased ipv4) (user hostname : CStr)
  | socks4Other (type : UInt8) (h : type ≠ 1)
  | noMethod (methods : Methods) (h : 0 ∉ methods.methods.val)
  | socks5 (methods : Methods) (h : 0 ∈ methods.methods.val) (address : Address) (port : Bytes 2)
  | socks5Other (methods : Methods) (h : 0 ∈ methods.methods.val) (command : Bytes 3)
    (hcommand : command.val ≠ [5, 1, 0])

namespace Message

def wire : Message → List UInt8
  | unknownVersion version _ => [version]
  | socks4 port ipv4 _ user => 4 :: 1 :: (port.val ++ (ipv4.val ++ putAsciz user))
  | socks4a port ipv4 _ user hostname =>
    4 :: 1 :: (port.val ++ (ipv4.val ++ (putAsciz user ++ putAsciz hostname)))
  | socks4Other type _ => [4, type]
  | noMethod methods _ => 5 :: methods.wire
  | socks5 methods _ address port => 5 :: (methods.wire ++ (5 :: 1 :: 0 :: (address.wire ++ port.val)))
  | socks5Other methods _ command _ => 5 :: (methods.wire ++ command.val)

/-- All that is sent up to the reply to the message. -/
def replies : Message → List UInt8
  | unknownVersion _ _ => []
  | socks4 _ _ _ _ | socks4a _ _ _ _ _ => socks4Reply 90
  | socks4Other _ _ => socks4Reply 91
  | noMethod _ _ => [5, 0xFF]
  | socks5 _ _ address _ => [5, 0] ++ socks5Reply address.replyCode
  | socks5Other _ _ _ _ => [5, 0] ++ socks5Reply 7

/-- The host and the port of a request that is granted. -/
def target : Message → Option (Option CStr × ℕ)
  | socks4 port ipv4 _ _ =>
    some (some (ipv4ToString (get32bitMsbFirst ipv4.val)), (get16bit port.val).toNat)
  | socks4a port _ _ _ hostname => some (some hostname, (get16bit port.val).toNat)
  | socks5 _ _ address port =>
    if address.replyCode = 0 then some (address.host, (get16bit port.val).toNat) else none
  | _ => none

end Message

/-- The data end inside an IPv6 address of SOCKS 5. -/
def CutAddress (data : List UInt8) : Prop :=
  ∃ (methods : Methods) (part : List UInt8), 0 ∈ methods.methods.val ∧ part.length < 16 ∧
    data = 5 :: (methods.wire ++ (5 :: 1 :: 0 :: 4 :: part))

/-! ## What happens to a connection -/

/-- What the client sends in an event. What it sends after the socket was closed counts as well. -/
def Event.data : Event → List UInt8
  | .receive data => data
  | _ => []

/-- The connection layer confirms a channel that was asked for, and only once; it speaks of the input of a
channel only after it was asked for one. -/
def Allowed (conn : Conn) : Event → Prop
  | .receive _ => True
  | .openConfirmation => ∃ pf, conn.pf = some pf ∧ pf.c = true ∧ pf.ready = false
  | .setInputWanted _ => ∃ pf, conn.pf = some pf ∧ pf.c = true

/-- Nothing arrives between the request and the confirmation, and the data do not end inside an IPv6
address. -/
def Undisturbed (conn : Conn) : Event → Prop
  | .receive data => ∀ pf, conn.pf = some pf →
    (pf.c = true → pf.ready = true ∨ data = []) ∧
      ∀ socksbuf, pf.socksState ≠ .none → pf.socksbuf = some socksbuf → ¬ CutAddress (socksbuf ++ data)
  | _ => True

end PuttyNd.Portfwd
