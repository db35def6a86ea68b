import PuttyNd.Lib.CInt
import PuttyNd.Lib.Marks
import PuttyNd.Lib.Memory
import PuttyNd.Telnet.Telnet

/-!
# Replies to subnegotiations

The replies are built in buffers whose sizes are computed before. A reply is read by the other side as the parts
that `do_telnet_read` divides a stream into, and the content of a subnegotiation says certain values.
-/

namespace PuttyNd.Telnet

open Memory

/-! ## Buffers -/

/-- A buffer with what has been written from its start on -/
structure SendBuffer where
  size : ℕ
  bytes : List UInt8
  fits : bytes.length ≤ size

namespace SendBuffer

def snewn (size : ℕ) : SendBuffer := ⟨size, [], Nat.zero_le size⟩

def store (b : SendBuffer) (c : UInt8) : Except Fault SendBuffer :=
  if h : b.bytes.length < b.size then
    .ok ⟨b.size, b.bytes ++ [c], by rw [List.length_append]; exact h⟩
  else .error .overrun

def storeAll (b : SendBuffer) (l : List UInt8) : Except Fault SendBuffer := l.foldlM store b

end SendBuffer

namespace TelnetTag

open SendBuffer

/-- `strlen(ekey) + strlen(eval) + 2` for each variable, and the user name -/
def environSize (conf : Conf) : ℕ :=
  20 + (conf.environmt.map fun e => e.1.length + e.2.length + 2).sum +
    match conf.username with
    | some user => 6 + user.length
    | none => 0

/-- `process_subneg`, with its buffers: what is written to the socket -/
def subnegBuffer (telnet : TelnetTag) : Except Fault (List UInt8) :=
  if telnet.sbOpt = TELOPT_TSPEED then
    if telnet.sbBuf = [TELQUAL_SEND] then do
      let termspeed := telnet.conf.termspeed
      let b ← (snewn (20 + termspeed.length)).storeAll [IAC, SB, TELOPT_TSPEED, TELQUAL_IS]
      -- the copied string ends with a NUL, which is replaced by what is stored next
      let _ ← b.storeAll (termspeed ++ [NUL])
      let b ← b.storeAll (termspeed ++ [IAC, SE])
      return b.bytes
    else return []
  else if telnet.sbOpt = TELOPT_TTYPE then
    if telnet.sbBuf = [TELQUAL_SEND] then do
      let termtype := telnet.conf.termtype
      let b ← (snewn (20 + termtype.length)).storeAll [IAC, SB, TELOPT_TTYPE, TELQUAL_IS]
      let b ← b.storeAll (termtype.map upcase)
      let b ← b.storeAll [IAC, SE]
      return b.bytes
    else return []
  else if telnet.sbOpt = TELOPT_OLD_ENVIRON ∨ telnet.sbOpt = TELOPT_NEW_ENVIRON then
    match telnet.sbBuf with
    | [] => return []
    | qual :: buf =>
      if qual = TELQUAL_SEND then do
        let sense :=
          if telnet.sbOpt = TELOPT_OLD_ENVIRON then guessSense telnet.conf.rfcEnviron buf
          else (RFC_VAR, RFC_VALUE)
        let b ← (snewn (environSize telnet.conf)).storeAll [IAC, SB, telnet.sbOpt, TELQUAL_IS]
        let b ← b.storeAll (environBody telnet.conf sense.1 sense.2)
        let b ← b.storeAll [IAC, SE]
        return b.bytes
      else return []
  else return []

/-- `telnet_size`, with its buffer of 24 bytes, once the option is active -/
def sizeBuffer (width height : ℤ) : Except Fault (List UInt8) := do
  let b ← (snewn 24).storeAll [IAC, SB, TELOPT_NAWS]
  let b ← b.storeAll (sizeByte (width >>> (8 : ℕ)) ++ sizeByte width)
  let b ← b.storeAll (sizeByte (height >>> (8 : ℕ)) ++ sizeByte height)
  let b ← b.storeAll [IAC, SE]
  return b.bytes

/-! ## What the other side reads -/

end TelnetTag

/-- A part of a stream -/
inductive Item
  | data (c : UInt8)
  | command (cmd option : UInt8)
  | subneg (option : UInt8) (content : List UInt8)
deriving DecidableEq, Repr

namespace TelnetTag

/-- A turn of the loop of `do_telnet_read`, with the part of the stream that it ends -/
def readItem (telnet : TelnetTag) (c : UInt8) : TelnetTag × List Item :=
  let read := telnet.readByte c
  (read.1, match telnet.state with
    | .seenWill => [.command WILL c]
    | .seenWont => [.command WONT c]
    | .seenDo => [.command DO c]
    | .seenDont => [.command DONT c]
    | .subnegIac => if c = SE then [.subneg telnet.sbOpt telnet.sbBuf] else []
    | _ => read.2.map .data)

/-- The bytes are read as exactly one subnegotiation, by whoever is between commands. -/
def ReadsAsSubneg (wire : List UInt8) (option : UInt8) (content : List UInt8) : Prop :=
  ∀ peer : TelnetTag, peer.state = .topLevel →
    (Transducer.run readItem peer wire).2 = [.subneg option content] ∧
      (Transducer.run readItem peer wire).1.state = .topLevel

/-! ## What a reply says -/

end TelnetTag

/-- What a request asks for -/
inductive Reply
  | tspeed (termspeed : List UInt8)
  | ttype (termtype : List UInt8)
  | environ (var value : UInt8) (environment : List (List UInt8 × List UInt8))
deriving DecidableEq, Repr

/-- The environment variables, and the user name as `USER` -/
def environment (conf : Conf) : List (List UInt8 × List UInt8) :=
  conf.environmt ++
    match conf.username with
    | some user => [([85, 83, 69, 82], user)]
    | none => []

def TelnetTag.requested (telnet : TelnetTag) : Option Reply :=
  if telnet.sbOpt = TELOPT_TSPEED then
    if telnet.sbBuf = [TELQUAL_SEND] then some (.tspeed telnet.conf.termspeed) else none
  else if telnet.sbOpt = TELOPT_TTYPE then
    if telnet.sbBuf = [TELQUAL_SEND] then some (.ttype telnet.conf.termtype) else none
  else if telnet.sbOpt = TELOPT_OLD_ENVIRON ∨ telnet.sbOpt = TELOPT_NEW_ENVIRON then
    match telnet.sbBuf with
    | [] => none
    | qual :: buf =>
      if qual = TELQUAL_SEND then
        let sense :=
          if telnet.sbOpt = TELOPT_OLD_ENVIRON then guessSense telnet.conf.rfcEnviron buf
          else (RFC_VAR, RFC_VALUE)
        some (.environ sense.1 sense.2 (environment telnet.conf))
      else none
  else none

/-- Names and values, each after its mark -/
def pairUp (var value : UInt8) : List (UInt8 × List UInt8) → Option (List (List UInt8 × List UInt8))
  | [] => some []
  | [_] => none
  | name :: val :: rest =>
    if name.1 = var ∧ val.1 = value then (pairUp var value rest).map ((name.2, val.2) :: ·) else none

def decodeEnviron (var value : UInt8) (l : List UInt8) : Option (List (List UInt8 × List UInt8)) :=
  let parts := Marks.split (fun c => c == var || c == value) l
  if parts.1 = [] then pairUp var value parts.2 else none

/-- The content of a subnegotiation says what was asked for. The case of a terminal type does not matter. -/
def Reply.Says (content : List UInt8) : Reply → Prop
  | .tspeed termspeed => content = TELQUAL_IS :: termspeed
  | .ttype termtype => content.map TelnetTag.upcase = TELQUAL_IS :: termtype.map TelnetTag.upcase
  | .environ var value l => ∃ rest, content = TELQUAL_IS :: rest ∧ decodeEnviron var value rest = some l

/-- The values hold no byte that has a meaning where they are put. -/
def Reply.Clean : Reply → Prop
  | .tspeed termspeed => IAC ∉ termspeed
  | .ttype termtype => IAC ∉ termtype
  | .environ var value l =>
    ∀ e ∈ l, ∀ c ∈ e.1 ++ e.2, c ≠ IAC ∧ c ≠ var ∧ c ≠ value

/-- What is written to the socket is nothing, if nothing is asked for, or else it is read as one subnegotiation that
says what was asked for. -/
def TelnetTag.Answers (telnet : TelnetTag) : Prop :=
  ∃ wire, telnet.processSubneg = telnet.skWrite wire ∧
    match telnet.requested with
    | none => wire = []
    | some reply => ∃ content, ReadsAsSubneg wire telnet.sbOpt content ∧ reply.Says content

def decodeSize : List UInt8 → Option (ℤ × ℤ)
  | [a, b, c, d] => some (256 * a.toNat + b.toNat, 256 * c.toNat + d.toNat)
  | _ => none

/-- What is written of a size is read as one subnegotiation that says it. -/
def TelnetTag.SizeAnswers (telnet : TelnetTag) (width height : ℤ) : Prop :=
  ∃ wire content, (telnet.telnetSize width height).sent = telnet.sent ++ wire ∧
    ReadsAsSubneg wire TELOPT_NAWS content ∧ decodeSize content = some (width, height)

end PuttyNd.Telnet
