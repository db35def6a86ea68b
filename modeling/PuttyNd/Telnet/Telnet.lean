import Mathlib.Algebra.GroupWithZero.Nat
import Mathlib.Data.Int.Notation
import Mathlib.Logic.Function.Basic
import PuttyNd.Lib.Runs
import PuttyNd.Lib.Transducer

/-!
# Telnet connections (`putty/telnet.c`)

The bytes that are written to the socket and those that are handed to the front end are parts of the
state. The socket stays open.
-/

namespace PuttyNd.Telnet

/-! ## Commands and options -/

def IAC : UInt8 := 255
def DONT : UInt8 := 254
def DO : UInt8 := 253
def WONT : UInt8 := 252
def WILL : UInt8 := 251
def SB : UInt8 := 250
def SE : UInt8 := 240
def GA : UInt8 := 249
def EL : UInt8 := 248
def EC : UInt8 := 247
def AYT : UInt8 := 246
def AO : UInt8 := 245
def IP : UInt8 := 244
def BREAK : UInt8 := 243
def DM : UInt8 := 242
def NOP : UInt8 := 241
def EOR : UInt8 := 239
def ABORT : UInt8 := 238
def SUSP : UInt8 := 237
def xEOF : UInt8 := 236

def TELOPT_BINARY : UInt8 := 0
def TELOPT_ECHO : UInt8 := 1
def TELOPT_SGA : UInt8 := 3
def TELOPT_TTYPE : UInt8 := 24
def TELOPT_NAWS : UInt8 := 31
def TELOPT_TSPEED : UInt8 := 32
def TELOPT_OLD_ENVIRON : UInt8 := 36
def TELOPT_NEW_ENVIRON : UInt8 := 39

def TELQUAL_IS : UInt8 := 0
def TELQUAL_SEND : UInt8 := 1
def BSD_VAR : UInt8 := 1
def BSD_VALUE : UInt8 := 0
def RFC_VAR : UInt8 := 0
def RFC_VALUE : UInt8 := 1

def CR : UInt8 := 13
def LF : UInt8 := 10
def NUL : UInt8 := 0

/-- `Initial_state`, which is also the state of an option later. -/
inductive OptState
  | requested
  | active
  | inactive
  | reallyInactive
deriving DecidableEq, Repr

inductive OptIndex
  | naws
  | tspeed
  | ttype
  | oenv
  | nenv
  | echo
  | weSga
  | theySga
  | weBin
  | theyBin
deriving DecidableEq, Repr

structure Opt where
  send : UInt8
  nsend : UInt8
  ack : UInt8
  nak : UInt8
  option : UInt8
  index : OptIndex
  initialState : OptState
deriving DecidableEq, Repr

def oNaws : Opt := ⟨WILL, WONT, DO, DONT, TELOPT_NAWS, .naws, .requested⟩
def oTspeed : Opt := ⟨WILL, WONT, DO, DONT, TELOPT_TSPEED, .tspeed, .requested⟩
def oTtype : Opt := ⟨WILL, WONT, DO, DONT, TELOPT_TTYPE, .ttype, .requested⟩
def oOenv : Opt := ⟨WILL, WONT, DO, DONT, TELOPT_OLD_ENVIRON, .oenv, .inactive⟩
def oNenv : Opt := ⟨WILL, WONT, DO, DONT, TELOPT_NEW_ENVIRON, .nenv, .requested⟩
def oEcho : Opt := ⟨DO, DONT, WILL, WONT, TELOPT_ECHO, .echo, .requested⟩
def oWeSga : Opt := ⟨WILL, WONT, DO, DONT, TELOPT_SGA, .weSga, .requested⟩
def oTheySga : Opt := ⟨DO, DONT, WILL, WONT, TELOPT_SGA, .theySga, .requested⟩
def oWeBin : Opt := ⟨WILL, WONT, DO, DONT, TELOPT_BINARY, .weBin, .inactive⟩
def oTheyBin : Opt := ⟨DO, DONT, WILL, WONT, TELOPT_BINARY, .theyBin, .inactive⟩

def opts : List Opt :=
  [oNaws, oTspeed, oTtype, oOenv, oNenv, oEcho, oWeSga, oTheySga, oWeBin, oTheyBin]

/-! ## The connection -/

/-- `TelnetState`. -/
inductive TelnetState
  | topLevel
  | seenIac
  | seenWill
  | seenWont
  | seenDo
  | seenDont
  | seenSb
  | subnegot
  | subnegIac
  | seenCr
deriving DecidableEq, Repr

/-- What is configured. Strings have no NUL bytes; `username` is `get_remote_username`. -/
structure Conf where
  width : ℤ
  height : ℤ
  passiveTelnet : Bool
  termspeed : List UInt8
  termtype : List UInt8
  rfcEnviron : Bool
  environmt : List (List UInt8 × List UInt8)
  username : Option (List UInt8)
deriving DecidableEq, Repr

/-- `struct telnet_tag`. `sbBuf` has the bytes up to `sb_len`. -/
structure TelnetTag where
  termWidth : ℤ
  termHeight : ℤ
  optStates : OptIndex → OptState
  echoing : Bool
  editing : Bool
  activated : Bool
  inSynch : Bool
  sbOpt : UInt8
  sbBuf : List UInt8
  state : TelnetState
  conf : Conf
  /-- what was written by `sk_write` -/
  sent : List UInt8
  /-- what was written by `sk_write_oob` -/
  oob : List UInt8
  /-- what was handed to `from_backend` -/
  received : List UInt8

namespace TelnetTag

def skWrite (telnet : TelnetTag) (buf : List UInt8) : TelnetTag :=
  { telnet with sent := telnet.sent ++ buf }

def setOpt (telnet : TelnetTag) (index : OptIndex) (st : OptState) : TelnetTag :=
  { telnet with optStates := Function.update telnet.optStates index st }

def sendOpt (telnet : TelnetTag) (cmd option : UInt8) : TelnetTag :=
  telnet.skWrite [IAC, cmd, option]

/-! ## Option negotiation -/

def deactivateOption (telnet : TelnetTag) (o : Opt) : TelnetTag :=
  let st := telnet.optStates o.index
  (if st = .requested ∨ st = .active then telnet.sendOpt o.nsend o.option else telnet).setOpt
    o.index .reallyInactive

/-- An option that must be there is asked for. -/
def ensureOption (telnet : TelnetTag) (o : Opt) : TelnetTag :=
  if telnet.optStates o.index = .inactive then
    (telnet.setOpt o.index .requested).sendOpt o.send o.option
  else telnet

def optionSideEffects (telnet : TelnetTag) (o : Opt) (enabled : Bool) : TelnetTag :=
  let telnet :=
    if o.option = TELOPT_ECHO ∧ o.send = DO then { telnet with echoing := !enabled }
    else if o.option = TELOPT_SGA ∧ o.send = DO then { telnet with editing := !enabled }
    else telnet
  if telnet.activated then telnet
  else
    { ((telnet.ensureOption oEcho).ensureOption oWeSga).ensureOption oTheySga with activated := true }

/-- A byte of a size, doubled if it is IAC. -/
def sizeByte (n : ℤ) : List UInt8 :=
  let b := UInt8.ofInt n
  if b = IAC then [b, IAC] else [b]

def telnetSize (telnet : TelnetTag) (width height : ℤ) : TelnetTag :=
  let telnet := { telnet with termWidth := width, termHeight := height }
  if telnet.optStates .naws ≠ .active then telnet
  else
    telnet.skWrite ([IAC, SB, TELOPT_NAWS] ++ sizeByte (width >>> (8 : ℕ)) ++ sizeByte width ++
      sizeByte (height >>> (8 : ℕ)) ++ sizeByte height ++ [IAC, SE])

def activateOption (telnet : TelnetTag) (o : Opt) : TelnetTag :=
  let telnet :=
    if o.send = WILL ∧ o.option = TELOPT_NAWS then
      telnet.telnetSize telnet.termWidth telnet.termHeight
    else telnet
  -- only one kind of ENVIRON at a time
  let telnet :=
    if o.send = WILL ∧ (o.option = TELOPT_NEW_ENVIRON ∨ o.option = TELOPT_OLD_ENVIRON) then
      telnet.deactivateOption (if o.option = TELOPT_NEW_ENVIRON then oOenv else oNenv)
    else telnet
  telnet.optionSideEffects o true

def refusedOption (telnet : TelnetTag) (o : Opt) : TelnetTag :=
  let telnet :=
    if o.send = WILL ∧ o.option = TELOPT_NEW_ENVIRON ∧ telnet.optStates .oenv = .inactive then
      (telnet.sendOpt WILL TELOPT_OLD_ENVIRON).setOpt .oenv .requested
    else telnet
  telnet.optionSideEffects o false

/-- The option was agreed to by the other side. -/
def optAcked (telnet : TelnetTag) (o : Opt) : TelnetTag :=
  match telnet.optStates o.index with
  | .requested => (telnet.setOpt o.index .active).activateOption o
  | .active => telnet
  | .inactive => ((telnet.setOpt o.index .active).sendOpt o.send o.option).activateOption o
  | .reallyInactive => telnet.sendOpt o.nsend o.option

/-- The option was refused by the other side. -/
def optNaked (telnet : TelnetTag) (o : Opt) : TelnetTag :=
  match telnet.optStates o.index with
  | .requested => (telnet.setOpt o.index .inactive).refusedOption o
  | .active =>
    ((telnet.setOpt o.index .inactive).sendOpt o.nsend o.option).optionSideEffects o false
  | .inactive => telnet
  | .reallyInactive => telnet

def procRecOpt (telnet : TelnetTag) (cmd option : UInt8) : TelnetTag :=
  match opts.find? fun o => o.option == option && (o.ack == cmd || o.nak == cmd) with
  | some o => if o.ack = cmd then telnet.optAcked o else telnet.optNaked o
  | none =>
    if cmd = WILL ∨ cmd = DO then
      telnet.sendOpt (if cmd = WILL then DONT else WONT) option
    else telnet

/-! ## Subnegotiation -/

/-- The guess at the sense of VAR and VALUE, as `(var, value)`. -/
def guessSense (rfcEnviron : Bool) (buf : List UInt8) : UInt8 × UInt8 :=
  buf.foldl
    (fun sense c =>
      if c = RFC_VAR then (RFC_VAR, RFC_VALUE)
      else if c = BSD_VAR then (BSD_VAR, BSD_VALUE)
      else sense)
    (if rfcEnviron then (RFC_VAR, RFC_VALUE) else (BSD_VAR, BSD_VALUE))

def upcase (c : UInt8) : UInt8 :=
  if 97 ≤ c ∧ c ≤ 122 then c + 65 - 97 else c

/-- The environment variables, and the user name as `USER`. -/
def environBody (conf : Conf) (var value : UInt8) : List UInt8 :=
  conf.environmt.flatMap (fun e => var :: e.1 ++ value :: e.2) ++
    match conf.username with
    | some user => var :: [85, 83, 69, 82] ++ value :: user
    | none => []

/-- What `process_subneg` writes between the option and the final `IAC SE`. -/
def subnegReply (telnet : TelnetTag) : Option (List UInt8) :=
  if telnet.sbOpt = TELOPT_TSPEED then
    if telnet.sbBuf = [TELQUAL_SEND] then some (TELQUAL_IS :: telnet.conf.termspeed) else none
  else if telnet.sbOpt = TELOPT_TTYPE then
    if telnet.sbBuf = [TELQUAL_SEND] then some (TELQUAL_IS :: telnet.conf.termtype.map upcase)
    else none
  else if telnet.sbOpt = TELOPT_OLD_ENVIRON ∨ telnet.sbOpt = TELOPT_NEW_ENVIRON then
    match telnet.sbBuf with
    | [] => none
    | qual :: buf =>
      if qual = TELQUAL_SEND then
        let sense :=
          if telnet.sbOpt = TELOPT_OLD_ENVIRON then guessSense telnet.conf.rfcEnviron buf
          else (RFC_VAR, RFC_VALUE)
        some (TELQUAL_IS :: environBody telnet.conf sense.1 sense.2)
      else none
  else none

def processSubneg (telnet : TelnetTag) : TelnetTag :=
  match telnet.subnegReply with
  | some body => telnet.skWrite ([IAC, SB, telnet.sbOpt] ++ body ++ [IAC, SE])
  | none => telnet

/-! ## Data from the socket -/

def subnegAddchar (telnet : TelnetTag) (c : UInt8) : TelnetTag :=
  { telnet with sbBuf := telnet.sbBuf ++ [c], state := .subnegot }

/-- One turn of the loop of `do_telnet_read`, with what it adds to `outbuf`. -/
def readByte (telnet : TelnetTag) (c : UInt8) : TelnetTag × List UInt8 :=
  match telnet.state with
  | .topLevel | .seenCr =>
    if c = NUL ∧ telnet.state = .seenCr then ({ telnet with state := .topLevel }, [])
    else if c = IAC then ({ telnet with state := .seenIac }, [])
    else
      let out := if telnet.inSynch then [] else [c]
      let telnet := if telnet.inSynch ∧ c = DM then { telnet with inSynch := false } else telnet
      if c = CR ∧ telnet.optStates .theyBin ≠ .active then ({ telnet with state := .seenCr }, out)
      else ({ telnet with state := .topLevel }, out)
  | .seenIac =>
    if c = DO then ({ telnet with state := .seenDo }, [])
    else if c = DONT then ({ telnet with state := .seenDont }, [])
    else if c = WILL then ({ telnet with state := .seenWill }, [])
    else if c = WONT then ({ telnet with state := .seenWont }, [])
    else if c = SB then ({ telnet with state := .seenSb }, [])
    else if c = DM then ({ telnet with inSynch := false, state := .topLevel }, [])
    -- ignore everything else; print it if it's IAC
    else ({ telnet with state := .topLevel }, if c = IAC then [c] else [])
  | .seenWill => ({ telnet.procRecOpt WILL c with state := .topLevel }, [])
  | .seenWont => ({ telnet.procRecOpt WONT c with state := .topLevel }, [])
  | .seenDo => ({ telnet.procRecOpt DO c with state := .topLevel }, [])
  | .seenDont => ({ telnet.procRecOpt DONT c with state := .topLevel }, [])
  | .seenSb => ({ telnet with sbOpt := c, sbBuf := [], state := .subnegot }, [])
  | .subnegot =>
    if c = IAC then ({ telnet with state := .subnegIac }, []) else (telnet.subnegAddchar c, [])
  | .subnegIac =>
    if c ≠ SE then (telnet.subnegAddchar c, [])
    else ({ telnet.processSubneg with state := .topLevel }, [])

def cWrite (telnet : TelnetTag) (buf : List UInt8) : TelnetTag :=
  { telnet with received := telnet.received ++ buf }

def doTelnetRead (telnet : TelnetTag) (buf : List UInt8) : TelnetTag :=
  let read := Transducer.run readByte telnet buf
  if read.2 ≠ [] then read.1.cWrite read.2 else read.1

def telnetReceive (telnet : TelnetTag) (urgent : Bool) (data : List UInt8) : TelnetTag :=
  (if urgent then { telnet with inSynch := true } else telnet).doTelnetRead data

/-! ## Data to the socket -/

def iswritable (telnet : TelnetTag) (x : UInt8) : Bool :=
  x != IAC && (telnet.optStates .weBin = .active || x != CR)

/-- What the loop of `telnet_send` writes: runs of bytes that are written as they are, and the codes of
the bytes between them. -/
def sendLoop (writable : UInt8 → Bool) (buf : List UInt8) : List UInt8 :=
  if buf = [] then []
  else
    let rest := buf.dropWhile writable
    buf.takeWhile writable ++
      ((rest.takeWhile (!writable ·)).flatMap fun c => if c = IAC then [IAC, IAC] else [CR, NUL]) ++
      sendLoop writable (rest.dropWhile (!writable ·))
termination_by buf.length
decreasing_by
  cases buf with
  | nil => contradiction
  | cons c buf =>
    by_cases hc : writable c
    · rw [List.dropWhile_cons_of_pos hc, List.length_cons, Nat.lt_succ_iff]
      exact Nat.le_trans (List.dropWhile_sublist _).length_le (List.dropWhile_sublist _).length_le
    · rw [List.dropWhile_cons_of_neg hc, List.dropWhile_cons_of_pos (by simp [hc]),
        List.length_cons, Nat.lt_succ_iff]
      exact (List.dropWhile_sublist _).length_le

def telnetSend (telnet : TelnetTag) (buf : List UInt8) : TelnetTag :=
  telnet.skWrite (sendLoop telnet.iswritable buf)

/-- `Telnet_Special`. The last one stands for those that are not known here. -/
inductive Special
  | ayt
  | brk
  | ec
  | el
  | ga
  | nop
  | abort
  | ao
  | ip
  | susp
  | eor
  | eof
  | eol
  | synch
  | recho
  | lecho
  | ping
  | other
deriving DecidableEq, Repr

def telnetSpecial (telnet : TelnetTag) (code : Special) : TelnetTag :=
  match code with
  | .ayt => telnet.skWrite [IAC, AYT]
  | .brk => telnet.skWrite [IAC, BREAK]
  | .ec => telnet.skWrite [IAC, EC]
  | .el => telnet.skWrite [IAC, EL]
  | .ga => telnet.skWrite [IAC, GA]
  | .nop => telnet.skWrite [IAC, NOP]
  | .abort => telnet.skWrite [IAC, ABORT]
  | .ao => telnet.skWrite [IAC, AO]
  | .ip => telnet.skWrite [IAC, IP]
  | .susp => telnet.skWrite [IAC, SUSP]
  | .eor => telnet.skWrite [IAC, EOR]
  | .eof => telnet.skWrite [IAC, xEOF]
  | .eol =>
    -- in BINARY mode, CR-LF becomes just CR
    if telnet.optStates .weBin = .active then telnet.skWrite [CR] else telnet.skWrite [CR, LF]
  | .synch => { telnet.skWrite [IAC] with oob := telnet.oob ++ [DM] }
  | .recho =>
    if telnet.optStates .echo = .inactive ∨ telnet.optStates .echo = .reallyInactive then
      (telnet.setOpt .echo .requested).sendOpt oEcho.send oEcho.option
    else telnet
  | .lecho =>
    if telnet.optStates .echo = .active then
      (telnet.setOpt .echo .requested).sendOpt oEcho.nsend oEcho.option
    else telnet
  | .ping => if telnet.optStates .theySga = .active then telnet.skWrite [IAC, NOP] else telnet
  | .other => telnet

/-! ## Runs -/

/-- `telnet_init`, up to the option states. -/
def telnetInit (conf : Conf) : TelnetTag :=
  let telnet : TelnetTag :=
    { termWidth := conf.width
      termHeight := conf.height
      optStates := fun _ => .inactive
      echoing := true
      editing := true
      activated := false
      inSynch := false
      sbOpt := 0
      sbBuf := []
      state := .topLevel
      conf := conf
      sent := []
      oob := []
      received := [] }
  if conf.passiveTelnet then telnet
  else
    { opts.foldl
        (fun telnet o =>
          let telnet := telnet.setOpt o.index o.initialState
          if o.initialState = .requested then telnet.sendOpt o.send o.option else telnet)
        telnet with
      activated := true }

inductive Event
  | send (buf : List UInt8)
  | receive (urgent : Bool) (data : List UInt8)
  | size (width height : ℤ)
  | special (code : Special)
  | reconfig (conf : Conf)
deriving DecidableEq, Repr

def step (telnet : TelnetTag) : Event → TelnetTag
  | .send buf => telnet.telnetSend buf
  | .receive urgent data => telnet.telnetReceive urgent data
  | .size width height => telnet.telnetSize width height
  | .special code => telnet.telnetSpecial code
  | .reconfig conf => { telnet with conf := conf }

def run (telnet : TelnetTag) (events : List Event) : TelnetTag :=
  events.foldl step telnet

/-- States that a connection can reach. -/
def Reachable (telnet : TelnetTag) : Prop :=
  ∃ conf events, telnet = (telnetInit conf).run events

end TelnetTag

end PuttyNd.Telnet
