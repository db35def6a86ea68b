import PuttyNd.Telnet.Telnet

/-!
# Option negotiation

The commands that are sent are those that a reader takes from what was written to the socket.
-/

namespace PuttyNd.Telnet

/-- A byte is read, with the option command that it ends. -/
def commandStep (state : TelnetState) (c : UInt8) : TelnetState × List (UInt8 × UInt8) :=
  match state with
  | .topLevel | .seenCr => (if c = IAC then .seenIac else .topLevel, [])
  | .seenIac =>
    if c = DO then (.seenDo, [])
    else if c = DONT then (.seenDont, [])
    else if c = WILL then (.seenWill, [])
    else if c = WONT then (.seenWont, [])
    else if c = SB then (.seenSb, [])
    else (.topLevel, [])
  | .seenWill => (.topLevel, [(WILL, c)])
  | .seenWont => (.topLevel, [(WONT, c)])
  | .seenDo => (.topLevel, [(DO, c)])
  | .seenDont => (.topLevel, [(DONT, c)])
  | .seenSb => (.subnegot, [])
  | .subnegot => (if c = IAC then .subnegIac else .subnegot, [])
  | .subnegIac => (if c = SE then .topLevel else .subnegot, [])

/-- The option commands in a stream -/
def optionCommands (wire : List UInt8) : List (UInt8 × UInt8) :=
  (Transducer.run commandStep .topLevel wire).2

inductive OptCommand
  | cmdWill
  | cmdWont
  | cmdDo
  | cmdDont
deriving DecidableEq, Repr

def OptCommand.code : OptCommand → UInt8
  | .cmdWill => WILL
  | .cmdWont => WONT
  | .cmdDo => DO
  | .cmdDont => DONT

/-- What the state of an option makes of a command from the server -/
inductive Standing
  | confirms
  | answers
  | asksForChange
deriving DecidableEq, Repr

/-- A command from the server, `TS_RECHO` or `TS_LECHO` -/
inductive Negotiation
  | command (cmd : OptCommand) (option : UInt8)
  | recho
  | lecho
deriving DecidableEq, Repr

/-- The mode fits the state of the option of the server. -/
def Agrees (st : OptState) (mode : Bool) : Prop :=
  (st = .active → mode = false) ∧ (st = .inactive ∨ st = .reallyInactive → mode = true)

namespace TelnetTag

def standing (telnet : TelnetTag) (cmd option : UInt8) : Standing :=
  match opts.find? fun o => o.option == option && (o.ack == cmd || o.nak == cmd) with
  | some o =>
    match telnet.optStates o.index with
    | .requested => .answers
    | .active => if o.ack = cmd then .confirms else .asksForChange
    | .inactive | .reallyInactive => if o.ack = cmd then .asksForChange else .confirms
  -- an option that is not known is never enabled
  | none => if cmd = WILL ∨ cmd = DO then .asksForChange else .confirms

def negotiate (telnet : TelnetTag) : Negotiation → TelnetTag
  | .command cmd option => telnet.procRecOpt cmd.code option
  | .recho => telnet.telnetSpecial .recho
  | .lecho => telnet.telnetSpecial .lecho

/-- What is local or asks for a change -/
def Asks (telnet : TelnetTag) : Negotiation → Prop
  | .command cmd option => telnet.standing cmd.code option = .asksForChange
  | .recho | .lecho => True

instance (telnet : TelnetTag) : ∀ e, Decidable (telnet.Asks e)
  | .command cmd option => inferInstanceAs (Decidable (telnet.standing cmd.code option = .asksForChange))
  | .recho | .lecho => isTrue trivial

/-- How often a change is asked for -/
def changes (telnet : TelnetTag) : List Negotiation → ℕ
  | [] => 0
  | e :: events => (if telnet.Asks e then 1 else 0) + changes (telnet.negotiate e) events

def commandsSent (telnet : TelnetTag) : List (UInt8 × UInt8) := optionCommands telnet.sent

/-- Nothing is said about the option from one state to the other. -/
def Silent (telnet telnet' : TelnetTag) (option : UInt8) : Prop :=
  ∃ cmds, telnet'.commandsSent = telnet.commandsSent ++ cmds ∧ ∀ c ∈ cmds, c.2 ≠ option

/-- ECHO, which was asked for before the first option was settled, is refused. -/
def EchoRefused (telnet : TelnetTag) (cmd : OptCommand) (option : UInt8) : Prop :=
  telnet.activated = false ∧ telnet.optStates .echo = .requested ∧ cmd = .cmdWont ∧ option = TELOPT_ECHO

end TelnetTag

end PuttyNd.Telnet

/-!
## The data stream of one direction

What a side reads from the other is decided by four parts of its state. The data of a run are the bytes
that the other side is to hand up.
-/

namespace PuttyNd.Telnet

/-- The part of the state that the data stream depends on. -/
@[ext]
structure Receiver where
  state : TelnetState
  inSynch : Bool
  theyBin : OptState
deriving DecidableEq, Repr

/-- The state of an option after the other side agreed to it. -/
def OptState.acked : OptState → OptState
  | .reallyInactive => .reallyInactive
  | _ => .active

/-- The state of an option after the other side refused it. -/
def OptState.naked : OptState → OptState
  | .reallyInactive => .reallyInactive
  | _ => .inactive

namespace Receiver

/-- A byte is read, with what is handed up. -/
def step (r : Receiver) (c : UInt8) : Receiver × List UInt8 :=
  match r.state with
  | .topLevel | .seenCr =>
    if c = NUL ∧ r.state = .seenCr then ({ r with state := .topLevel }, [])
    else if c = IAC then ({ r with state := .seenIac }, [])
    else
      ({ r with
          inSynch := r.inSynch && c != DM
          state := if c = CR ∧ r.theyBin ≠ .active then .seenCr else .topLevel },
        if r.inSynch then [] else [c])
  | .seenIac =>
    if c = DO then ({ r with state := .seenDo }, [])
    else if c = DONT then ({ r with state := .seenDont }, [])
    else if c = WILL then ({ r with state := .seenWill }, [])
    else if c = WONT then ({ r with state := .seenWont }, [])
    else if c = SB then ({ r with state := .seenSb }, [])
    else
      ({ r with inSynch := r.inSynch && c != DM, state := .topLevel }, if c = IAC then [c] else [])
  | .seenWill =>
    ({ r with
        theyBin := if c = TELOPT_BINARY then r.theyBin.acked else r.theyBin
        state := .topLevel }, [])
  | .seenWont =>
    ({ r with
        theyBin := if c = TELOPT_BINARY then r.theyBin.naked else r.theyBin
        state := .topLevel }, [])
  | .seenDo | .seenDont => ({ r with state := .topLevel }, [])
  | .seenSb => ({ r with state := .subnegot }, [])
  | .subnegot => ({ r with state := if c = IAC then .subnegIac else .subnegot }, [])
  | .subnegIac => ({ r with state := if c = SE then .topLevel else .subnegot }, [])

/-- No command is being read and nothing is hidden. -/
def top (theyBin : OptState) : Receiver := ⟨.topLevel, false, theyBin⟩

end Receiver

/-- Each IAC, from the left, is followed by a byte that it makes a part of the subnegotiation. -/
def Sound : List UInt8 → Prop
  | [] => True
  | [c] => c ≠ IAC
  | c :: d :: body => if c = IAC then d ≠ SE ∧ Sound body else Sound (d :: body)

instance Sound.decidable : ∀ body, Decidable (Sound body)
  | [] => isTrue trivial
  | [c] => inferInstanceAs (Decidable (c ≠ IAC))
  | c :: d :: body =>
    have := Sound.decidable body
    have := Sound.decidable (d :: body)
    inferInstanceAs (Decidable (if c = IAC then d ≠ SE ∧ Sound body else Sound (d :: body)))

namespace TelnetTag

/-- The view of the state that decides what is read. -/
def receiver (telnet : TelnetTag) : Receiver :=
  ⟨telnet.state, telnet.inSynch, telnet.optStates .theyBin⟩

/-- What the event sends as data. -/
def said (telnet : TelnetTag) : Event → List UInt8
  | .send buf => buf
  | .special .eol => if telnet.optStates .weBin = .active then [CR] else [CR, LF]
  | _ => []

/-- The data of a run. -/
def saidRun (telnet : TelnetTag) : List Event → List UInt8
  | [] => []
  | e :: events => telnet.said e ++ saidRun (telnet.step e) events

/-- A subnegotiation that ends with this byte is not answered, or with a sound reply. -/
def ByteSound (telnet : TelnetTag) (c : UInt8) : Prop :=
  telnet.state = .subnegIac → c = SE → ∀ body ∈ telnet.subnegReply, Sound body

instance (telnet : TelnetTag) (c : UInt8) : Decidable (telnet.ByteSound c) :=
  inferInstanceAs (Decidable (telnet.state = .subnegIac → c = SE → ∀ body ∈ telnet.subnegReply, Sound body))

/-- The replies to subnegotiations in what is received are sound. -/
def RepliesSound (telnet : TelnetTag) : Event → Prop
  | .receive urgent data =>
    Runs.Meets (fun telnet c => (readByte telnet c).1) ByteSound
      (if urgent then { telnet with inSynch := true } else telnet) data
  | _ => True

instance (telnet : TelnetTag) : ∀ e, Decidable (telnet.RepliesSound e)
  | .receive urgent data =>
    inferInstanceAs (Decidable (Runs.Meets (fun telnet c => (readByte telnet c).1) ByteSound
      (if urgent then { telnet with inSynch := true } else telnet) data))
  | .send _ | .size _ _ | .special _ | .reconfig _ => isTrue trivial

/-- The event sends no byte out of band. -/
def InBand (e : Event) : Prop := e ≠ .special .synch

instance (e : Event) : Decidable (InBand e) := inferInstanceAs (Decidable (e ≠ .special .synch))

/-- The event receives no urgent data. -/
def NotUrgent : Event → Prop
  | .receive urgent _ => urgent = false
  | _ => True

instance : ∀ e, Decidable (NotUrgent e)
  | .receive urgent _ => inferInstanceAs (Decidable (urgent = false))
  | .send _ | .size _ _ | .special _ | .reconfig _ => isTrue trivial

/-- The chunks that are received. -/
def chunk : Event → List UInt8
  | .receive _ data => data
  | _ => []

end TelnetTag

end PuttyNd.Telnet
