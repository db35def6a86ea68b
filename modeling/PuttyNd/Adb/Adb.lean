import PuttyNd.Adb.Fifo

/-!
# The adb backend (`putty/adb.c`)

The backend passes data between the terminal and the pipes of a child process: `adb_send` puts it into
a ring buffer for `adb_poll`, which runs in a thread of its own, and what `adb_poll` reads from the
child goes through another one to `adb_process_buffer` in the UI thread. Each of these runs is one
step. Nothing stops the backend (`is_stopped` is `RUNNING`).
-/

namespace PuttyNd.Adb

/-- A function that `process_in_ui_msg_loop` is called with. -/
inductive UiJob where
  | processBuffer
  | writeError (err : ℕ)
  | remoteExit
deriving DecidableEq, Repr

/-- The backend, and what has gone through it so far: the data passed to `adb_send` with the
`adb_compel_crlf` of the call, the bytes that the input pipe of the child accepted, the bytes that were
read from its output, and the bytes that were handed to `c_write`. -/
structure State where
  sendBuffer : KfifoBuffer
  recvBuffer : KfifoBuffer
  pollTimer : Bool
  ui : List UiJob
  sent : List (Bool × UInt8)
  accepted : List UInt8
  output : List UInt8
  written : List UInt8

/-- `adb_init`; the first `adb_poll` is scheduled. -/
def init : State where
  sendBuffer := .new 11
  recvBuffer := .new 12
  pollTimer := true
  ui := []
  sent := []
  accepted := []
  output := []
  written := []

def CR : UInt8 := 13

def LF : UInt8 := 10

/-- The loop of `adb_send` that fills `trbuf`. -/
def trbuf : List UInt8 → List UInt8
  | [] => []
  | c :: buf =>
    if c = CR then
      if buf.head? = some LF then CR :: trbuf buf else CR :: LF :: trbuf buf
    else c :: trbuf buf

/-- What `adb_send` puts into the buffer. -/
def translated (compelCrlf : Bool) (buf : List UInt8) : List UInt8 :=
  if compelCrlf then trbuf buf else buf

/-- `adb_send`; the result of `putn` is not looked at. -/
def send (s : State) (compelCrlf : Bool) (buf : List UInt8) : State × UInt32 :=
  let sendBuffer := (s.sendBuffer.putn (translated compelCrlf buf)).1
  ({ s with sendBuffer := sendBuffer, sent := s.sent ++ buf.map (compelCrlf, ·) },
    sendBuffer.unusedSize / 2)

/-- `c_write` -/
def cWrite (s : State) (buf : List UInt8) : State := { s with written := s.written ++ buf }

/-- `ERROR_NO_DATA` -/
def ERROR_NO_DATA : ℕ := 232

/-- How `WriteFile` and `ReadFile` end: the bytes that were written or read, and the error if they fail. -/
structure WriteOutcome where
  count : ℕ
  error : Option ℕ

structure ReadOutcome where
  data : List UInt8
  error : Option ℕ

/-- The error, unless it is `ERROR_NO_DATA`. -/
def fatal : Option ℕ → Option ℕ
  | none => none
  | some err => if err = ERROR_NO_DATA then none else some err

/-- After an error the poll is not scheduled again. -/
def fail (s : State) (err : ℕ) : State := { s with ui := s.ui ++ [.writeError err, .remoteExit] }

/-- The part of `adb_poll` that writes to the child; `temp` is what `peek` gives. Without data
`WriteFile` is not called. -/
def pollWrite (s : State) (w : WriteOutcome) : State × Option ℕ :=
  let temp := s.sendBuffer.peek 1024
  let size := UInt32.ofNat temp.length
  if size > 0 then
    ({ s with sendBuffer := s.sendBuffer.commitRead size
              accepted := s.accepted ++ temp.take w.count }, fatal w.error)
  else (s, none)

/-- The part of `adb_poll` that reads from the child. -/
def pollRead (s : State) (r : ReadOutcome) : State × Option ℕ :=
  let s := { s with output := s.output ++ r.data }
  if 0 < r.data.length then
    ({ s with recvBuffer := (s.recvBuffer.putn r.data).1, ui := s.ui ++ [.processBuffer] },
      fatal r.error)
  else (s, fatal r.error)

/-- `adb_poll` -/
def poll (s : State) (w : WriteOutcome) (r : ReadOutcome) : State :=
  let s := { s with pollTimer := false }
  match pollWrite s w with
  | (s, some err) => fail s err
  | (s, none) =>
    match pollRead s r with
    | (s, some err) => fail s err
    | (s, none) => { s with pollTimer := true }

/-- `adb_process_buffer`; `rounds` bounds the rounds of the loop. -/
def processBuffer (s : State) : ℕ → State
  | 0 => s
  | rounds + 1 =>
    let (recvBuffer, temp) := s.recvBuffer.get 1024
    if 0 < temp.length then processBuffer (cWrite { s with recvBuffer := recvBuffer } temp) rounds
    else { s with recvBuffer := recvBuffer }

/-- The rounds that are enough: no round but the last gets nothing. -/
def rounds (s : State) : ℕ := s.recvBuffer.size.toNat + 1

/-- `c_write_error`; `winStrerror` gives the text for an error. -/
def cWriteError (winStrerror : ℕ → List UInt8) (s : State) (err : ℕ) : State :=
  let ascii := fun t : String => t.toList.map fun c => c.toNat.toUInt8
  let errstr := (ascii "errno:" ++ ascii (toString err) ++ ascii ", " ++ winStrerror err ++
    ascii "\n").take 1022
  -- the NUL of the literal is written with it
  let s := cWrite s (ascii "cmd > " ++ [0])
  cWrite (cWrite s errstr) [CR, LF]

/-- What can happen. -/
inductive Action where
  /-- `adb_send` is called. -/
  | send (compelCrlf : Bool) (buf : List UInt8)
  /-- The scheduled `adb_poll` runs. -/
  | poll (w : WriteOutcome) (r : ReadOutcome)
  /-- The UI thread runs a function that was passed to it. -/
  | ui (i : ℕ)
  /-- The UI thread runs `adb_process_buffer`. -/
  | processBuffer

/-- A step; none if it cannot happen in this state. -/
def step (winStrerror : ℕ → List UInt8) (s : State) : Action → Option State
  | .send compelCrlf buf => some (send s compelCrlf buf).1
  | .poll w r =>
    if s.pollTimer ∧ w.count ≤ (s.sendBuffer.peek 1024).length ∧ r.data.length ≤ 1024 then
      some (poll s w r)
    else none
  | .ui i =>
    match s.ui[i]? with
    | none => none
    | some job =>
      let s := { s with ui := s.ui.eraseIdx i }
      match job with
      | .processBuffer => some (processBuffer s (rounds s))
      | .writeError err => some (cWriteError winStrerror s err)
      | .remoteExit => some s
  | .processBuffer => some (processBuffer s (rounds s))

/-! ## What the backend is for -/

/-- The translation of all the data; `pending` says that it comes after a CR that was made a CR LF. The
LF of a CR LF pair belongs to the CR, also when they are sent by two calls. -/
def expected : Bool → List (Bool × UInt8) → List UInt8
  | _, [] => []
  | pending, (compelCrlf, c) :: rest =>
    if compelCrlf ∧ c = CR then CR :: LF :: expected true rest
    else if pending ∧ c = LF then expected false rest
    else c :: expected false rest

/-- Nothing is lost or reordered. -/
structure Faithful (s : State) : Prop where
  input : s.accepted <+: expected false s.sent
  output : s.written <+: s.output
  drained : s.recvBuffer.size = 0 → s.written = s.output

/-- The data sent last ended with a CR that was made a CR LF. -/
def endsInCR (sent : List (Bool × UInt8)) : Bool := sent.getLast? == some (true, CR)

/-- The steps that lose nothing: there is room for the data, no CR LF pair is split over two calls, and
what is passed to `WriteFile` is accepted as a whole. -/
def Careful (s : State) : Action → Prop
  | .send compelCrlf buf =>
    (translated compelCrlf buf).length ≤ s.sendBuffer.unusedSize.toNat ∧
      ¬ (endsInCR s.sent ∧ buf.head? = some LF)
  | .poll w r =>
    w.count = (s.sendBuffer.peek 1024).length ∧ fatal w.error = none ∧ fatal r.error = none ∧
      r.data.length ≤ s.recvBuffer.unusedSize.toNat
  | .ui _ => True
  | .processBuffer => True

end PuttyNd.Adb
