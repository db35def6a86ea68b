import PuttyNd.Zmodem.Frame
import PuttyNd.Lib.Machine
import PuttyNd.Lib.Outcome

/-!
# The session (`zmodem_session.cpp`, `Session.cpp`, `Action.cpp`)

A session is driven by events: chunks from the network, choices of the user, a timer and events that
it has posted to the message loop itself. `handleEvent`, the actions of the state machine and the
handlers call each other; what remains to be done on return from a call is a list of `Todo`s, so that
the whole computation is a machine whose steps are the bodies of these functions.

Output to the terminal window (prompts, progress, error texts) is left out.
-/

namespace PuttyNd.Zmodem

/-- `MyState`. -/
inductive StateId where
  | idle | chkFrameType | parseHex | parseBin | parseBin32 | handleFrame | waitData | fileSelected
  | sendZdata | sendFlowCtrl | destroy | «end»
deriving DecidableEq, Repr, Inhabited

/-- `MyEvent` and `PreDefineEvent`, as far as they are used. -/
inductive EventId where
  | entry | exit | timeout | networkInput | reset | parseHex | parseBin | parseBin32 | handleFrame
  | waitData | fileSelected | sendZdata | sendZdataLater | destroy
deriving DecidableEq, Repr, Inhabited

/-- `FileSelectState`. -/
inductive FileSelectState where
  | none | selected | selecting
deriving DecidableEq, Repr, Inhabited

/-- The actions of the state machine. -/
inductive Action where
  | changeState (theNextStateId : StateId)
  | newTimer (theMsec : Nat)
  | cancelTimer
  | initState | checkFrametype | parseHexFrame | parseBinFrame | parseBin32Frame | handleFrame
  | sendZdata | sendZrpos | sendFileInfo | deleteSelf
deriving DecidableEq, Repr

/-- `getZmodemFsm`: the actions for an event in a state, none if it is not defined there. -/
def getActionList : StateId → EventId → List Action
  | .idle, .entry => [.initState]
  | .idle, .networkInput => [.changeState .chkFrameType]
  | .idle, .reset => [.changeState .idle]
  | .idle, .destroy => [.changeState .destroy]
  | .chkFrameType, .entry => [.checkFrametype]
  | .chkFrameType, .parseHex => [.changeState .parseHex]
  | .chkFrameType, .parseBin => [.changeState .parseBin]
  | .chkFrameType, .parseBin32 => [.changeState .parseBin32]
  | .chkFrameType, .reset => [.changeState .idle]
  | .chkFrameType, .destroy => [.changeState .destroy]
  | .parseHex, .entry => [.parseHexFrame]
  | .parseHex, .networkInput => [.parseHexFrame]
  | .parseHex, .handleFrame => [.changeState .handleFrame]
  | .parseHex, .reset => [.changeState .idle]
  | .parseHex, .destroy => [.changeState .destroy]
  | .parseHex, .timeout => [.changeState .idle]
  | .parseHex, .exit => [.cancelTimer]
  | .parseBin, .entry => [.parseBinFrame]
  | .parseBin, .networkInput => [.parseBinFrame]
  | .parseBin, .handleFrame => [.changeState .handleFrame]
  | .parseBin, .reset => [.changeState .idle]
  | .parseBin, .destroy => [.changeState .destroy]
  | .parseBin, .timeout => [.changeState .idle]
  | .parseBin, .exit => [.cancelTimer]
  | .parseBin32, .entry => [.parseBin32Frame]
  | .parseBin32, .networkInput => [.parseBin32Frame]
  | .parseBin32, .handleFrame => [.changeState .handleFrame]
  | .parseBin32, .reset => [.changeState .idle]
  | .parseBin32, .destroy => [.changeState .destroy]
  | .parseBin32, .timeout => [.changeState .idle]
  | .parseBin32, .exit => [.cancelTimer]
  | .handleFrame, .entry => [.handleFrame]
  | .handleFrame, .networkInput => [.changeState .chkFrameType]
  | .handleFrame, .fileSelected => [.changeState .fileSelected]
  | .handleFrame, .reset => [.changeState .idle]
  | .handleFrame, .destroy => [.changeState .destroy]
  | .handleFrame, .waitData => [.changeState .waitData]
  | .handleFrame, .sendZdata => [.changeState .sendZdata]
  | .handleFrame, .timeout => [.changeState .idle]
  | .handleFrame, .exit => [.cancelTimer]
  | .sendZdata, .entry => [.sendZdata]
  | .sendZdata, .sendZdata => [.changeState .sendZdata]
  | .sendZdata, .sendZdataLater => [.changeState .sendFlowCtrl]
  | .sendZdata, .networkInput => [.changeState .chkFrameType]
  | .sendZdata, .reset => [.changeState .idle]
  | .sendZdata, .destroy => [.changeState .destroy]
  | .sendZdata, .timeout => [.sendZrpos]
  | .sendZdata, .exit => [.cancelTimer]
  | .sendFlowCtrl, .entry => [.newTimer 50]
  | .sendFlowCtrl, .reset => [.changeState .idle]
  | .sendFlowCtrl, .destroy => [.changeState .destroy]
  | .sendFlowCtrl, .timeout => [.changeState .sendZdata]
  | .sendFlowCtrl, .exit => [.cancelTimer]
  | .waitData, .networkInput => [.changeState .handleFrame]
  | .waitData, .reset => [.changeState .idle]
  | .waitData, .destroy => [.changeState .destroy]
  | .waitData, .timeout => [.changeState .idle]
  | .waitData, .exit => [.cancelTimer]
  | .fileSelected, .entry => [.sendFileInfo]
  | .fileSelected, .reset => [.changeState .idle]
  | .fileSelected, .destroy => [.changeState .destroy]
  | .fileSelected, .networkInput => [.changeState .chkFrameType]
  | .destroy, .entry => [.deleteSelf]
  | .end, .entry => [.changeState .idle]
  | _, _ => []

/-! ## The received bytes -/

/-- The ways in which a session leaves its defined behaviour. -/
inductive Fault where
  /-- `zmodemFile_` is dereferenced while it is `NULL`. -/
  | nullFile
  /-- `buffer_` is read or written at or beyond its length. -/
  | overread
  /-- An `assert` fails. -/
  | assertion
deriving DecidableEq, Repr

/-- `buffer_`, its indices and the checksum register. -/
structure Rx where
  buffer : List UInt8
  decodeIndex : Nat
  lastCheckExcaped : Nat
  lastCheckExcapedSaved : Nat
  dataCrc : UInt32
deriving DecidableEq, Repr, Inhabited

namespace Rx

/-- The values that `initState` gives to the fields. -/
def init : Rx :=
  { buffer := [], decodeIndex := 0, lastCheckExcaped := 0, lastCheckExcapedSaved := 0,
    dataCrc := 0xFFFFFFFF }

/-- `buffer_[i]`. -/
def get (rx : Rx) (i : Nat) : Except Fault UInt8 :=
  match rx.buffer[i]? with
  | some b => .ok b
  | none => .error .overread

/-- `buffer_[i] = b`. -/
def set (rx : Rx) (i : Nat) (b : UInt8) : Except Fault Rx :=
  if i < rx.buffer.length then .ok { rx with buffer := rx.buffer.set i b } else .error .overread

/-- `eatBuffer`. -/
def eatBuffer (rx : Rx) : Rx :=
  { rx with
    buffer := rx.buffer.drop rx.decodeIndex
    lastCheckExcaped := rx.lastCheckExcaped - rx.decodeIndex
    lastCheckExcapedSaved := rx.lastCheckExcapedSaved - rx.decodeIndex
    decodeIndex := 0 }

/-- The C string at `i`; its end is looked for in `buffer_`. -/
def cstring (rx : Rx) (i : Nat) : Except Fault (List UInt8) :=
  let s := (rx.buffer.drop i).takeWhile (· ≠ 0)
  if i + s.length < rx.buffer.length then .ok s else .error .overread

/-- The `len` bytes at `i`. -/
def slice (rx : Rx) (i len : Nat) : List UInt8 := (rx.buffer.drop i).take len

/-- The loop that increments `i` while `buffer_[i]` satisfies `p`. -/
def skip (rx : Rx) (p : UInt8 → Bool) (i : Nat) : Nat := i + ((rx.buffer.drop i).takeWhile p).length

end Rx

/-! ## The session -/

/-- What a session does that can be observed from outside, and the states and frames it enters. -/
inductive Obs where
  /-- A state is entered. -/
  | enter (st : StateId)
  /-- `handleFrame` is called with this `inputFrame_`. -/
  | frame (f : Frame)
  /-- `sendFrame`. -/
  | sendFrame (f : Frame)
  /-- `sendBin32Frame`. -/
  | sendBin32Frame (f : Frame)
  /-- `send_zsda32`. -/
  | sendZsda32 (data : List UInt8) (frameend : UInt8)
  /-- Bytes that are sent as they are. -/
  | send (bytes : List UInt8)
  /-- `handleZdata` writes a block: the checksum that was compared, the block, and the frame end. -/
  | write (crc : UInt32) (data : List UInt8) (frameend : UInt8)
deriving DecidableEq, Repr

/-- `ZmodemSession`, with the fill of the send buffer, the timer, the posted events and what has been
observed. -/
structure Session where
  curState : StateId
  isInitialized : Bool
  rx : Rx
  inputFrame : Frame
  zmodemFile : Option ZmodemFile
  bufferParsed : Bool
  isDestroyed : Bool
  sendFinOnReset : Bool
  isSz : Bool
  uploadFilePath : List UInt8
  fileSelectState : FileSelectState
  sendBufferSize : Nat
  timer : Bool
  queue : List EventId
  log : List Obs
deriving DecidableEq, Repr

/-- What the session finds out about a file that is to be sent. -/
structure FileInfo where
  basename : List UInt8
  size : Nat
  lastModified : Nat
  readable : Bool
  content : List UInt8

/-- What a session depends on: whether asserts are compiled in, and the file system. -/
structure Env where
  asserts : Bool
  getFileInfo : List UInt8 → Option FileInfo
  created : List UInt8 → Bool

/-- What remains to be done. -/
inductive Todo where
  /-- `handleEvent`. -/
  | event (e : EventId)
  /-- The rest of the actions for an event that was handled in the state `st`. -/
  | actions (st : StateId) (as : List Action)
  | action (a : Action)
  /-- The second part of `changeState`. -/
  | toNextState (st : StateId)
  /-- `isInitializedM = true`. -/
  | setInitialized
  /-- The switch of `handleFrame`. -/
  | frame
  /-- The loop of `handleZdata`. -/
  | zdata
  /-- `file_select_state_ = FILE_SELECT_NONE`. -/
  | clearFileSelect
  /-- `bufferParsed_ = false`. -/
  | clearParsed
deriving DecidableEq, Repr

/-- The result of a step: the session and what is to be done next. -/
abbrev Next := Except Fault (Session × List Todo)

namespace Session

/-- The state after the constructor; the fields that it does not set are arbitrary. -/
def new (rx : Rx) (inputFrame : Frame) : Session :=
  { curState := .idle, isInitialized := false, rx := rx, inputFrame := inputFrame, zmodemFile := none
    bufferParsed := false, isDestroyed := false, sendFinOnReset := false, isSz := true
    uploadFilePath := [], fileSelectState := .none, sendBufferSize := 0, timer := false, queue := []
    log := [] }

/-- Note an observation. -/
def observe (s : Session) (o : Obs) : Session := { s with log := s.log ++ [o] }

/-- `asynHandleEvent`. -/
def asynHandleEvent (s : Session) (e : EventId) : Session := { s with queue := s.queue ++ [e] }

/-- `zmodemFile_->`. -/
def file (s : Session) : Except Fault ZmodemFile :=
  match s.zmodemFile with
  | some f => .ok f
  | none => .error .nullFile

/-- `isDoingRz`. -/
def isDoingRz (s : Session) : Bool := s.curState ≠ .idle || s.bufferParsed

/-- Set `decodeIndex_`. -/
def decodeTo (s : Session) (i : Nat) : Session := { s with rx := { s.rx with decodeIndex := i } }

/-- `eatBuffer`. -/
def eatBuffer (s : Session) : Session := { s with rx := s.rx.eatBuffer }

/-- `initState`. -/
def initState (s : Session) : Session :=
  let s :=
    if s.zmodemFile.isSome ∨ s.sendFinOnReset then
      let s := { s with zmodemFile := none }
      let s :=
        if ¬ s.isSz ∧ s.inputFrame.type = ZFIN then s.observe (.send [79, 79])
        else s.observe (.sendFrame ⟨ZFIN, 0, 0, 0, 0⟩)
      if ¬ s.isDestroyed then s.asynHandleEvent .reset else s
    else s
  { s with
    rx := Rx.init, sendFinOnReset := false, uploadFilePath := [], fileSelectState := .none }

/-- `checkFrametype`. -/
def checkFrametype (s : Session) : Next := do
  let i := s.rx.skip (· = ZPAD) (s.rx.skip (· ≠ ZPAD) s.rx.decodeIndex)
  if i + 2 ≥ s.rx.buffer.length then
    pure (s.decodeTo i, [.event .reset])
  else
    let b ← s.rx.get i
    if ZDLE ≠ b then
      pure (s.decodeTo (i + 1), [.event .reset])
    else
      let frametype ← s.rx.get (i + 1)
      let s := s.decodeTo (i + 2)
      if ZHEX = frametype then pure (s.eatBuffer, [.event .parseHex])
      else if ZBIN = frametype then pure (s.eatBuffer, [.event .parseBin])
      else if ZBIN32 = frametype then pure (s.eatBuffer, [.event .parseBin32])
      else pure (s, [.event .reset])

/-- The characters that end the line of a hexadecimal header: CR, LF and LF with the high bit. -/
def isLineseed (b : UInt8) : Bool := b = 0x0D || b = 0x0A || b = 0x8A

/-- `parseHexFrame`. -/
def parseHexFrame (s : Session) : Next := do
  let oldIndex := s.rx.decodeIndex + hexSize
  if oldIndex ≥ s.rx.buffer.length then pure (s, [])
  else
    let (frame, crc) := convHex2Plain (s.rx.slice s.rx.decodeIndex hexSize)
    if crc ≠ calcFrameCrc frame then pure (s.decodeTo oldIndex, [.event .reset])
    else
      let i := s.rx.skip isLineseed oldIndex
      if oldIndex = i then pure (s.decodeTo i, [.event .reset])
      else if frame.type ≠ ZACK ∧ frame.type ≠ ZFIN then
        let b ← s.rx.get i
        let s := s.decodeTo (i + 1)
        if b ≠ XON then pure (s, [.event .reset])
        else pure ({ s.eatBuffer with inputFrame := frame }, [.event .handleFrame])
      else pure ({ (s.decodeTo i).eatBuffer with inputFrame := frame }, [.event .handleFrame])

/-- The frame in the first bytes of a `frame_t` or `frame32_t`. -/
def frameOf (bs : List UInt8) : Frame :=
  { type := bs.getD 0 0, flag0 := bs.getD 1 0, flag1 := bs.getD 2 0, flag2 := bs.getD 3 0
    flag3 := bs.getD 4 0 }

/-- `parseBinFrame`; `sizeof(frame_t)` is 7. -/
def parseBinFrame (s : Session) : Next :=
  if s.rx.decodeIndex + 7 ≥ s.rx.buffer.length then .ok (s, [])
  else
    match decodeEscape 7 (s.rx.buffer.drop s.rx.decodeIndex) with
    | none => .ok (s, [])
    | some (bs, frameLen) =>
      let frame := frameOf bs
      let s := s.decodeTo (s.rx.decodeIndex + frameLen)
      if (bs.getD 5 0).toUInt16 ||| (bs.getD 6 0).toUInt16 <<< 8 ≠ calcFrameCrc frame then
        .ok (s, [.event .reset])
      else .ok ({ s.eatBuffer with inputFrame := frame }, [.event .handleFrame])

/-- `parseBin32Frame`; `sizeof(frame32_t)` is 9. -/
def parseBin32Frame (s : Session) : Next :=
  if s.rx.decodeIndex + 9 > s.rx.buffer.length then .ok (s, [])
  else
    match decodeEscape 9 (s.rx.buffer.drop s.rx.decodeIndex) with
    | none => .ok (s, [])
    | some (bs, frameLen) =>
      let frame := frameOf bs
      let s := s.decodeTo (s.rx.decodeIndex + frameLen)
      if ofLe32 (bs.drop 5) ≠ calcFrameCrc32 frame then .ok (s, [.event .reset])
      else .ok ({ s.eatBuffer with inputFrame := frame }, [.event .handleFrame])

/-- `sendZrinit`: the flags `CANFC32 | CANFDX | CANOVIO` are in `ZF0`. -/
def sendZrinit (s : Session) : Session := s.observe (.sendFrame ⟨ZRINIT, 0, 0, 0, 0x23⟩)

/-- `handleZfile`. -/
def handleZfile (env : Env) (s : Session) : Next := do
  let oldIndex := s.rx.decodeIndex
  let filename ← s.rx.cstring oldIndex
  let i := oldIndex + (filename.length + 1)
  let fileinfo ← s.rx.cstring i
  let i := i + (fileinfo.length + 1)
  if i + 6 > s.rx.buffer.length then pure (s, [.event .waitData])
  else
    match decodeCrc32 (s.rx.buffer.drop (i + 2)) with
    | none => pure (s, [.event .waitData])
    | some (recvCrc, crcLen) => do
      let frameend ← s.rx.get (i + 1)
      let rx ← s.rx.set i frameend
      let i := i + 1
      let crc := calcBufferCrc32 (rx.slice oldIndex (i - oldIndex))
      let i := i + 1 + crcLen
      let b ← rx.get i
      let i := if b = XON then i + 1 else i
      let s := { s with rx := { rx with decodeIndex := i } }
      if recvCrc ≠ crc then
        pure ({ s with bufferParsed := false, sendFinOnReset := true }, [.event .reset])
      else
        let s := s.eatBuffer
        let file := ZmodemFile.ofInfo (env.created filename) fileinfo
        pure ({ s with zmodemFile := some file }.observe (.sendFrame (posFrame ZRPOS file.pos)), [])

/-- The number of iterations that the condition `lastCheckExcaped_ < buffer_.length() - 1` allows;
the difference of unsigned numbers wraps around for an empty buffer. -/
def zdataBound (len : Nat) : Nat := if len = 0 then 2 ^ 32 - 1 else len - 1

/-- The increments of the loop of `handleZdata`. -/
def zdataNext (s : Session) : Session :=
  { s with
    rx := { s.rx with
      lastCheckExcaped := s.rx.lastCheckExcaped + 1
      lastCheckExcapedSaved := s.rx.lastCheckExcapedSaved + 1 } }

/-- Store a byte of data and add it to the checksum. -/
def zdataByte (s : Session) (b : UInt8) : Except Fault Session := do
  let rx ← s.rx.set s.rx.lastCheckExcapedSaved b
  pure { s with rx := { rx with dataCrc := updc32 b rx.dataCrc } }

/-- The block of data that is decoded: the bytes from `decodeIndex_` to `lastCheckExcapedSaved_`. -/
def zdataBlock (s : Session) : List UInt8 :=
  s.rx.slice s.rx.decodeIndex (s.rx.lastCheckExcapedSaved - s.rx.decodeIndex)

/-- The session after a block with the checksum `crc` has been written, which makes `f` of the file. -/
def zdataWritten (s : Session) (crc : UInt32) (frameend : UInt8) (consumeLen : Nat)
    (f : ZmodemFile) : Session :=
  let last := s.rx.lastCheckExcaped + (1 + consumeLen)
  { s with
    zmodemFile := some f
    rx := { s.rx with
      lastCheckExcaped := last
      lastCheckExcapedSaved := last
      decodeIndex := last + 1
      dataCrc := 0xFFFFFFFF } }.observe (.write crc s.zdataBlock frameend)

/-- The end of a subpacket whose checksum `crc` is right and takes `consumeLen` bytes. -/
def zdataEnd (s : Session) (crc : UInt32) (frameend : UInt8) (consumeLen : Nat) : Next := do
  let f ← s.file
  if s.rx.lastCheckExcapedSaved < s.rx.decodeIndex ∨
      s.rx.buffer.length < s.rx.lastCheckExcapedSaved then
    .error .overread
  else
    match f.write s.zdataBlock with
    | none =>
      pure ({ s with
        rx := { s.rx with lastCheckExcaped := s.rx.lastCheckExcaped + (1 + consumeLen) } },
        [.event .reset])
    | some f =>
      let s := s.zdataWritten crc frameend consumeLen f
      if frameend = ZCRCE then pure (s, [.event .networkInput])
      else if frameend = ZCRCG then pure (s.zdataNext, [.zdata])
      else pure ((s.observe (.sendFrame (posFrame ZNAK f.pos))).zdataNext, [.zdata])

/-- One iteration of the loop of `handleZdata`, or what follows the loop. -/
def handleZdata (env : Env) (s : Session) : Next := do
  let rx := s.rx
  if rx.lastCheckExcaped < zdataBound rx.buffer.length then
    let b ← rx.get rx.lastCheckExcaped
    if b = ZDLE then
      if rx.lastCheckExcaped + 6 > rx.buffer.length then pure (s, [.event .waitData])
      else
        let frameend ← rx.get (rx.lastCheckExcaped + 1)
        if frameend = ZCRCE ∨ frameend = ZCRCG ∨ frameend = ZCRCQ ∨ frameend = ZCRCW then
          let calcCrc := ~~~ updc32 frameend rx.dataCrc
          match decodeCrc32 (rx.buffer.drop (rx.lastCheckExcaped + 2)) with
          | none => pure (s, [.event .waitData])
          | some (recvCrc, consumeLen) =>
            if calcCrc = recvCrc then
              if env.asserts ∧ frameend = ZCRCG ∧
                  rx.lastCheckExcapedSaved - rx.decodeIndex ≠ 1024 then .error .assertion
              else s.zdataEnd calcCrc frameend consumeLen
            else if frameend = ZCRCG then pure (s, [.event .reset])
            else pure (s.zdataNext, [.zdata])
        else
          let s ← { s with
            rx := { rx with lastCheckExcaped := rx.lastCheckExcaped + 1 } }.zdataByte
              (frameend ^^^ 0x40)
          pure (s.zdataNext, [.zdata])
    else
      let s ← s.zdataByte b
      pure (s.zdataNext, [.zdata])
  else
    let s := s.eatBuffer
    let _ ← s.file
    pure (s, [.event .waitData])

/-- `sendZdata`. -/
def sendZdata (s : Session) : Next := do
  if s.sendBufferSize > 1024 * 1024 then
    pure (if ¬ s.isDestroyed then s.asynHandleEvent .sendZdataLater else s, [])
  else
    let f ← s.file
    let (f, data) := f.read 1024
    let frameend := if f.isGood then ZCRCG else ZCRCE
    let s := { s with zmodemFile := some f }.observe (.sendZsda32 data frameend)
    if ¬ f.isGood then pure (s.observe (.sendBin32Frame (posFrame ZEOF f.pos)), [])
    else pure (if ¬ s.isDestroyed then s.asynHandleEvent .sendZdata else s, [])

/-- `sendZrpos`. -/
def sendZrpos (s : Session) : Next := do
  let f ← s.file
  pure (s.observe (.sendFrame (posFrame ZRPOS f.pos)), [])

/-- What `snprintf` writes for `"%lu %lo 100644 0 1 %lu"`. -/
def infoText (info : FileInfo) : List UInt8 :=
  let digits (base n : Nat) : List UInt8 := (Nat.toDigits base n).map fun c => c.toNat.toUInt8
  digits 10 (info.size % 2 ^ 32) ++ 32 :: digits 8 (info.lastModified / 1000000 % 2 ^ 32) ++
    [32, 49, 48, 48, 54, 52, 52, 32, 48, 32, 49, 32] ++ digits 10 (info.size % 2 ^ 32)

/-- The data of a `ZFILE` header. The size that is given to `snprintf` is that of a pointer-sized
variable less the length of the name, an unsigned number. -/
def filedata (info : FileInfo) : List UInt8 :=
  let limit := (4 + 2 ^ 32 - (info.basename.length + 1)) % 2 ^ 32
  info.basename ++ 0 :: (infoText info).take (limit - 1) ++ [0]

/-- `sendFileInfo`: the flags `ZCBIN` and `ZF1_ZMCLOB` are in `ZF0` and `ZF1`. -/
def sendFileInfo (env : Env) (s : Session) : Next :=
  match env.getFileInfo s.uploadFilePath with
  | none => .ok ({ s with bufferParsed := false }, [.event .reset])
  | some info =>
    let s := s.observe (.sendBin32Frame ⟨ZFILE, 0, 0, 4, 1⟩)
    let s := s.observe (.sendZsda32 (filedata info) ZCRCW)
    .ok ({ s with
      zmodemFile := some (ZmodemFile.ofPath info.readable info.content (UInt32.ofNat info.size)) },
      [])

/-- The switch of `handleFrame`. -/
def handleFrame (env : Env) (s : Session) : Next :=
  if s.inputFrame.type = ZRQINIT then .ok (s.sendZrinit, [])
  else if s.inputFrame.type = ZFILE then handleZfile env { s with isSz := true }
  else if s.inputFrame.type = ZDATA then .ok (s, [.zdata])
  else if s.inputFrame.type = ZEOF then .ok ({ s with zmodemFile := none }.sendZrinit, [])
  else if s.inputFrame.type = ZFIN then .ok ({ s with sendFinOnReset := true }, [.event .reset])
  else if s.inputFrame.type = ZRINIT then
    let s := { s with isSz := false }
    if s.fileSelectState = .none then
      .ok ({ s with fileSelectState := .selecting, sendFinOnReset := true, timer := false }, [])
    else if s.fileSelectState = .selected ∧ s.zmodemFile.any fun f => ¬ f.isGood then
      .ok (s.observe (.sendBin32Frame (posFrame ZCOMPL 0)), [.event .reset, .clearFileSelect])
    else .ok (s, [])
  else if s.inputFrame.type = ZRPOS then
    match s.zmodemFile with
    | none =>
      let s := { s with sendFinOnReset := true }
      let s := s.observe (.sendBin32Frame (posFrame ZCAN 0))
      .ok (s.observe (.sendBin32Frame (posFrame ZABORT 0)), [.event .reset])
    | some f =>
      let f := f.setPos (getPos s.inputFrame)
      sendZdata ({ s with zmodemFile := some f }.observe
        (.sendBin32Frame (posFrame ZDATA f.pos)))
  else if s.inputFrame.type = ZNAK then
    .ok (s, if s.rx.decodeIndex < s.rx.buffer.length then [.event .networkInput] else [])
  else .ok ({ s with bufferParsed := false }, [.event .reset])

/-! ## The state machine -/

/-- An action. -/
def action (env : Env) (s : Session) : Action → Next
  | .changeState st =>
    .ok (s, (getActionList s.curState .exit).map .action ++ [.toNextState st])
  | .newTimer _ => .ok ({ s with timer := true }, [])
  | .cancelTimer => .ok ({ s with timer := false }, [])
  | .initState => .ok (s.initState, [])
  | .checkFrametype => s.checkFrametype
  | .parseHexFrame => s.parseHexFrame
  | .parseBinFrame => s.parseBinFrame
  | .parseBin32Frame => s.parseBin32Frame
  | .handleFrame => .ok ({ s with bufferParsed := true }.observe (.frame s.inputFrame), [.frame])
  | .sendZdata => s.sendZdata
  | .sendZrpos => s.sendZrpos
  | .sendFileInfo => s.sendFileInfo env
  | .deleteSelf => .ok (s, [])

/-- `handleEvent`. -/
def handleEvent (s : Session) (e : EventId) : Session × List Todo :=
  if ¬ s.isInitialized then
    (s, [.actions s.curState (getActionList s.curState .entry), .setInitialized, .event e])
  else
    match getActionList s.curState e with
    | [] => (s, [.action (.changeState .end)])
    | as => (s, [.actions s.curState as])

/-- The step for the first `Todo`. -/
def step (env : Env) (s : Session) : Todo → Next
  | .event e => .ok (s.handleEvent e)
  | .actions _ [] => .ok (s, [])
  | .actions st (a :: as) =>
    .ok (s, if s.curState ≠ st then [] else [.action a, .actions st as])
  | .action a => s.action env a
  | .toNextState st =>
    .ok ({ s with curState := st }.observe (.enter st), (getActionList st .entry).map .action)
  | .setInitialized => .ok ({ s with isInitialized := true }, [])
  | .frame => s.handleFrame env
  | .zdata => s.handleZdata env
  | .clearFileSelect => .ok ({ s with fileSelectState := .none }, [])
  | .clearParsed => .ok ({ s with bufferParsed := false }, [])

/-- `reset`. -/
def reset (s : Session) : Session × List Todo :=
  (s.observe (.send [24, 24, 24, 24, 24, 24, 24, 24, 24, 24, 8, 8, 8, 8, 8, 8, 8, 8, 8, 8]),
    [.event .reset, .clearParsed])

/-- `processNetworkInput`. -/
def processNetworkInput (s : Session) (str : List UInt8) : Session × List Todo :=
  if ¬ s.isDoingRz ∧ str.length < 7 then (s, [])
  else if s.curState = .handleFrame ∧ (str = [67] ∨ str = [71]) then s.reset
  else
    ({ s with bufferParsed := false, rx := { s.rx with buffer := s.rx.buffer ++ str } },
      [.event .networkInput])

/-- `onFileSelected`. -/
def onFileSelected (s : Session) (path : List UInt8) : Session × List Todo :=
  ({ s with uploadFilePath := path, fileSelectState := .selected }, [.event .fileSelected])

end Session

/-- The machine that does what remains to be done. The sessions in which `handleFrame` has been called
are observed. -/
def machine (env : Env) : Machine Session Todo Fault Session where
  step s t := s.step env t
  observe s t := if t = .frame then [s] else []

/-- What reaches a session that has nothing to do. -/
inductive Input where
  /-- A chunk from the network. -/
  | network (str : List UInt8)
  /-- The user chooses a file. -/
  | fileSelected (path : List UInt8)
  /-- The user cancels. -/
  | reset
  /-- An event that the session has posted. -/
  | posted (e : EventId)
  /-- The timer. -/
  | timeout
  /-- The fill of the send buffer changes. -/
  | sendBuffer (size : Nat)
  /-- The session is to be deleted. -/
  | destroy
deriving DecidableEq, Repr

/-- `destroy`. -/
def Session.destroy (s : Session) : Session :=
  { s with isDestroyed := true }.asynHandleEvent .destroy

/-- The session takes an input; a posted event is taken from the queue, and the timer stops. In its
last state the session has been released and takes none. -/
def Session.input (s : Session) (i : Input) : Option (Session × List Todo) :=
  if s.curState = .destroy then none
  else
    match i with
    | .network str => some (s.processNetworkInput str)
    | .fileSelected path => some (s.onFileSelected path)
    | .reset => some s.reset
    | .posted e =>
      if e ∈ s.queue then some ({ s with queue := s.queue.erase e }, [.event e]) else none
    | .timeout => if s.timer then some ({ s with timer := false }, [.event .timeout]) else none
    | .sendBuffer size => some ({ s with sendBufferSize := size }, [])
    | .destroy => some (s.destroy, [])

/-- A session takes inputs, each when it is done with the one before, until a fault occurs: the
sessions in which `handleFrame` has been called, the last session and the fault. -/
inductive Runs (env : Env) : Session → List Input → List Session → Session → Option Fault → Prop
  | nil {s : Session} : Runs env s [] [] s none
  | fault {s s0 t : Session} {ts : List Todo} {i : Input} {is : List Input} {os : List Session}
    {e : Fault} :
    s.input i = some (s0, ts) → (machine env).Exec s0 ts os t (some e) →
    Runs env s (i :: is) os t (some e)
  | cons {s s0 s1 t : Session} {ts : List Todo} {i : Input} {is : List Input}
    {os os' : List Session} {r : Option Fault} :
    s.input i = some (s0, ts) → (machine env).Exec s0 ts os s1 none → Runs env s1 is os' t r →
    Runs env s (i :: is) (os ++ os') t r

end PuttyNd.Zmodem
