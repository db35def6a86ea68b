import PuttyNd.Lib.CInt
import PuttyNd.Lib.Memory
import PuttyNd.Psftp.Marshal

/-!
# SFTP transfers (`psftp/sftp.c`)

Requests are found by their ids in the tree `sftp_requests`, which is kept as the list of its elements
in order. The requests of a transfer are also on a doubly linked list. What is sent, which replies
arrive and what is taken off the list is recorded in a `trace`.
-/

namespace PuttyNd.Sftp

open Psftp CInt Memory Outcome

/-! ## The state -/

structure SftpRequest where
  id : ℕ
  registered : Bool
  userdata : Option ℕ
deriving DecidableEq, Repr

/-- `struct req`; `buffer` has the bytes that were written to it. -/
structure Req where
  buffer : List UInt8
  len : ℤ
  retlen : ℤ
  complete : ℤ
  offset : UInt64
  next : Option ℕ
  prev : Option ℕ
deriving DecidableEq, Repr

structure FxpXfer where
  offset : UInt64
  furthestdata : UInt64
  filesize : UInt64
  reqTotalsize : ℤ
  reqMaxsize : ℤ
  eof : Bool
  err : Bool
  head : Option ℕ
  tail : Option ℕ
deriving DecidableEq, Repr

inductive Event where
  /-- `SSH_FXP_READ` -/
  | read (id : ℕ) (offset : UInt64) (len : ℤ)
  /-- `SSH_FXP_WRITE` -/
  | write (id : ℕ) (offset : UInt64) (data : List UInt8)
  /-- A packet arrives with this id. -/
  | reply (id : ℕ)
  /-- The first request is taken off the list, to hand out its data or because it failed. -/
  | taken
deriving DecidableEq, Repr

structure State where
  requests : List SftpRequest
  fxpErrorMessage : String
  fxpErrtype : ℤ
  reqs : Heap Req
  xfer : FxpXfer
  trace : List Event

/-- A packet, with what is left to read of its data -/
structure SftpPacket where
  type : UInt8
  src : BinarySource
deriving DecidableEq, Repr

namespace State

variable (s : State)

def emit (e : Event) : State := { s with trace := s.trace ++ [e] }

def setXfer (xfer : FxpXfer) : State := { s with xfer := xfer }

/-- `fxp_internal_error` -/
def fxpInternalError (msg : String) : State := { s with fxpErrorMessage := msg, fxpErrtype := -1 }

end State

/-- `INT_MIN` -/
def intMin : ℤ := -2 ^ 31

/-! ## Requests -/

/-- The binary search of `sftp_alloc_request`; `low` and `high` come closer with each round. -/
def firstFit (requests : List SftpRequest) : ℕ → ℤ → ℤ → Except Fault ℤ
  | 0, _, _ => .error .endlessLoop
  | rounds + 1, low, high =>
    if high - low > 1 then
      let mid := (high + low) / 2
      match requests[mid.toNat]? with
      | none => .error .badPointer
      | some r =>
        if (r.id : ℤ) = mid + 256 then firstFit requests rounds mid high
        else firstFit requests rounds low mid
    else .ok low

/-- `find234` with `sftp_reqfind` -/
def findRequest (requests : List SftpRequest) (id : ℕ) : Option SftpRequest :=
  requests.find? fun r => r.id == id

/-- `add234` -/
def addRequest (r : SftpRequest) : List SftpRequest → List SftpRequest
  | [] => [r]
  | x :: l => if x.id < r.id then x :: addRequest r l else r :: x :: l

/-- `del234` -/
def delRequest (requests : List SftpRequest) (id : ℕ) : List SftpRequest :=
  requests.eraseP fun r => r.id == id

/-- Writes to the request with this id -/
def modifyRequest (requests : List SftpRequest) (id : ℕ) (f : SftpRequest → SftpRequest) :
    List SftpRequest :=
  requests.map fun r => if r.id = id then f r else r

/-- `sftp_alloc_request`; the request is known by its id. -/
def sftpAllocRequest (s : State) : Except Fault (ℕ × State) := do
  let tsize := s.requests.length
  let low ← firstFit s.requests (tsize + 1) (-1) tsize
  let id := (low + 1 + 256).toNat
  if (findRequest s.requests id).isSome then .error .assertion
  else return (id, { s with requests := addRequest ⟨id, false, none⟩ s.requests })

/-- `sftp_register` -/
def sftpRegister (s : State) (id : ℕ) : State :=
  { s with requests := modifyRequest s.requests id fun r => { r with registered := true } }

/-- `fxp_set_userdata` -/
def fxpSetUserdata (s : State) (id : ℕ) (data : Option ℕ) : State :=
  { s with requests := modifyRequest s.requests id fun r => { r with userdata := data } }

/-- `sftp_find_request` -/
def sftpFindRequest (s : State) (pktin : Option SftpPacket) : Option (SftpRequest × SftpPacket) × State :=
  match pktin with
  | none => (none, s.fxpInternalError "did not receive a valid SFTP packet\n")
  | some pktin =>
    let (id, src) := getUint32 pktin.src
    if src.err then (none, s.fxpInternalError "did not receive a valid SFTP packet\n")
    else
      let s := s.emit (.reply id.toNat)
      match findRequest s.requests id.toNat with
      | none => (none, s.fxpInternalError "request ID mismatch\n")
      | some req =>
        if ¬ req.registered then (none, s.fxpInternalError "request ID mismatch\n")
        else (some (req, { pktin with src := src }),
          { s with requests := delRequest s.requests req.id })

/-! ## Replies -/

/-- The `messages` of `fxp_got_status` -/
def statusMessages : List String :=
  ["unexpected OK response", "end of file", "no such file or directory", "permission denied",
    "failure", "bad message", "no connection", "connection lost", "operation unsupported"]

/-- `fxp_got_status`, with the error message and the error type -/
def gotStatus (pktin : SftpPacket) : String × ℤ :=
  if pktin.type ≠ 101 then ("expected FXP_STATUS packet", -1)
  else
    let (code, src) := getUint32 pktin.src
    if src.err then ("malformed FXP_STATUS packet", -1)
    else
      let errtype := code.toBitVec.toInt
      if errtype < 0 ∨ errtype ≥ statusMessages.length then ("unknown error code", errtype)
      else (statusMessages.getD errtype.toNat "", errtype)

/-- `fxp_got_status` -/
def fxpGotStatus (s : State) (pktin : SftpPacket) : State :=
  { s with fxpErrorMessage := (gotStatus pktin).1, fxpErrtype := (gotStatus pktin).2 }

/-- `fxp_read_recv`, with the data that it writes to the buffer -/
def fxpReadRecv (s : State) (pktin : SftpPacket) (len : ℤ) : (ℤ × List UInt8) × State :=
  if pktin.type = 103 then
    let (data, src) := getString pktin.src
    if src.err then
      ((-1, []), s.fxpInternalError "READ returned malformed SSH_FXP_DATA packet")
    else if (data.length : ℤ) > len then
      ((-1, []), s.fxpInternalError "READ returned more bytes than requested")
    else ((data.length, data), s)
  else ((-1, []), fxpGotStatus s pktin)

/-- `fxp_write_recv` -/
def fxpWriteRecv (s : State) (pktin : SftpPacket) : Bool × State :=
  let s := fxpGotStatus s pktin
  (decide (s.fxpErrtype = 0), s)

/-! ## Transfers -/

/-- `xfer_init`; `eof` is set by its callers. -/
def xferInit (offset : UInt64) (eof : Bool) : FxpXfer where
  offset := offset
  furthestdata := 0
  filesize := UInt64.ofNat (2 ^ 64 - 1)
  reqTotalsize := 0
  reqMaxsize := 1048576
  eof := eof
  err := false
  head := none
  tail := none

/-- `xfer_done` -/
def xferDone (xfer : FxpXfer) : Bool := (xfer.eof || xfer.err) && xfer.head.isNone

/-- `xfer_set_error` -/
def xferSetError (s : State) : State := s.setXfer { s.xfer with err := true }

/-- A new request is put at the end of the list and sent. -/
def queueReq (s : State) (len : ℤ) (sending : ℕ → Event) : Except Fault State := do
  let rr := s.reqs.next
  let reqs := s.reqs.alloc ⟨[], len, 0, 0, s.xfer.offset, none, s.xfer.tail⟩
  let reqs ← writeOpt reqs s.xfer.tail fun r => { r with next := some rr }
  let head := if s.xfer.tail.isSome then s.xfer.head else some rr
  let s := { s with reqs := reqs, xfer := { s.xfer with head := head, tail := some rr } }
  let (req, s) ← sftpAllocRequest s
  let s := sftpRegister (s.emit (sending req)) req
  let s := fxpSetUserdata s req (some rr)
  return s.setXfer {
    s.xfer with
    offset := s.xfer.offset + UInt64.ofInt len
    reqTotalsize := toInt32 (s.xfer.reqTotalsize + len) }

/-- A round of `xfer_download_queue` -/
def queueRead (s : State) : Except Fault State :=
  queueReq s 32768 fun id => .read id s.xfer.offset 32768

/-- The loop of `xfer_download_queue`; `req_totalsize` grows with each round. -/
def downloadQueue : ℕ → State → Except Fault State
  | 0, _ => .error .endlessLoop
  | rounds + 1, s =>
    if s.xfer.reqTotalsize < s.xfer.reqMaxsize ∧ ¬ s.xfer.eof ∧ ¬ s.xfer.err then do
      let s ← queueRead s
      downloadQueue rounds s
    else .ok s

/-- `xfer_download_queue` -/
def xferDownloadQueue (s : State) : Except Fault State := downloadQueue 33 s

/-- `furthestdata` and `filesize` after a read has returned -/
def noteRead (x : FxpXfer) (rr : Req) : FxpXfer :=
  let filesize := rr.offset + UInt64.ofInt rr.retlen
  { x with
    furthestdata :=
      if rr.retlen > 0 ∧ x.furthestdata < rr.offset then rr.offset else x.furthestdata
    filesize := if rr.retlen < rr.len ∧ x.filesize > filesize then filesize else x.filesize }

/-- What `xfer_download_gotpkt` does with the result of the read -/
def gotData (s : State) (a : ℕ) (rr : Req) : ℤ × State :=
  let atEof : Bool := rr.retlen < 0 && s.fxpErrtype == 1 || rr.retlen == 0
  if ¬ atEof ∧ rr.retlen < 0 then
    (-1, xferSetError { s with reqs := s.reqs.set a { rr with complete := -1 } })
  else
    let rr := { rr with retlen := if atEof then 0 else rr.retlen, complete := 1 }
    let s := { s with
      reqs := s.reqs.set a rr
      xfer := noteRead { s.xfer with eof := s.xfer.eof || atEof } rr }
    if s.xfer.furthestdata > s.xfer.filesize then
      (-1, xferSetError (s.fxpInternalError
        "received a short buffer from FXP_READ, but not at EOF"))
    else (1, s)

/-- `xfer_download_gotpkt` -/
def xferDownloadGotpkt (s : State) (pktin : Option SftpPacket) : Except Fault (ℤ × State) :=
  match sftpFindRequest s pktin with
  | (none, s) => .ok (intMin, s)
  | (some (rreq, pktin), s) =>
    if rreq.userdata.isNone then
      .ok (intMin, s.fxpInternalError "request ID is not part of the current download")
    else do
      let (a, rr) ← deref s.reqs rreq.userdata
      let (got, s) := fxpReadRecv s pktin rr.len
      return gotData s a { rr with retlen := got.1, buffer := got.2 }

/-- The first request is taken off the list. -/
def takeHead (s : State) (a : ℕ) (rr : Req) : Except Fault State := do
  let reqs ← writeOpt s.reqs rr.next fun r => { r with prev := none }
  let tail := if rr.next.isSome then s.xfer.tail else none
  return { s with
    reqs := reqs.free a
    xfer := {
      s.xfer with
      head := rr.next
      tail := tail
      reqTotalsize := toInt32 (s.xfer.reqTotalsize - rr.len) }
    trace := s.trace ++ [.taken] }

/-- The loop of `xfer_download_data`; each round takes a request off the list. -/
def downloadData : ℕ → State → Except Fault (Option (List UInt8) × State)
  | 0, _ => .error .endlessLoop
  | rounds + 1, s =>
    match s.xfer.head with
    | none => .ok (none, s)
    | some a => do
      let (a, rr) ← deref s.reqs (some a)
      if rr.complete = 0 then return (none, s)
      else
        let s ← takeHead s a rr
        if rr.complete > 0 then return (some (rr.buffer.take rr.retlen.toNat), s)
        else downloadData rounds s

/-- `xfer_download_data`; there are at most as many requests on the list as ever were. -/
def xferDownloadData (s : State) : Except Fault (Option (List UInt8) × State) :=
  downloadData (s.reqs.next + 1) s

/-- `xfer_upload_data` -/
def xferUploadData (s : State) (buffer : List UInt8) : Except Fault State :=
  queueReq s buffer.length fun id => .write id s.xfer.offset buffer

/-- A request is taken out of the list. -/
def unlinkReq (s : State) (a : ℕ) (rr : Req) : Except Fault State := do
  let reqs ← writeOpt s.reqs rr.prev fun r => { r with next := rr.next }
  let reqs ← writeOpt reqs rr.next fun r => { r with prev := rr.prev }
  return { s with
    reqs := reqs.free a
    xfer := {
      s.xfer with
      head := if rr.prev.isSome then s.xfer.head else rr.next
      tail := if rr.next.isSome then s.xfer.tail else rr.prev
      reqTotalsize := toInt32 (s.xfer.reqTotalsize - rr.len) } }

/-- `xfer_upload_gotpkt` -/
def xferUploadGotpkt (s : State) (pktin : Option SftpPacket) : Except Fault (ℤ × State) :=
  match sftpFindRequest s pktin with
  | (none, s) => .ok (intMin, s)
  | (some (rreq, pktin), s) =>
    if rreq.userdata.isNone then
      .ok (intMin, s.fxpInternalError "request ID is not part of the current upload")
    else do
      let (ret, s) := fxpWriteRecv s pktin
      let (a, rr) ← deref s.reqs rreq.userdata
      let s ← unlinkReq s a rr
      return (if ret then 1 else -1, s)

end PuttyNd.Sftp

/-!
## SFTP transfers: the ledger, and runs

The ledger says which requests the list of a transfer should have. It is read off the trace.
-/

namespace PuttyNd.Sftp

open Memory Outcome

/-! ## The ledger -/

/-- A request that was sent -/
structure Sent where
  id : ℕ
  offset : UInt64
  len : ℤ
deriving DecidableEq, Repr

/-- The requests that were sent and not answered, in the order of sending -/
def recordUpload (ledger : List Sent) : Event → List Sent
  | .read id offset len => ledger ++ [⟨id, offset, len⟩]
  | .write id offset data => ledger ++ [⟨id, offset, data.length⟩]
  | .reply id => ledger.eraseP fun x => x.id == id
  | .taken => ledger

def unanswered (trace : List Event) : List Sent := trace.foldl recordUpload []

/-- A reply is for the request with its id that is not answered. -/
def answer (id : ℕ) (p : Sent × Bool) : Sent × Bool :=
  if p.1.id = id ∧ p.2 = false then (p.1, true) else p

/-- The requests that were sent and not handed out, in the order of sending, with whether they were
answered -/
def recordDownload (ledger : List (Sent × Bool)) : Event → List (Sent × Bool)
  | .read id offset len => ledger ++ [(⟨id, offset, len⟩, false)]
  | .write id offset data => ledger ++ [(⟨id, offset, data.length⟩, false)]
  | .reply id => ledger.map (answer id)
  | .taken => ledger.tail

def notHandedOut (trace : List Event) : List (Sent × Bool) := trace.foldl recordDownload []

/-- The writes that were sent, with their offsets -/
def writes (trace : List Event) : List (UInt64 × List UInt8) :=
  trace.filterMap fun
    | .write _ offset data => some (offset, data)
    | _ => none

/-- Each piece begins where the one before it ends. -/
def Contiguous : UInt64 → List (UInt64 × List UInt8) → Prop
  | _, [] => True
  | offset, (start, data) :: rest =>
    start = offset ∧ Contiguous (offset + UInt64.ofNat data.length) rest

/-! ## Runs -/

inductive UploadEvent where
  /-- `xfer_upload_data` -/
  | data (buffer : List UInt8)
  /-- A packet that is given to `xfer_upload_gotpkt` -/
  | packet (pktin : Option SftpPacket)
  /-- A request that is not part of the transfer is allocated. -/
  | otherRequest
  /-- Such a request is registered. -/
  | otherRegister (id : ℕ)

inductive DownloadEvent where
  /-- `xfer_download_queue` -/
  | queue
  /-- A packet that is given to `xfer_download_gotpkt` -/
  | packet (pktin : Option SftpPacket)
  /-- `xfer_download_data` -/
  | data
  /-- `xfer_set_error` -/
  | setError
  | otherRequest
  | otherRegister (id : ℕ)

/-- What is not part of the transfer has no `userdata`. -/
def registerOther (s : State) (id : ℕ) : State :=
  match findRequest s.requests id with
  | some ⟨_, _, none⟩ => sftpRegister s id
  | _ => s

def uploadStep (s : State) : UploadEvent → Except Fault State
  | .data buffer => xferUploadData s buffer
  | .packet pktin => do
    let (_, s) ← xferUploadGotpkt s pktin
    return s
  | .otherRequest => do
    let (_, s) ← sftpAllocRequest s
    return s
  | .otherRegister id => .ok (registerOther s id)

/-- A step gives the data that `xfer_download_data` hands out. -/
def downloadStep (s : State) : DownloadEvent → Except Fault (List UInt8 × State)
  | .queue => do
    let s ← xferDownloadQueue s
    return ([], s)
  | .packet pktin => do
    let (_, s) ← xferDownloadGotpkt s pktin
    return ([], s)
  | .data => do
    let (data, s) ← xferDownloadData s
    return (data.getD [], s)
  | .setError => .ok ([], xferSetError s)
  | .otherRequest => do
    let (_, s) ← sftpAllocRequest s
    return ([], s)
  | .otherRegister id => .ok ([], registerOther s id)

def uploadRun (s : State) (events : List UploadEvent) : Except Fault State :=
  events.foldlM uploadStep s

/-- A run gives all the data that was handed out, in order. -/
def downloadRun (s : State) : List DownloadEvent → Except Fault (List UInt8 × State)
  | [] => .ok ([], s)
  | e :: events => do
    let (data, s) ← downloadStep s e
    let (rest, s) ← downloadRun s events
    return (data ++ rest, s)

/-- Nothing was transferred yet; there may be requests that are not part of the transfer. -/
structure Fresh (requests : List SftpRequest) : Prop where
  sorted : requests.Pairwise fun x y => x.id < y.id
  offset : ∀ r ∈ requests, 256 ≤ r.id
  other : ∀ r ∈ requests, r.userdata = none

/-- A transfer that starts -/
def State.start (requests : List SftpRequest) (offset : UInt64) (eof : Bool) : State where
  requests := requests
  fxpErrorMessage := ""
  fxpErrtype := 0
  reqs := .empty
  xfer := xferInit offset eof
  trace := []

/-- `xfer_upload_init` -/
def xferUploadInit (requests : List SftpRequest) (offset : UInt64) : State :=
  .start requests offset true

/-- `xfer_download_init` -/
def xferDownloadInit (requests : List SftpRequest) (offset : UInt64) : Except Fault State :=
  xferDownloadQueue (.start requests offset false)

end PuttyNd.Sftp
