import Mathlib.Data.Int.Notation
import PuttyNd.Lib.LinkedLists
import PuttyNd.Lib.Outcome

/-!
# Outstanding global requests (`psftp/ssh2connection.c`)

The queue is kept in memory as the code keeps it. `snew` gives an address that is not in use, and the
fields of what it allocates hold what was there before: both come with the event that allocates. A
pointer that is `NULL` is `none`.
-/

namespace PuttyNd.Ssh

open LinkedQueue Function

variable {η κ : Type}

/-- The fields `handler` and `ctx` of an `outstanding_global_request`. -/
structure Handler (η κ : Type) where
  handler : η
  ctx : κ
deriving DecidableEq, Repr

/-- The fields of `ssh2_connection_state` that the queue is made of, and its memory. -/
structure GlobreqQueue (η κ : Type) where
  mem : Memory (Handler η κ)
  globreqHead : Option ℕ
  globreqTail : Option ℕ

def GlobreqQueue.init : GlobreqQueue η κ := ⟨fun _ => none, none, none⟩

inductive Fault where
  /-- A pointer that points to nothing is used. -/
  | badPointer
  /-- An `assert` fails. -/
  | assertion
deriving DecidableEq, Repr

/-- The value of a pointer is used. -/
def deref {ν : Type} (mem : ℕ → Option ν) (p : Option ℕ) : Except Fault (ℕ × ν) :=
  match p with
  | none => .error .badPointer
  | some a =>
    match mem a with
    | none => .error .badPointer
    | some v => .ok (a, v)

/-- A call of `ssh2_queue_global_request_handler`, with the address that it allocates and the value of
`next` there. -/
structure Request (η κ : Type) where
  handler : Handler η κ
  ogr : ℕ
  next : Option ℕ

def queueGlobalRequestHandler (s : GlobreqQueue η κ) (r : Request η κ) :
    Except Fault (GlobreqQueue η κ) := do
  let mem := update s.mem r.ogr (some ⟨r.handler, r.next⟩)
  if s.globreqTail.isSome then
    let (tail, cell) ← deref mem s.globreqTail
    return {
      mem := update mem tail (some { cell with next := some r.ogr })
      globreqHead := s.globreqHead
      globreqTail := some r.ogr }
  else
    return {
      mem := mem
      globreqHead := some r.ogr
      globreqTail := some r.ogr }

/-- What happens: a request is queued, a reply is handled, or it is a protocol error. -/
inductive GlobreqOutcome (η κ : Type) where
  | queued
  | handled (handler : Handler η κ)
  | protoError
deriving DecidableEq, Repr

inductive GlobreqEvent (η κ : Type) where
  /-- `ssh2_queue_global_request_handler` is called -/
  | queue (request : Request η κ)
  /-- `SSH2_MSG_REQUEST_SUCCESS` or `SSH2_MSG_REQUEST_FAILURE`; these requests are queued by the handler
  that is called. -/
  | reply (requests : List (Request η κ))

def queueAll (s : GlobreqQueue η κ) (requests : List (Request η κ)) :
    Except Fault (GlobreqQueue η κ) :=
  requests.foldlM queueGlobalRequestHandler s

/-- The reply in `ssh2_connection_filter_queue` -/
def globreqReply (s : GlobreqQueue η κ) (requests : List (Request η κ)) :
    Except Fault (GlobreqQueue η κ × GlobreqOutcome η κ) := do
  if s.globreqHead.isSome then
    let (_, ogr) ← deref s.mem s.globreqHead
    let s ← queueAll s requests
    let (tmp, cell) ← deref s.mem s.globreqHead
    return ({ s with mem := update s.mem tmp none, globreqHead := cell.next }, .handled ogr.content)
  else return (s, .protoError)

def globreqStep (s : GlobreqQueue η κ) :
    GlobreqEvent η κ → Except Fault (GlobreqQueue η κ × GlobreqOutcome η κ)
  | .queue request => do
    let s ← queueGlobalRequestHandler s request
    return (s, .queued)
  | .reply requests => globreqReply s requests

/-- The outcomes of a run. -/
def globreqRun (s : GlobreqQueue η κ) : List (GlobreqEvent η κ) → Except Fault (List (GlobreqOutcome η κ))
  | [] => .ok []
  | e :: es => do
    let (s, o) ← globreqStep s e
    let os ← globreqRun s es
    return o :: os

/-! ## What the queue is for -/

/-- The same over a list of handlers, the oldest first. -/
def fifoStep (q : List (Handler η κ)) : GlobreqEvent η κ → List (Handler η κ) × GlobreqOutcome η κ
  | .queue request => (q ++ [request.handler], .queued)
  | .reply requests =>
    match q with
    | [] => ([], .protoError)
    | h :: q => (q ++ requests.map Request.handler, .handled h)

def fifoRun (q : List (Handler η κ)) : List (GlobreqEvent η κ) → List (GlobreqOutcome η κ)
  | [] => []
  | e :: es => (fifoStep q e).2 :: fifoRun (fifoStep q e).1 es

end PuttyNd.Ssh

/-!
## Remote port forwardings (`psftp/ssh2connection-client.c`)

`s->rportfwds` is a tree of pointers, sorted by what they point to; here it is the list of the pointers.
Strings are lists of bytes without the `NUL`. The caller's data, `pfr` and `share_ctx`, are of any type.
-/

namespace PuttyNd.Ssh

open Function

variable {π χ : Type}

/-- `ssh_rportfwd`, without the destination -/
structure SshRportfwd (π χ : Type) where
  shost : List UInt8
  sport : ℤ
  logDescription : List UInt8
  pfr : π
  shareCtx : Option χ

/-- `ssh2_rportfwd_cmp` returns 0. -/
def SshRportfwd.same (a b : SshRportfwd π χ) : Prop := a.shost = b.shost ∧ a.sport = b.sport

instance (a b : SshRportfwd π χ) : Decidable (a.same b) :=
  inferInstanceAs (Decidable (_ ∧ _))

inductive GrHandler where
  | ssh2RportfwdGlobreqResponse
deriving DecidableEq, Repr

structure RportfwdState (π χ : Type) where
  mem : ℕ → Option (SshRportfwd π χ)
  rportfwds : Option (List ℕ)
  queue : GlobreqQueue GrHandler ℕ

def RportfwdState.init : RportfwdState π χ := ⟨fun _ => none, none, .init⟩

def RportfwdState.tree (s : RportfwdState π χ) : List ℕ := s.rportfwds.getD []

/-- `find234` -/
def RportfwdState.find (s : RportfwdState π χ) (rpf : SshRportfwd π χ) : Option ℕ :=
  s.tree.find? fun a => (s.mem a).any fun b => rpf.same b

/-- What can be seen of a step: packets that are sent, lines of the log, `portfwdmgr_close`. -/
inductive RportfwdOutcome (π : Type) where
  | allocated (rpf : ℕ) (tcpipForward : Option (List UInt8 × ℤ))
  | duplicate
  | removed (cancelTcpipForward : Option (List UInt8 × ℤ))
  | enabled (logDescription : List UInt8)
  | refused (logDescription : List UInt8) (portfwdmgrClose : π)
  | protoError

/-- `ssh2_rportfwd_alloc`, where `a` is the address of the new forwarding. -/
def ssh2RportfwdAlloc (s : RportfwdState π χ) (rpf : SshRportfwd π χ) (a ogr : ℕ) (next : Option ℕ) :
    Except Fault (RportfwdState π χ × RportfwdOutcome π) := do
  let s := if s.rportfwds.isNone then { s with rportfwds := some [] } else s
  let s := { s with mem := update s.mem a (some rpf) }
  match s.find rpf with
  | some _ => return ({ s with mem := update s.mem a none }, .duplicate)
  | none =>
    let s := { s with rportfwds := some (a :: s.tree) }
    if rpf.shareCtx.isNone then
      let queue ← queueGlobalRequestHandler s.queue ⟨⟨.ssh2RportfwdGlobreqResponse, a⟩, ogr, next⟩
      return ({ s with queue := queue }, .allocated a (some (rpf.shost, rpf.sport)))
    else return (s, .allocated a none)

/-- `del234`, and the `assert` that it returns this forwarding; the forwarding is freed. -/
def deleteRportfwd (s : RportfwdState π χ) (a : ℕ) (rpf : SshRportfwd π χ) :
    Except Fault (RportfwdState π χ) :=
  match s.find rpf with
  | none => .error .assertion
  | some realpf =>
    if realpf = a then
      .ok { s with rportfwds := some (s.tree.erase realpf), mem := update s.mem a none }
    else .error .assertion

def ssh2RportfwdRemove (s : RportfwdState π χ) (a : ℕ) :
    Except Fault (RportfwdState π χ × RportfwdOutcome π) := do
  let (_, rpf) ← deref s.mem (some a)
  let sent := if rpf.shareCtx.isSome then none else some (rpf.shost, rpf.sport)
  if s.rportfwds.isNone then .error .assertion
  else
    let s ← deleteRportfwd s a rpf
    return (s, .removed sent)

def ssh2RportfwdGlobreqResponse (s : RportfwdState π χ) (success : Bool) (ctx : ℕ) :
    Except Fault (RportfwdState π χ × RportfwdOutcome π) := do
  let (a, rpf) ← deref s.mem (some ctx)
  if success then return (s, .enabled rpf.logDescription)
  else
    let s ← deleteRportfwd s a rpf
    return (s, .refused rpf.logDescription rpf.pfr)

inductive RportfwdEvent (π χ : Type) where
  /-- `ssh2_rportfwd_alloc` with these fields, the addresses that are allocated and the value of `next` -/
  | alloc (rpf : SshRportfwd π χ) (a ogr : ℕ) (next : Option ℕ)
  /-- `ssh2_rportfwd_remove` -/
  | remove (a : ℕ)
  /-- `SSH2_MSG_REQUEST_SUCCESS` or `SSH2_MSG_REQUEST_FAILURE` -/
  | reply (success : Bool)

def rportfwdStep (s : RportfwdState π χ) :
    RportfwdEvent π χ → Except Fault (RportfwdState π χ × RportfwdOutcome π)
  | .alloc rpf a ogr next => ssh2RportfwdAlloc s rpf a ogr next
  | .remove a => ssh2RportfwdRemove s a
  | .reply success => do
    let (queue, outcome) ← globreqReply s.queue []
    match outcome with
    | .handled h => ssh2RportfwdGlobreqResponse { s with queue := queue } success h.ctx
    | _ => return (s, .protoError)

end PuttyNd.Ssh
