import PuttyNd.Lib.CInt
import PuttyNd.Lib.Memory
import PuttyNd.Tree.Tree234

/-!
# The tree of SFTP requests (`psftp/sftp.c`)

The counted tree `sftp_requests`, and the search for the first free id with its `unsigned` arithmetic: `low`
begins as -1, which wraps around.
-/

namespace PuttyNd.Sftp.RequestTree

open Tree234 CInt Memory

/-- `struct sftp_request` -/
structure SftpRequest where
  id : UInt32
  registered : Bool
  userdata : Option ℕ
deriving DecidableEq, Repr

def REQUEST_ID_OFFSET : UInt32 := 256

def sftpReqcmp (a b : SftpRequest) : Ordering := compare a.id b.id

def sftpReqfind (a : UInt32) (b : SftpRequest) : Ordering := compare a b.id

/-- The new `low` and `high`, with the request at the index `mid` -/
def narrow (mid low high : UInt32) : Option SftpRequest → Except Fault (UInt32 × UInt32)
  | none => .error .badPointer
  | some r => .ok (if r.id = mid + REQUEST_ID_OFFSET then (mid, high) else (low, mid))

/-- A round of the binary search of `sftp_alloc_request`; `index234` takes an `int`. -/
def searchRound (sftpRequests : Tree234.Tree SftpRequest) (low high : UInt32) : Except Fault (UInt32 × UInt32) :=
  let mid := (high + low) / 2
  narrow mid low high (index234 sftpRequests (toInt32 mid.toNat))

/-- The binary search; `low` and `high` come closer with each round. -/
def searchLow (sftpRequests : Tree234.Tree SftpRequest) : ℕ → UInt32 → UInt32 → Except Fault UInt32
  | 0, _, _ => .error .endlessLoop
  | rounds + 1, low, high =>
    if high - low > 1 then
      searchRound sftpRequests low high >>= fun range => searchLow sftpRequests rounds range.1 range.2
    else .ok low

/-- `sftp_alloc_request`; `sftp_requests` is `NULL` before the first request. -/
def sftpAllocRequest (sftpRequests : Option (Tree234.Tree SftpRequest)) :
    Except Fault (SftpRequest × Tree234.Tree SftpRequest) := do
  let t := sftpRequests.getD (newtree234 (some sftpReqcmp))
  let tsize := count234 t
  let low ← searchLow t (tsize + 1) (0 - 1) (UInt32.ofNat tsize)
  let i := low + 1 + REQUEST_ID_OFFSET
  if (find234 t (sftpReqfind i)).isSome then .error .assertion
  else
    let r : SftpRequest := ⟨low + 1 + REQUEST_ID_OFFSET, false, none⟩
    match add234 t r with
    | none => .error .badPointer
    | some (t, _) => return (r, t)

end PuttyNd.Sftp.RequestTree
