import PuttyNd.Psftp.Marshal
import Mathlib.Data.Int.Notation

/-!
# Authorisation of X clients (`psftp/x11fwd.c`)

A tree is the sorted list of its elements. A search of the tree compares with an element that is equal, or
with the neighbours of the place where it would be, and so does one of the list. A record of a fake
authorisation is known by the number that stands for its address; `unsigned long` has 64 bits.
-/

namespace PuttyNd.X11

open Psftp

/-- What must not happen. -/
inductive Fault
  | assertion
  | overread
deriving DecidableEq, Repr

/-- The bytes of a string constant. -/
def ascii (s : String) : List UInt8 := s.toList.map fun c => c.toNat.toUInt8

/-- `X11_MIT` and `X11_XDM`. -/
inductive AuthType
  | mit
  | xdm
deriving DecidableEq, Repr

/-- `x11_authnames` -/
def x11Authname : AuthType → List UInt8
  | .mit => ascii "MIT-MAGIC-COOKIE-1"
  | .xdm => ascii "XDM-AUTHORIZATION-1"

/-- The bytes from `pos` on, if there are as many. -/
def peek (data : List UInt8) (pos n : ℕ) : Except Fault (List UInt8) :=
  if pos + n ≤ data.length then .ok ((data.drop pos).take n) else .error .overread

/-- `memcmp` -/
def memcmp (a b : List UInt8) (n : ℕ) : Except Fault Ordering := do
  let a ← peek a 0 n
  let b ← peek b 0 n
  return compare a b

/-! ## Sorted trees -/

section Tree

variable {α : Type}

/-- `find234` -/
def find234 (cmp : α → Except Fault Ordering) : List α → Except Fault (Option α)
  | [] => .ok none
  | a :: l => do
    match ← cmp a with
    | .lt => return none
    | .eq => return some a
    | .gt => find234 cmp l

/-- `add234`, and whether it returned the new element. -/
def add234 (cmp : α → Except Fault Ordering) (e : α) : List α → Except Fault (List α × Bool)
  | [] => .ok ([e], true)
  | a :: l => do
    match ← cmp a with
    | .lt => return (e :: a :: l, true)
    | .eq => return (a :: l, false)
    | .gt =>
      let (l, added) ← add234 cmp e l
      return (a :: l, added)

end Tree

/-! ## Records -/

structure XDMSeen where
  time : UInt32
  clientid : List UInt8
deriving DecidableEq, Repr

def xdmseenCmp (a b : XDMSeen) : Except Fault Ordering :=
  if a.time > b.time then .ok .gt
  else if a.time < b.time then .ok .lt
  else memcmp a.clientid b.clientid 6

/-- `struct X11FakeAuth`, with the fields that do not change: the tree `xdmseen` is kept apart. -/
structure X11FakeAuth where
  id : ℕ
  proto : AuthType
  data : List UInt8
  xa1Firstblock : List UInt8
deriving DecidableEq, Repr

/-- The fields of a record that `x11_authcmp` uses. -/
inductive Key
  | mit (data : List UInt8)
  | xdm (xa1Firstblock : List UInt8)
deriving DecidableEq, Repr

def X11FakeAuth.key (auth : X11FakeAuth) : Key :=
  match auth.proto with
  | .mit => .mit auth.data
  | .xdm => .xdm auth.xa1Firstblock

def x11Authcmp : Key → Key → Except Fault Ordering
  | .mit _, .xdm _ => .ok .lt
  | .xdm _, .mit _ => .ok .gt
  | .mit a, .mit b =>
    if a.length < b.length then .ok .lt
    else if a.length > b.length then .ok .gt
    else memcmp a b a.length
  | .xdm a, .xdm b => memcmp a b 8

/-- `des_encrypt_xdmauth` and `des_decrypt_xdmauth`: CBC with a key of seven bytes, in place. -/
structure Des where
  encrypt : List UInt8 → List UInt8 → List UInt8
  decrypt : List UInt8 → List UInt8 → List UInt8
  length_encrypt : ∀ key blk, (encrypt key blk).length = blk.length
  length_decrypt : ∀ key blk, (decrypt key blk).length = blk.length

/-- The authorisation tree, the trees of seen stamps (none for a `NULL` pointer), and the number of the
next record. -/
structure Auths where
  authtree : List X11FakeAuth
  xdmseen : ℕ → Option (List XDMSeen)
  next : ℕ

def Auths.empty : Auths := ⟨[], fun _ => none, 0⟩

/-- The data that are invented with some random bytes. -/
def inventData (authtype : AuthType) (random : ℕ → UInt8) : List UInt8 :=
  match authtype with
  | .mit => (List.range 16).map random
  | .xdm => (List.range 8).map random ++ [0] ++ (List.range' 9 6).map random ++ [random 8]

/-- A record with the data. -/
def mkFakeAuth (des : Des) (id : ℕ) (authtype : AuthType) (data : List UInt8) : X11FakeAuth :=
  { id := id
    proto := authtype
    data := data
    xa1Firstblock :=
      match authtype with
      | .mit => []
      | .xdm => des.encrypt (data.drop 9) (data.take 8) }

/-- `x11_invent_fake_auth`. Each round of its loop takes other random bytes; none if the loop does not end
with those that are given. -/
def x11InventFakeAuth (des : Des) (s : Auths) (authtype : AuthType) :
    List (ℕ → UInt8) → Except Fault (Option Auths)
  | [] => .ok none
  | random :: randoms => do
    let auth := mkFakeAuth des s.next authtype (inventData authtype random)
    let (authtree, added) ← add234 (fun a => x11Authcmp auth.key a.key) auth s.authtree
    if added then
      return some
        { authtree := authtree
          xdmseen := fun id =>
            if id = auth.id then (match authtype with | .mit => none | .xdm => some []) else s.xdmseen id
          next := s.next + 1 }
    else x11InventFakeAuth des s authtype randoms

/-! ## Verification -/

def XDM_MAXSKEW : UInt64 := 20 * 60

def get32 (data : List UInt8) (pos : ℕ) : Except Fault UInt32 := do
  return get32bitMsbFirst (← peek data pos 4)

def get16 (data : List UInt8) (pos : ℕ) : Except Fault UInt16 := do
  return get16bit (← peek data pos 2)

/-- The loop that purges the entries that are too old. -/
def purge (t : UInt32) : List XDMSeen → Except Fault (List XDMSeen)
  | [] => .error .assertion
  | seen :: rest =>
    if t.toUInt64 - seen.time.toUInt64 ≤ XDM_MAXSKEW then .ok (seen :: rest) else purge t rest

inductive Verdict
  | rejected (err : String)
  | accepted (auth : X11FakeAuth)
deriving DecidableEq, Repr

/-- The arguments of `x11_verify` beside the tree, and the time that `time` returns. -/
structure Call where
  peerIp : UInt64
  peerPort : ℤ
  proto : CStr
  data : List UInt8
  tim : Int64
deriving DecidableEq, Repr

/-- The replay check, and the purge. -/
def xdmRemember (s : Auths) (auth : X11FakeAuth) (t : UInt32) (clientid : List UInt8) :
    Except Fault (Auths × Verdict) := do
  match s.xdmseen auth.id with
  | none => throw .assertion
  | some xdmseen =>
    let seen : XDMSeen := ⟨t, clientid⟩
    let (xdmseen, added) ← add234 (xdmseenCmp seen) seen xdmseen
    if added then
      let xdmseen ← purge t xdmseen
      return ({ s with xdmseen := fun id => if id = auth.id then some xdmseen else s.xdmseen id },
        .accepted auth)
    else return (s, .rejected "XDM-AUTHORIZATION-1 data replayed")

/-- The checks of XDM-AUTHORIZATION-1 after the data are decrypted. -/
def xdmCheck (s : Auths) (auth : X11FakeAuth) (call : Call) (data : List UInt8) :
    Except Fault (Auths × Verdict) := do
  if (← memcmp auth.data data 8) ≠ .eq then
    return (s, .rejected "XDM-AUTHORIZATION-1 data failed check")
  if (← get32 data 8).toUInt64 ≠ call.peerIp then
    return (s, .rejected "XDM-AUTHORIZATION-1 data failed check")
  if ((← get16 data 12).toNat : ℤ) ≠ call.peerPort then
    return (s, .rejected "XDM-AUTHORIZATION-1 data failed check")
  let t ← get32 data 14
  if (← peek data 18 6).any (· ≠ 0) then
    return (s, .rejected "XDM-AUTHORIZATION-1 data failed check")
  if t.toUInt64 - call.tim.toUInt64 + XDM_MAXSKEW > 2 * XDM_MAXSKEW then
    return (s, .rejected "XDM-AUTHORIZATION-1 time stamp was too far out")
  xdmRemember s auth t (← peek data 8 6)

/-- `x11_verify` from the lookup on: the trees, the data as it leaves them, and the result. -/
def verifyKey (des : Des) (s : Auths) (call : Call) (key : Key) :
    Except Fault (Auths × List UInt8 × Verdict) := do
  match ← find234 (fun a => x11Authcmp key a.key) s.authtree with
  | none => return (s, call.data, .rejected "Authorisation not recognised")
  | some auth =>
    match auth.proto with
    | .mit => return (s, call.data, .accepted auth)
    | .xdm =>
      if call.data.length ≠ 24 then
        return (s, call.data, .rejected "XDM-AUTHORIZATION-1 data was wrong length")
      else if call.peerPort = -1 then
        return (s, call.data,
          .rejected "cannot do XDM-AUTHORIZATION-1 without remote address data")
      else
        let data := des.decrypt (auth.data.drop 9) call.data
        let (s, verdict) ← xdmCheck s auth call data
        return (s, data, verdict)

/-- `x11_verify` -/
def x11Verify (des : Des) (s : Auths) (call : Call) :
    Except Fault (Auths × List UInt8 × Verdict) :=
  if call.proto.val = x11Authname .mit then verifyKey des s call (.mit call.data)
  else if call.proto.val = x11Authname .xdm then verifyKey des s call (.xdm call.data)
  else .ok (s, call.data, .rejected "Unsupported authorisation protocol")

/-! ## Runs -/

inductive Event
  | invent (authtype : AuthType) (randoms : List (ℕ → UInt8))
  | verify (call : Call)

/-- The trees, and the calls of `x11_verify` with their results. -/
structure Session where
  auths : Auths
  log : List (Call × Verdict)

def step (des : Des) (s : Session) : Event → Except Fault Session
  | .invent authtype randoms => do
    match ← x11InventFakeAuth des s.auths authtype randoms with
    | some auths => return { s with auths := auths }
    | none => return s
  | .verify call => do
    let (auths, _, verdict) ← x11Verify des s.auths call
    return ⟨auths, s.log ++ [(call, verdict)]⟩

def run (des : Des) (events : List Event) : Except Fault Session :=
  events.foldlM (step des) ⟨.empty, []⟩

end PuttyNd.X11
