import PuttyNd.Psftp.Marshal

/-!
# Terminal modes in packets (`psftp/sshcommon.c`)
-/

namespace PuttyNd.Ssh

open Psftp

def TTYMODE_ISPEED : ℕ := 256
def TTYMODE_OSPEED : ℕ := 257
def TTYMODE_LIMIT : ℕ := 258
def TTYMODE_ISPEED_SSH1 : ℕ := 192
def TTYMODE_OSPEED_SSH1 : ℕ := 193
def TTYMODE_ISPEED_SSH2 : ℕ := 128
def TTYMODE_OSPEED_SSH2 : ℕ := 129
def TTYMODE_END_OF_LIST : ℕ := 0

/-- `struct ssh_ttymodes` -/
structure SshTtymodes where
  haveMode : Fin TTYMODE_LIMIT → Bool
  modeVal : Fin TTYMODE_LIMIT → UInt32

namespace SshTtymodes

/-- `memset` to zero -/
def zero : SshTtymodes := ⟨fun _ => false, fun _ => 0⟩

def set (modes : SshTtymodes) (opcode : Fin TTYMODE_LIMIT) (val : UInt32) : SshTtymodes where
  haveMode i := if i = opcode then true else modes.haveMode i
  modeVal i := if i = opcode then val else modes.modeVal i

end SshTtymodes

inductive TtymodesFault where
  | assertion
  | endlessLoop
deriving DecidableEq, Repr

def realTtymodeOpcode (ourOpcode sshVersion : ℕ) : ℕ :=
  if ourOpcode = TTYMODE_ISPEED then if sshVersion = 1 then TTYMODE_ISPEED_SSH1 else TTYMODE_ISPEED_SSH2
  else if ourOpcode = TTYMODE_OSPEED then if sshVersion = 1 then TTYMODE_OSPEED_SSH1 else TTYMODE_OSPEED_SSH2
  else ourOpcode

def ourTtymodeOpcode (realOpcode sshVersion : ℕ) : ℕ :=
  if sshVersion = 1 then
    if realOpcode = TTYMODE_ISPEED_SSH1 then TTYMODE_ISPEED
    else if realOpcode = TTYMODE_OSPEED_SSH1 then TTYMODE_OSPEED
    else realOpcode
  else
    if realOpcode = TTYMODE_ISPEED_SSH2 then TTYMODE_ISPEED
    else if realOpcode = TTYMODE_OSPEED_SSH2 then TTYMODE_OSPEED
    else realOpcode

/-- The value of a mode is a byte in SSH-1, up to the opcode 127. -/
def hasByte (sshVersion opcode : ℕ) : Bool := sshVersion = 1 ∧ 1 ≤ opcode ∧ opcode ≤ 127

def getTtymodeVal (sshVersion realOpcode : ℕ) (bs : BinarySource) : UInt32 × BinarySource :=
  if hasByte sshVersion realOpcode then ((getByte bs).1.toUInt32, (getByte bs).2) else getUint32 bs

/-- The loop of `read_ttymodes_from_packet`. Each round but the last takes at least one byte, so that `rounds`
is no limit when it is greater than their number. -/
def readTtymodes (sshVersion : ℕ) : ℕ → SshTtymodes → BinarySource →
    Except TtymodesFault (SshTtymodes × BinarySource)
  | 0, _, _ => .error .endlessLoop
  | rounds + 1, modes, bs =>
    let byte := getByte bs
    let realOpcode := byte.1.toNat
    if realOpcode = TTYMODE_END_OF_LIST then .ok (modes, byte.2)
    else if realOpcode ≥ 160 then .ok (modes, byte.2)
    else if h : ourTtymodeOpcode realOpcode sshVersion < TTYMODE_LIMIT then
      let val := getTtymodeVal sshVersion realOpcode byte.2
      readTtymodes sshVersion rounds (modes.set ⟨_, h⟩ val.1) val.2
    else .error .assertion

/-- `read_ttymodes_from_packet` -/
def readTtymodesFromPacket (bs : BinarySource) (sshVersion : ℕ) :
    Except TtymodesFault (SshTtymodes × BinarySource) :=
  readTtymodes sshVersion (bs.data.length + 1) .zero bs

def putTtymode (sshVersion : ℕ) (modes : SshTtymodes) (i : Fin TTYMODE_LIMIT) : List UInt8 :=
  if modes.haveMode i then
    let val := modes.modeVal i
    let opcode := realTtymodeOpcode i sshVersion
    opcode.toUInt8 :: if hasByte sshVersion opcode then [val.toUInt8] else putUint32 val
  else []

/-- `write_ttymodes_to_packet` -/
def writeTtymodesToPacket (sshVersion : ℕ) (modes : SshTtymodes) : List UInt8 :=
  (List.finRange TTYMODE_LIMIT).flatMap (putTtymode sshVersion modes) ++ [TTYMODE_END_OF_LIST.toUInt8]

end PuttyNd.Ssh
