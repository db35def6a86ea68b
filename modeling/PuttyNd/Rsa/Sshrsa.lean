import PuttyNd.Mpint.Bezout
import PuttyNd.Mpint.Divide
import PuttyNd.Rsa.Padding

/-!
# The RSA key type (`psftp/sshrsa.c`)

A field of a key that is `NULL` is a number of no words. The three hash functions are parameters.
-/

namespace PuttyNd.Mpint

variable {u : ℕ}

def mpSub (x y : MpInt u) : Except Fault (MpInt u) := do
  let r ← mpMakeSized (u := u) (max x.length y.length)
  return mpSubInto r.length x y

def mpMinInto (nw : ℕ) (x y : MpInt u) : MpInt u := mpSelectInto nw x y (mpCmpHs x y)

def mpMaxInto (nw : ℕ) (x y : MpInt u) : MpInt u := mpSelectInto nw y x (mpCmpHs x y)

def mpMin (x y : MpInt u) : Except Fault (MpInt u) := do
  let r ← mpMakeSized (u := u) (min x.length y.length)
  return mpMinInto r.length x y

def mpMax (x y : MpInt u) : Except Fault (MpInt u) := do
  let r ← mpMakeSized (u := u) (max x.length y.length)
  return mpMaxInto r.length x y

end PuttyNd.Mpint

namespace PuttyNd.Rsa

open Mpint Psftp

variable {u : ℕ}

/-! ## The private operation -/

/-- `crt_modpow` -/
def crtModpow (base exp mod p q iqmp : MpInt u) : Except Fault (MpInt u) := do
  let pm1 ← mpCopy p
  let pm1 := mpSubIntegerInto pm1.length pm1 1
  let qm1 ← mpCopy q
  let qm1 := mpSubIntegerInto qm1.length qm1 1
  let pexp ← mpMod mpDivmodInto exp pm1
  let qexp ← mpMod mpDivmodInto exp qm1
  let baseModP ← mpMod mpDivmodInto base p
  let presult ← mpModpow mpDivmodInto baseModP pexp p
  let baseModQ ← mpMod mpDivmodInto base q
  let qresult ← mpModpow mpDivmodInto baseModQ qexp q
  -- the sum may be cut off: then the difference is not
  let presultTooSmall := mpCmpHs qresult presult
  let presult := mpCondAddInto presult.length presult p presultTooSmall
  let diff ← mpSub presult qresult
  let multiplier ← mpMul iqmp q
  let ret0 ← mpMul multiplier diff
  let ret0 := mpAddInto ret0.length ret0 qresult
  mpMod mpDivmodInto ret0 mod

def RSAKey.privkeyOp (key : RSAKey u) (input : MpInt u) : Except Fault (MpInt u) :=
  crtModpow input key.privateExponent key.modulus key.p key.q key.iqmp

/-- `rsa_verify`: the key as it is afterwards, and whether it is accepted -/
def rsaVerify (key : RSAKey u) : Except Fault (RSAKey u × Bool) :=
  if mpHsInteger key.p 2 &&& mpHsInteger key.q 2 = 0 then .ok (key, false)
  else do
    let n ← mpMul key.p key.q
    let ok := 1 &&& mpCmpEq n key.modulus
    let pm1 ← mpCopy key.p
    let pm1 := mpSubIntegerInto pm1.length pm1 1
    let ed ← mpModmul mpDivmodInto key.exponent key.privateExponent pm1
    let ok := ok &&& mpEqInteger ed 1
    let qm1 ← mpCopy key.q
    let qm1 := mpSubIntegerInto qm1.length qm1 1
    let ed ← mpModmul mpDivmodInto key.exponent key.privateExponent qm1
    let ok := ok &&& mpEqInteger ed 1
    let pNew ← mpMax key.p key.q
    let qNew ← mpMin key.p key.q
    let iqmp ← mpInvert qNew pNew
    return ({ key with p := pNew, q := qNew, iqmp := iqmp }, ok ≠ 0)

/-! ## Key blobs -/

/-- `"ssh-rsa"` -/
def sshRsaName : List UInt8 := [0x73, 0x73, 0x68, 0x2d, 0x72, 0x73, 0x61]

/-- `rsa2_new_pub` -/
def rsa2NewPub (data : List UInt8) : Option (RSAKey u) :=
  let (name, src) := getString ⟨data, false⟩
  if name ≠ sshRsaName then none
  else
    let (exponent, src) := getMpSsh2 src
    let (modulus, src) := getMpSsh2 src
    if src.err then none
    else some { exponent, modulus, privateExponent := [], p := [], q := [], iqmp := [] }

/-- `put_stringz` of a text without NUL -/
def putStringz (s : List UInt8) : List UInt8 := putUint32 (UInt32.ofNat s.length) ++ s

/-- `rsa2_public_blob` -/
def rsa2PublicBlob (key : RSAKey u) : List UInt8 :=
  putStringz sshRsaName ++ putMpSsh2 key.exponent ++ putMpSsh2 key.modulus

/-- `rsa2_private_blob` -/
def rsa2PrivateBlob (key : RSAKey u) : List UInt8 :=
  putMpSsh2 key.privateExponent ++ putMpSsh2 key.p ++ putMpSsh2 key.q ++ putMpSsh2 key.iqmp

/-- `rsa2_new_priv` -/
def rsa2NewPriv (pub priv : List UInt8) : Except Fault (Option (RSAKey u)) :=
  match rsa2NewPub (u := u) pub with
  | none => .ok none
  | some rsa => do
    let (privateExponent, src) := getMpSsh2 ⟨priv, false⟩
    let (p, src) := getMpSsh2 src
    let (q, src) := getMpSsh2 src
    let (iqmp, src) := getMpSsh2 src
    if src.err then return none
    else
      let (rsa, ok) ← rsaVerify { rsa with privateExponent, p, q, iqmp }
      if !ok then return none else return some rsa

/-- `rsa2_new_priv_openssh`: the key, and what is left of the source -/
def rsa2NewPrivOpenssh (src : BinarySource) : Except Fault (Option (RSAKey u) × BinarySource) := do
  let (modulus, src) := getMpSsh2 src
  let (exponent, src) := getMpSsh2 src
  let (privateExponent, src) := getMpSsh2 src
  let (iqmp, src) := getMpSsh2 src
  let (p, src) := getMpSsh2 src
  let (q, src) := getMpSsh2 src
  if src.err then return (none, src)
  else
    let (rsa, ok) ← rsaVerify { modulus, exponent, privateExponent, p, q, iqmp }
    if !ok then return (none, src) else return (some rsa, src)

/-- `rsa2_openssh_blob` -/
def rsa2OpensshBlob (key : RSAKey u) : List UInt8 :=
  putMpSsh2 key.modulus ++ putMpSsh2 key.exponent ++ putMpSsh2 key.privateExponent ++ putMpSsh2 key.iqmp ++
    putMpSsh2 key.p ++ putMpSsh2 key.q

/-- `rsa2_pubkey_bits`, where `-1` is no length -/
def rsa2PubkeyBits (u : ℕ) (pub : List UInt8) : Option ℕ :=
  (rsa2NewPub (u := u) pub).map fun rsa => mpGetNbits rsa.modulus

/-! ## Signatures -/

/-- The hash functions that a signature may be made with -/
inductive RsaHash where
  | sha1
  | sha256
  | sha512
deriving DecidableEq, Repr

def RsaHash.hlen : RsaHash → ℕ
  | sha1 => 20
  | sha256 => 32
  | sha512 => 64

/-- What `ssh_hash_final` gives for the data that were put -/
structure Hashes where
  hash : RsaHash → List UInt8 → List UInt8
  length_hash (halg : RsaHash) (data : List UInt8) : (hash halg data).length = halg.hlen

/-- `SSH_AGENT_RSA_SHA2_256` and `SSH_AGENT_RSA_SHA2_512` -/
def agentRsaSha2_256 : UInt32 := 2

def agentRsaSha2_512 : UInt32 := 4

/-- `rsa2_hash_alg_for_flags`, with the name of the signature algorithm -/
def rsa2HashAlgForFlags (flags : UInt32) : RsaHash × List UInt8 :=
  if flags &&& agentRsaSha2_256 ≠ 0 then
    (.sha256, [0x72, 0x73, 0x61, 0x2d, 0x73, 0x68, 0x61, 0x32, 0x2d, 0x32, 0x35, 0x36])
  else if flags &&& agentRsaSha2_512 ≠ 0 then
    (.sha512, [0x72, 0x73, 0x61, 0x2d, 0x73, 0x68, 0x61, 0x32, 0x2d, 0x35, 0x31, 0x32])
  else (.sha1, sshRsaName)

/-- `rsa_pkcs1_prefix_for_hash` -/
def rsaPkcs1PrefixForHash : RsaHash → List UInt8
  | .sha1 =>
    [0x00, 0x30, 0x21, 0x30, 0x09, 0x06, 0x05, 0x2B, 0x0E, 0x03, 0x02, 0x1A, 0x05, 0x00, 0x04, 0x14]
  | .sha256 =>
    [0x00, 0x30, 0x31, 0x30, 0x0d, 0x06, 0x09, 0x60, 0x86, 0x48, 0x01, 0x65, 0x03, 0x04, 0x02, 0x01,
      0x05, 0x00, 0x04, 0x20]
  | .sha512 =>
    [0x00, 0x30, 0x51, 0x30, 0x0d, 0x06, 0x09, 0x60, 0x86, 0x48, 0x01, 0x65, 0x03, 0x04, 0x02, 0x03,
      0x05, 0x00, 0x04, 0x40]

/-- `rsa_pkcs1_length_of_fixed_parts` -/
def rsaPkcs1LengthOfFixedParts (halg : RsaHash) : ℕ := halg.hlen + (rsaPkcs1PrefixForHash halg).length + 2

variable (H : Hashes)

/-- `rsa_pkcs1_signature_string` -/
def rsaPkcs1SignatureString (nbytes : ℕ) (halg : RsaHash) (data : List UInt8) : Except Fault (List UInt8) := do
  let fixedParts := rsaPkcs1LengthOfFixedParts halg
  check (nbytes ≥ fixedParts)
  let padding := nbytes - fixedParts
  return [0, 1] ++ List.replicate padding 0xFF ++ rsaPkcs1PrefixForHash halg ++ H.hash halg data

/-- `rsa2_verify` -/
def rsa2Verify (rsa : RSAKey u) (sig data : List UInt8) : Except Fault Bool := do
  let (halg, _) := rsa2HashAlgForFlags 0
  let nbytes := (mpGetNbits rsa.modulus + 7) / 8
  if nbytes < rsaPkcs1LengthOfFixedParts halg then return false
  else
    let (type, src) := getString ⟨sig, false⟩
    let (inPl, src) := getString src
    if src.err ∨ type ≠ sshRsaName then return false
    else
      let input := mpFromBytesBe inPl
      let out ← mpModpow mpDivmodInto input rsa.exponent rsa.modulus
      let bytes ← rsaPkcs1SignatureString H nbytes halg data
      let diff := (List.range nbytes).foldl
        (fun diff i => diff ||| (bytes.getD (nbytes - 1 - i) 0 ^^^ mpGetByte out i)) 0
      return diff = 0

/-- `rsa2_sign` -/
def rsa2Sign (rsa : RSAKey u) (data : List UInt8) (flags : UInt32) : Except Fault (List UInt8) := do
  let (halg, signAlgName) := rsa2HashAlgForFlags flags
  let nbytes := (mpGetNbits rsa.modulus + 7) / 8
  let bytes ← rsaPkcs1SignatureString H nbytes halg data
  let input := mpFromBytesBe bytes
  let out ← rsa.privkeyOp input
  let nbytes := (mpGetNbits out + 7) / 8
  return putStringz signAlgName ++ putUint32 (UInt32.ofNat nbytes) ++ getBytes out nbytes

/-- `rsa2_invalid`: the length of the key in bits and the algorithm that the message names -/
def rsa2Invalid (rsa : RSAKey u) (flags : UInt32) : Option (ℕ × List UInt8) :=
  let bits := mpGetNbits rsa.modulus
  let nbytes := (bits + 7) / 8
  let (halg, signAlgName) := rsa2HashAlgForFlags flags
  if nbytes < rsaPkcs1LengthOfFixedParts halg then some (bits, signAlgName) else none

end PuttyNd.Rsa
