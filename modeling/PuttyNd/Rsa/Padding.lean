import PuttyNd.Lib.Memory
import PuttyNd.Mpint.Marshal

/-!
# Padding for RSA (`psftp/sshrsa.c`)

The operations of the key itself are parameters, and so is the hash function. Outcomes of the random source are
arguments. An array whose parts are written one after the other is the list of its parts.
-/

namespace PuttyNd.Rsa

open Mpint hiding Fault
open Psftp Memory

variable {u : ℕ}

/-- The fields of `RSAKey` that are numbers -/
structure RSAKey (u : ℕ) where
  modulus : MpInt u
  exponent : MpInt u
  privateExponent : MpInt u
  p : MpInt u
  q : MpInt u
  iqmp : MpInt u

/-- `mp_modpow` and `crt_modpow` -/
structure Bignum (u : ℕ) where
  mpModpow (base exponent modulus : MpInt u) : MpInt u
  crtModpow (base exp mod p q iqmp : MpInt u) : MpInt u

/-- `ssh_hashalg`: what a hash is made of is the data that is put to it. -/
structure HashAlg where
  hlen : ℕ
  hash : List UInt8 → List UInt8
  length_hash (data : List UInt8) : (hash data).length = hlen
  pos : 0 < hlen
  /-- `MAX_HASH_LEN` -/
  le : hlen ≤ 64

variable (B : Bignum u) (key : RSAKey u)

/-- The bytes of a number, the highest first, as the loops with `mp_get_byte` write them -/
def getBytes (x : MpInt u) (n : ℕ) : List UInt8 := (List.range n).reverse.map (mpGetByte x)

/-- The length of the modulus in bytes, which is the field `bytes` of the key -/
def RSAKey.bytes : ℕ := (mpGetNbits key.modulus + 7) / 8

def rsaPrivkeyOp (input : MpInt u) : MpInt u :=
  B.crtModpow input key.privateExponent key.modulus key.p key.q key.iqmp

/-! ## PKCS #1 for SSH-1 -/

/-- The loop over padding bytes, with `n` of them to come; `randval` has a byte more than the random bits. -/
def paddingBytes (randomBits : ℕ) : ℕ → ℕ → Except Fault (List UInt8)
  | 0, _ => .ok []
  | n + 1, randval => do
    let randval := randval * 255
    let byte : UInt8 := UInt8.ofNat (randval / 2 ^ randomBits)
    if byte ≠ 255 then
      let rest ← paddingBytes randomBits n (randval % 2 ^ randomBits)
      .ok ((byte + 1) :: rest)
    else .error .assertion

/-- `rsa_ssh1_encrypt`: what it leaves in `data`, or nothing if the key is too short -/
def rsaSsh1Encrypt (data : List UInt8) (random : ℕ) : Except Fault (Option (List UInt8)) :=
  if key.bytes < data.length + 4 then .ok none
  else do
    let npad := key.bytes - data.length - 3
    let randomBits := (npad + 16) * 8
    let pad ← paddingBytes randomBits npad (random % 2 ^ randomBits)
    let b1 := mpFromBytesBe ([0, 2] ++ pad ++ [0] ++ data)
    let b2 := B.mpModpow b1 key.exponent key.modulus
    .ok (some (getBytes b2 key.bytes))

/-- The loop that finds the end of the padding -/
def skipPadding : ℕ → BinarySource → Except Fault (Option BinarySource)
  | 0, _ => .error .endlessLoop
  | fuel + 1, src =>
    let (byte, src) := getByte src
    if src.err then .ok none
    else if byte = 0 then .ok (some src)
    else skipPadding fuel src

/-- `rsa_ssh1_decrypt_pkcs1`: what is put to `outbuf` in case of success -/
def rsaSsh1DecryptPkcs1 (input : MpInt u) : Except Fault (Option (List UInt8)) :=
  let b := rsaPrivkeyOp B key input
  let data := getBytes b ((mpGetNbits key.modulus + 7) / 8)
  let (first, src) := getByte ⟨data, false⟩
  if first ≠ 0 then .ok none
  else
    let (second, src) := getByte src
    if second ≠ 2 then .ok none
    else do
      let payload ← skipPadding (data.length + 1) src
      .ok (payload.map Lib.Source.data)

/-! ## OAEP for SSH-2 -/

variable (h : HashAlg)

/-- The loop of `oaep_mask`, with `datalen` bytes to come -/
def oaepMaskLoop (seed : List UInt8) : ℕ → UInt32 → List UInt8 → Except Fault (List UInt8)
  | 0, _, data => if data = [] then .ok [] else .error .endlessLoop
  | fuel + 1, count, data =>
    if data = [] then .ok []
    else do
      let max := min data.length h.hlen
      let hash := h.hash (seed ++ putUint32 count)
      let rest ← oaepMaskLoop seed fuel (count + 1) (data.drop max)
      .ok (List.zipWith (· ^^^ ·) (data.take max) hash ++ rest)

/-- `oaep_mask`: what `data` becomes -/
def oaepMask (seed data : List UInt8) : Except Fault (List UInt8) := oaepMaskLoop h seed data.length 0 data

/-- `ssh_rsakex_encrypt`, where `seed` is what `random_read` gives -/
def sshRsakexEncrypt (seed input : List UInt8) : Except Fault (List UInt8) :=
  let k := (7 + mpGetNbits key.modulus) / 8
  if 0 < input.length ∧ input.length + 2 * h.hlen + 2 ≤ k then do
    let db := h.hash [] ++ List.replicate (k - 2 * h.hlen - 2 - input.length) 0 ++ [1] ++ input
    let db ← oaepMask h seed db
    let seed ← oaepMask h db seed
    let b1 := mpFromBytesBe ([0] ++ seed ++ db)
    let b2 := B.mpModpow b1 key.exponent key.modulus
    .ok (getBytes b2 k)
  else .error .assertion

/-- The loop that expects zero bytes followed by a 1 byte: what comes after them, or nothing if it fails -/
def expectOne : List UInt8 → Option (List UInt8)
  | [] => some []
  | b :: rest =>
    if b = 1 then some rest
    else if b ≠ 1 then none
    else expectOne rest

/-- `ssh_rsakex_decrypt` -/
def sshRsakexDecrypt (ciphertext : List UInt8) : Except Fault (Option (MpInt u)) :=
  let outlen := (7 + mpGetNbits key.modulus) / 8
  if ciphertext.length ≠ outlen then .ok none
  else do
    let b2 := rsaPrivkeyOp B key (mpFromBytesBe ciphertext)
    let out := getBytes b2 outlen
    let seed := (out.drop 1).take h.hlen
    let db := out.drop (h.hlen + 1)
    let seed ← oaepMask h db seed
    let db ← oaepMask h seed db
    if out.getD 0 0 ≠ 0 then .ok none
    else if db.take h.hlen ≠ h.hash [] then .ok none
    else
      match expectOne (db.drop h.hlen) with
      | none => .ok none
      | some message =>
        let (b1, src) := getMpSsh2 ⟨message, false⟩
        if src.err ∨ src.data.length ≠ 0 then .ok none else .ok (some b1)

end PuttyNd.Rsa
