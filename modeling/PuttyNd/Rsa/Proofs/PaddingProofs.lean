import PuttyNd.Lib.Outcome
import PuttyNd.Mpint.Proofs.MarshalProofs
import PuttyNd.Psftp.Proofs.MarshalProofs
import PuttyNd.Rsa.Padding

/-!
# What is padded is found again

A block with a zero byte in front is a number below the modulus, so that decryption gives it back. The mask is taken
off by putting it on again. The decoder for SSH-2 expects the 1 byte without zero bytes before it.
-/

namespace PuttyNd.Rsa

open Mpint hiding Fault
open Psftp Memory Outcome Words Lib

variable {u : ℕ} {B : Bignum u} {key : RSAKey u} {h : HashAlg}

/-! ## Blocks -/

/-- Decryption inverts encryption, which gives numbers below the modulus. -/
structure Inverts (B : Bignum u) (key : RSAKey u) : Prop where
  lt (b : MpInt u) : val (B.mpModpow b key.exponent key.modulus) < val key.modulus
  eq (b c : MpInt u) : val b < val key.modulus → val c = val (B.mpModpow b key.exponent key.modulus) →
    val (rsaPrivkeyOp B key c) = val b

@[simp]
theorem length_getBytes (x : MpInt u) (n : ℕ) : (getBytes x n).length = n := by
  unfold getBytes
  rw [List.length_map, List.length_reverse, List.length_range]

theorem getBytes_congr (hu : 3 ≤ u) {x y : MpInt u} (h : val x = val y) (n : ℕ) : getBytes x n = getBytes y n := by
  unfold getBytes
  refine List.map_congr_left fun i _ => UInt8.toNat_inj.mp ?_
  rw [toNat_mpGetByte hu, toNat_mpGetByte hu, h]

theorem keyBytes_eq (hu : 3 ≤ u ∧ u ≤ 6) : key.bytes = (Nat.size (val key.modulus) + 7) / 8 := by
  unfold RSAKey.bytes
  rw [mpGetNbits_eq (by omega)]

/-- A number below the modulus fits the bytes of the key. -/
theorem lt_of_lt_modulus (hu : 3 ≤ u ∧ u ≤ 6) {n : ℕ} (h : n < val key.modulus) : n < 256 ^ key.bytes := by
  have hsize : val key.modulus < 2 ^ Nat.size (val key.modulus) := Nat.lt_size_self _
  rw [keyBytes_eq hu, pow_256]
  calc n < 2 ^ Nat.size (val key.modulus) := h.trans hsize
    _ ≤ 2 ^ (8 * ((Nat.size (val key.modulus) + 7) / 8)) := Nat.pow_le_pow_right Nat.two_pos (by omega)

/-- A block with a zero byte in front is a number below the modulus. -/
theorem block_lt_modulus (hu : 3 ≤ u ∧ u ≤ 6) {rest : List UInt8} (hlen : (0 :: rest).length = key.bytes) :
    val (mpFromBytesBe (u := u) (0 :: rest)) < val key.modulus := by
  rw [keyBytes_eq hu, List.length_cons] at hlen
  rw [val_mpFromBytesBe hu.1, List.length_cons, num_succ]
  have htop : byteAt (0 :: rest) rest.length = 0 := by
    unfold byteAt
    rw [List.length_cons, Nat.add_sub_cancel, Nat.sub_self]
    rfl
  rw [htop, zero_mul, Nat.add_zero]
  calc num 256 (byteAt (0 :: rest)) rest.length < 256 ^ rest.length := num_lt fun i _ => byteAt_lt _ i
    _ = 2 ^ (8 * rest.length) := pow_256 _
    _ ≤ 2 ^ (Nat.size (val key.modulus) - 1) := Nat.pow_le_pow_right Nat.two_pos (by omega)
    _ ≤ val key.modulus := Nat.lt_size.mp (by omega)

/-- A block that was encrypted and sent is decrypted to the same block. -/
theorem decrypt_block (hu : 3 ≤ u ∧ u ≤ 6) (hinv : Inverts B key) {rest : List UInt8}
    (hlen : (0 :: rest).length = key.bytes) :
    getBytes (rsaPrivkeyOp B key (mpFromBytesBe (getBytes
      (B.mpModpow (mpFromBytesBe (0 :: rest)) key.exponent key.modulus) key.bytes))) key.bytes = 0 :: rest := by
  have hsent : val (mpFromBytesBe (u := u) (getBytes
      (B.mpModpow (mpFromBytesBe (0 :: rest)) key.exponent key.modulus) key.bytes)) =
      val (B.mpModpow (mpFromBytesBe (0 :: rest)) key.exponent key.modulus) := by
    rw [val_mpFromBytesBe hu.1, length_getBytes]
    refine (num_bytesOf hu.1).trans (Nat.mod_eq_of_lt ?_)
    exact lt_of_lt_modulus hu (hinv.lt _)
  rw [getBytes_congr hu.1 (hinv.eq _ _ (block_lt_modulus hu hlen) hsent)]
  rw [← hlen]
  exact bytesOf_mpFromBytesBe hu.1 (0 :: rest)

/-! ## SSH-1 -/

/-- No byte of the padding is zero, and the assertion does not fail. -/
theorem paddingBytes_ok {randomBits v : ℕ} (n : ℕ) (hv : v < 2 ^ randomBits) :
    ∃ pad, paddingBytes randomBits n v = .ok pad ∧ pad.length = n ∧ ∀ b ∈ pad, b ≠ 0 := by
  induction n generalizing v with
  | zero => exact ⟨[], rfl, rfl, fun b hb => absurd hb List.not_mem_nil⟩
  | succ n ih =>
    have hdigit : v * 255 / 2 ^ randomBits < 255 := by
      rw [Nat.div_lt_iff_lt_mul (Nat.two_pow_pos _), Nat.mul_comm 255]
      exact Nat.mul_lt_mul_of_pos_right hv (by decide)
    have hbyte : (UInt8.ofNat (v * 255 / 2 ^ randomBits)).toNat = v * 255 / 2 ^ randomBits :=
      UInt8.toNat_ofNat_of_lt' (by
        change _ < 256
        omega)
    have hne : UInt8.ofNat (v * 255 / 2 ^ randomBits) ≠ 255 := by
      rw [Ne, ← UInt8.toNat_inj, hbyte]
      exact hdigit.ne
    obtain ⟨pad, hpad, hlen, hnonzero⟩ := @ih (v * 255 % 2 ^ randomBits) (Nat.mod_lt _ (Nat.two_pow_pos _))
    refine ⟨(UInt8.ofNat (v * 255 / 2 ^ randomBits) + 1) :: pad, ?_, by rw [List.length_cons, hlen], ?_⟩
    · unfold paddingBytes
      dsimp only
      rw [if_pos hne, hpad, ok_bind]
    · intro b hb
      rcases List.mem_cons.mp hb with rfl | hb
      · intro hzero
        have := congrArg UInt8.toNat hzero
        rw [UInt8.toNat_add, hbyte] at this
        change (_ + 1) % 256 = 0 at this
        omega
      · exact hnonzero b hb

theorem getByte_cons (b : UInt8) (rest : List UInt8) : getByte ⟨b :: rest, false⟩ = (b, ⟨rest, false⟩) := rfl

/-- The end of the padding is found. -/
theorem skipPadding_eq {pad data : List UInt8} (hpad : ∀ b ∈ pad, b ≠ 0) {fuel : ℕ} (hfuel : pad.length < fuel) :
    skipPadding fuel ⟨pad ++ 0 :: data, false⟩ = .ok (some ⟨data, false⟩) := by
  induction pad generalizing fuel with
  | nil =>
    obtain ⟨fuel, rfl⟩ := Nat.exists_eq_add_of_lt hfuel
    rfl
  | cons b pad ih =>
    obtain ⟨fuel, rfl⟩ : ∃ n, fuel = n + 1 := ⟨fuel - 1, by omega⟩
    rw [List.length_cons] at hfuel
    unfold skipPadding
    rw [List.cons_append, getByte_cons]
    dsimp only
    rw [if_neg Bool.false_ne_true, if_neg (hpad b List.mem_cons_self)]
    exact ih (fun c hc => hpad c (List.mem_cons_of_mem b hc)) (by omega)

/-- What `rsa_ssh1_encrypt` makes of data is decrypted to exactly the data. -/
theorem ssh1_roundTrip (hu : 3 ≤ u ∧ u ≤ 6) (hinv : Inverts B key) {data : List UInt8}
    (hdata : data.length + 4 ≤ key.bytes) (random : ℕ) : ∃ c, rsaSsh1Encrypt B key data random = .ok (some c) ∧
      rsaSsh1DecryptPkcs1 B key (mpFromBytesBe c) = .ok (some data) := by
  obtain ⟨pad, hpad, hlen, hnonzero⟩ := paddingBytes_ok (key.bytes - data.length - 3)
    (Nat.mod_lt random (Nat.two_pow_pos ((key.bytes - data.length - 3 + 16) * 8)))
  have hblock : ([0, 2] ++ pad ++ [0] ++ data : List UInt8) = 0 :: (2 :: (pad ++ 0 :: data)) := by
    simp
  have hlength : (0 :: (2 :: (pad ++ 0 :: data)) : List UInt8).length = key.bytes := by
    rw [List.length_cons, List.length_cons, List.length_append, List.length_cons, hlen]
    omega
  refine ⟨getBytes (B.mpModpow (mpFromBytesBe (0 :: (2 :: (pad ++ 0 :: data)))) key.exponent key.modulus)
    key.bytes, ?_, ?_⟩
  · unfold rsaSsh1Encrypt
    rw [if_neg (by omega)]
    dsimp only
    rw [hpad, ok_bind, hblock]
  · unfold rsaSsh1DecryptPkcs1
    have hbytes : (mpGetNbits key.modulus + 7) / 8 = key.bytes := rfl
    dsimp only
    rw [hbytes, decrypt_block hu hinv hlength, getByte_cons]
    dsimp only
    rw [if_neg (fun h => h rfl), getByte_cons]
    dsimp only
    rw [if_neg (fun h => h rfl), skipPadding_eq hnonzero, ok_bind]
    · rfl
    · rw [hlength]
      omega

/-! ## The mask -/

theorem zipWith_xor (a m : List UInt8) (h : a.length ≤ m.length) :
    List.zipWith (· ^^^ ·) (List.zipWith (· ^^^ ·) a m) m = a := by
  induction a generalizing m with
  | nil => rfl
  | cons x a ih =>
    cases m with
    | nil => exact absurd h (by simp)
    | cons y m =>
      rw [List.zipWith_cons_cons, List.zipWith_cons_cons, ih m (Nat.le_of_succ_le_succ h), UInt8.xor_assoc,
        UInt8.xor_self, UInt8.xor_zero]

/-- The mask is put on, and the same mask takes it off. -/
theorem oaepMaskLoop_ok (h : HashAlg) (seed : List UInt8) {fuel : ℕ} (count : UInt32) {data : List UInt8}
    (hfuel : data.length ≤ fuel) : ∃ r, oaepMaskLoop h seed fuel count data = .ok r ∧ r.length = data.length ∧
      oaepMaskLoop h seed fuel count r = .ok data := by
  have hstop : ∀ fuel count, oaepMaskLoop h seed fuel count [] = .ok [] := by
    intro fuel count
    cases fuel <;> rfl
  induction fuel generalizing count data with
  | zero =>
    have hnil : data = [] := List.length_eq_zero_iff.mp (Nat.le_zero.mp hfuel)
    rw [hnil]
    exact ⟨[], hstop 0 count, rfl, hstop 0 count⟩
  | succ fuel ih =>
    by_cases hnil : data = []
    · rw [hnil]
      exact ⟨[], hstop _ count, rfl, hstop _ count⟩
    have hpos := List.length_pos_iff.mpr hnil
    have hhlen := h.pos
    have hhash : (h.hash (seed ++ putUint32 count)).length = h.hlen := h.length_hash _
    have hstep : ∀ d : List UInt8, d.length = data.length → oaepMaskLoop h seed (fuel + 1) count d =
        oaepMaskLoop h seed fuel (count + 1) (d.drop (min data.length h.hlen)) >>= fun rest =>
          .ok (List.zipWith (· ^^^ ·) (d.take (min data.length h.hlen)) (h.hash (seed ++ putUint32 count)) ++
            rest) := by
      intro d hd
      have hne : d ≠ [] := by
        rintro rfl
        rw [List.length_nil] at hd
        omega
      conv_lhs => unfold oaepMaskLoop
      rw [if_neg hne, hd]
    obtain ⟨r, hr, hlen, hback⟩ := @ih (count + 1) (data.drop (min data.length h.hlen)) (by
      rw [List.length_drop]
      omega)
    rw [List.length_drop] at hlen
    have hchunk : (List.zipWith (· ^^^ ·) (data.take (min data.length h.hlen))
        (h.hash (seed ++ putUint32 count))).length = min data.length h.hlen := by
      rw [List.length_zipWith, List.length_take, hhash]
      omega
    refine ⟨List.zipWith (· ^^^ ·) (data.take (min data.length h.hlen)) (h.hash (seed ++ putUint32 count)) ++ r,
      ?_, ?_, ?_⟩
    · rw [hstep data rfl, hr, ok_bind]
    · rw [List.length_append, hchunk]
      omega
    · rw [hstep _ (by rw [List.length_append, hchunk]; omega), List.drop_left' hchunk, List.take_left' hchunk,
        hback, ok_bind, zipWith_xor _ _ (by rw [List.length_take, hhash]; omega), List.take_append_drop]

theorem oaepMask_ok (h : HashAlg) (seed data : List UInt8) : ∃ r, oaepMask h seed data = .ok r ∧
    r.length = data.length ∧ oaepMask h seed r = .ok data := by
  obtain ⟨r, hr, hlen, hback⟩ := oaepMaskLoop_ok h seed 0 (Nat.le_refl data.length)
  refine ⟨r, hr, hlen, ?_⟩
  unfold oaepMask
  rw [hlen]
  exact hback

/-! ## SSH-2 -/

/-- The encoding of a number: not negative, with no byte more than it needs -/
def IsMpint (m : List UInt8) (x : ℕ) : Prop :=
  ∃ bytes : List UInt8, m = putUint32 (UInt32.ofNat bytes.length) ++ bytes ∧ bytes.length < 2 ^ 32 ∧
    ¬Refused bytes ∧ num 256 (byteAt bytes) bytes.length = x

theorem IsMpint.getMpSsh2 (hu : 3 ≤ u) {m : List UInt8} {x : ℕ} (hm : IsMpint m x) :
    ∃ y : MpInt u, Mpint.getMpSsh2 ⟨m, false⟩ = (y, ⟨[], false⟩) ∧ val y = x := by
  obtain ⟨bytes, rfl, hlen, hnot, rfl⟩ := hm
  refine ⟨mpFromBytesBe bytes, ?_, val_mpFromBytesBe hu bytes⟩
  rw [getMpSsh2_eq]
  refine ⟨bytes, ?_, hnot, rfl⟩
  have hget := @getString_put (UInt32.ofNat bytes.length) bytes [] (UInt32.toNat_ofNat_of_lt' hlen).symm
  rwa [List.append_nil] at hget

/-- The decoder takes the masks off, and is left with the padding and the message. -/
theorem rsakex_spec (hu : 3 ≤ u ∧ u ≤ 6) (hinv : Inverts B key) (h : HashAlg) {seed m : List UInt8}
    (hseed : seed.length = h.hlen) (hm : 0 < m.length) (hlen : m.length + 2 * h.hlen + 2 ≤ key.bytes) :
    ∃ c, sshRsakexEncrypt B key h seed m = .ok c ∧ sshRsakexDecrypt B key h c =
      match expectOne (List.replicate (key.bytes - 2 * h.hlen - 2 - m.length) 0 ++ [1] ++ m) with
      | none => .ok none
      | some message =>
        let (b1, src) := getMpSsh2 ⟨message, false⟩
        if src.err ∨ src.data.length ≠ 0 then .ok none else .ok (some b1) := by
  have hlabel : (h.hash []).length = h.hlen := h.length_hash []
  have hk : (7 + mpGetNbits key.modulus) / 8 = key.bytes := by
    unfold RSAKey.bytes
    rw [Nat.add_comm]
  generalize hdb : h.hash [] ++ List.replicate (key.bytes - 2 * h.hlen - 2 - m.length) 0 ++ [1] ++ m = db
  have hdblen : db.length = key.bytes - h.hlen - 1 := by
    rw [← hdb, List.length_append, List.length_append, List.length_append, hlabel, List.length_replicate,
      List.length_singleton]
    omega
  obtain ⟨maskedDb, hmask, hmasklen, hunmask⟩ := oaepMask_ok h seed db
  obtain ⟨maskedSeed, hmask', hmasklen', hunmask'⟩ := oaepMask_ok h maskedDb seed
  have hlength : (0 :: (maskedSeed ++ maskedDb)).length = key.bytes := by
    rw [List.length_cons, List.length_append, hmasklen, hmasklen', hdblen, hseed]
    omega
  refine ⟨getBytes (B.mpModpow (mpFromBytesBe (0 :: (maskedSeed ++ maskedDb))) key.exponent key.modulus) key.bytes,
    ?_, ?_⟩
  · unfold sshRsakexEncrypt
    dsimp only
    rw [hk, if_pos ⟨hm, by omega⟩, hdb, hmask, ok_bind, hmask', ok_bind]
    rfl
  · unfold sshRsakexDecrypt
    dsimp only
    rw [hk, if_neg (by rw [length_getBytes]; exact fun h => h rfl), decrypt_block hu hinv hlength]
    have hdropSeed : ((0 :: (maskedSeed ++ maskedDb)).drop 1).take h.hlen = maskedSeed := by
      rw [List.drop_one, List.tail_cons, List.take_left' (hmasklen'.trans hseed)]
    have hdropDb : (0 :: (maskedSeed ++ maskedDb)).drop (h.hlen + 1) = maskedDb := by
      rw [List.drop_succ_cons, List.drop_left' (hmasklen'.trans hseed)]
    have htake : db.take h.hlen = h.hash [] := by
      rw [← hdb, List.append_assoc, List.append_assoc, List.take_left' hlabel]
    have hdrop : db.drop h.hlen = List.replicate (key.bytes - 2 * h.hlen - 2 - m.length) 0 ++ [1] ++ m := by
      rw [← hdb, List.append_assoc, List.append_assoc, List.drop_left' hlabel, List.append_assoc]
    rw [← hdrop, hdropSeed, hdropDb, hunmask', ok_bind, hunmask, ok_bind, if_neg (fun h => h rfl)]
    cases hfound : expectOne (db.drop h.hlen) with
    | none => exact if_neg fun h => h htake
    | some message => exact if_neg fun h => h htake

/-- The message is found only where no zero byte comes before it. -/
theorem expectOne_eq (n : ℕ) (m : List UInt8) :
    expectOne (List.replicate n 0 ++ [1] ++ m) = if n = 0 then some m else none := by
  cases n with
  | zero => rfl
  | succ n => rfl

/-- For every key, hash function and outcome of the random source, SSH-1 data are found again; and a message of
SSH-2 is found again if and only if it is as long as the key allows. -/
theorem padding_iff (hu : u = 5 ∨ u = 6) (hinv : Inverts B key) (h : HashAlg) {seed m : List UInt8} {x : ℕ}
    (hseed : seed.length = h.hlen) (hm : IsMpint m x) (hlen : m.length + 2 * h.hlen + 2 ≤ key.bytes)
    {data : List UInt8} (hdata : data.length + 4 ≤ key.bytes) (random : ℕ) :
    ((∃ c y, sshRsakexEncrypt B key h seed m = .ok c ∧ sshRsakexDecrypt B key h c = .ok (some y) ∧ val y = x) ∧
      ∃ c, rsaSsh1Encrypt B key data random = .ok (some c) ∧
        rsaSsh1DecryptPkcs1 B key (mpFromBytesBe c) = .ok (some data)) ↔
    m.length = key.bytes - 2 * h.hlen - 2 := by
  have hu' : 3 ≤ u ∧ u ≤ 6 := by omega
  have hpos : 0 < m.length := by
    obtain ⟨bytes, rfl, -⟩ := hm
    rw [List.length_append]
    exact Nat.add_pos_left (Nat.succ_pos 3) _
  obtain ⟨c, henc, hdec⟩ := rsakex_spec hu' hinv h hseed hpos hlen
  rw [expectOne_eq] at hdec
  constructor
  · rintro ⟨⟨c', y, henc', hdec', -⟩, -⟩
    rw [henc] at henc'
    cases henc'
    by_contra hne
    rw [if_neg (by omega), hdec'] at hdec
    cases hdec
  · intro hmax
    refine ⟨?_, ssh1_roundTrip hu' hinv hdata random⟩
    obtain ⟨y, hy, hval⟩ := hm.getMpSsh2 hu'.1
    refine ⟨c, y, henc, ?_, hval⟩
    rw [hdec, if_pos (by omega)]
    dsimp only
    rw [hy]
    exact if_neg (by simp)

/-! ## A small key -/

/-- The words of a number -/
def wordsOf (n x : ℕ) : MpInt u := (List.range n).map fun i => BitVec.ofNat _ (x / (2 ^ BIGNUM_INT_BITS u) ^ i)

theorem val_wordsOf (n x : ℕ) : val (wordsOf (u := u) n x) = x % (2 ^ BIGNUM_INT_BITS u) ^ n := by
  unfold wordsOf
  rw [val_map_range, ← num_digits]
  exact num_congr fun i _ => BitVec.toNat_ofNat _ _

/-- Exponentiation as it is defined, without the Chinese remainder theorem -/
def plainBignum : Bignum u where
  mpModpow base exponent modulus := wordsOf modulus.length (val base ^ val exponent % val modulus)
  crtModpow base exp mod _ _ _ := wordsOf mod.length (val base ^ val exp % val mod)

theorem val_mpModpow {modulus : MpInt u} (base exponent : MpInt u) (h : 0 < val modulus) :
    val (plainBignum.mpModpow base exponent modulus) = val base ^ val exponent % val modulus := by
  unfold plainBignum
  rw [val_wordsOf, Nat.mod_eq_of_lt]
  calc val base ^ val exponent % val modulus < val modulus := Nat.mod_lt _ h
    _ < 2 ^ (BIGNUM_INT_BITS u * modulus.length) := val_lt
    _ = (2 ^ BIGNUM_INT_BITS u) ^ modulus.length := pow_mul _ _ _

/-- A key of nine bytes whose exponents are 1 -/
def smallKey : RSAKey 5 := ⟨[0, 0, 128], [1], [1], [], [], []⟩

theorem smallKey_inverts : Inverts plainBignum smallKey := by
  have hmod : val smallKey.modulus = 2 ^ 71 := by decide
  have hone : val smallKey.exponent = 1 := by decide
  have hpos : 0 < val smallKey.modulus := by
    rw [hmod]
    exact Nat.two_pow_pos 71
  constructor
  · intro b
    rw [val_mpModpow _ _ hpos]
    exact Nat.mod_lt _ hpos
  · intro b c hb hc
    rw [val_mpModpow _ _ hpos, hone, pow_one, Nat.mod_eq_of_lt hb] at hc
    have hpriv : val (rsaPrivkeyOp plainBignum smallKey c) = val c ^ val smallKey.exponent % val smallKey.modulus :=
      val_mpModpow c smallKey.exponent hpos
    rw [hpriv, hone, pow_one, hc, Nat.mod_eq_of_lt hb]

/-- A hash of one byte -/
def smallHash : HashAlg where
  hlen := 1
  hash data := [data.foldl (· + ·) 0]
  length_hash _ := rfl
  pos := Nat.one_pos
  le := by decide

/-- The encoding of one is as long as the key allows. -/
theorem padding_one : (∃ c y, sshRsakexEncrypt plainBignum smallKey smallHash [7] [0, 0, 0, 1, 1] = .ok c ∧
      sshRsakexDecrypt plainBignum smallKey smallHash c = .ok (some y) ∧ val y = 1) ∧
    ∃ c, rsaSsh1Encrypt plainBignum smallKey [1, 2] 5 = .ok (some c) ∧
      rsaSsh1DecryptPkcs1 plainBignum smallKey (mpFromBytesBe c) = .ok (some [1, 2]) := by
  have hm : IsMpint [0, 0, 0, 1, 1] 1 := ⟨[1], by decide, by decide, by
    unfold Refused
    decide, by decide⟩
  exact (padding_iff (.inl rfl) smallKey_inverts smallHash rfl hm (by decide) (by decide) 5).mpr (by decide)

/-- That of zero is shorter by a byte, and is refused. -/
theorem rsakex_zero : IsMpint [0, 0, 0, 0] 0 ∧ Inverts plainBignum smallKey ∧
    ∃ c, sshRsakexEncrypt plainBignum smallKey smallHash [7] [0, 0, 0, 0] = .ok c ∧
      sshRsakexDecrypt plainBignum smallKey smallHash c = .ok none := by
  have hm : IsMpint [0, 0, 0, 0] 0 := ⟨[], by decide, by decide, by
    unfold Refused
    decide, rfl⟩
  obtain ⟨c, henc, hdec⟩ := @rsakex_spec 5 plainBignum smallKey (by omega) smallKey_inverts smallHash [7]
    [0, 0, 0, 0] rfl (by decide) (by decide)
  exact ⟨hm, smallKey_inverts, c, henc, hdec⟩

end PuttyNd.Rsa
