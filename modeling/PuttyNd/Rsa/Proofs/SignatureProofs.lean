import Mathlib.NumberTheory.LucasLehmer
import Mathlib.Tactic.NormNum.Prime
import PuttyNd.Rsa.Proofs.KeyBlobProofs

/-!
# Proofs for RSA signatures (`psftp/sshrsa.c`)

A signature is accepted if its power modulo the modulus is the number of the block. The private operation is the
inverse of that power, so that there is one residue whose signatures are accepted.
-/

namespace PuttyNd.Rsa

open Mpint Words Outcome PrimePowers Psftp

variable {u : ℕ} {H : Hashes} {key : RSAKey u}

/-! ## Numbers and bytes -/

/-- The number that bytes stand for, the highest first -/
def number (bytes : List UInt8) : ℕ := num 256 (byteAt bytes) bytes.length

theorem number_getBytes (hu : 3 ≤ u) {x : MpInt u} {n : ℕ} (hx : val x < 256 ^ n) : number (getBytes x n) = val x := by
  unfold number
  rw [length_getBytes]
  exact (num_bytesOf hu).trans (Nat.mod_eq_of_lt hx)

/-- Bytes are those of a number if they stand for it. -/
theorem getBytes_eq_iff (hu : 3 ≤ u) {x : MpInt u} {bytes : List UInt8} (hx : val x < 256 ^ bytes.length) :
    getBytes x bytes.length = bytes ↔ val x = number bytes := by
  constructor
  · intro h
    rw [← number_getBytes hu hx, h]
  · intro h
    have hval : val (mpFromBytesBe (u := u) bytes) = val x := by rw [h, val_mpFromBytesBe hu, number]
    rw [← getBytes_congr hu hval]
    exact bytesOf_mpFromBytesBe hu bytes

theorem foldl_or_eq_zero (f : ℕ → UInt8) (l : List ℕ) (acc : UInt8) :
    l.foldl (fun diff i => diff ||| f i) acc = 0 ↔ acc = 0 ∧ ∀ i ∈ l, f i = 0 := by
  induction l generalizing acc with
  | nil => simp
  | cons i l ih => rw [List.foldl_cons, ih, UInt8.or_eq_zero_iff, List.forall_mem_cons, and_assoc]

/-- The comparison of all bytes -/
theorem diff_eq_zero (hu : 3 ≤ u) {out : MpInt u} {bytes : List UInt8} (hout : val out < 256 ^ bytes.length) :
    (List.range bytes.length).foldl
        (fun diff i => diff ||| (bytes.getD (bytes.length - 1 - i) 0 ^^^ mpGetByte out i)) 0 = 0 ↔
      val out = number bytes := by
  rw [foldl_or_eq_zero, ← getBytes_eq_iff hu hout]
  have hbyte : ∀ j < bytes.length, (getBytes out bytes.length)[j]? = some (mpGetByte out (bytes.length - 1 - j)) := by
    intro j hj
    unfold getBytes
    rw [List.getElem?_map, List.getElem?_reverse (by rwa [List.length_range]), List.length_range,
      List.getElem?_range (by omega)]
    rfl
  constructor
  · rintro ⟨-, h⟩
    refine List.ext_getElem? fun j => ?_
    rcases Nat.lt_or_ge j bytes.length with hj | hj
    · have hxor := h (bytes.length - 1 - j) (List.mem_range.mpr (by omega))
      rw [show bytes.length - 1 - (bytes.length - 1 - j) = j by omega] at hxor
      rw [hbyte j hj, ← UInt8.xor_eq_zero_iff.mp hxor, List.getD_eq_getElem _ _ hj, List.getElem?_eq_getElem hj]
    · rw [List.getElem?_eq_none (by rwa [length_getBytes]), List.getElem?_eq_none hj]
  · intro h
    refine ⟨rfl, fun i hi => ?_⟩
    have hi := List.mem_range.mp hi
    have hj := hbyte (bytes.length - 1 - i) (by omega)
    rw [h, show bytes.length - 1 - (bytes.length - 1 - i) = i by omega] at hj
    rw [UInt8.xor_eq_zero_iff, List.getD_eq_getElem?_getD, hj]
    rfl

/-! ## Blocks -/

/-- The block that is signed, of `nbytes` bytes -/
def block (H : Hashes) (nbytes : ℕ) (halg : RsaHash) (data : List UInt8) : List UInt8 :=
  0 :: 1 :: (List.replicate (nbytes - rsaPkcs1LengthOfFixedParts halg) 0xFF ++ rsaPkcs1PrefixForHash halg ++
    H.hash halg data)

section Block

variable {nbytes : ℕ} {halg : RsaHash} (data : List UInt8)

theorem signatureString_ok (h : rsaPkcs1LengthOfFixedParts halg ≤ nbytes) :
    rsaPkcs1SignatureString H nbytes halg data = .ok (block H nbytes halg data) := by
  rw [rsaPkcs1SignatureString, check, if_pos h]
  rfl

theorem length_block (h : rsaPkcs1LengthOfFixedParts halg ≤ nbytes) : (block H nbytes halg data).length = nbytes := by
  unfold block
  rw [List.length_cons, List.length_cons, List.length_append, List.length_append, List.length_replicate,
    H.length_hash]
  unfold rsaPkcs1LengthOfFixedParts at h ⊢
  omega

theorem number_block_lt (hu : 3 ≤ u ∧ u ≤ 6) (h : rsaPkcs1LengthOfFixedParts halg ≤ key.bytes) :
    number (block H key.bytes halg data) < val key.modulus := by
  have hlt := block_lt_modulus hu (length_block (H := H) data h)
  rwa [val_mpFromBytesBe hu.1] at hlt

end Block

/-! ## Signatures -/

/-- The string is a signature that holds the bytes `m` -/
def Holds (sig m : List UInt8) : Prop :=
  m.length < 2 ^ 32 ∧ ∃ rest, sig = putStringz sshRsaName ++ (putStringz m ++ rest)

/-- What is read of a signature: the bytes that it holds, if it is one at all -/
theorem reads_signature (sig : List UInt8) :
    (∃ m src, getString (getString ⟨sig, false⟩).2 = (m, src) ∧
        ¬(src.err = true ∨ (getString ⟨sig, false⟩).1 ≠ sshRsaName) ∧ ∀ m', Holds sig m' ↔ m' = m) ∨
      (((getString (getString ⟨sig, false⟩).2).2.err = true ∨ (getString ⟨sig, false⟩).1 ≠ sshRsaName) ∧
        ∀ m', ¬Holds sig m') := by
  have hholds : ∀ m', Holds sig m' → (getString ⟨sig, false⟩).1 = sshRsaName ∧
      ∃ rest, getString (getString ⟨sig, false⟩).2 = (m', ⟨rest, false⟩) := by
    rintro m' ⟨hlen, rest, rfl⟩
    rw [getString_putStringz _ (by decide)]
    exact ⟨rfl, rest, getString_putStringz rest hlen⟩
  rcases hget : getString ⟨sig, false⟩ with ⟨type, src⟩
  rcases hget' : getString src with ⟨m, rest, err⟩
  rw [hget] at hholds
  dsimp only at hholds ⊢
  rw [hget'] at hholds
  by_cases hbad : err = true ∨ type ≠ sshRsaName
  · refine .inr ⟨hbad, fun m' hm' => ?_⟩
    obtain ⟨htype, rest', hrest⟩ := hholds m' hm'
    rcases hbad with herr | hne
    · rw [herr] at hrest
      exact (nomatch hrest)
    · exact hne htype
  · refine .inl ⟨m, ⟨rest, err⟩, rfl, hbad, fun m' => ?_⟩
    obtain ⟨herr, htype⟩ := not_or.mp hbad
    have herr : err = false := Bool.eq_false_iff.mpr herr
    have htype : type = sshRsaName := not_not.mp htype
    subst herr htype
    constructor
    · intro hm'
      obtain ⟨-, rest', hrest⟩ := hholds m' hm'
      exact (Prod.mk.inj hrest).1.symm
    · rintro rfl
      rcases src with ⟨data, err⟩
      cases err with
      | true =>
        have herr := @getString_err ⟨data, true⟩ rfl
        rw [hget'] at herr
        exact (nomatch herr)
      | false =>
        obtain ⟨rfl, -⟩ := eq_putStringz hget
        obtain ⟨rfl, hlen⟩ := eq_putStringz hget'
        exact ⟨hlen, rest, rfl⟩

/-! ## Verification -/

/-- For a key with an odd modulus, the answer is right for every string. -/
theorem rsa2Verify_spec (hu : u = 5 ∨ u = 6) (hodd : val key.modulus % 2 = 1) (sig data : List UInt8) :
    ∃ b, rsa2Verify H key sig data = .ok b ∧ (b = true ↔ rsaPkcs1LengthOfFixedParts .sha1 ≤ key.bytes ∧
      ∃ m, Holds sig m ∧ number m ^ val key.exponent % val key.modulus = number (block H key.bytes .sha1 data)) := by
  have hu' : 3 ≤ u ∧ u ≤ 6 := by omega
  have halg : (rsa2HashAlgForFlags 0).1 = .sha1 := by decide
  unfold rsa2Verify
  dsimp only
  rw [halg, show (mpGetNbits key.modulus + 7) / 8 = key.bytes from rfl]
  by_cases hlen : rsaPkcs1LengthOfFixedParts .sha1 ≤ key.bytes
  · rw [if_neg (Nat.not_lt.mpr hlen)]
    rcases reads_signature sig with ⟨m, src, hget, hgood, hholds⟩ | ⟨hbad, hnone⟩
    · rw [hget, if_neg hgood]
      dsimp only
      obtain ⟨out, hout, hval⟩ := mpModpow_ok hu hodd (mpFromBytesBe_ne_nil m) key.exponent
      have hlt : val out < val key.modulus := hval.2 ▸ Nat.mod_lt _ (by omega)
      have hdiff := @diff_eq_zero u hu'.1 out (block H key.bytes .sha1 data)
        (by rw [length_block data hlen]; exact lt_of_lt_modulus hu' hlt)
      rw [length_block data hlen] at hdiff
      rw [hout, ok_bind]
      rw [signatureString_ok data hlen, ok_bind]
      refine ⟨_, rfl, ?_⟩
      rw [decide_eq_true_iff]
      refine hdiff.trans ?_
      rw [hval.2, val_mpFromBytesBe hu'.1]
      constructor
      · exact fun h => ⟨hlen, m, (hholds m).mpr rfl, h⟩
      · rintro ⟨-, m', hm', h⟩
        rwa [(hholds m').mp hm'] at h
    · rw [if_pos hbad]
      exact ⟨false, rfl, iff_of_false Bool.false_ne_true fun ⟨_, m, hm, _⟩ => hnone m hm⟩
  · rw [if_pos (Nat.lt_of_not_le hlen)]
    exact ⟨false, rfl, iff_of_false Bool.false_ne_true fun h => hlen h.1⟩

/-! ## Signing -/

theorem length_of_valid {flags : UInt32} (h : rsa2Invalid key flags = none) :
    rsaPkcs1LengthOfFixedParts (rsa2HashAlgForFlags flags).1 ≤ key.bytes := by
  by_contra hshort
  unfold rsa2Invalid at h
  dsimp only at h
  rw [show (mpGetNbits key.modulus + 7) / 8 = key.bytes from rfl, if_pos (Nat.lt_of_not_le hshort)] at h
  exact (nomatch h)

/-- A signature holds the power of the block. -/
theorem rsa2Sign_spec (hu : u = 5 ∨ u = 6) (h : PrimeKey key) {flags : UInt32} (hvalid : rsa2Invalid key flags = none)
    (data : List UInt8) : ∃ m, rsa2Sign H key data flags =
        .ok (putStringz (rsa2HashAlgForFlags flags).2 ++ putStringz m) ∧ m.length ≤ key.bytes ∧
      number m = number (block H key.bytes (rsa2HashAlgForFlags flags).1 data) ^ val key.privateExponent %
        val key.modulus := by
  have hu' : 3 ≤ u ∧ u ≤ 6 := by omega
  have hlen := length_of_valid hvalid
  obtain ⟨out, hout, -, hval⟩ := h.privkeyOp_spec hu
    (mpFromBytesBe_ne_nil (block H key.bytes (rsa2HashAlgForFlags flags).1 data))
  rw [val_mpFromBytesBe hu'.1, ← number] at hval
  have hlt : val out < val key.modulus := hval ▸ Nat.mod_lt _ (by have := h.odd_modulus; omega)
  have hsize : (Nat.size (val out) + 7) / 8 ≤ key.bytes := by
    have hle := Nat.size_le_size hlt.le
    rw [keyBytes_eq hu']
    omega
  have hfits : val out < 256 ^ ((Nat.size (val out) + 7) / 8) := by
    rw [pow_256]
    exact lt_of_lt_of_le (Nat.lt_size_self _) (Nat.pow_le_pow_right Nat.two_pos (by omega))
  refine ⟨getBytes out ((Nat.size (val out) + 7) / 8), ?_, ?_, ?_⟩
  · unfold rsa2Sign
    dsimp only
    rw [show (mpGetNbits key.modulus + 7) / 8 = key.bytes from rfl, signatureString_ok data hlen, ok_bind, hout,
      ok_bind, mpGetNbits_eq (by omega), List.append_assoc]
    unfold putStringz
    rw [length_getBytes]
    rfl
  · rwa [length_getBytes]
  · rw [number_getBytes hu'.1 hfits, hval]

/-- The name of the algorithm says which hash it is, and it is short. -/
theorem hashAlg_name (flags : UInt32) : (rsa2HashAlgForFlags flags).2.length < 2 ^ 32 ∧
    ((rsa2HashAlgForFlags flags).1 = .sha1 ↔ (rsa2HashAlgForFlags flags).2 = sshRsaName) := by
  unfold rsa2HashAlgForFlags
  split_ifs <;> decide

/-- A key that was loaded signs every text that it is long enough for. With the hash that signatures are verified
with, the public key accepts that signature, and beside it only strings of the same number modulo the modulus; with the
other ones, it does not. -/
theorem rsa2Sign_verify (hu : u = 5 ∨ u = 6) {pub priv : List UInt8} (hload : rsa2NewPriv pub priv = .ok (some key))
    (hp : (val key.p).Prime) (hq : (val key.q).Prime) (hne : val key.p ≠ val key.q) {flags : UInt32}
    (hvalid : rsa2Invalid key flags = none) (data : List UInt8) :
    ∃ (pkey : RSAKey u) (m : List UInt8), rsa2NewPub pub = some pkey ∧
      rsa2Sign H key data flags = .ok (putStringz (rsa2HashAlgForFlags flags).2 ++ putStringz m) ∧
      ((rsa2HashAlgForFlags flags).1 = .sha1 →
        rsa2Verify H pkey (putStringz (rsa2HashAlgForFlags flags).2 ++ putStringz m) data = .ok true ∧
        ∀ sig, ∃ b, rsa2Verify H pkey sig data = .ok b ∧
          (b = true ↔ ∃ m', Holds sig m' ∧ number m' % val key.modulus = number m)) ∧
      ((rsa2HashAlgForFlags flags).1 ≠ .sha1 →
        rsa2Verify H pkey (putStringz (rsa2HashAlgForFlags flags).2 ++ putStringz m) data = .ok false) := by
  have hu' : 3 ≤ u ∧ u ≤ 6 := by omega
  obtain ⟨pkey, read, hpub, hmod, hexp, hread, hverify⟩ := rsa2NewPriv_inv hu'.1 hload
  have hcop := (Nat.coprime_primes hp hq).mpr hne
  have hsound := hread.sound hu hverify hcop
  have hprime := hsound.primeKey hp hq hne
  obtain ⟨hmod', hexp'⟩ : key.modulus = pkey.modulus ∧ key.exponent = pkey.exponent := by
    obtain ⟨r, hr, -, hverified⟩ := rsaVerify_spec hu hread.p.1 hread.q.1 hread.exponent.1
    rw [hverify] at hr
    cases hr
    have hkey := hverified rfl
    exact ⟨hkey.modulus.trans hmod, hkey.exponent.trans hexp⟩
  have hbytes : pkey.bytes = key.bytes := by rw [RSAKey.bytes, RSAKey.bytes, hmod']
  obtain ⟨m, hsign, hlen, hm⟩ := rsa2Sign_spec (H := H) hu hprime hvalid data
  obtain ⟨hshort, hname⟩ := hashAlg_name flags
  refine ⟨pkey, m, hpub, hsign, fun hsha1 => ?_, fun hother => ?_⟩
  swap
  · obtain ⟨b, hb, hiff⟩ := rsa2Verify_spec (H := H) hu (hmod' ▸ hprime.odd_modulus)
      (putStringz (rsa2HashAlgForFlags flags).2 ++ putStringz m) data
    rw [hb]
    cases b with
    | false => rfl
    | true =>
      obtain ⟨-, m', ⟨-, rest, hsig⟩, -⟩ := hiff.mp rfl
      have hget := getString_putStringz (putStringz m) hshort
      rw [hsig, getString_putStringz _ (by decide)] at hget
      exact absurd (hname.mpr (Prod.mk.inj hget).1.symm) hother
  have hfixed : rsaPkcs1LengthOfFixedParts .sha1 ≤ key.bytes := hsha1 ▸ length_of_valid hvalid
  have hblock := number_block_lt (H := H) data hu' hfixed
  rw [hsha1] at hm
  -- the power with the public exponent is that of one residue only
  have hresidue : ∀ x, x ^ val key.exponent % val key.modulus = number (block H key.bytes .sha1 data) ↔
      x % val key.modulus = number m := by
    intro x
    constructor
    · intro h
      rw [hm, ← h]
      exact (hprime.power_power x).2.symm
    · intro h
      rw [Nat.pow_mod, h, hm, (hprime.power_power _).1, Nat.mod_eq_of_lt hblock]
  have hall : ∀ sig, ∃ b, rsa2Verify H pkey sig data = .ok b ∧
      (b = true ↔ ∃ m', Holds sig m' ∧ number m' % val key.modulus = number m) := by
    intro sig
    obtain ⟨b, hb, hiff⟩ := rsa2Verify_spec (H := H) hu (hmod' ▸ hprime.odd_modulus) sig data
    refine ⟨b, hb, ?_⟩
    rw [hiff, hbytes, ← hmod', ← hexp', and_iff_right hfixed]
    simp only [hresidue]
  refine ⟨?_, hall⟩
  have hfits : m.length < 2 ^ 32 := by
    have hsize := hsound.fits_modulus
    unfold Fits at hsize
    rw [keyBytes_eq hu'] at hlen
    omega
  obtain ⟨b, hb, hiff⟩ := hall (putStringz (rsa2HashAlgForFlags flags).2 ++ putStringz m)
  rw [hb, hiff.mpr ⟨m, ⟨hfits, [], by rw [hname.mp hsha1, List.append_nil]⟩, ?_⟩]
  rw [hm, Nat.mod_mod]

/-- The hashes of the empty text -/
def emptyHashes : Hashes where
  hash
    | .sha1, _ =>
      [0xda, 0x39, 0xa3, 0xee, 0x5e, 0x6b, 0x4b, 0x0d, 0x32, 0x55, 0xbf, 0xef, 0x95, 0x60, 0x18, 0x90, 0xaf, 0xd8,
        0x07, 0x09]
    | .sha256, _ =>
      [0xe3, 0xb0, 0xc4, 0x42, 0x98, 0xfc, 0x1c, 0x14, 0x9a, 0xfb, 0xf4, 0xc8, 0x99, 0x6f, 0xb9, 0x24, 0x27, 0xae,
        0x41, 0xe4, 0x64, 0x9b, 0x93, 0x4c, 0xa4, 0x95, 0x99, 0x1b, 0x78, 0x52, 0xb8, 0x55]
    | .sha512, _ =>
      [0xcf, 0x83, 0xe1, 0x35, 0x7e, 0xef, 0xb8, 0xbd, 0xf1, 0x54, 0x28, 0x50, 0xd6, 0x6d, 0x80, 0x07, 0xd6, 0x20,
        0xe4, 0x05, 0x0b, 0x57, 0x15, 0xdc, 0x83, 0xf4, 0xa9, 0x21, 0xd3, 0x6c, 0xe9, 0xce, 0x47, 0xd0, 0xd1, 0x3c,
        0x5d, 0x85, 0xf2, 0xb0, 0xff, 0x83, 0x18, 0xd2, 0x87, 0x7e, 0xec, 0x2f, 0x63, 0xb9, 0x31, 0xbd, 0x47, 0x41,
        0x7a, 0x81, 0xa5, 0x38, 0x32, 0x7a, 0xf9, 0x27, 0xda, 0x3e]
  length_hash halg _ := by cases halg <;> rfl

/-- The private exponent for the primes `2 ^ 521 - 1` and `2 ^ 13 - 1` and the public exponent 65537 -/
def mersenneExponent : ℕ :=
  0x11980807f7f80807f7f80807f7f80807f7f80807f7f80807f7f80807f7f80807f7f80807f7f80807f7f80807f7f80807f7f80807f7f80807f7f80807f7f80807f7e67

/-- The inverse of `2 ^ 13 - 1` modulo `2 ^ 521 - 1` -/
def mersenneIqmp : ℕ :=
  0x1ffefff7ffbffdffefff7ffbffdffefff7ffbffdffefff7ffbffdffefff7ffbffdffefff7ffbffdffefff7ffbffdffefff7ffbffdffefff7ffbffdffefff7ffbffd

/-- The key of these primes -/
def mersenneKey : RSAKey 5 where
  modulus := wordsOf 18 ((2 ^ 521 - 1) * (2 ^ 13 - 1))
  exponent := wordsOf 18 65537
  privateExponent := wordsOf 18 mersenneExponent
  p := wordsOf 18 (2 ^ 521 - 1)
  q := wordsOf 18 (2 ^ 13 - 1)
  iqmp := wordsOf 18 mersenneIqmp

theorem mersenne_words {x : ℕ} (hx : x < 2 ^ (BIGNUM_INT_BITS 5 * 18)) :
    val (wordsOf (u := 5) 18 x) = x ∧ Fits (wordsOf (u := 5) 18 x) := by
  have hval : val (wordsOf (u := 5) 18 x) = x := by
    rw [val_wordsOf, ← pow_mul]
    exact Nat.mod_eq_of_lt hx
  refine ⟨hval, ?_⟩
  unfold Fits
  rw [hval]
  calc (Nat.size x + 8) / 8 ≤ (BIGNUM_INT_BITS 5 * 18 + 8) / 8 :=
        Nat.div_le_div_right (Nat.add_le_add_right (Nat.size_le.mpr hx) 8)
    _ < 2 ^ 32 := by decide

theorem val_mersenneKey : val mersenneKey.p = 2 ^ 521 - 1 ∧ val mersenneKey.q = 2 ^ 13 - 1 ∧
    val mersenneKey.modulus = (2 ^ 521 - 1) * (2 ^ 13 - 1) :=
  ⟨(mersenne_words (by decide +kernel)).1, (mersenne_words (by decide +kernel)).1,
    (mersenne_words (by decide +kernel)).1⟩

theorem sound_mersenneKey : Sound mersenneKey := by
  obtain ⟨hp, hq, hm⟩ := val_mersenneKey
  have he : val mersenneKey.exponent = 65537 := (mersenne_words (by decide +kernel)).1
  have hd : val mersenneKey.privateExponent = mersenneExponent := (mersenne_words (by decide +kernel)).1
  have hi : val mersenneKey.iqmp = mersenneIqmp := (mersenne_words (by decide +kernel)).1
  refine ⟨⟨?_, ?_, ?_, ?_, ?_⟩, ?_, ?_, ?_, ?_, ?_, ?_, ?_, ?_, ?_⟩
  · rw [hp]
    decide +kernel
  · rw [hq]
    decide +kernel
  · rw [hp, hq, hm]
  · rw [he, hd, hp]
    decide +kernel
  · rw [he, hd, hq]
    decide +kernel
  · rw [hp, hq]
    decide +kernel
  · rw [hp, hq]
    decide +kernel
  · unfold mersenneKey wordsOf
    rw [List.length_map, List.length_map]
  · rw [hi, hp]
    decide +kernel
  · rw [hi, hp, hq]
    decide +kernel
  all_goals exact (mersenne_words (by decide +kernel)).2

/-- A signature of the empty text -/
theorem rsa2Sign_verify_mersenne : ∃ (pub priv : List UInt8) (key pkey : RSAKey 5) (sig : List UInt8),
    rsa2NewPriv pub priv = .ok (some key) ∧ Same mersenneKey key ∧ rsa2NewPub pub = some pkey ∧
      rsa2Sign emptyHashes key [] 0 = .ok sig ∧ rsa2Verify emptyHashes pkey sig [] = .ok true := by
  obtain ⟨key, hread, hsame⟩ := sound_mersenneKey.reads_blobs (.inl rfl) [] []
  obtain ⟨hp, hq, hm⟩ := val_mersenneKey
  rw [← hsame.p] at hp
  rw [← hsame.q] at hq
  rw [← hsame.modulus] at hm
  have hprime : (2 ^ 521 - 1).Prime := lucas_lehmer_sufficiency 521 (by simp) (by norm_num)
  have hprime' : (2 ^ 13 - 1).Prime := by norm_num
  have hvalid : rsa2Invalid key 0 = none := by
    have hsize : 520 < Nat.size (val key.modulus) := Nat.lt_size.mpr (by rw [hm]; decide +kernel)
    have hfixed : rsaPkcs1LengthOfFixedParts (rsa2HashAlgForFlags 0).1 = 38 := by decide
    unfold rsa2Invalid
    dsimp only
    rw [mpGetNbits_eq (by omega), if_neg (by omega)]
  obtain ⟨pkey, m, hpub, hsign, hverify, -⟩ := rsa2Sign_verify (H := emptyHashes) (.inl rfl) hread (hp ▸ hprime)
    (hq ▸ hprime') (by rw [hp, hq]; decide +kernel) hvalid []
  exact ⟨_, _, key, pkey, _, hread, hsame, hpub, hsign, (hverify (by decide)).1⟩

end PuttyNd.Rsa
