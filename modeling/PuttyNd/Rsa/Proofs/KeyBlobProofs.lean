import PuttyNd.Rsa.Proofs.PaddingProofs
import PuttyNd.Rsa.Proofs.SshrsaProofs

/-!
# Proofs for RSA key blobs (`psftp/sshrsa.c`)

A key that was loaded has numbers that are not zero and not too long, so that its blobs are read back.
-/

namespace PuttyNd.Rsa

open Mpint Words Outcome Psftp Lib

variable {u : ℕ} {key : RSAKey u}

/-! ## Strings -/

theorem getString_putStringz {m : List UInt8} (rest : List UInt8) (h : m.length < 2 ^ 32) :
    getString ⟨putStringz m ++ rest, false⟩ = (m, ⟨rest, false⟩) := by
  rw [putStringz, List.append_assoc]
  exact getString_put (UInt32.toNat_ofNat_of_lt' h).symm

theorem eq_putStringz {data m rest : List UInt8} (h : getString ⟨data, false⟩ = (m, ⟨rest, false⟩)) :
    data = putStringz m ++ rest ∧ m.length < 2 ^ 32 := by
  obtain ⟨len, hlen, rfl⟩ := eq_of_getString h
  rw [putStringz, hlen, UInt32.ofNat_toNat, List.append_assoc]
  exact ⟨rfl, len.toNat_lt⟩

theorem getString_err {src : BinarySource} (h : src.err = true) : (getString src).2.err = true := by
  rw [getString, avail_err h]
  exact h

/-! ## Numbers that were read -/

theorem length_foldl_modify (f : ℕ → ℕ) (g : ℕ → BignumInt u → BignumInt u) (l : List ℕ) (x : MpInt u) :
    (l.foldl (fun n i => n.modify (f i) (g i)) x).length = x.length := by
  induction l generalizing x with
  | nil => rfl
  | cons i l ih => rw [List.foldl_cons, ih, List.length_modify]

theorem mpFromBytesBe_ne_nil (bytes : List UInt8) : mpFromBytesBe (u := u) bytes ≠ [] := by
  refine List.ne_nil_of_length_pos ?_
  unfold mpFromBytesBe
  rw [length_foldl_modify (· / BIGNUM_INT_BYTES u), List.length_replicate]
  exact lt_of_lt_of_le Nat.one_pos (le_max_right _ _)

/-- The encoding has a length. -/
def Fits (x : MpInt u) : Prop := (Nat.size (val x) + 8) / 8 < 2 ^ 32

theorem getMpSsh2_fits (hu : 3 ≤ u) {src : BinarySource} (h : (getMpSsh2 (u := u) src).2.err = false) :
    src.err = false ∧ (getMpSsh2 (u := u) src).1 ≠ [] ∧ Fits (getMpSsh2 (u := u) src).1 := by
  obtain ⟨data, err⟩ := src
  cases err with
  | true =>
    have herr := @getString_err ⟨data, true⟩ rfl
    unfold getMpSsh2 at h
    rcases hget : getString ⟨data, true⟩ with ⟨bytes, rest⟩
    rw [hget] at h herr
    dsimp only at h herr
    rw [if_pos herr] at h
    exact absurd (herr.symm.trans h) (by decide)
  | false =>
    rcases hget : getMpSsh2 (u := u) ⟨data, false⟩ with ⟨x, rest, err⟩
    rw [hget] at h
    dsimp only at h
    subst h
    obtain ⟨bytes, hbytes, hnot, rfl⟩ := (getMpSsh2_eq data rest x).mp hget
    refine ⟨rfl, mpFromBytesBe_ne_nil bytes, ?_⟩
    obtain ⟨len, hlen, -⟩ := eq_of_getString hbytes
    have hlt := len.toNat_lt
    unfold Fits
    rw [val_mpFromBytesBe hu]
    by_cases hne : bytes = []
    · subst hne
      decide
    · rw [length_of_not_refused hne hnot]
      omega

/-- A number that can be written is read back, with what follows it. -/
theorem getMpSsh2_put (hu : 3 ≤ u ∧ u ≤ 6) {x : MpInt u} (hne : val x ≠ 0) (hx : Fits x) (rest : List UInt8) :
    ∃ y : MpInt u, getMpSsh2 ⟨putMpSsh2 x ++ rest, false⟩ = (y, ⟨rest, false⟩) ∧ val y = val x :=
  roundTrips_of hu hne hx rest

theorem putMpSsh2_congr (hu : 3 ≤ u ∧ u ≤ 6) {x y : MpInt u} (h : val x = val y) : putMpSsh2 x = putMpSsh2 y := by
  unfold putMpSsh2
  have hbytes := getBytes_congr hu.1 h ((Nat.size (val y) + 8) / 8)
  unfold getBytes at hbytes
  rw [mpGetNbits_eq (by omega), mpGetNbits_eq (by omega), h]
  dsimp only
  rw [hbytes]

/-! ## Loaded keys -/

/-- The public part was read from a blob. -/
theorem rsa2NewPub_spec (hu : 3 ≤ u) {pub : List UInt8} (h : rsa2NewPub pub = some key) :
    key.exponent ≠ [] ∧ key.modulus ≠ [] ∧ Fits key.exponent ∧ Fits key.modulus := by
  unfold rsa2NewPub at h
  dsimp only at h
  split_ifs at h with hname herr
  have herr : (getMpSsh2 (u := u) (getMpSsh2 (u := u) (getString ⟨pub, false⟩).2).2).2.err = false :=
    Bool.eq_false_iff.mpr herr
  obtain ⟨hsrc, hne, hfits⟩ := getMpSsh2_fits hu herr
  obtain ⟨-, hne', hfits'⟩ := getMpSsh2_fits hu hsrc
  cases Option.some.inj h
  exact ⟨hne', hne, hfits', hfits⟩

/-- All numbers of a key can be written, and the primes can be copied. -/
structure Readable (key : RSAKey u) : Prop where
  exponent : key.exponent ≠ [] ∧ Fits key.exponent
  modulus : Fits key.modulus
  privateExponent : Fits key.privateExponent
  p : key.p ≠ [] ∧ Fits key.p
  q : key.q ≠ [] ∧ Fits key.q

theorem rsa2NewPriv_inv (hu : 3 ≤ u) {pub priv : List UInt8} (h : rsa2NewPriv pub priv = .ok (some key)) :
    ∃ pkey read : RSAKey u, rsa2NewPub pub = some pkey ∧ read.modulus = pkey.modulus ∧
      read.exponent = pkey.exponent ∧ Readable read ∧ rsaVerify read = .ok (key, true) := by
  unfold rsa2NewPriv at h
  rcases hpub : rsa2NewPub (u := u) pub with _ | pkey
  · rw [hpub] at h
    exact (nomatch h)
  · rw [hpub] at h
    dsimp only at h
    by_cases herr : (getMpSsh2 (u := u) (getMpSsh2 (u := u) (getMpSsh2 (u := u)
        (getMpSsh2 (u := u) ⟨priv, false⟩).2).2).2).2.err = true
    · rw [if_pos herr] at h
      exact (nomatch h)
    rw [if_neg herr] at h
    have herr := Bool.eq_false_iff.mpr herr
    obtain ⟨⟨k, ok⟩, hverify, hk⟩ := bind_eq_ok.mp h
    obtain ⟨hne, hnm, hfe, hfm⟩ := rsa2NewPub_spec hu hpub
    obtain ⟨h3, -, -⟩ := getMpSsh2_fits hu herr
    obtain ⟨h2, hnq, hfq⟩ := getMpSsh2_fits hu h3
    obtain ⟨h1, hnp, hfp⟩ := getMpSsh2_fits hu h2
    obtain ⟨-, -, hfd⟩ := getMpSsh2_fits hu h1
    cases ok with
    | false => exact (nomatch hk)
    | true =>
      cases hk
      refine ⟨pkey, _, rfl, ?_, ?_, ?_, hverify⟩
      · rfl
      · rfl
      · exact ⟨⟨hne, hfe⟩, hfm, hfd, ⟨hnp, hfp⟩, ⟨hnq, hfq⟩⟩

theorem rsa2NewPrivOpenssh_inv (hu : 3 ≤ u) {src src' : BinarySource}
    (h : rsa2NewPrivOpenssh src = .ok (some key, src')) :
    ∃ read : RSAKey u, Readable read ∧ rsaVerify read = .ok (key, true) := by
  unfold rsa2NewPrivOpenssh at h
  dsimp only at h
  split_ifs at h with herr
  · exact (nomatch h)
  · have herr := Bool.eq_false_iff.mpr herr
    obtain ⟨⟨k, ok⟩, hverify, hk⟩ := bind_eq_ok.mp h
    obtain ⟨h5, hnq, hfq⟩ := getMpSsh2_fits hu herr
    obtain ⟨h4, hnp, hfp⟩ := getMpSsh2_fits hu h5
    obtain ⟨h3, -, -⟩ := getMpSsh2_fits hu h4
    obtain ⟨h2, -, hfd⟩ := getMpSsh2_fits hu h3
    obtain ⟨h1, hne, hfe⟩ := getMpSsh2_fits hu h2
    obtain ⟨-, -, hfm⟩ := getMpSsh2_fits hu h1
    cases ok with
    | false => exact (nomatch hk)
    | true =>
      cases hk
      refine ⟨_, ?_, hverify⟩
      exact ⟨⟨hne, hfe⟩, hfm, hfd, ⟨hnp, hfp⟩, ⟨hnq, hfq⟩⟩

/-! ## Round trips -/

/-- What a key of coprime numbers has after it was loaded -/
structure Sound (key : RSAKey u) : Prop extends Consistent key where
  coprime : (val key.p).Coprime (val key.q)
  le : val key.q ≤ val key.p
  length_le : key.q.length ≤ key.p.length
  iqmp_lt : val key.iqmp < val key.p
  iqmp : val key.iqmp * val key.q % val key.p = 1
  fits_modulus : Fits key.modulus
  fits_exponent : Fits key.exponent
  fits_privateExponent : Fits key.privateExponent
  fits_p : Fits key.p

/-- The numbers of two keys are the same, but maybe not the words that hold them. -/
structure Same (key key' : RSAKey u) : Prop where
  modulus : val key'.modulus = val key.modulus
  exponent : val key'.exponent = val key.exponent
  privateExponent : val key'.privateExponent = val key.privateExponent
  p : val key'.p = val key.p
  q : val key'.q = val key.q
  iqmp : val key'.iqmp = val key.iqmp

/-- The key was read from a private file, or from one of OpenSSH. -/
def Loaded (key : RSAKey u) : Prop :=
  (∃ pub priv, rsa2NewPriv pub priv = .ok (some key)) ∨ ∃ src src', rsa2NewPrivOpenssh src = .ok (some key, src')

theorem Fits.mono {x y : MpInt u} (hx : Fits x) (h : val y ≤ val x) : Fits y := by
  have hsize := Nat.size_le_size h
  unfold Fits at hx ⊢
  omega

theorem Readable.sound (hu : u = 5 ∨ u = 6) {read : RSAKey u} (hread : Readable read)
    (hverify : rsaVerify read = .ok (key, true)) (hcop : (val key.p).Coprime (val key.q)) : Sound key := by
  obtain ⟨⟨he, hfe⟩, hfm, hfd, ⟨hp, hfp⟩, hq, hfq⟩ := hread
  obtain ⟨r, hr, hiff, hverified⟩ := rsaVerify_spec hu hp hq he
  rw [hverify] at hr
  cases hr
  have hkey := hverified rfl
  have hsorted := hkey.consistent (hiff.mp rfl)
  obtain ⟨hlt, hinv⟩ := hkey.iqmp (hkey.coprime_iff.mp hcop)
  obtain ⟨hmod, hexp, hpriv, hpval, hqval, hlen, -⟩ := hkey
  dsimp only at hmod hexp hpriv hpval hqval hlen hlt hinv
  refine ⟨hsorted, hcop, by omega, hlen, hlt, hinv, hmod ▸ hfm, hexp ▸ hfe, hpriv ▸ hfd, ?_⟩
  rcases max_choice (val read.p) (val read.q) with h | h
  · exact hfp.mono (by omega)
  · exact hfq.mono (by omega)

theorem Loaded.sound (hu : u = 5 ∨ u = 6) (hload : Loaded key) (hcop : (val key.p).Coprime (val key.q)) :
    Sound key := by
  have hu' : 3 ≤ u := by omega
  rcases hload with ⟨pub, priv, hload⟩ | ⟨src, src', hload⟩
  · obtain ⟨pkey, read, -, -, -, hread, hverify⟩ := rsa2NewPriv_inv hu' hload
    exact hread.sound hu hverify hcop
  · obtain ⟨read, hread, hverify⟩ := rsa2NewPrivOpenssh_inv hu' hload
    exact hread.sound hu hverify hcop

/-- There is one inverse below the modulus. -/
theorem inverse_unique {a b q p : ℕ} (ha : a < p) (hb : b < p) (ha' : a * q % p = 1) (hb' : b * q % p = 1) : a = b := by
  have hp : 1 < p := by
    by_contra hle
    have hone : p = 1 := by omega
    rw [hone, Nat.mod_one] at ha'
    exact Nat.zero_ne_one ha'
  have hmod : ∀ x, x * q % p = 1 → x * q ≡ 1 [MOD p] := fun x hx => by rw [Nat.ModEq, hx, Nat.mod_eq_of_lt hp]
  have hab : a ≡ b [MOD p] :=
    calc a = a * 1 := (Nat.mul_one a).symm
      _ ≡ a * (b * q) [MOD p] := (hmod b hb').symm.mul_left a
      _ = b * (a * q) := Nat.mul_left_comm a b q
      _ ≡ b * 1 [MOD p] := (hmod a ha').mul_left b
      _ = b := Nat.mul_one b
  rwa [Nat.ModEq, Nat.mod_eq_of_lt ha, Nat.mod_eq_of_lt hb] at hab

namespace Sound

theorem val_ne_zero (h : Sound key) : val key.modulus ≠ 0 ∧ val key.exponent ≠ 0 ∧ val key.privateExponent ≠ 0 ∧
    val key.p ≠ 0 ∧ val key.q ≠ 0 ∧ val key.iqmp ≠ 0 := by
  have hp := h.two_le_p
  have hq := h.two_le_q
  have hinv := ne_zero_of_inverse h.inverse_p
  have hmod := h.modulus
  have hpos : 0 < val key.p * val key.q := Nat.mul_pos (by omega) (by omega)
  exact ⟨by omega, hinv.1, hinv.2, by omega, by omega, (ne_zero_of_inverse h.iqmp).1⟩

theorem primeKey (h : Sound key) (hp : (val key.p).Prime) (hq : (val key.q).Prime) (hne : val key.p ≠ val key.q) :
    PrimeKey key :=
  ⟨h.toConsistent, hp, hq, lt_of_le_of_ne h.le hne.symm, h.length_le, h.iqmp⟩

/-- The same numbers pass the checks. -/
theorem verify (hu : u = 5 ∨ u = 6) (h : Sound key) (read : RSAKey u) (hmod : val read.modulus = val key.modulus)
    (hexp : val read.exponent = val key.exponent) (hpriv : val read.privateExponent = val key.privateExponent)
    (hp : val read.p = val key.p) (hq : val read.q = val key.q) :
    ∃ key', rsaVerify read = .ok (key', true) ∧ Same key key' := by
  obtain ⟨-, he, -, hpz, hqz, -⟩ := h.val_ne_zero
  obtain ⟨⟨key', ok⟩, hok, hiff, hverified⟩ := rsaVerify_spec hu (ne_nil_of_val (hp ▸ hpz)) (ne_nil_of_val (hq ▸ hqz))
    (ne_nil_of_val (hexp ▸ he))
  have htrue : ok = true := by
    refine hiff.mpr ⟨?_, ?_, ?_, ?_, ?_⟩
    · rw [hp]
      exact h.two_le_p
    · rw [hq]
      exact h.two_le_q
    · rw [hp, hq, hmod]
      exact h.modulus
    · rw [hexp, hpriv, hp]
      exact h.inverse_p
    · rw [hexp, hpriv, hq]
      exact h.inverse_q
  subst htrue
  obtain ⟨hmod', hexp', hpriv', hp', hq', -, hiqmp'⟩ := hverified rfl
  dsimp only at hmod' hexp' hpriv' hp' hq' hiqmp'
  rw [hp, hq] at hp' hq' hiqmp'
  rw [Nat.max_eq_left h.le] at hp'
  rw [Nat.min_eq_right h.le] at hq'
  obtain ⟨hlt, hinv⟩ := hiqmp' h.coprime
  rw [hp', hq'] at hinv
  rw [hp'] at hlt
  exact ⟨key', hok, hmod' ▸ hmod, hexp' ▸ hexp, hpriv' ▸ hpriv, hp', hq',
    inverse_unique hlt h.iqmp_lt hinv h.iqmp⟩

/-- The blobs are read back, whatever follows them. -/
theorem reads_blobs (hu : u = 5 ∨ u = 6) (h : Sound key) (rest rest' : List UInt8) : ∃ key',
    rsa2NewPriv (rsa2PublicBlob key ++ rest) (rsa2PrivateBlob key ++ rest') = .ok (some key') ∧ Same key key' := by
  have hu' : 3 ≤ u ∧ u ≤ 6 := by omega
  obtain ⟨hm, he, hd, hp, hq, hi⟩ := h.val_ne_zero
  obtain ⟨m', hgetm, hvalm⟩ := getMpSsh2_put hu' hm h.fits_modulus rest
  obtain ⟨e', hgete, hvale⟩ := getMpSsh2_put hu' he h.fits_exponent (putMpSsh2 key.modulus ++ rest)
  obtain ⟨i', hgeti, -⟩ := getMpSsh2_put hu' hi (h.fits_p.mono h.iqmp_lt.le) rest'
  obtain ⟨q', hgetq, hvalq⟩ := getMpSsh2_put hu' hq (h.fits_p.mono h.le) (putMpSsh2 key.iqmp ++ rest')
  obtain ⟨p', hgetp, hvalp⟩ := getMpSsh2_put hu' hp h.fits_p (putMpSsh2 key.q ++ (putMpSsh2 key.iqmp ++ rest'))
  obtain ⟨d', hgetd, hvald⟩ := getMpSsh2_put hu' hd h.fits_privateExponent
    (putMpSsh2 key.p ++ (putMpSsh2 key.q ++ (putMpSsh2 key.iqmp ++ rest')))
  have hpub : rsa2NewPub (rsa2PublicBlob key ++ rest) = some ⟨m', e', [], [], [], []⟩ := by
    unfold rsa2NewPub rsa2PublicBlob
    rw [List.append_assoc, List.append_assoc, getString_putStringz _ (by decide)]
    dsimp only
    rw [if_neg (not_not.mpr rfl), hgete]
    dsimp only
    rw [hgetm]
    exact if_neg Bool.false_ne_true
  obtain ⟨key', hok, hsame⟩ := h.verify hu ⟨m', e', d', p', q', i'⟩ hvalm hvale hvald hvalp hvalq
  refine ⟨key', ?_, hsame⟩
  unfold rsa2NewPriv rsa2PrivateBlob
  rw [hpub, List.append_assoc, List.append_assoc, List.append_assoc, hgetd]
  dsimp only
  rw [hgetp]
  dsimp only
  rw [hgetq]
  dsimp only
  rw [hgeti]
  dsimp only
  rw [if_neg Bool.false_ne_true, hok, ok_bind]
  rfl

theorem reads_openssh (hu : u = 5 ∨ u = 6) (h : Sound key) (rest : List UInt8) : ∃ key',
    rsa2NewPrivOpenssh ⟨rsa2OpensshBlob key ++ rest, false⟩ = .ok (some key', ⟨rest, false⟩) ∧ Same key key' := by
  have hu' : 3 ≤ u ∧ u ≤ 6 := by omega
  obtain ⟨hm, he, hd, hp, hq, hi⟩ := h.val_ne_zero
  obtain ⟨q', hgetq, hvalq⟩ := getMpSsh2_put hu' hq (h.fits_p.mono h.le) rest
  obtain ⟨p', hgetp, hvalp⟩ := getMpSsh2_put hu' hp h.fits_p (putMpSsh2 key.q ++ rest)
  obtain ⟨i', hgeti, -⟩ := getMpSsh2_put hu' hi (h.fits_p.mono h.iqmp_lt.le)
    (putMpSsh2 key.p ++ (putMpSsh2 key.q ++ rest))
  obtain ⟨d', hgetd, hvald⟩ := getMpSsh2_put hu' hd h.fits_privateExponent
    (putMpSsh2 key.iqmp ++ (putMpSsh2 key.p ++ (putMpSsh2 key.q ++ rest)))
  obtain ⟨e', hgete, hvale⟩ := getMpSsh2_put hu' he h.fits_exponent
    (putMpSsh2 key.privateExponent ++ (putMpSsh2 key.iqmp ++ (putMpSsh2 key.p ++ (putMpSsh2 key.q ++ rest))))
  obtain ⟨m', hgetm, hvalm⟩ := getMpSsh2_put hu' hm h.fits_modulus (putMpSsh2 key.exponent ++
    (putMpSsh2 key.privateExponent ++ (putMpSsh2 key.iqmp ++ (putMpSsh2 key.p ++ (putMpSsh2 key.q ++ rest)))))
  obtain ⟨key', hok, hsame⟩ := h.verify hu ⟨m', e', d', p', q', i'⟩ hvalm hvale hvald hvalp hvalq
  refine ⟨key', ?_, hsame⟩
  unfold rsa2NewPrivOpenssh rsa2OpensshBlob
  rw [List.append_assoc, List.append_assoc, List.append_assoc, List.append_assoc, List.append_assoc, hgetm]
  dsimp only
  rw [hgete]
  dsimp only
  rw [hgetd]
  dsimp only
  rw [hgeti]
  dsimp only
  rw [hgetp]
  dsimp only
  rw [hgetq]
  dsimp only
  rw [if_neg Bool.false_ne_true, hok, ok_bind]
  rfl

end Sound

theorem Same.blobs (hu : 3 ≤ u ∧ u ≤ 6) {key' : RSAKey u} (h : Same key key') :
    rsa2PublicBlob key' = rsa2PublicBlob key ∧ rsa2PrivateBlob key' = rsa2PrivateBlob key ∧
      rsa2OpensshBlob key' = rsa2OpensshBlob key := by
  unfold rsa2PublicBlob rsa2PrivateBlob rsa2OpensshBlob
  rw [putMpSsh2_congr hu h.modulus, putMpSsh2_congr hu h.exponent, putMpSsh2_congr hu h.privateExponent,
    putMpSsh2_congr hu h.p, putMpSsh2_congr hu h.q, putMpSsh2_congr hu h.iqmp]
  exact ⟨rfl, rfl, rfl⟩

/-- A key that was loaded from either format is written in both of them, and read back with the same numbers, whatever
follows in the file. -/
theorem loaded_roundTrips (hu : u = 5 ∨ u = 6) (hload : Loaded key) (hcop : (val key.p).Coprime (val key.q)) :
    (∀ rest rest', ∃ key', rsa2NewPriv (rsa2PublicBlob key ++ rest) (rsa2PrivateBlob key ++ rest') = .ok (some key') ∧
      Same key key' ∧ rsa2PublicBlob key' = rsa2PublicBlob key ∧ rsa2PrivateBlob key' = rsa2PrivateBlob key) ∧
    ∀ rest, ∃ key', rsa2NewPrivOpenssh ⟨rsa2OpensshBlob key ++ rest, false⟩ = .ok (some key', ⟨rest, false⟩) ∧
      Same key key' ∧ rsa2OpensshBlob key' = rsa2OpensshBlob key := by
  have hsound := hload.sound hu hcop
  constructor
  · intro rest rest'
    obtain ⟨key', hread, hsame⟩ := hsound.reads_blobs hu rest rest'
    obtain ⟨hpub, hpriv, -⟩ := hsame.blobs (by omega)
    exact ⟨key', hread, hsame, hpub, hpriv⟩
  · intro rest
    obtain ⟨key', hread, hsame⟩ := hsound.reads_openssh hu rest
    obtain ⟨-, -, hblob⟩ := hsame.blobs (by omega)
    exact ⟨key', hread, hsame, hblob⟩

/-- The key of the primes 7 and 5 -/
theorem loaded_roundTrips_seven : ∃ key key' : RSAKey 5, Loaded key ∧ val key.p = 7 ∧
    rsa2NewPriv (rsa2PublicBlob key) (rsa2PrivateBlob key ++ [0, 1]) = .ok (some key') ∧ Same key key' := by
  have hfits : ∀ x : MpInt 5, val x < 2 ^ 8 → Fits x := fun x hx => by
    have hsize := Nat.size_le.mpr hx
    unfold Fits
    omega
  have hsound : Sound (⟨[35], [5], [5], [7], [5], [3]⟩ : RSAKey 5) :=
    ⟨⟨by decide, by decide, by decide, by decide, by decide⟩, by decide, by decide, by decide, by decide, by decide,
      hfits _ (by decide), hfits _ (by decide), hfits _ (by decide), hfits _ (by decide)⟩
  obtain ⟨key, hread, hsame⟩ := hsound.reads_blobs (.inl rfl) [] []
  have hload : Loaded key := .inl ⟨_, _, hread⟩
  obtain ⟨key', hread', hsame', -⟩ :=
    (loaded_roundTrips (.inl rfl) hload (by rw [hsame.p, hsame.q]; decide)).1 [] [0, 1]
  rw [List.append_nil] at hread'
  exact ⟨key, key', hload, hsame.p, hread', hsame'⟩

end PuttyNd.Rsa
