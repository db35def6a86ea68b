import PuttyNd.Psftp.Proofs.MarshalProofs
import PuttyNd.Ssh.Ttymodes

/-!
# Proofs: terminal modes in packets

Each mode that is written is read back. In SSH-1 the speeds have opcodes at which the reader stops.
-/

namespace PuttyNd.Ssh

open Psftp

variable {sshVersion rounds : ℕ} {modes m : SshTtymodes} {i : Fin TTYMODE_LIMIT} {rest : List UInt8}
  {bs : BinarySource}

/-! ## The reader -/

theorem getByte_cons (b : UInt8) (l : List UInt8) : getByte ⟨b :: l, false⟩ = (b, ⟨l, false⟩) := rfl

/-- A byte that is not zero was there. -/
theorem getByte_taken (h : (getByte bs).1.toNat ≠ 0) : (getByte bs).2.data.length < bs.data.length := by
  obtain ⟨data, err⟩ := bs
  cases err with
  | true => exact absurd rfl h
  | false =>
    cases data with
    | nil => exact absurd rfl h
    | cons b l => exact Nat.lt_succ_self l.length

theorem getTtymodeVal_length (opcode : ℕ) (bs : BinarySource) :
    (getTtymodeVal sshVersion opcode bs).2.data.length ≤ bs.data.length := by
  unfold getTtymodeVal getByte getUint32
  have h1 := avail_length bs 1
  have h4 := avail_length bs 4
  split
  · dsimp only
    split
    · next heq => rw [heq] at h1; exact h1
    · next heq => rw [heq] at h1; exact h1
  · split
    · next heq => rw [heq] at h4; exact h4
    · next heq => rw [heq] at h4; exact h4

theorem ourTtymodeOpcode_lt {opcode : ℕ} (h : opcode < 160) : ourTtymodeOpcode opcode sshVersion < TTYMODE_LIMIT := by
  unfold ourTtymodeOpcode TTYMODE_LIMIT TTYMODE_ISPEED TTYMODE_OSPEED
  split_ifs <;> omega

/-- The assertion holds, and the loop ends. -/
theorem readTtymodes_ok (h : bs.data.length < rounds) : ∃ r, readTtymodes sshVersion rounds m bs = .ok r := by
  induction rounds generalizing m bs with
  | zero => exact absurd h (Nat.not_lt_zero _)
  | succ rounds ih =>
    unfold readTtymodes
    dsimp only
    by_cases hend : (getByte bs).1.toNat = TTYMODE_END_OF_LIST
    · exact ⟨_, if_pos hend⟩
    · rw [if_neg hend]
      by_cases hstop : (getByte bs).1.toNat ≥ 160
      · exact ⟨_, if_pos hstop⟩
      · rw [if_neg hstop, dif_pos (ourTtymodeOpcode_lt (by omega))]
        have htaken := getByte_taken hend
        have hval := @getTtymodeVal_length sshVersion (getByte bs).1.toNat (getByte bs).2
        exact ih (by omega)

/-- In SSH-1 no speed is ever read. -/
theorem readTtymodes_speed (hi : 160 ≤ i.val) (hm : m.haveMode i = false) {r : SshTtymodes × BinarySource}
    (h : readTtymodes 1 rounds m bs = .ok r) : r.1.haveMode i = false := by
  induction rounds generalizing m bs with
  | zero => exact nomatch h
  | succ rounds ih =>
    unfold readTtymodes at h
    dsimp only at h
    by_cases hend : (getByte bs).1.toNat = TTYMODE_END_OF_LIST
    · rw [if_pos hend] at h
      cases h
      exact hm
    · rw [if_neg hend] at h
      by_cases hstop : (getByte bs).1.toNat ≥ 160
      · rw [if_pos hstop] at h
        cases h
        exact hm
      · rw [if_neg hstop, dif_pos (ourTtymodeOpcode_lt (by omega))] at h
        refine ih ?_ h
        have hsame : ourTtymodeOpcode (getByte bs).1.toNat 1 = (getByte bs).1.toNat := by
          unfold ourTtymodeOpcode TTYMODE_ISPEED_SSH1 TTYMODE_OSPEED_SSH1
          rw [if_pos rfl, if_neg (by omega), if_neg (by omega)]
        have hlt := @ourTtymodeOpcode_lt 1 _ (Nat.lt_of_not_le hstop)
        have hne : i ≠ (⟨_, hlt⟩ : Fin TTYMODE_LIMIT) := fun heq => by
          have hval := congrArg Fin.val heq
          dsimp only at hval
          omega
        unfold SshTtymodes.set
        dsimp only
        rw [if_neg hne]
        exact hm

/-! ## What is written is read -/

/-- The modes that a session can request -/
def Requestable (sshVersion : ℕ) (modes : SshTtymodes) : Prop :=
  ∀ i, modes.haveMode i = true → (1 ≤ i.val ∧ i.val ≤ 127 ∧ (sshVersion = 1 → (modes.modeVal i).toNat < 256)) ∨
    i.val = TTYMODE_ISPEED ∨ i.val = TTYMODE_OSPEED

/-- The same modes, with the same values -/
def SameModes (m modes : SshTtymodes) : Prop :=
  ∀ i, m.haveMode i = modes.haveMode i ∧ (modes.haveMode i = true → m.modeVal i = modes.modeVal i)

/-- The reader knows the opcode of the mode, and there is room for its value. -/
def Readable (sshVersion : ℕ) (modes : SshTtymodes) (i : Fin TTYMODE_LIMIT) : Prop :=
  let opcode := realTtymodeOpcode i sshVersion
  opcode ≠ 0 ∧ opcode < 160 ∧ ourTtymodeOpcode opcode sshVersion = i ∧
    (hasByte sshVersion opcode = true → (modes.modeVal i).toNat < 256)

theorem getTtymodeVal_put {opcode : ℕ} {val : UInt32} (h : hasByte sshVersion opcode = true → val.toNat < 256) :
    getTtymodeVal sshVersion opcode
      ⟨(if hasByte sshVersion opcode then [val.toUInt8] else putUint32 val) ++ rest, false⟩ = (val, ⟨rest, false⟩) := by
  unfold getTtymodeVal
  by_cases hbyte : hasByte sshVersion opcode = true
  · rw [if_pos hbyte, if_pos hbyte, List.singleton_append, getByte_cons]
    have hval : val.toUInt8.toUInt32 = val := by
      apply UInt32.toNat_inj.mp
      rw [UInt8.toNat_toUInt32, UInt32.toNat_toUInt8]
      exact Nat.mod_eq_of_lt (h hbyte)
    rw [hval]
  · rw [if_neg hbyte, if_neg hbyte]
    unfold getUint32
    rw [avail_ok (by rw [List.length_append, length_putUint32]; omega)]
    exact Prod.ext (get32bit_put val rest) rfl

theorem readTtymodes_put (h : Readable sshVersion modes i) (hi : modes.haveMode i = true) :
    readTtymodes sshVersion (rounds + 1) m ⟨putTtymode sshVersion modes i ++ rest, false⟩ =
      readTtymodes sshVersion rounds (m.set i (modes.modeVal i)) ⟨rest, false⟩ := by
  obtain ⟨hne, hlt, hour, hval⟩ := h
  have hend : realTtymodeOpcode i sshVersion ≠ TTYMODE_END_OF_LIST := hne
  have hopcode : (realTtymodeOpcode i sshVersion).toUInt8.toNat = realTtymodeOpcode i sshVersion :=
    UInt8.toNat_ofNat_of_lt' (by simp only [UInt8.size]; omega)
  rw [readTtymodes, putTtymode, if_pos hi]
  dsimp only
  rw [List.cons_append, getByte_cons]
  dsimp only
  rw [hopcode, if_neg hend, if_neg (by omega), dif_pos (ourTtymodeOpcode_lt hlt), getTtymodeVal_put hval]
  simp only [hour]

/-- The modes of a list of opcodes -/
def setModes (modes : SshTtymodes) : List (Fin TTYMODE_LIMIT) → SshTtymodes → SshTtymodes
  | [], m => m
  | i :: l, m => setModes modes l (if modes.haveMode i then m.set i (modes.modeVal i) else m)

theorem readTtymodes_putAll {l : List (Fin TTYMODE_LIMIT)}
    (h : ∀ i, modes.haveMode i = true → Readable sshVersion modes i)
    (hrounds : (l.flatMap (putTtymode sshVersion modes)).length < rounds) :
    readTtymodes sshVersion rounds m
      ⟨l.flatMap (putTtymode sshVersion modes) ++ TTYMODE_END_OF_LIST.toUInt8 :: rest, false⟩ =
      .ok (setModes modes l m, ⟨rest, false⟩) := by
  induction l generalizing rounds m with
  | nil =>
    cases rounds with
    | zero => exact absurd hrounds (Nat.not_lt_zero _)
    | succ rounds => rfl
  | cons i l ih =>
    rw [List.flatMap_cons, List.length_append] at hrounds
    rw [List.flatMap_cons, List.append_assoc, setModes]
    by_cases hi : modes.haveMode i = true
    · have hput : 0 < (putTtymode sshVersion modes i).length := by
        unfold putTtymode
        rw [if_pos hi]
        exact Nat.succ_pos _
      obtain ⟨rounds, rfl⟩ : ∃ n, rounds = n + 1 := ⟨rounds - 1, by omega⟩
      rw [readTtymodes_put (h i hi) hi, if_pos hi, ih (by omega)]
    · have hnone : putTtymode sshVersion modes i = [] := if_neg hi
      rw [hnone, List.nil_append, if_neg hi, ih (by omega)]

theorem setModes_spec (l : List (Fin TTYMODE_LIMIT)) (m : SshTtymodes) (i : Fin TTYMODE_LIMIT) :
    (setModes modes l m).haveMode i = (m.haveMode i || (decide (i ∈ l) && modes.haveMode i)) ∧
      (i ∈ l → modes.haveMode i = true → (setModes modes l m).modeVal i = modes.modeVal i) ∧
      (m.modeVal i = modes.modeVal i → (setModes modes l m).modeVal i = modes.modeVal i) := by
  induction l generalizing m with
  | nil => simp [setModes]
  | cons j l ih =>
    obtain ⟨hhave, hmem, hkeep⟩ := ih (if modes.haveMode j then m.set j (modes.modeVal j) else m)
    rw [setModes]
    by_cases hij : i = j
    · subst hij
      by_cases hi : modes.haveMode i = true
      · simp only [hi, if_true] at hhave hmem hkeep ⊢
        simp_all [SshTtymodes.set]
      · simp_all
    · by_cases hj : modes.haveMode j = true
      · simp only [hj, if_true] at hhave hmem hkeep ⊢
        simp_all [SshTtymodes.set]
      · simp_all

/-- What was written is read back, and nothing more is read. -/
def RoundTrips (sshVersion : ℕ) (modes : SshTtymodes) (rest : List UInt8) : Prop :=
  ∃ r, readTtymodesFromPacket ⟨writeTtymodesToPacket sshVersion modes ++ rest, false⟩ sshVersion =
    .ok (r, ⟨rest, false⟩) ∧ SameModes r modes

/-- A speed is set. -/
def SetsSpeed (modes : SshTtymodes) : Prop := ∃ i, modes.haveMode i = true ∧ 160 ≤ i.val

theorem readable_of_requestable (h : Requestable sshVersion modes) (hversion : sshVersion = 1 ∨ sshVersion = 2)
    (hspeed : ¬ (sshVersion = 1 ∧ SetsSpeed modes)) (hi : modes.haveMode i = true) :
    Readable sshVersion modes i := by
  have htwo : 160 ≤ i.val → sshVersion = 2 := fun hle => by
    rcases hversion with hone | htwo
    · exact absurd ⟨hone, i, hi, hle⟩ hspeed
    · exact htwo
  rcases h i hi with ⟨hpos, hle, hval⟩ | hi | ho
  · have hreal : realTtymodeOpcode i sshVersion = i := by
      unfold realTtymodeOpcode TTYMODE_ISPEED TTYMODE_OSPEED
      rw [if_neg (by omega), if_neg (by omega)]
    have hour : ourTtymodeOpcode i sshVersion = i := by
      unfold ourTtymodeOpcode TTYMODE_ISPEED_SSH1 TTYMODE_OSPEED_SSH1 TTYMODE_ISPEED_SSH2 TTYMODE_OSPEED_SSH2
      split_ifs <;> omega
    unfold Readable
    rw [hreal]
    refine ⟨by omega, by omega, hour, fun hbyte => hval ?_⟩
    exact (of_decide_eq_true hbyte).1
  · have h2 := htwo (by rw [hi]; decide)
    unfold Readable
    rw [hi, h2]
    exact ⟨by decide, by decide, rfl, fun hbyte => absurd hbyte (by decide)⟩
  · have h2 := htwo (by rw [ho]; decide)
    unfold Readable
    rw [ho, h2]
    exact ⟨by decide, by decide, rfl, fun hbyte => absurd hbyte (by decide)⟩

/-- For the modes that a session can request, what is written is read back, but for the speeds in SSH-1. The
reader returns for every source. -/
theorem ttymodes_roundTrip_iff (sshVersion : ℕ) (modes : SshTtymodes) (rest : List UInt8)
    (hversion : sshVersion = 1 ∨ sshVersion = 2) (hmodes : Requestable sshVersion modes) :
    (RoundTrips sshVersion modes rest ↔ ¬ (sshVersion = 1 ∧ SetsSpeed modes)) ∧
      ∀ bs, ∃ r, readTtymodesFromPacket bs sshVersion = .ok r := by
  refine ⟨?_, fun bs => readTtymodes_ok (Nat.lt_succ_self _)⟩
  constructor
  · rintro ⟨r, hread, hsame⟩ ⟨rfl, i, hi, hle⟩
    have hnone := readTtymodes_speed (i := i) hle rfl hread
    rw [(hsame i).1, hi] at hnone
    exact absurd hnone Bool.noConfusion
  · intro hspeed
    refine ⟨setModes modes (List.finRange TTYMODE_LIMIT) .zero, ?_, ?_⟩
    · unfold readTtymodesFromPacket writeTtymodesToPacket
      rw [List.append_assoc, List.singleton_append]
      refine readTtymodes_putAll (fun i hi => readable_of_requestable hmodes hversion hspeed hi) ?_
      rw [List.length_append]
      omega
    · intro i
      obtain ⟨hhave, hval, -⟩ := @setModes_spec modes (List.finRange TTYMODE_LIMIT) .zero i
      have hmem := List.mem_finRange i
      refine ⟨?_, hval hmem⟩
      rw [hhave, decide_eq_true hmem]
      exact Bool.false_or _

/-- The modes with only the input speed -/
def ispeed : SshTtymodes := SshTtymodes.zero.set ⟨TTYMODE_ISPEED, by decide⟩ 38400

theorem ispeed_requestable (sshVersion : ℕ) : Requestable sshVersion ispeed := by
  intro i hi
  right
  left
  by_cases heq : i = ⟨TTYMODE_ISPEED, by decide⟩
  · exact congrArg Fin.val heq
  · unfold ispeed SshTtymodes.set at hi
    dsimp only at hi
    rw [if_neg heq] at hi
    exact absurd hi Bool.noConfusion

/-- In SSH-2 the input speed is read back, in SSH-1 it is not. -/
theorem ttymodes_roundTrip_two : RoundTrips 2 ispeed [] :=
  (ttymodes_roundTrip_iff 2 ispeed [] (Or.inr rfl) (ispeed_requestable 2)).1.mpr fun h => by
    exact absurd h.1 (by decide)

theorem ttymodes_ispeed_lost : Requestable 1 ispeed ∧ ¬ RoundTrips 1 ispeed [] := by
  refine ⟨ispeed_requestable 1, ?_⟩
  rintro ⟨r, hread, hsame⟩
  have hnone := readTtymodes_speed (i := ⟨TTYMODE_ISPEED, by decide⟩) (by decide) rfl hread
  rw [(hsame _).1] at hnone
  exact absurd hnone (by decide)

end PuttyNd.Ssh
