import PuttyNd.Zmodem.Proofs.ContractProofs

/-!
# Proofs: the integrity of received data

A block is written only if its checksum is right, as long as the loop passes over no end of a subpacket
with a wrong checksum: the byte in front of which it goes on is then part of the block and not of the
checksum.
-/

namespace PuttyNd.Zmodem

open Session Outcome

variable {env : Env} {s t : Session} {os : List Session} {r : Option Fault} {is : List Input}
  {exact : Prop}

/-- The log is right also when a fault occurs. -/
theorem pre_log {x : Todo} {e : Fault} (h : Pre exact x s) (hs : s.step env x = .error e)
    (he : exact) : WritesOk s.log := by
  cases x with
  | action a =>
    cases a with
    | checkFrametype | parseHexFrame | parseBinFrame | parseBin32Frame | handleFrame | sendZdata
    | sendFileInfo => exact h.live.log he
    | sendZrpos => exact h.elim
    | _ => simp [Session.step, Session.action] at hs
  | frame => exact h.live.log he
  | zdata => exact h.1.log he
  | actions st as => cases as <;> simp [Session.step] at hs
  | _ => simp [Session.step] at hs

/-- **In every run of a session in which the loop of `handleZdata` never passes over the end of a
subpacket with a wrong checksum, the checksum that is compared before a block is written is that of the
block and the end of its subpacket.** -/
theorem writes_checked {rx : Rx} {f : Frame} (h : Runs env (Session.new rx f) is os t r)
    (hpass : ∀ s x, Visited env (Session.new rx f) is s x → x = .zdata → ¬ s.passesOver) :
    ∀ crc data frameend, .write crc data frameend ∈ t.log →
      crc = calcBufferCrc32 (data ++ [frameend]) := by
  obtain ⟨h1, h2⟩ := runs_contract True h (between_new rx f)
    (fun s x hx _ => hpass s x hx)
  cases r with
  | none =>
    rcases h1 rfl with h3 | ⟨h3, -⟩
    · exact h3.log trivial
    · exact h3.log trivial
  | some e =>
    obtain ⟨x, h3, -, h4⟩ := h2 e rfl
    exact pre_log h3 h4 trivial

/-- The header and the data that announce the file `a` of 9 bytes. -/
def announcement : List UInt8 :=
  sendBin32Frame ⟨ZFILE, 0, 0, 0, 0⟩ ++ [97, 0, 57, 0, ZDLE, ZCRCW] ++
    escs (le32 (calcBufferCrc32 [97, 0, 57, 0, ZCRCW])) ++ [XON]

/-- The inputs of a download: a new session loses the first; a file is announced; its data follow. -/
def download (data : List UInt8) : List Input :=
  [.network (sendFrame ⟨ZRQINIT, 0, 0, 0, 0⟩), .network announcement,
    .network (sendBin32Frame (posFrame ZDATA 0) ++ data)]

instance (s : Session) : Decidable s.passesOver := by
  unfold passesOver
  infer_instance

theorem writes_checked_abc : ∃ os t r,
    Runs Env.plain (Session.new Rx.init default) (download (sendZsda32 [97, 98, 99] ZCRCE)) os t r ∧
    (∃ crc, .write crc [97, 98, 99] ZCRCE ∈ t.log) ∧
    ∀ crc data frameend, .write crc data frameend ∈ t.log →
      crc = calcBufferCrc32 (data ++ [frameend]) := by
  obtain ⟨os, t, r, h1, h2⟩ := exists_runs Env.plain 60
    (s := Session.new Rx.init default) (i := download (sendZsda32 [97, 98, 99] ZCRCE))
    (p := fun p => p.2.1.log.contains
      (.write (calcBufferCrc32 [97, 98, 99, ZCRCE]) [97, 98, 99] ZCRCE)) (by decide +kernel)
  have h3 : ∀ p ∈ (Session.new Rx.init default).visited Env.plain 60
      (download (sendZsda32 [97, 98, 99] ZCRCE)), p.2 = .zdata → ¬ p.1.passesOver := by
    decide +kernel
  exact ⟨os, t, r, h1, ⟨_, by simpa using h2⟩,
    writes_checked h1 fun s x hx => h3 _ (hx.mem_visited (by decide +kernel))⟩

/-- Data in which a sequence `ZDLE`, `ZCRCE` is not followed by its checksum. -/
def lookalike : List UInt8 :=
  [ZDLE, ZCRCE, 97, 97, 97, 97, ZDLE, ZCRCE] ++
    escs (le32 (calcBufferCrc32 [ZCRCE, 97, 97, 97, 97, ZCRCE]))

/-- The sequence is passed over; its first byte is written, but not part of the checksum. -/
theorem write_unchecked : ∃ os t r,
    Runs Env.plain (Session.new Rx.init default) (download lookalike) os t r ∧
    ¬ ∀ crc data frameend, .write crc data frameend ∈ t.log →
      crc = calcBufferCrc32 (data ++ [frameend]) := by
  obtain ⟨os, t, r, h1, h2⟩ := exists_runs Env.plain 60
    (s := Session.new Rx.init default) (i := download lookalike)
    (p := fun p => p.2.1.log.contains (.write (calcBufferCrc32 [ZCRCE, 97, 97, 97, 97, ZCRCE])
      [ZDLE, ZCRCE, 97, 97, 97, 97] ZCRCE)) (by decide +kernel)
  refine ⟨os, t, r, h1, fun h3 => ?_⟩
  have h4 := h3 _ _ _ (by simpa using h2)
  revert h4
  decide +kernel

end PuttyNd.Zmodem

/-!
## Proofs: faults

A session uses the file only while there is one, and reads only bytes that have been received, except
in five kinds of steps.
-/

namespace PuttyNd.Zmodem

open Session Outcome

variable {env : Env} {s t : Session} {os : List Session} {r : Option Fault} {is : List Input}
  {exact : Prop}

/-- `handleZdata` uses the file: its loop is at its end, or at the end of a subpacket with the right
checksum. -/
def Session.usesFile (s : Session) : Prop :=
  zdataBound s.rx.buffer.length ≤ s.rx.lastCheckExcaped ∨
    ∃ p ∈ s.subpacketEnd, p.2.1 = s.calcCrc p.1

/-- The steps that are safe: the line of a hexadecimal header goes on behind its end; data are sent
only if there is a file; the announcement of a file is complete; data are received only if there is
some data, and a file when it is used. -/
def Safe (s : Session) : Todo → Prop
  | .action .parseHexFrame => ¬ xonMissing s
  | .action .sendZdata => s.sendBufferSize ≤ 1024 * 1024 → s.zmodemFile.isSome = true
  | .frame => s.inputFrame.type = ZFILE → ¬ zfileMissing s
  | .zdata => s.rx.buffer ≠ [] ∧ (s.usesFile → s.zmodemFile.isSome = true)
  | _ => True

theorem handleZdata_safe (hd : Decoding exact s.rx) {e : Fault} (hsafe : Safe s .zdata)
    (hs : s.handleZdata env = .error e) : e = .assertion := by
  obtain ⟨h1, h2⟩ := hsafe
  have hz := handleZdata_cases env s
  generalize s.handleZdata env = n at hs hz
  cases hz with
  | nullFile h3 h4 =>
    have h5 : s.usesFile := by
      rcases h4 with h4 | ⟨b, n, h4⟩
      · exact Or.inl h4
      · exact Or.inr ⟨_, h4.subpacketEnd, rfl⟩
    simp [h3] at h2
    exact absurd h5 h2
  | assertion _ =>
    cases hs
    rfl
  | overread h3 =>
    have h4 := hd.decodeIndex_le
    have h5 := hd.saved_le
    rcases h3 with h3 | h3 | h3
    · exact absurd h3 h1
    · omega
    · omega
  | block =>
    split_ifs at hs
  | _ => cases hs

theorem handleFrame_safe {e : Fault} (hsafe : Safe s .frame) (hs : s.handleFrame env = .error e) :
    False := by
  unfold Session.handleFrame at hs
  dsimp only at hs
  split_ifs at hs with a1 a2
  · rcases handleZfile_cases env { s with isSz := true } with ⟨h1, -⟩ | ⟨-, h1⟩
    · exact hsafe a2 h1
    · rw [hs] at h1
      cases h1
  · cases hf : s.zmodemFile with
    | none => simp [hf] at hs
    | some f =>
      simp only [hf] at hs
      have h1 := sendZdata_cases ({ s with zmodemFile := some (f.setPos (getPos s.inputFrame)) }.observe
        (.sendBin32Frame (posFrame ZDATA (f.setPos (getPos s.inputFrame)).pos)))
      rw [hs] at h1
      cases h1 with
      | nullFile _ h2 => simp [observe] at h2

/-- A safe step ends in no fault but a failed assertion. -/
theorem safe_step {x : Todo} {e : Fault} (h : Pre exact x s) (hsafe : Safe s x)
    (hs : s.step env x = .error e) : e = .assertion := by
  cases x with
  | action a =>
    cases a with
    | checkFrametype =>
      have hs' : s.checkFrametype = .error e := hs
      rcases checkFrametype_cases s with ⟨i, h1⟩ | ⟨i, e', -, -, -, h1⟩ <;> simp [h1] at hs'
    | parseHexFrame =>
      have hs' : s.parseHexFrame = .error e := hs
      rcases parseHexFrame_cases s with ⟨h1, -⟩ | ⟨-, h1⟩
      · exact absurd h1 hsafe
      · rw [hs'] at h1
        cases h1
    | parseBinFrame =>
      have h1 := parseBinFrame_cases s
      rw [show s.parseBinFrame = .error e from hs] at h1
      cases h1
    | parseBin32Frame =>
      have h1 := parseBin32Frame_cases s
      rw [show s.parseBin32Frame = .error e from hs] at h1
      cases h1
    | sendZdata =>
      have h1 := sendZdata_cases s
      rw [show s.sendZdata = .error e from hs] at h1
      cases h1 with
      | nullFile h2 h3 =>
        have := hsafe h2
        simp [h3] at this
    | sendFileInfo =>
      have hs' : s.sendFileInfo env = .error e := hs
      unfold sendFileInfo at hs'
      split at hs' <;> cases hs'
    | sendZrpos => exact h.elim
    | _ => simp [Session.step, Session.action] at hs
  | frame => exact (handleFrame_safe hsafe hs).elim
  | zdata => exact handleZdata_safe h.2.2.2.2 hsafe hs
  | actions st as => cases as <;> simp [Session.step] at hs
  | _ => simp [Session.step] at hs

theorem usesFile_error (h : s.usesFile) (hf : s.zmodemFile = none) :
    ∃ e, s.handleZdata env = .error e := by
  have hfile : s.file = .error .nullFile := by simp [Session.file, hf]
  unfold Session.handleZdata
  dsimp only
  rcases h with h | ⟨⟨b, recv, n⟩, h1, h2⟩
  · have hfile' : s.eatBuffer.file = .error .nullFile := by simp [Session.file, Session.eatBuffer, hf]
    rw [if_neg (by omega), hfile']
    exact ⟨_, rfl⟩
  · unfold subpacketEnd at h1
    split_ifs at h1 with hc
    · obtain ⟨h3, h4, h5⟩ := hc
      cases hb : s.rx.buffer[s.rx.lastCheckExcaped + 1]? with
      | none => simp [hb] at h1
      | some b' =>
        simp only [hb] at h1
        split_ifs at h1 with h6
        · obtain ⟨p, h7, h8⟩ := Option.map_eq_some_iff.mp h1
          cases h8
          have h6' : b = ZCRCE ∨ b = ZCRCG ∨ b = ZCRCQ ∨ b = ZCRCW := h6
          have h9 : ~~~ updc32 b s.rx.dataCrc = recv := h2.symm
          have h10 : ¬ s.rx.lastCheckExcaped + 6 > s.rx.buffer.length := by omega
          have h11 : s.rx.get s.rx.lastCheckExcaped = .ok ZDLE := by simp [Rx.get, h4]
          have h12 : s.rx.get (s.rx.lastCheckExcaped + 1) = .ok b := by simp [Rx.get, hb]
          rw [if_pos h3, h11, ok_bind, if_pos rfl, if_neg h10, h12, ok_bind, if_pos h6', h7]
          dsimp only
          rw [if_pos h9]
          split_ifs
          · exact ⟨_, rfl⟩
          · exact ⟨.nullFile, by rw [zdataEnd, hfile]; rfl⟩
        · simp at h1
    · simp at h1

/-- A step that is not safe ends in a fault. -/
theorem unsafe_step {x : Todo} (h : Pre exact x s) (hsafe : ¬ Safe s x) :
    ∃ e, s.step env x = .error e := by
  cases x with
  | action a =>
    cases a with
    | parseHexFrame =>
      rcases parseHexFrame_cases s with ⟨-, h1⟩ | ⟨h1, -⟩
      · exact ⟨_, h1⟩
      · exact absurd h1 hsafe
    | sendZdata =>
      simp only [Safe, Classical.not_imp] at hsafe
      obtain ⟨h1, h2⟩ := hsafe
      have h3 : s.file = .error .nullFile := by
        cases hf : s.zmodemFile <;> simp_all [Session.file]
      refine ⟨.nullFile, ?_⟩
      show s.sendZdata = _
      rw [sendZdata, if_neg (by omega), h3]
      rfl
    | _ => exact absurd trivial hsafe
  | frame =>
    simp only [Safe, Classical.not_imp, not_not] at hsafe
    obtain ⟨h1, h2⟩ := hsafe
    rcases handleZfile_cases env { s with isSz := true } with ⟨-, h3⟩ | ⟨h3, -⟩
    · refine ⟨.overread, ?_⟩
      show s.handleFrame env = _
      rw [Session.handleFrame, if_neg (by simp [h1, ZFILE, ZRQINIT]), if_pos h1, h3]
    · exact absurd h2 h3
  | zdata =>
    show ∃ e, s.handleZdata env = .error e
    by_cases hb : s.rx.buffer = []
    · have h1 := h.2.2.2.2.checked_le
      rw [hb, List.length_nil, Nat.le_zero] at h1
      refine ⟨.overread, ?_⟩
      unfold Session.handleZdata
      simp [h1, hb, zdataBound, Rx.get]
    · have h1 : s.usesFile ∧ s.zmodemFile = none := by
        simpa [Safe, hb] using hsafe
      exact usesFile_error h1.1 h1.2
  | _ => exact absurd trivial hsafe

instance (s : Session) : Decidable (zfileMissing s) := by
  unfold zfileMissing
  split
  · infer_instance
  · split <;> infer_instance

instance (s : Session) : Decidable s.usesFile := by
  unfold usesFile
  infer_instance

instance (s : Session) : DecidablePred (Safe s) := fun x => by
  cases x with
  | action a => cases a <;> unfold Safe <;> infer_instance
  | _ =>
    unfold Safe
    infer_instance

end PuttyNd.Zmodem
