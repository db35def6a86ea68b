import PuttyNd.Zmodem.Proofs.ContractProofs

/-!
# Proofs: what is sent of a file

After the header of data that names a position, the subpackets contain the bytes of the file from this
position on. The stream must not have failed when another position is asked for, except for the end of
the file: a stream that has failed is not repositioned.
-/

namespace PuttyNd.Zmodem

open Session Outcome

variable {env : Env} {s s' t : Session} {os : List Session} {r : Option Fault} {is : List Input}
  {content : List UInt8} {log new : List Obs} {ts : List Todo}

theorem getPos_posFrame (type : UInt8) (pos : UInt32) : getPos (posFrame type pos) = pos := by
  apply UInt32.toNat_inj.1
  simp only [getPos, posFrame, UInt32.toNat_add, UInt32.toNat_shiftLeft, UInt8.toNat_toUInt32,
    UInt32.toNat_toUInt8, UInt32.toNat_shiftRight]
  have := pos.toNat_lt
  simp [Nat.shiftLeft_eq, Nat.shiftRight_eq_div_pow]
  omega

/-! ## What has been sent -/

/-- The position in the last header of data, and the data after it. -/
def uploadStep (st : Option (UInt32 × List UInt8)) : Obs → Option (UInt32 × List UInt8)
  | .sendBin32Frame f => if f.type = ZDATA then some (getPos f, []) else st
  | .sendZsda32 data _ => st.map fun p => (p.1, p.2 ++ data)
  | _ => st

def upload (log : List Obs) : Option (UInt32 × List UInt8) := log.foldl uploadStep none

theorem upload_append (o : Obs) : upload (log ++ [o]) = uploadStep (upload log) o := by
  simp [upload]

/-- At any time the data after the last header of data are the bytes of the file from its position on,
as far as they have been sent. When the end of the file is reported they are all, and the position is
the size of the file. -/
def Faithful (content : List UInt8) (log : List Obs) : Prop :=
  ∀ l, l <+: log →
    (∀ pos data, upload l = some (pos, data) → data <+: content.drop pos.toNat) ∧
    ∀ l' f, l = l' ++ [.sendBin32Frame f] → f.type = ZEOF →
      (getPos f).toNat = content.length ∧
        ∀ pos data, upload l = some (pos, data) → data = content.drop pos.toNat

theorem faithful_nil : Faithful content [] := by
  intro l hl
  rw [List.prefix_nil] at hl
  subst hl
  simp [upload]

theorem Faithful.append {o : Obs} (h : Faithful content log)
    (h1 : ∀ pos data, uploadStep (upload log) o = some (pos, data) → data <+: content.drop pos.toNat)
    (h2 : ∀ f, o = .sendBin32Frame f → f.type = ZEOF → (getPos f).toNat = content.length ∧
      ∀ pos data, upload log = some (pos, data) → data = content.drop pos.toNat) :
    Faithful content (log ++ [o]) := by
  intro l hl
  rcases List.prefix_concat_iff.mp hl with rfl | hl
  · rw [upload_append]
    refine ⟨h1, fun l' f hl' hf => ?_⟩
    obtain ⟨-, hof⟩ := List.append_inj' hl' rfl
    obtain rfl : o = .sendBin32Frame f := by simpa using hof
    obtain ⟨h3, h4⟩ := h2 f rfl hf
    refine ⟨h3, fun pos data hu => h4 pos data ?_⟩
    rwa [uploadStep, if_neg (by simp [hf, ZEOF, ZDATA])] at hu
  · exact h l hl

/-- An observation that is no data and no header of data. -/
def isNeutral : Obs → Prop
  | .sendBin32Frame f => f.type ≠ ZDATA ∧ f.type ≠ ZEOF
  | .sendZsda32 _ _ => False
  | _ => True

theorem uploadStep_neutral {o : Obs} (ho : isNeutral o) (st : Option (UInt32 × List UInt8)) :
    uploadStep st o = st := by
  cases o with
  | sendBin32Frame f => exact if_neg ho.1
  | sendZsda32 data fe => exact ho.elim
  | _ => rfl

theorem Faithful.neutral {o : Obs} (h : Faithful content log) (ho : isNeutral o) :
    Faithful content (log ++ [o]) := by
  refine h.append ?_ ?_
  · rw [uploadStep_neutral ho]
    exact (h log List.prefix_rfl).1
  · rintro f rfl hf
    exact absurd hf ho.2

/-! ## The file -/

/-- The file that is sent: its positions agree as long as the stream is good, and then it is at its
end. -/
structure FileOk (content : List UInt8) (f : ZmodemFile) : Prop where
  isOpen : f.file.isOpen = true
  bytes : f.file.content = content
  fileSize : f.fileSize.toNat = content.length
  good : f.file.good = true → f.file.pos = f.pos.toNat ∧ f.pos.toNat ≤ content.length
  failed : f.file.good = false → f.pos.toNat = content.length

theorem FileOk.pos_le {f : ZmodemFile} (h : FileOk content f) : f.pos.toNat ≤ content.length := by
  cases hg : f.file.good with
  | true => exact (h.good hg).2
  | false => exact (h.failed hg).le

theorem fileOk_ofPath (hlen : content.length < 2 ^ 32) :
    FileOk content (ZmodemFile.ofPath true content (UInt32.ofNat content.length)) :=
  { isOpen := rfl, bytes := rfl
    fileSize := by simpa [ZmodemFile.ofPath] using Nat.mod_eq_of_lt hlen
    good := by simp [ZmodemFile.ofPath], failed := by simp [ZmodemFile.ofPath] }

/-- `setPos` sets both positions if the stream is good. -/
theorem FileOk.setPos {f : ZmodemFile} (h : FileOk content f) {pos : UInt32}
    (hpos : pos.toNat ≤ content.length) (hg : f.isGood = true ∨ pos.toNat = content.length) :
    FileOk content (f.setPos pos) ∧ (f.setPos pos).pos = pos := by
  have hle : ¬ pos > f.fileSize := by
    rw [gt_iff_lt, UInt32.lt_iff_toNat_lt, h.fileSize]
    omega
  rw [ZmodemFile.setPos, if_neg hle]
  refine ⟨⟨?_, ?_, h.fileSize, fun hgood => ?_, fun hbad => ?_⟩, rfl⟩
  · simp only [FStream.seekg]
    split_ifs <;> exact h.isOpen
  · simp only [FStream.seekg]
    split_ifs <;> exact h.bytes
  · by_cases h1 : f.file.good = true
    · simpa [FStream.seekg, h1] using hpos
    · simp [FStream.seekg, h1] at hgood
  · simp only [FStream.seekg] at hbad ⊢
    split_ifs at hbad with h1
    · simp [h1] at hbad
    · exact hg.resolve_left (by simpa [ZmodemFile.isGood] using h1)

/-- `read` gets the bytes at the position; if they are the last ones, the stream has failed. -/
theorem FileOk.read {f f' : ZmodemFile} {data : List UInt8} (h : FileOk content f)
    (hlen : content.length < 2 ^ 32) (hr : f.read 1024 = (f', data)) :
    FileOk content f' ∧ data = (content.drop f.pos.toNat).take 1024 ∧
      f'.pos.toNat = f.pos.toNat + data.length := by
  rw [ZmodemFile.read, if_neg (by simp [h.isOpen])] at hr
  have hle := h.pos_le
  cases hg : f.file.good with
  | true =>
    obtain ⟨h1, -⟩ := h.good hg
    have hfr : f.file.read 1024 =
        ({ f.file with
            pos := f.pos.toNat + ((content.drop f.pos.toNat).take 1024).length
            good := decide (((content.drop f.pos.toNat).take 1024).length = 1024) },
          (content.drop f.pos.toNat).take 1024) := by
      simp [FStream.read, hg, h1, h.bytes]
    rw [hfr] at hr
    have hlen' : ((content.drop f.pos.toNat).take 1024).length =
        min 1024 (content.length - f.pos.toNat) := by simp
    generalize (content.drop f.pos.toNat).take 1024 = got at hr hlen'
    obtain ⟨rfl, rfl⟩ := Prod.mk.inj hr
    have hsum : (f.pos + UInt32.ofNat got.length).toNat = f.pos.toNat + got.length := by
      rw [UInt32.toNat_add, UInt32.toNat_ofNat']
      omega
    refine ⟨⟨h.isOpen, h.bytes, h.fileSize, fun _ => ⟨hsum.symm, ?_⟩, fun hbad => ?_⟩, rfl, hsum⟩
    · show (f.pos + UInt32.ofNat got.length).toNat ≤ _
      omega
    · show (f.pos + UInt32.ofNat got.length).toNat = _
      have hne : got.length ≠ 1024 := by simpa using hbad
      omega
  | false =>
    have h1 := h.failed hg
    rw [FStream.read, if_neg (by simp [hg])] at hr
    obtain ⟨rfl, rfl⟩ := Prod.mk.inj hr
    refine ⟨⟨h.isOpen, h.bytes, h.fileSize, fun hgood => ?_, fun _ => ?_⟩, ?_, ?_⟩
    · simp [hg] at hgood
    · simpa using h1
    · simp [h1]
    · simp

/-! ## The session -/

/-- The session sends the file, and what it has sent since the log was `log0` is right. -/
structure Uploading (content : List UInt8) (log0 : List Obs) (s : Session) : Prop where
  isInitialized : s.isInitialized = true
  queue : ∀ e ∈ s.queue, e ∈ postedEvents
  sent : ∃ new, s.log = log0 ++ new ∧ Faithful content new ∧
    ∀ f, s.zmodemFile = some f → FileOk content f ∧
      ∀ pos data, upload new = some (pos, data) → pos.toNat + data.length = f.pos.toNat

variable {log0 : List Obs}

theorem Uploading.congr (h : Uploading content log0 s) (hi : s'.isInitialized = s.isInitialized)
    (hq : s'.queue = s.queue) (hl : s'.log = s.log) (hf : s'.zmodemFile = s.zmodemFile) :
    Uploading content log0 s' :=
  ⟨hi.trans h.isInitialized, hq ▸ h.queue, hl ▸ hf ▸ h.sent⟩

theorem Uploading.observe (h : Uploading content log0 s) {o : Obs} (ho : isNeutral o) :
    Uploading content log0 (s.observe o) := by
  obtain ⟨new, h1, h2, h3⟩ := h.sent
  refine ⟨h.isInitialized, h.queue, new ++ [o], ?_, h2.neutral ho, ?_⟩
  · simp [Session.observe, h1]
  · intro f hf
    obtain ⟨h4, h5⟩ := h3 f hf
    refine ⟨h4, fun pos data hu => h5 pos data ?_⟩
    rwa [upload_append, uploadStep_neutral ho] at hu

theorem Uploading.close (h : Uploading content log0 s) :
    Uploading content log0 { s with zmodemFile := none } := by
  obtain ⟨new, h1, h2, -⟩ := h.sent
  exact ⟨h.isInitialized, h.queue, new, h1, h2, by simp⟩

theorem Uploading.asynHandleEvent (h : Uploading content log0 s) {e : EventId}
    (he : e ∈ postedEvents) : Uploading content log0 (s.asynHandleEvent e) := by
  refine ⟨h.isInitialized, fun e' he' => ?_, h.sent⟩
  rcases List.mem_append.mp he' with he' | he'
  · exact h.queue e' he'
  · rwa [List.mem_singleton.mp he']

theorem Uploading.postUnlessDestroyed (h : Uploading content log0 s) {e : EventId}
    (he : e ∈ postedEvents) : Uploading content log0 (s.postUnlessDestroyed e) := by
  unfold Session.postUnlessDestroyed
  split_ifs
  · exact h
  · exact h.asynHandleEvent he

/-- The header of data for the position of the file. -/
theorem Uploading.header (h : Uploading content log0 s) {f' : ZmodemFile}
    (hf' : FileOk content f') :
    Uploading content log0 ({ s with zmodemFile := some f' }.observe
      (.sendBin32Frame (posFrame ZDATA f'.pos))) := by
  obtain ⟨new, h1, h2, -⟩ := h.sent
  have hstep : uploadStep (upload new) (.sendBin32Frame (posFrame ZDATA f'.pos)) =
      some (f'.pos, []) := by
    rw [uploadStep, if_pos (by rfl), getPos_posFrame]
  refine ⟨h.isInitialized, h.queue, new ++ [.sendBin32Frame (posFrame ZDATA f'.pos)], ?_, ?_, ?_⟩
  · simp [Session.observe, h1]
  · refine h2.append ?_ ?_
    · rw [hstep]
      intro pos data hu
      cases hu
      exact List.nil_prefix
    · intro f hf htype
      cases hf
      exact absurd htype (by simp [posFrame, ZDATA, ZEOF])
  · intro f hf
    cases hf
    refine ⟨hf', fun pos data hu => ?_⟩
    rw [upload_append, hstep] at hu
    cases hu
    simp

/-- A subpacket goes on where the one before it ended. -/
theorem Uploading.data (h : Uploading content log0 s) (hlen : content.length < 2 ^ 32)
    {f f' : ZmodemFile} {data : List UInt8} (hf : s.zmodemFile = some f)
    (hr : f.read 1024 = (f', data)) (fe : UInt8) :
    Uploading content log0 ({ s with zmodemFile := some f' }.observe (.sendZsda32 data fe)) := by
  obtain ⟨new, h1, h2, h3⟩ := h.sent
  obtain ⟨h4, h5⟩ := h3 f hf
  obtain ⟨h6, hdata, hpos⟩ := h4.read hlen hr
  refine ⟨h.isInitialized, h.queue, new ++ [.sendZsda32 data fe], ?_, ?_, ?_⟩
  · simp [Session.observe, h1]
  · refine h2.append ?_ (by simp)
    intro pos data' hu
    obtain ⟨⟨pos, d⟩, hu1, hu2⟩ := Option.map_eq_some_iff.mp hu
    cases hu2
    obtain ⟨rest, hrest⟩ := (h2 new List.prefix_rfl).1 pos d hu1
    have h7 := h5 pos d hu1
    have h8 : content.drop f.pos.toNat = rest := by
      rw [← h7, ← List.drop_drop, ← hrest, List.drop_left]
    rw [← hrest, hdata, h8]
    exact (List.prefix_append_right_inj d).mpr (List.take_prefix _ _)
  · intro f0 hf0
    cases hf0
    refine ⟨h6, fun pos data' hu => ?_⟩
    rw [upload_append] at hu
    obtain ⟨⟨pos, d⟩, hu1, hu2⟩ := Option.map_eq_some_iff.mp hu
    cases hu2
    have h7 := h5 pos d hu1
    show pos.toNat + (d ++ data).length = f'.pos.toNat
    rw [List.length_append]
    omega

/-- The end of the file is reported when all has been sent. -/
theorem Uploading.eof (h : Uploading content log0 s) {f : ZmodemFile} (hf : s.zmodemFile = some f)
    (hg : f.isGood = false) :
    Uploading content log0 (s.observe (.sendBin32Frame (posFrame ZEOF f.pos))) := by
  obtain ⟨new, h1, h2, h3⟩ := h.sent
  obtain ⟨h4, h5⟩ := h3 f hf
  have hend := h4.failed hg
  have hstep : uploadStep (upload new) (.sendBin32Frame (posFrame ZEOF f.pos)) = upload new := by
    rw [uploadStep, if_neg (by simp [posFrame, ZEOF, ZDATA])]
  refine ⟨h.isInitialized, h.queue, new ++ [.sendBin32Frame (posFrame ZEOF f.pos)], ?_, ?_, ?_⟩
  · simp [Session.observe, h1]
  · refine h2.append ?_ ?_
    · rw [hstep]
      exact (h2 new List.prefix_rfl).1
    · intro f0 hf0 _
      cases hf0
      rw [getPos_posFrame]
      refine ⟨hend, fun pos d hu => ?_⟩
      have h6 := h5 pos d hu
      refine ((h2 new List.prefix_rfl).1 pos d hu).eq_of_length ?_
      rw [List.length_drop]
      omega
  · intro f0 hf0
    obtain ⟨h7, h8⟩ := h3 f0 hf0
    refine ⟨h7, fun pos d hu => h8 pos d ?_⟩
    rwa [upload_append, hstep] at hu

theorem Uploading.sendZdata (h : Uploading content log0 s) (hlen : content.length < 2 ^ 32)
    (hn : s.sendZdata = .ok (s', ts)) : ts = [] ∧ Uploading content log0 s' := by
  have hz := sendZdata_cases s
  rw [hn] at hz
  cases hz with
  | later _ => exact ⟨rfl, h.postUnlessDestroyed (by simp [postedEvents])⟩
  | more f f' data _ hf hr _ =>
    exact ⟨rfl, (h.data hlen hf hr _).postUnlessDestroyed (by simp [postedEvents])⟩
  | last f f' data _ hf hr hg => exact ⟨rfl, (h.data hlen hf hr _).eof rfl hg⟩

/-! ## The contract of an upload -/

/-- No other file is chosen. -/
def keepsAction : Action → Prop
  | .changeState st => st ≠ .fileSelected
  | .sendFileInfo => False
  | _ => True

def keepsFile : Todo → Prop
  | .event e => e ∉ [.fileSelected, .entry, .exit]
  | .actions _ as => ∀ a ∈ as, keepsAction a
  | .action a => keepsAction a
  | .toNextState st => st ≠ .fileSelected
  | .zdata => False
  | _ => True

/-- A frame that is handled asks for a position in the file, and the stream has not failed or the
position is the end of the file. -/
structure GoodRequest (content : List UInt8) (s : Session) : Prop where
  type : s.inputFrame.type = ZRPOS
  pos_le : (getPos s.inputFrame).toNat ≤ content.length
  good : ∀ f, s.zmodemFile = some f →
    f.isGood = true ∨ (getPos s.inputFrame).toNat = content.length

def uploadPre (content : List UInt8) (log0 : List Obs) (x : Todo) (s : Session) : Prop :=
  keepsFile x ∧ Uploading content log0 s

def uploadPost (content : List UInt8) (log0 : List Obs) (_ : Todo) (_ s' : Session) : Prop :=
  Uploading content log0 s'

theorem upload_seq (h : Uploading content log0 s) (hx : ∀ x ∈ ts, keepsFile x) :
    Machine.Seq (uploadPre content log0) (uploadPost content log0) ts (Uploading content log0) s := by
  induction ts generalizing s with
  | nil => exact h
  | cons x ts ih =>
    exact ⟨⟨hx x (by simp), h⟩, fun s1 h1 => ih h1 fun y hy => hx y (by simp [hy])⟩

theorem keeps_event {e : EventId} (he : keepsFile (.event e)) (st : StateId) :
    ∀ a ∈ getActionList st e, keepsAction a := by
  simp only [keepsFile, List.mem_cons, List.not_mem_nil, or_false, not_or] at he
  cases st <;> cases e <;> simp_all [getActionList, keepsAction]

theorem keeps_entry {st : StateId} (hst : st ≠ .fileSelected) :
    ∀ a ∈ getActionList st .entry, keepsAction a := by
  cases st <;> simp_all [getActionList, keepsAction]

theorem keeps_exit (st : StateId) : ∀ a ∈ getActionList st .exit, keepsAction a := by
  cases st <;> simp [getActionList, keepsAction]

theorem Uploading.initState (h : Uploading content log0 s) :
    Uploading content log0 s.initState := by
  have h1 : ∀ {s1 : Session}, Uploading content log0 s1 → Uploading content log0
      { s1 with rx := Rx.init, sendFinOnReset := false, uploadFilePath := []
                fileSelectState := .none } := fun h => h.congr rfl rfl rfl rfl
  simp only [Session.initState]
  split_ifs
  · exact h1 (h.close.observe (by trivial))
  · exact h1 ((h.close.observe (by trivial)).asynHandleEvent (by simp [postedEvents]))
  · exact h1 (h.close.observe (by trivial))
  · exact h1 ((h.close.observe (by trivial)).asynHandleEvent (by simp [postedEvents]))
  · exact h1 h

theorem Uploading.parses (h : Uploading content log0 s) {n : Next} (hp : Parses s n)
    (hn : n = .ok (s', ts)) : Uploading content log0 s' ∧ ∀ x ∈ ts, keepsFile x := by
  cases hp <;> cases hn
  · exact ⟨h, by simp⟩
  · exact ⟨h.congr rfl rfl rfl rfl, by simp [keepsFile]⟩
  · exact ⟨h.congr rfl rfl rfl rfl, by simp [keepsFile]⟩

theorem Uploading.action (h : Uploading content log0 s) (hlen : content.length < 2 ^ 32)
    {a : Action} (ha : keepsAction a) (hn : s.action env a = .ok (s', ts)) :
    Uploading content log0 s' ∧ ∀ x ∈ ts, keepsFile x := by
  cases a with
  | changeState st =>
    cases hn
    refine ⟨h, fun x hx => ?_⟩
    simp only [List.mem_append, List.mem_map, List.mem_singleton] at hx
    rcases hx with ⟨a, ha', rfl⟩ | rfl
    · exact keeps_exit _ a ha'
    · exact ha
  | newTimer n | cancelTimer | deleteSelf =>
    cases hn
    exact ⟨h.congr rfl rfl rfl rfl, by simp⟩
  | initState =>
    cases hn
    exact ⟨h.initState, by simp⟩
  | checkFrametype =>
    have hn' : s.checkFrametype = _ := hn
    rcases checkFrametype_cases s with ⟨i, h1⟩ | ⟨i, e, he, -, -, h1⟩
    · rw [h1] at hn'
      cases hn'
      exact ⟨h.congr rfl rfl rfl rfl, by simp [keepsFile]⟩
    · rw [h1] at hn'
      cases hn'
      refine ⟨h.congr rfl rfl rfl rfl, ?_⟩
      rcases he with rfl | rfl | rfl <;> simp [keepsFile]
  | parseHexFrame =>
    have hn' : s.parseHexFrame = _ := hn
    rcases parseHexFrame_cases s with ⟨-, h1⟩ | ⟨-, h1⟩
    · rw [h1] at hn'
      cases hn'
    · exact h.parses h1 hn'
  | parseBinFrame => exact h.parses (parseBinFrame_cases s) hn
  | parseBin32Frame => exact h.parses (parseBin32Frame_cases s) hn
  | handleFrame =>
    cases hn
    have h1 : Uploading content log0 { s with bufferParsed := true } := h.congr rfl rfl rfl rfl
    exact ⟨h1.observe (by trivial), by simp [keepsFile]⟩
  | sendZdata =>
    obtain ⟨rfl, h1⟩ := h.sendZdata hlen hn
    exact ⟨h1, by simp⟩
  | sendZrpos =>
    simp only [Session.action, sendZrpos, Session.file] at hn
    cases hf : s.zmodemFile with
    | none => simp [hf] at hn
    | some f =>
      simp only [hf, ok_bind, pure_eq, Except.ok.injEq, Prod.mk.injEq] at hn
      obtain ⟨rfl, rfl⟩ := hn
      exact ⟨h.observe (by trivial), by simp⟩
  | sendFileInfo => exact ha.elim

theorem handleFrame_zrpos (ht : s.inputFrame.type = ZRPOS) :
    s.handleFrame env =
      match s.zmodemFile with
      | none =>
        .ok (({ s with sendFinOnReset := true }.observe (.sendBin32Frame (posFrame ZCAN 0))).observe
          (.sendBin32Frame (posFrame ZABORT 0)), [.event .reset])
      | some f =>
        ({ s with zmodemFile := some (f.setPos (getPos s.inputFrame)) }.observe
          (.sendBin32Frame (posFrame ZDATA (f.setPos (getPos s.inputFrame)).pos))).sendZdata := by
  rewrite [Session.handleFrame, ht, if_neg (by decide), if_neg (by decide), if_neg (by decide),
    if_neg (by decide), if_neg (by decide), if_neg (by decide), if_pos rfl]
  rfl

/-- A good request is answered with the header for its position and the first data. -/
theorem Uploading.frame (h : Uploading content log0 s) (hlen : content.length < 2 ^ 32)
    (hg : GoodRequest content s) (hn : s.handleFrame env = .ok (s', ts)) :
    Uploading content log0 s' ∧ ∀ x ∈ ts, keepsFile x := by
  rw [handleFrame_zrpos hg.type] at hn
  cases hf : s.zmodemFile with
  | none =>
    simp only [hf] at hn
    cases hn
    have h1 : Uploading content log0 { s with zmodemFile := none, sendFinOnReset := true } :=
      h.close.congr rfl rfl rfl rfl
    have h2 : isNeutral (.sendBin32Frame (posFrame ZCAN 0)) := ⟨by decide, by decide⟩
    have h3 : isNeutral (.sendBin32Frame (posFrame ZABORT 0)) := ⟨by decide, by decide⟩
    exact ⟨(h1.observe h2).observe h3, by simp [keepsFile]⟩
  | some f =>
    simp only [hf] at hn
    obtain ⟨new, -, -, h3⟩ := h.sent
    obtain ⟨h4, -⟩ := h3 f hf
    obtain ⟨h5, h6⟩ := h4.setPos hg.pos_le (hg.good f hf)
    obtain ⟨rfl, h7⟩ := (h.header h5).sendZdata hlen hn
    exact ⟨h7, by simp⟩

theorem upload_contract (env : Env) (log0 : List Obs) (hlen : content.length < 2 ^ 32) :
    Machine.Contract (machine env) (fun s x => x = .frame → GoodRequest content s)
      (uploadPre content log0) (uploadPost content log0) := by
  refine ⟨fun s x s' new hpre hg hs => ?_⟩
  obtain ⟨hx, h⟩ := hpre
  have hs' : s.step env x = .ok (s', new) := hs
  suffices h1 : Uploading content log0 s' ∧ ∀ y ∈ new, keepsFile y from upload_seq h1.1 h1.2
  cases x with
  | event e =>
    simp only [Session.step, handleEvent, h.isInitialized, not_true, if_false,
      Except.ok.injEq] at hs'
    have hk := keeps_event hx s.curState
    cases ha : getActionList s.curState e with
    | nil =>
      simp only [ha, Prod.mk.injEq] at hs'
      obtain ⟨rfl, rfl⟩ := hs'
      exact ⟨h, by simp [keepsFile, keepsAction]⟩
    | cons a as =>
      simp only [ha, Prod.mk.injEq] at hs'
      obtain ⟨rfl, rfl⟩ := hs'
      exact ⟨h, by simpa [keepsFile, ha] using hk⟩
  | actions st as =>
    cases as with
    | nil =>
      cases hs'
      exact ⟨h, by simp⟩
    | cons a as =>
      simp only [Session.step, Except.ok.injEq, Prod.mk.injEq] at hs'
      obtain ⟨rfl, rfl⟩ := hs'
      refine ⟨h, ?_⟩
      split_ifs
      · simp
      · simpa [keepsFile] using hx
  | action a => exact h.action hlen hx hs'
  | toNextState st =>
    cases hs'
    have h1 : Uploading content log0 { s with curState := st } := h.congr rfl rfl rfl rfl
    refine ⟨h1.observe (by trivial), ?_⟩
    have := keeps_entry hx
    simpa [keepsFile] using this
  | setInitialized =>
    cases hs'
    exact ⟨h.congr h.isInitialized.symm rfl rfl rfl, by simp⟩
  | frame => exact h.frame hlen (hg rfl) hs'
  | zdata => exact hx.elim
  | clearFileSelect | clearParsed =>
    cases hs'
    exact ⟨h.congr rfl rfl rfl rfl, by simp⟩

/-- Every input but the choice of another file keeps to the contract. -/
theorem upload_input {i : Input} (h : Uploading content log0 s) (hi : ∀ path, i ≠ .fileSelected path)
    (hin : s.input i = some (s', ts)) : Uploading content log0 s' ∧ ∀ x ∈ ts, keepsFile x := by
  by_cases hd : s.curState = .destroy
  · simp [Session.input, hd] at hin
  unfold Session.input at hin
  rw [if_neg hd] at hin
  cases i with
  | network str =>
    simp only [processNetworkInput] at hin
    split_ifs at hin
    · cases hin
      exact ⟨h, by simp⟩
    · cases hin
      exact ⟨h.observe (by trivial), by simp [keepsFile]⟩
    · cases hin
      exact ⟨h.congr rfl rfl rfl rfl, by simp [keepsFile]⟩
  | fileSelected path => exact absurd rfl (hi path)
  | reset =>
    cases hin
    exact ⟨h.observe (by trivial), by simp [keepsFile]⟩
  | posted e =>
    simp only at hin
    split_ifs at hin with hq
    cases hin
    refine ⟨⟨h.isInitialized, fun e' he' => h.queue e' (List.mem_of_mem_erase he'), h.sent⟩, ?_⟩
    have := h.queue e hq
    simp only [postedEvents, List.mem_cons, List.not_mem_nil, or_false] at this
    rcases this with rfl | rfl | rfl | rfl <;> simp [keepsFile]
  | timeout =>
    simp only at hin
    split_ifs at hin
    cases hin
    exact ⟨h.congr rfl rfl rfl rfl, by simp [keepsFile]⟩
  | sendBuffer size =>
    cases hin
    exact ⟨h.congr rfl rfl rfl rfl, by simp⟩
  | destroy =>
    cases hin
    refine ⟨?_, by simp⟩
    have h1 : Uploading content log0 { s with isDestroyed := true } := h.congr rfl rfl rfl rfl
    exact h1.asynHandleEvent
      (by simp [postedEvents])

/-- **In every run of a session that sends a file of less than 4 GiB, in which only positions in the
file are asked for, and another position than the end only while the stream has not failed, the data
after each header are those of the file from its position on, and the end is reported at its size.** -/
theorem upload_faithful (hlen : content.length < 2 ^ 32) (hi : s.isInitialized = true)
    (hq : ∀ e ∈ s.queue, e ∈ postedEvents)
    (hfile : s.zmodemFile =
      some (ZmodemFile.ofPath true content (UInt32.ofNat content.length)))
    (h : Runs env s is os t r) (hin : ∀ path, Input.fileSelected path ∉ is)
    (hreq : ∀ s', Visited env s is s' .frame → GoodRequest content s') :
    ∃ new, t.log = s.log ++ new ∧ Faithful content new := by
  have hs : Uploading content s.log s := by
    refine ⟨hi, hq, [], by simp, faithful_nil, fun f hf => ?_⟩
    rw [hfile] at hf
    cases hf
    exact ⟨fileOk_ofPath hlen, by simp [upload]⟩
  obtain ⟨h1, h2⟩ := h.contract (upload_contract env s.log hlen)
    (fun s1 i s2 ts hi h1 h2 => by
      obtain ⟨h3, h4⟩ := upload_input h1 (fun path hp => hin path (hp ▸ hi)) h2
      exact upload_seq h3 h4)
    (fun s' x hx hxf => hreq s' (hxf ▸ hx)) hs
  have hsent : Uploading content s.log t := by
    cases r with
    | none => exact h1 rfl
    | some e =>
      obtain ⟨x, h3, -, -⟩ := h2 e rfl
      exact h3.2
  obtain ⟨new, h3, h4, -⟩ := hsent.sent
  exact ⟨new, h3, h4⟩

/-- An environment with one file. -/
def Env.oneFile (content : List UInt8) : Env :=
  { asserts := true, created := fun _ => true
    getFileInfo := fun _ => some { basename := [97], size := content.length, lastModified := 0
                                   readable := true, content := content } }

/-- A session that has announced the file. -/
def chosen (content : List UInt8) : Session :=
  { Session.new Rx.init ⟨ZRINIT, 0, 0, 0, 0⟩ with
    curState := .fileSelected, isInitialized := true, bufferParsed := true, sendFinOnReset := true
    isSz := false, fileSelectState := .selected
    zmodemFile := some (ZmodemFile.ofPath true content (UInt32.ofNat content.length)) }

/-- The inputs that lead there; a new session loses the first. -/
def choosing : List Input :=
  [.network (sendFrame ⟨ZRINIT, 0, 0, 0, 0⟩), .network (sendFrame ⟨ZRINIT, 0, 0, 0, 0⟩),
    .fileSelected [97]]

theorem upload_faithful_ab : ∃ os t r,
    Runs (Env.oneFile [97, 98]) (chosen [97, 98]) [.network (sendFrame (posFrame ZRPOS 1))] os t r ∧
    ∃ new, t.log = (chosen [97, 98]).log ++ new ∧ Faithful [97, 98] new := by
  obtain ⟨os, t, r, h1, -⟩ := exists_runs (Env.oneFile [97, 98]) 60
    (s := chosen [97, 98]) (i := [.network (sendFrame (posFrame ZRPOS 1))])
    (p := fun _ => true) (by decide +kernel)
  have h2 : ∀ p ∈ (chosen [97, 98]).visited (Env.oneFile [97, 98]) 60
      [.network (sendFrame (posFrame ZRPOS 1))], p.2 = .frame → p.1.inputFrame.type = ZRPOS ∧
        (getPos p.1.inputFrame).toNat ≤ 2 ∧ ∀ f ∈ p.1.zmodemFile, f.isGood = true := by
    decide +kernel
  refine ⟨os, t, r, h1, upload_faithful (by decide) rfl (by simp [chosen, Session.new]) rfl h1
    (by simp) fun s' hx => ?_⟩
  obtain ⟨h3, h4, h5⟩ := h2 _ (hx.mem_visited (by decide +kernel)) rfl
  exact ⟨h3, h4, fun f hf => Or.inl (h5 f hf)⟩

/-- When the start of the file is asked for again after its end, no data are sent, and the start is
reported as the end. -/
theorem upload_unfaithful : ∃ os t r,
    Runs (Env.oneFile [97, 98]) (Session.new Rx.init default)
      (choosing ++ [.network (sendFrame (posFrame ZRPOS 0)), .network (sendFrame (posFrame ZRPOS 0))])
      os t r ∧ ¬ Faithful [97, 98] t.log := by
  obtain ⟨os, t, r, h1, h2⟩ := exists_runs (Env.oneFile [97, 98]) 60
    (s := Session.new Rx.init default) (i := choosing ++
      [.network (sendFrame (posFrame ZRPOS 0)), .network (sendFrame (posFrame ZRPOS 0))])
    (p := fun p => p.2.1.log.getLast? = some (.sendBin32Frame (posFrame ZEOF 0))) (by decide +kernel)
  refine ⟨os, t, r, h1, fun h3 => ?_⟩
  obtain ⟨l', h4⟩ := List.getLast?_eq_some_iff.mp (of_decide_eq_true h2)
  have h5 := ((h3 t.log List.prefix_rfl).2 l' _ h4 rfl).1
  rw [getPos_posFrame] at h5
  simp at h5

end PuttyNd.Zmodem
