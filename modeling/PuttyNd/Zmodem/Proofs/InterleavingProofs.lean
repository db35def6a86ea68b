import PuttyNd.Zmodem.Proofs.HeaderProofs
import PuttyNd.Zmodem.Proofs.UploadProofs

/-!
# Proofs: the order of events in an upload

A session that sends a file is in one of four phases, as long as a header arrives only when no event is
pending: it waits for a header, it is about to send, the send buffer is full, or the timer runs. In
these phases no event is undefined.
-/

namespace PuttyNd.Zmodem

open Session Outcome

variable {env : Env} {s s' t : Session} {os : List Session} {r : Option Fault} {is : List Input}
  {log : List Obs} {ts : List Todo}

/-! ## What has been sent -/

/-- The numbers of last subpackets and of reports of the end since the last header of data. -/
def endsStep (st : Option (ℕ × ℕ)) : Obs → Option (ℕ × ℕ)
  | .sendBin32Frame f =>
    if f.type = ZDATA then some (0, 0)
    else if f.type = ZEOF then st.map fun p => (p.1, p.2 + 1)
    else st
  | .sendZsda32 _ frameend =>
    if frameend = ZCRCE then st.map fun p => (p.1 + 1, p.2) else st
  | _ => st

def ends (log : List Obs) : Option (ℕ × ℕ) := log.foldl endsStep none

theorem ends_append (o : Obs) : ends (log ++ [o]) = endsStep (ends log) o := by
  simp [ends]

/-- There is no header of data, or it was followed by one last subpacket and one report of the end. -/
def Complete (log : List Obs) : Prop := ends log = none ∨ ends log = some (1, 1)

/-- The session has not been ended, no end has been sent twice, and the data after each header but the
last are complete. -/
def Survives (log : List Obs) : Prop :=
  ∀ l, l <+: log →
    (∀ p, ends l = some p → p.1 ≤ 1 ∧ p.2 ≤ 1) ∧
    (∀ l' f, l = l' ++ [.sendBin32Frame f] → f.type = ZDATA → Complete l') ∧
    ∀ l' st, l = l' ++ [.enter st] → st ≠ .end ∧ st ≠ .idle

theorem survives_nil : Survives [] := by
  intro l hl
  rw [List.prefix_nil] at hl
  subst hl
  simp [ends]

theorem Survives.append {o : Obs} (h : Survives log)
    (h1 : ∀ p, endsStep (ends log) o = some p → p.1 ≤ 1 ∧ p.2 ≤ 1)
    (h2 : ∀ f, o = .sendBin32Frame f → f.type = ZDATA → Complete log)
    (h3 : ∀ st, o = .enter st → st ≠ .end ∧ st ≠ .idle) : Survives (log ++ [o]) := by
  intro l hl
  rcases List.prefix_concat_iff.mp hl with rfl | hl
  · rw [ends_append]
    refine ⟨h1, fun l' f hl' => ?_, fun l' st hl' => ?_⟩
    · obtain ⟨rfl, ho⟩ := List.append_inj' hl' rfl
      exact h2 f (by simpa using ho)
    · obtain ⟨rfl, ho⟩ := List.append_inj' hl' rfl
      exact h3 st (by simpa using ho)
  · exact h l hl

/-- An observation that is no data, no header of data, and not the end of the session. -/
def keepsEnds : Obs → Prop
  | .sendBin32Frame f => f.type ≠ ZDATA ∧ f.type ≠ ZEOF
  | .sendZsda32 _ frameend => frameend ≠ ZCRCE
  | .enter st => st ≠ .end ∧ st ≠ .idle
  | _ => True

theorem endsStep_keeps {o : Obs} (ho : keepsEnds o) (st : Option (ℕ × ℕ)) : endsStep st o = st := by
  cases o with
  | sendBin32Frame f => rw [endsStep, if_neg ho.1, if_neg ho.2]
  | sendZsda32 data fe => exact if_neg ho
  | _ => rfl

theorem Survives.keeps {o : Obs} (h : Survives log) (ho : keepsEnds o) : Survives (log ++ [o]) := by
  refine h.append ?_ ?_ ?_
  · rw [endsStep_keeps ho]
    exact (h log List.prefix_rfl).1
  · rintro f rfl hf
    exact absurd hf ho.1
  · rintro st rfl
    exact ho

/-- What the session has sent since its log was `log0`, with the counts `n`. -/
def Sent (log0 : List Obs) (s : Session) (n : Option (ℕ × ℕ)) : Prop :=
  ∃ new, s.log = log0 ++ new ∧ Survives new ∧ ends new = n

variable {log0 : List Obs} {n : Option (ℕ × ℕ)}

theorem Sent.keeps (h : Sent log0 s n) {o : Obs} (ho : keepsEnds o) : Sent log0 (s.observe o) n := by
  obtain ⟨new, h1, h2, h3⟩ := h
  exact ⟨new ++ [o], by simp [observe, h1], h2.keeps ho, by rw [ends_append, endsStep_keeps ho, h3]⟩

theorem Sent.congr (h : Sent log0 s n) (hl : s'.log = s.log) : Sent log0 s' n := by
  obtain ⟨new, h1, h2⟩ := h
  exact ⟨new, hl.trans h1, h2⟩

theorem Sent.header (h : Sent log0 s n) (hn : n = none ∨ n = some (1, 1)) (pos : UInt32) :
    Sent log0 (s.observe (.sendBin32Frame (posFrame ZDATA pos))) (some (0, 0)) := by
  obtain ⟨new, h1, h2, rfl⟩ := h
  have hstep : ∀ st, endsStep st (.sendBin32Frame (posFrame ZDATA pos)) = some (0, 0) :=
    fun st => by simp [endsStep, posFrame]
  refine ⟨new ++ [.sendBin32Frame (posFrame ZDATA pos)], by simp [observe, h1], h2.append ?_ ?_ ?_,
    by rw [ends_append, hstep]⟩
  · rw [hstep]
    rintro p hp
    cases hp
    simp
  · intro f hf _
    exact hn
  · simp

theorem Sent.last (h : Sent log0 s (some (0, 0))) (data : List UInt8) (pos : UInt32) :
    Sent log0 ((s.observe (.sendZsda32 data ZCRCE)).observe (.sendBin32Frame (posFrame ZEOF pos)))
      (some (1, 1)) := by
  obtain ⟨new, h1, h2, h3⟩ := h
  have h4 : ends (new ++ [.sendZsda32 data ZCRCE]) = some (1, 0) := by
    rw [ends_append, h3]
    rfl
  have h5 : endsStep (some (1, 0)) (.sendBin32Frame (posFrame ZEOF pos)) = some (1, 1) := rfl
  have h6 : Survives (new ++ [.sendZsda32 data ZCRCE]) := by
    refine h2.append ?_ (by simp) (by simp)
    rw [← ends_append, h4]
    intro p hp
    cases hp
    simp
  refine ⟨new ++ [.sendZsda32 data ZCRCE] ++ [.sendBin32Frame (posFrame ZEOF pos)],
    by simp [observe, h1], h6.append ?_ ?_ (by simp), by rw [ends_append, h4, h5]⟩
  · rw [h4, h5]
    intro p hp
    cases hp
    simp
  · intro f hf htype
    cases hf
    exact absurd htype (by simp [posFrame, ZEOF, ZDATA])

/-! ## The phases -/

/-- A session that sends a file and has received no part of a header. -/
structure Uploader (s : Session) : Prop where
  isInitialized : s.isInitialized = true
  isDestroyed : s.isDestroyed = false
  file : ∃ f, s.zmodemFile = some f ∧ (f.file.good = true → f.file.isOpen = true)
  buffer : s.rx.buffer = []
  index : s.rx.decodeIndex = 0 ∧ s.rx.lastCheckExcaped = 0 ∧ s.rx.lastCheckExcapedSaved = 0

/-- What an upload does next. -/
inductive Phase where
  /-- It waits for a header. -/
  | waiting
  /-- `SEND_ZDATA_EVT` is pending. -/
  | sending
  /-- `SEND_ZDATA_LATER_EVT` is pending. -/
  | full
  /-- The timer runs. -/
  | timer
deriving DecidableEq

def InPhase (log0 : List Obs) (s : Session) : Phase → Prop
  | .waiting => s.curState ∈ [.fileSelected, .handleFrame, .sendZdata] ∧ s.queue = [] ∧
      s.timer = false ∧ (Sent log0 s none ∨ Sent log0 s (some (1, 1)))
  | .sending => s.curState ∈ [.handleFrame, .sendZdata] ∧ s.queue = [.sendZdata] ∧
      s.timer = false ∧ Sent log0 s (some (0, 0))
  | .full => s.curState = .sendZdata ∧ s.queue = [.sendZdataLater] ∧ s.timer = false ∧
      Sent log0 s (some (0, 0))
  | .timer => s.curState = .sendFlowCtrl ∧ s.queue = [] ∧ s.timer = true ∧
      Sent log0 s (some (0, 0))

theorem Uploader.congr (h : Uploader s) (hi : s'.isInitialized = s.isInitialized)
    (hd : s'.isDestroyed = s.isDestroyed) (hf : s'.zmodemFile = s.zmodemFile)
    (hb : s'.rx = s.rx) : Uploader s' :=
  ⟨hi.trans h.isInitialized, hd.trans h.isDestroyed, hf ▸ h.file, hb ▸ h.buffer, hb ▸ h.index⟩

theorem read_isOpen (f : FStream) (n : ℕ) : (f.read n).1.isOpen = f.isOpen := by
  unfold FStream.read
  split_ifs <;> rfl

theorem read_open {f f' : ZmodemFile} {data : List UInt8}
    (hf : f.file.good = true → f.file.isOpen = true) (hr : f.read 1024 = (f', data)) :
    f'.file.good = true → f'.file.isOpen = true := by
  unfold ZmodemFile.read at hr
  split_ifs at hr with ho
  · cases hr
    exact fun _ => (read_isOpen f.file 1024).trans ho
  · cases hr
    exact hf

/-- `sendZdata` in the midst of the data after a header. -/
theorem exists_sendZdata (h : Uploader s) (hs : s.curState ∈ [.handleFrame, .sendZdata])
    (hq : s.queue = []) (ht : s.timer = false) (hsent : Sent log0 s (some (0, 0)))
    (hbuf : s.sendBufferSize ≤ 1024 * 1024 ∨ s.curState = .sendZdata) :
    ∃ s' ph, s.sendZdata = .ok (s', []) ∧ Uploader s' ∧ InPhase log0 s' ph := by
  have hpost : ∀ (s1 : Session) (e : EventId), s1.isDestroyed = s.isDestroyed →
      s1.postUnlessDestroyed e = s1.asynHandleEvent e := by
    intro s1 e hd
    rw [Session.postUnlessDestroyed, hd, h.isDestroyed]
    rfl
  obtain ⟨f, hf, hopen⟩ := h.file
  have hz := sendZdata_cases s
  generalize s.sendZdata = res at hz
  cases hz with
  | later hfull =>
    rw [hpost s _ rfl]
    refine ⟨_, .full, rfl, h.congr rfl rfl rfl rfl, hbuf.resolve_left (by omega), ?_, ht,
      hsent.congr rfl⟩
    simp [asynHandleEvent, hq]
  | nullFile _ hnone => simp [hf] at hnone
  | more f0 f' data _ hf0 hr _ =>
    have hp := hpost ({ s with zmodemFile := some f' }.observe (.sendZsda32 data ZCRCG)) .sendZdata rfl
    rw [hp]
    cases hf.symm.trans hf0
    have h1 : Uploader ({ s with zmodemFile := some f' }.observe (.sendZsda32 data ZCRCG)) :=
      ⟨h.isInitialized, h.isDestroyed, ⟨f', rfl, read_open hopen hr⟩, h.buffer, h.index⟩
    have h2 : Sent log0 { s with zmodemFile := some f' } (some (0, 0)) := hsent.congr rfl
    refine ⟨_, .sending, rfl, h1.congr rfl rfl rfl rfl, hs, ?_, ht,
      (h2.keeps (o := .sendZsda32 data ZCRCG) (by simp [keepsEnds, ZCRCG, ZCRCE])).congr rfl⟩
    simp [asynHandleEvent, observe, hq]
  | last f0 f' data _ hf0 hr _ =>
    cases hf.symm.trans hf0
    have h1 : Uploader { s with zmodemFile := some f' } :=
      ⟨h.isInitialized, h.isDestroyed, ⟨f', rfl, read_open hopen hr⟩, h.buffer, h.index⟩
    have h2 : Sent log0 { s with zmodemFile := some f' } (some (0, 0)) := hsent.congr rfl
    refine ⟨_, .waiting, rfl, h1.congr rfl rfl rfl rfl, ?_, hq, ht, Or.inr (h2.last data f'.pos)⟩
    simp only [List.mem_cons, List.not_mem_nil, or_false] at hs ⊢
    exact Or.inr hs

variable (env) in
/-- The pending event or the timer: the next data are sent. -/
theorem exec_sendZdata {e : EventId} (h : Uploader s) (hq : s.queue = [])
    (ht : s.timer = true → s.curState = .sendFlowCtrl) (hsent : Sent log0 s (some (0, 0)))
    (ha : getActionList s.curState e = [.changeState .sendZdata]) :
    ∃ s' ph, (machine env).Exec s [.event e] [] s' none ∧ Uploader s' ∧ InPhase log0 s' ph := by
  have hlog : Sent log0 (s.toState .sendZdata) (some (0, 0)) := by
    have := (hsent.keeps (o := .enter .sendZdata) (by simp [keepsEnds]))
    exact this.congr (by simp)
  obtain ⟨s', ph, h1, h2, h3⟩ := exists_sendZdata (s := s.toState .sendZdata)
    (h.congr (by simp) (by simp) (by simp) (by simp)) (by simp) (by simpa using hq)
    (toState_timer _ ht) hlog (Or.inr rfl)
  exact ⟨s', ph, exec_event_changeState h.isInitialized ha
    (exec_step (by simp) h1 (exec_done (by simp))), h2, h3⟩

/-! ## Headers -/

theorem Sent.append (h : Sent log0 s n) {l : List Obs} (hl : ∀ o ∈ l, keepsEnds o)
    (hs : s'.log = s.log ++ l) : Sent log0 s' n := by
  induction l generalizing s with
  | nil => exact h.congr (by simpa using hs)
  | cons o l ih =>
    exact ih (h.keeps (hl o (by simp))) (fun o' ho' => hl o' (by simp [ho'])) (by simpa using hs)

/-- The header by which the peer asks for a position. -/
def zrpos (pos : UInt32) : List UInt8 := sendFrame (posFrame ZRPOS pos)

theorem Uploader.ready (h : Uploader s)
    (hs : s.curState ∈ [.handleFrame, .sendZdata, .sendFlowCtrl, .fileSelected]) : Ready s :=
  { isInitialized := h.isInitialized, curState := hs
    decodeIndex_le := by rw [h.index.1]; omega
    lastCheckExcaped_le := by rw [h.index.2.1]; omega
    lastCheckExcapedSaved_le := by rw [h.index.2.2]; omega
    noPad := by simp [h.buffer] }

theorem waiting_ready (h : Uploader s) (hw : InPhase log0 s .waiting) :
    Ready s ∧ s.curState ≠ .sendFlowCtrl := by
  have h1 := hw.1
  simp only [List.mem_cons, List.not_mem_nil, or_false] at h1
  constructor
  · refine h.ready ?_
    rcases h1 with h1 | h1 | h1 <;> simp [h1]
  · rcases h1 with h1 | h1 | h1 <;> simp [h1]

theorem handled_uploader (h : Uploader s) (f : Frame) : Uploader (s.handled .hex f) := by
  have h1 : (s.handled .hex f).isDestroyed = s.isDestroyed := by
    simp [handled, handling, parsed, observe, eatBuffer, decodeTo, parsing]
  have h2 : (s.handled .hex f).zmodemFile = s.zmodemFile := by
    simp [handled, handling, parsed, observe, eatBuffer, decodeTo, parsing]
  refine ⟨by simpa using h.isInitialized, h1.trans h.isDestroyed, h2 ▸ h.file, handled_rx.1, ?_⟩
  simp [handled, handling, parsed, observe, eatBuffer, decodeTo, parsing, Rx.eatBuffer]

theorem handled_waiting (hw : InPhase log0 s .waiting) (f : Frame) :
    (s.handled .hex f).curState = .handleFrame ∧ (s.handled .hex f).queue = [] ∧
      (s.handled .hex f).timer = false ∧
      (s.handled .hex f).sendBufferSize = s.sendBufferSize ∧
      (Sent log0 (s.handled .hex f) none ∨ Sent log0 (s.handled .hex f) (some (1, 1))) := by
  obtain ⟨-, hq, ht, hsent⟩ := hw
  have hlog : ∀ n, Sent log0 s n → Sent log0 (s.handled .hex f) n := by
    intro n hn
    refine hn.append ?_ handled_log
    simp [keepsEnds, HeaderForm.state]
  refine ⟨rfl, ?_, ?_, ?_, hsent.imp (hlog _) (hlog _)⟩
  · simp [handled, handling, parsed, observe, eatBuffer, decodeTo, parsing, hq]
  · have h1 : ({ s with bufferParsed := false }.toState .chkFrameType).timer = false :=
      toState_timer _ (by simp [ht])
    have h2 := toState_timer (s := { s with bufferParsed := false }.toState .chkFrameType)
      HeaderForm.hex.state (by simp [h1])
    exact toState_timer .handleFrame (by simp [parsed, eatBuffer, decodeTo, parsing, h2])
  · simp [handled, handling, parsed, observe, eatBuffer, decodeTo, parsing]

variable (env) in
/-- A header that arrives while nothing is pending starts the data anew. -/
theorem exec_zrpos (h : Uploader s) (hw : InPhase log0 s .waiting) (pos : UInt32)
    (hbuf : s.sendBufferSize ≤ 1024 * 1024) :
    ∃ s' ph, (∀ ts, Done ts → (machine env).Exec (s.handled .hex (posFrame ZRPOS pos))
      (.frame :: ts) [s.handled .hex (posFrame ZRPOS pos)] s' none) ∧
      Uploader s' ∧ InPhase log0 s' ph := by
  have h1 := handled_uploader h (posFrame ZRPOS pos)
  obtain ⟨h2, h3, h4, h5, h6⟩ := handled_waiting hw (posFrame ZRPOS pos)
  have hin : (s.handled .hex (posFrame ZRPOS pos)).inputFrame = posFrame ZRPOS pos :=
    handled_inputFrame
  generalize s.handled .hex (posFrame ZRPOS pos) = sH at h1 h2 h3 h4 h5 h6 hin
  obtain ⟨f, hf, hopen⟩ := h1.file
  have hopen' : (f.setPos pos).file.good = true → (f.setPos pos).file.isOpen = true := by
    simp only [ZmodemFile.setPos, FStream.seekg]
    split_ifs <;> exact hopen
  have hsent : Sent log0 ({ sH with zmodemFile := some (f.setPos pos) }.observe
      (.sendBin32Frame (posFrame ZDATA (f.setPos pos).pos))) (some (0, 0)) := by
    rcases h6 with h6 | h6
    · exact Sent.header (s := { sH with zmodemFile := some (f.setPos pos) }) (h6.congr rfl)
        (Or.inl rfl) _
    · exact Sent.header (s := { sH with zmodemFile := some (f.setPos pos) }) (h6.congr rfl)
        (Or.inr rfl) _
  obtain ⟨s', ph, h7, h8, h9⟩ := exists_sendZdata
    (s := { sH with zmodemFile := some (f.setPos pos) }.observe
      (.sendBin32Frame (posFrame ZDATA (f.setPos pos).pos)))
    ⟨h1.isInitialized, h1.isDestroyed, ⟨_, rfl, hopen'⟩, h1.buffer, h1.index⟩
    (by simp [observe, h2]) h3 h4 hsent (Or.inl (by simpa [observe, h5] using hbuf))
  have hframe : sH.handleFrame env = .ok (s', []) := by
    have hpos : getPos sH.inputFrame = pos := by rw [hin, getPos_posFrame]
    simp only [handleFrame_zrpos (by rw [hin]; rfl : sH.inputFrame.type = ZRPOS), hf, hpos]
    exact h7
  exact ⟨s', ph, fun ts hd => exec_frame hframe (exec_done hd), h8, h9⟩

/-! ## Inputs -/

/-- The chunks in which headers arrive: each in one chunk, or in two of at least 7 bytes. -/
inductive Headers : List (List UInt8) → Prop
  | nil : Headers []
  | whole (pos : UInt32) {cs : List (List UInt8)} : Headers cs → Headers (zrpos pos :: cs)
  | split (pos : UInt32) {c c' : List UInt8} {cs : List (List UInt8)} : zrpos pos = c ++ c' →
    7 ≤ c.length → 7 ≤ c'.length → Headers cs → Headers (c :: c' :: cs)

/-- The chunks from the network. -/
def chunks : List Input → List (List UInt8)
  | [] => []
  | .network c :: is => c :: chunks is
  | _ :: is => chunks is

/-- What happens in an upload: chunks arrive, posted events and the timer are delivered, and the fill of
the send buffer changes. -/
def uploadInput : Input → Prop
  | .network _ | .posted _ | .timeout | .sendBuffer _ => True
  | _ => False

/-- The session is in a phase, or has received the first part of a header while it waited. The chunks
`cs` are still to come. -/
inductive Upload (log0 : List Obs) : Session → List (List UInt8) → Prop
  | phase {s : Session} {p : Phase} {cs : List (List UInt8)} :
    Uploader s → InPhase log0 s p → Headers cs → Upload log0 s cs
  | part {s : Session} {pos : UInt32} {c c' : List UInt8} {cs : List (List UInt8)} :
    Uploader s → InPhase log0 s .waiting → zrpos pos = c ++ c' → 7 ≤ c.length → 7 ≤ c'.length →
    Headers cs → Upload log0 (s.parsing .hex c) (c' :: cs)

variable {cs : List (List UInt8)}

theorem length_zrpos (pos : UInt32) : (zrpos pos).length = 21 := by
  simp [zrpos, sendFrame, HEX_PREFIX, length_convPlain2Hex, posFrame, ZRPOS, ZFIN, ZACK]

/-- Nothing is pending. -/
def quiet (s : Session) : Prop := s.queue = [] ∧ s.timer = false

theorem waiting_of_quiet {ph : Phase} (h : InPhase log0 s ph) (hq : quiet s) : ph = .waiting := by
  cases ph with
  | waiting => rfl
  | sending => simp [quiet, h.2.1] at hq
  | full => simp [quiet, h.2.1] at hq
  | timer => simp [quiet, h.2.2.1] at hq

/-- The rest of a computation is a header being handled. -/
theorem upload_handled (h : Uploader s) (hw : InPhase log0 s .waiting) (pos : UInt32) {s0 : Session}
    (hx : ∀ os t r, (∀ ts, Done ts → (machine env).Exec (s.handled .hex (posFrame ZRPOS pos))
      (.frame :: ts) os t r) → (machine env).Exec s0 ts os t r)
    (hbuf : ∀ os t r, (machine env).Exec s0 ts os t r → ∀ sH ∈ os, sH.sendBufferSize ≤ 1024 * 1024)
    (hcs : Headers cs) :
    ∃ t os, (machine env).Exec s0 ts os t none ∧ Upload log0 t cs := by
  have hle : s.sendBufferSize ≤ 1024 * 1024 := by
    obtain ⟨t, r, h1⟩ := exec_handled env .hex (f := posFrame ZRPOS pos)
      h.isInitialized
    have h2 := hbuf _ _ _ (hx _ _ _ h1) _ (List.mem_singleton_self _)
    rwa [(handled_waiting hw _).2.2.2.1] at h2
  obtain ⟨t, ph, h1, h2, h3⟩ := exec_zrpos env h hw pos hle
  exact ⟨t, _, hx _ _ _ h1, .phase h2 h3 hcs⟩

/-- A chunk that arrives while nothing is pending. -/
theorem upload_network {c : List UInt8} (h : Upload log0 s (c :: cs)) (hq : quiet s)
    (hin : s.input (.network c) = some (s', ts))
    (hbuf : ∀ os t r, (machine env).Exec s' ts os t r → ∀ sH ∈ os, sH.sendBufferSize ≤ 1024 * 1024) :
    ∃ t os, (machine env).Exec s' ts os t none ∧ Upload log0 t cs := by
  generalize hcs : c :: cs = cs0 at h
  cases h with
  | phase h1 h2 h3 =>
    rename_i ph
    obtain rfl := waiting_of_quiet h2 hq
    obtain ⟨h4, h5⟩ := waiting_ready h1 h2
    subst hcs
    cases h3 with
    | whole pos h6 =>
      have hfeed := input_feed (c := zrpos pos) (ready_ne h4)
        (header_head .hex (f := posFrame ZRPOS pos) (List.append_nil _).symm)
      rw [hfeed] at hin
      cases hin
      exact upload_handled h1 h2 pos
        (fun os t r hx => exec_beyond .hex h4 h5 (header_eq .hex (posFrame ZRPOS pos))
          (body_ne_nil .hex _) (exec_parse h1.isInitialized hx)) hbuf h6
    | split pos h6 h7 h8 h9 =>
      rename_i c' cs'
      have hfeed := input_feed (c := c) (ready_ne h4)
        (header_head .hex (f := posFrame ZRPOS pos) (q := c') h6)
      rw [hfeed] at hin
      cases hin
      have hlen := congrArg List.length h6
      rw [length_zrpos, List.length_append] at hlen
      obtain ⟨h10, h11⟩ := header_split .hex (f := posFrame ZRPOS pos) (q := c') h6
        (by omega)
      refine ⟨_, [], exec_part .hex (f := posFrame ZRPOS pos) (q := c') h4 h5 h10 ?_ h11 ?_ ?_,
        .part h1 h2 h6 h7 h8 h9⟩
      · rw [ne_eq, List.drop_eq_nil_iff]
        omega
      · rintro rfl
        simp at h8
      · rw [List.length_drop]
        omega
  | part h1 h2 h3 h4 h5 h6 =>
    rename_i s0 pos c0 c1 cs1
    cases hcs
    rw [input_parsing] at hin
    cases hin
    exact upload_handled h1 h2 pos
      (fun os t r hx => exec_rest .hex (f := posFrame ZRPOS pos) h1.isInitialized h3
        (by omega) hx) hbuf h6

theorem parsing_quiet (hw : InPhase log0 s .waiting) (c : List UInt8) :
    quiet (s.parsing .hex c) := by
  obtain ⟨-, hq, ht, -⟩ := hw
  refine ⟨by simp [parsing, hq], ?_⟩
  have h1 : ({ s with bufferParsed := false }.toState .chkFrameType).timer = false :=
    toState_timer _ (by simp [ht])
  exact toState_timer (s := { s with bufferParsed := false }.toState .chkFrameType)
    HeaderForm.hex.state (by simp [h1])

theorem parsing_sendBuffer (s : Session) (c : List UInt8) (size : ℕ) :
    { s.parsing .hex c with sendBufferSize := size } =
      { s with sendBufferSize := size }.parsing .hex c := by
  simp only [parsing, toState, leave, observe]
  split_ifs <;> rfl

theorem InPhase.sendBuffer {ph : Phase} (h : InPhase log0 s ph) (size : ℕ) :
    InPhase log0 { s with sendBufferSize := size } ph := by
  cases ph with
  | waiting => exact ⟨h.1, h.2.1, h.2.2.1, h.2.2.2.imp (Sent.congr · rfl) (Sent.congr · rfl)⟩
  | _ => exact ⟨h.1, h.2.1, h.2.2.1, h.2.2.2.congr rfl⟩

theorem upload_sendBuffer (h : Upload log0 s cs) (size : ℕ) :
    Upload log0 { s with sendBufferSize := size } cs := by
  cases h with
  | phase h1 h2 h3 => exact .phase (h1.congr rfl rfl rfl rfl) (h2.sendBuffer size) h3
  | part h1 h2 h3 h4 h5 h6 =>
    rw [parsing_sendBuffer]
    exact .part (h1.congr rfl rfl rfl rfl) (h2.sendBuffer size) h3 h4 h5 h6

/-- A posted event or the timer finds the session in a state in which it is defined. -/
theorem upload_event (h : Upload log0 s cs) {i : Input} (hi : (∃ e, i = .posted e) ∨ i = .timeout)
    (hin : s.input i = some (s', ts)) :
    ∃ t os, (machine env).Exec s' ts os t none ∧ Upload log0 t cs := by
  have hin' : (∃ e ∈ s.queue, s' = { s with queue := s.queue.erase e } ∧ ts = [.event e]) ∨
      s.timer = true ∧ s' = { s with timer := false } ∧ ts = [.event .timeout] := by
    rcases hi with ⟨e, rfl⟩ | rfl
    · exact Or.inl ⟨e, input_posted hin⟩
    · exact Or.inr (input_timeout hin)
  clear hin hi
  have hnot : quiet s → False := by
    rintro ⟨hq, ht⟩
    simp [hq, ht] at hin'
  cases h with
  | part h1 h2 h3 h4 h5 h6 => exact (hnot (parsing_quiet h2 _)).elim
  | phase h1 h2 h3 =>
    rename_i ph
    cases ph with
    | waiting => exact (hnot ⟨h2.2.1, h2.2.2.1⟩).elim
    | sending =>
      obtain ⟨hs, hq, ht, hsent⟩ := h2
      obtain ⟨e, he, rfl, rfl⟩ := hin'.resolve_right (by simp [ht])
      obtain rfl : e = .sendZdata := by simpa [hq] using he
      have ha : getActionList s.curState .sendZdata = [.changeState .sendZdata] := by
        simp only [List.mem_cons, List.not_mem_nil, or_false] at hs
        rcases hs with hs | hs <;> simp [hs, getActionList]
      obtain ⟨t, ph, h4, h5, h6⟩ := exec_sendZdata env
        (s := { s with queue := s.queue.erase .sendZdata }) (e := .sendZdata)
        (h1.congr rfl rfl rfl rfl) (by simp [hq]) (by simp [ht]) (hsent.congr rfl) ha
      exact ⟨t, [], h4, .phase h5 h6 h3⟩
    | full =>
      obtain ⟨hs, hq, ht, hsent⟩ := h2
      obtain ⟨e, he, rfl, rfl⟩ := hin'.resolve_right (by simp [ht])
      obtain rfl : e = .sendZdataLater := by simpa [hq] using he
      have ha : getActionList s.curState .sendZdataLater = [.changeState .sendFlowCtrl] := by
        rw [hs]
        rfl
      refine ⟨{ { s with queue := s.queue.erase .sendZdataLater }.toState .sendFlowCtrl with
        timer := true }, [], ?_, .phase (p := .timer) ?_ ⟨rfl, by simp [hq], rfl, ?_⟩ h3⟩
      · exact exec_event_changeState (s := { s with queue := s.queue.erase .sendZdataLater })
          h1.isInitialized ha (exec_step (by simp) rfl (exec_done (by simp)))
      · exact h1.congr (by simp) (by simp) (by simp) (by simp)
      · exact (hsent.keeps (o := .enter .sendFlowCtrl) (by simp [keepsEnds])).congr (by simp)
    | timer =>
      obtain ⟨hs, hq, ht, hsent⟩ := h2
      obtain ⟨-, rfl, rfl⟩ := hin'.resolve_left (by simp [hq])
      obtain ⟨t, ph, h4, h5, h6⟩ := exec_sendZdata env (s := { s with timer := false })
        (e := .timeout) (h1.congr rfl rfl rfl rfl) hq (by simp) (hsent.congr rfl)
        (by simp [hs, getActionList])
      exact ⟨t, [], h4, .phase h5 h6 h3⟩

theorem upload_log (h : Upload log0 s cs) :
    ∃ new, s.log = log0 ++ new ∧ Survives new ∧ (quiet s → Complete new) := by
  cases h with
  | phase h1 h2 h3 =>
    rename_i ph
    by_cases hq : quiet s
    · obtain rfl := waiting_of_quiet h2 hq
      rcases h2.2.2.2 with ⟨new, h4, h5, h6⟩ | ⟨new, h4, h5, h6⟩
      · exact ⟨new, h4, h5, fun _ => Or.inl h6⟩
      · exact ⟨new, h4, h5, fun _ => Or.inr h6⟩
    · cases ph with
      | waiting => exact absurd ⟨h2.2.1, h2.2.2.1⟩ hq
      | _ =>
        obtain ⟨new, h4, h5, -⟩ := h2.2.2.2
        exact ⟨new, h4, h5, fun h => absurd h hq⟩
  | part h1 h2 h3 h4 h5 h6 =>
    rename_i s0 pos c c' cs'
    have hlog : (s0.parsing .hex c).log = s0.log ++ [.enter .chkFrameType, .enter .parseHex] := by
      simp [parsing, HeaderForm.state]
    rcases h2.2.2.2 with h7 | h7 <;>
    · obtain ⟨new, h8, h9, h10⟩ := h7.append (l := [.enter .chkFrameType, .enter .parseHex])
        (by simp [keepsEnds]) hlog
      exact ⟨new, h8, h9, fun _ => by simp [Complete, h10]⟩

/-- Any input of an upload. -/
theorem upload_takes {i : Input} {rest : List (List UInt8)}
    (h : Upload log0 s (chunks (i :: is) ++ rest)) (hi : uploadInput i)
    (hq : ∀ c, i = .network c → quiet s) (hin : s.input i = some (s', ts))
    (hbuf : ∀ os t r, (machine env).Exec s' ts os t r → ∀ sH ∈ os, sH.sendBufferSize ≤ 1024 * 1024) :
    ∃ t os, (machine env).Exec s' ts os t none ∧ Upload log0 t (chunks is ++ rest) := by
  cases i with
  | network c => exact upload_network h (hq c rfl) hin hbuf
  | posted e => exact upload_event h (Or.inl ⟨e, rfl⟩) hin
  | timeout => exact upload_event h (Or.inr rfl) hin
  | sendBuffer size =>
    have hin' : some ({ s with sendBufferSize := size }, []) = some (s', ts) := by
      by_cases hd : s.curState = .destroy
      · rw [Session.input, if_pos hd] at hin
        cases hin
      · rwa [Session.input, if_neg hd] at hin
    cases hin'
    exact ⟨_, _, .nil, upload_sendBuffer h size⟩
  | _ => exact hi.elim

/-- **In every run of a session that sends a file, with headers `ZRPOS` from the network and the events
in any order, the session is not ended, and the data after every header of data are ended and reported
once, if chunks arrive only while nothing is pending and the send buffer is not full when a header is
handled.** -/
theorem upload_survives (hs : Uploader s)
    (hw : s.curState ∈ [.fileSelected, .handleFrame, .sendZdata] ∧ quiet s)
    (h : Runs env s is os t r) (hin : ∀ i ∈ is, uploadInput i)
    (hcs : ∃ rest, Headers (chunks is ++ rest))
    (hquiet : ∀ s' c, Takes env s is s' (.network c) → quiet s')
    (hbuf : ∀ sH ∈ os, sH.sendBufferSize ≤ 1024 * 1024) :
    r = none ∧ ∃ new, t.log = s.log ++ new ∧ Survives new ∧ (quiet t → Complete new) := by
  obtain ⟨rest, hcs⟩ := hcs
  have hup : Upload s.log s (chunks is ++ rest) :=
    .phase (p := .waiting) hs ⟨hw.1, hw.2.1, hw.2.2, Or.inl ⟨[], by simp, survives_nil, rfl⟩⟩ hcs
  clear hcs hw hs
  generalize s.log = log0 at hup
  suffices h1 : r = none ∧ Upload log0 t rest from ⟨h1.1, upload_log h1.2⟩
  induction h with
  | nil => exact ⟨rfl, hup⟩
  | @fault s s0 t ts i is os e h1 h2 =>
    obtain ⟨t', os', h3, -⟩ := upload_takes hup (hin i (by simp))
      (fun c hc => hquiet s c (hc ▸ .here)) h1
      (fun os' t' r' h3 => (h2.unique h3).1 ▸ hbuf)
    cases (h2.unique h3).2.2
  | @cons s s0 s1 t ts i is os os' r h1 h2 h3 ih =>
    obtain ⟨s2, os2, h4, h5⟩ := upload_takes hup (hin i (by simp))
      (fun c hc => hquiet s c (hc ▸ .here)) h1
      (fun os2 s2 r2 h4 sH hsH => hbuf sH (by
        rw [(h2.unique h4).1]
        exact List.mem_append_left _ hsH))
    obtain ⟨-, rfl, -⟩ := h2.unique h4
    exact ih (fun i' hi' => hin i' (by simp [hi'])) (fun s' c hc => hquiet s' c (.later h1 h2 hc))
      (fun sH hsH => hbuf sH (by simp [hsH])) h5

theorem upload_survives_a : ∃ os t r,
    Runs (Env.oneFile [97]) (chosen [97]) [.network (zrpos 0)] os t r ∧
    r = none ∧ ∃ new, t.log = (chosen [97]).log ++ new ∧ Survives new ∧ (quiet t → Complete new) := by
  obtain ⟨os, t, r, h1, h2⟩ := exists_runs (Env.oneFile [97]) 60
    (s := chosen [97]) (i := [.network (zrpos 0)])
    (p := fun p => p.1.all fun s => s.sendBufferSize = 0) (by decide +kernel)
  have h3 : ∀ s ∈ os, s.sendBufferSize = 0 := by simpa using h2
  refine ⟨os, t, r, h1, upload_survives ⟨rfl, rfl, ⟨_, rfl, fun _ => rfl⟩, rfl, rfl, rfl, rfl⟩
    ⟨by decide, rfl, rfl⟩ h1 (by simp [uploadInput]) ⟨[], .whole 0 .nil⟩ ?_ fun s hs => ?_⟩
  · intro s' c hc
    generalize hi : Input.network c = i at hc
    cases hc with
    | here => exact ⟨rfl, rfl⟩
    | later _ _ h4 => cases h4
  · rw [h3 s hs]
    omega

/-- The first part of a header arrives before a posted event: the event is not defined in the state of
the parser, and the session ends. A header arrives before a posted event: the data are sent by two
chains of events, and ended and reported twice. -/
theorem upload_interrupted :
    (∃ os t, Runs (Env.oneFile (List.replicate 1024 0)) (Session.new Rx.init default)
      (choosing ++ [.network (zrpos 0), .network ((zrpos 0).take 7), .posted .sendZdata]) os t none ∧
      [.enter .fileSelected, .frame (posFrame ZRPOS 0), .enter .end].Sublist t.log) ∧
    ∃ os t, Runs (Env.oneFile (List.replicate 1024 0)) (Session.new Rx.init default)
      (choosing ++ [.network (zrpos 0), .network (zrpos 0), .posted .sendZdata, .posted .sendZdata])
      os t none ∧ ends t.log = some (2, 2) := by
  constructor
  · obtain ⟨os, t, r, h1, h2⟩ := exists_runs (Env.oneFile (List.replicate 1024 0)) 60
      (s := Session.new Rx.init default) (i := choosing ++ [.network (zrpos 0),
        .network ((zrpos 0).take 7), .posted .sendZdata])
      (p := fun p => p.2.2 = none ∧
        [.enter .fileSelected, .frame (posFrame ZRPOS 0), .enter .end].Sublist p.2.1.log)
      (by decide +kernel)
    obtain ⟨h3, h4⟩ := of_decide_eq_true h2
    exact ⟨os, t, (h3 : r = none) ▸ h1, h4⟩
  · obtain ⟨os, t, r, h1, h2⟩ := exists_runs (Env.oneFile (List.replicate 1024 0)) 60
      (s := Session.new Rx.init default) (i := choosing ++ [.network (zrpos 0),
        .network (zrpos 0), .posted .sendZdata, .posted .sendZdata])
      (p := fun p => p.2.2 = none ∧ ends p.2.1.log = some (2, 2)) (by decide +kernel)
    obtain ⟨h3, h4⟩ := of_decide_eq_true h2
    exact ⟨os, t, (h3 : r = none) ▸ h1, h4⟩

end PuttyNd.Zmodem
