import PuttyNd.Zmodem.Proofs.SessionProofs

/-!
# Proofs: the reception of headers

A header is found, parsed and handled also if it arrives in two chunks, except if the first chunk
ends in the prefix of the header or between its line end and its `XON`.
-/

namespace PuttyNd.Zmodem

open Session Outcome

/-- The two forms of headers that the session sends. -/
inductive HeaderForm where
  | hex | bin32
deriving DecidableEq, Repr

namespace HeaderForm

/-- The bytes of a header. -/
def header : HeaderForm → Frame → List UInt8
  | hex => sendFrame
  | bin32 => sendBin32Frame

/-- The byte that tells the forms apart. -/
def tag : HeaderForm → UInt8
  | hex => ZHEX
  | bin32 => ZBIN32

/-- The bytes of a header after its prefix. -/
def body : HeaderForm → Frame → List UInt8
  | hex, f => convPlain2Hex f (calcFrameCrc f) ++ [0x0D, 0x8A] ++
      if f.type ≠ ZFIN ∧ f.type ≠ ZACK then [XON] else []
  | bin32, f => escs (f.bytes ++ le32 (calcFrameCrc32 f))

/-- The state in which a header is parsed. -/
def state : HeaderForm → StateId
  | hex => .parseHex
  | bin32 => .parseBin32

/-- The event that leads to this state. -/
def event : HeaderForm → EventId
  | hex => .parseHex
  | bin32 => .parseBin32

/-- The action that parses a header. -/
def parse : HeaderForm → Action
  | hex => .parseHexFrame
  | bin32 => .parseBin32Frame

end HeaderForm

variable {env : Env} {s : Session} {form : HeaderForm} {f : Frame}

theorem header_eq (form : HeaderForm) (f : Frame) :
    form.header f = [ZPAD, ZPAD, ZDLE, form.tag] ++ form.body f := by
  cases form with
  | hex => simp [HeaderForm.header, HeaderForm.body, HeaderForm.tag, sendFrame, HEX_PREFIX]
  | bin32 =>
    rw [HeaderForm.header, sendBin32Frame, convert2zline_eq (by simp [Frame.bytes, le32])]
    rfl

/-! ## The prefix -/

theorem drop_append_add {α : Type*} {xs p zs : List α} {i n : ℕ} (h : xs.drop i = p ++ zs)
    (hn : n = p.length) : xs.drop (i + n) = zs := by
  subst hn
  rw [← List.drop_drop, h, List.drop_left]

theorem skip_eq {rx : Rx} {p : UInt8 → Bool} {i : ℕ} {j k : List UInt8}
    (h : rx.buffer.drop i = j ++ k) (hj : ∀ b ∈ j, p b = true)
    (hr : ∀ b ∈ k.head?, p b = false) : rx.skip p i = i + j.length := by
  have htake : (j ++ k).takeWhile p = j := by
    rw [List.takeWhile_append_of_pos hj]
    cases k with
    | nil => simp
    | cons b k =>
      have := hr b (by simp)
      simp [this]
  rw [Rx.skip, h, htake]

theorem get_of_drop {rx : Rx} {i : ℕ} {b : UInt8} {k : List UInt8}
    (h : rx.buffer.drop i = b :: k) : rx.get i = .ok b := by
  have : rx.buffer[i]? = some b := by rw [← List.head?_drop, h]; rfl
  simp [Rx.get, this]

/-- `checkFrametype` finds a header behind bytes that are no `ZPAD`. -/
theorem checkFrametype_header {j body : List UInt8}
    (hd : s.rx.buffer.drop s.rx.decodeIndex = j ++ ([ZPAD, ZPAD, ZDLE, form.tag] ++ body))
    (hj : ∀ b ∈ j, b ≠ ZPAD) (hb : body ≠ []) :
    s.checkFrametype = .ok ((s.decodeTo (s.rx.decodeIndex + j.length + 4)).eatBuffer,
      [.event form.event]) := by
  have h1 : s.rx.skip (· ≠ ZPAD) s.rx.decodeIndex = s.rx.decodeIndex + j.length :=
    skip_eq hd (by simpa using hj) (by simp)
  have hd1 := drop_append_add hd rfl
  have h2 : s.rx.skip (· = ZPAD) (s.rx.decodeIndex + j.length) = s.rx.decodeIndex + j.length + 2 :=
    skip_eq (j := [ZPAD, ZPAD]) (k := [ZDLE, form.tag] ++ body) hd1 (by simp)
      (by simp [ZDLE, ZPAD])
  have hd2 : s.rx.buffer.drop (s.rx.decodeIndex + j.length + 2) = ZDLE :: form.tag :: body :=
    drop_append_add (p := [ZPAD, ZPAD]) hd1 rfl
  have hd3 : s.rx.buffer.drop (s.rx.decodeIndex + j.length + 2 + 1) = form.tag :: body :=
    drop_append_add (p := [ZDLE]) hd2 rfl
  have hlen : ¬ s.rx.decodeIndex + j.length + 2 + 2 ≥ s.rx.buffer.length := by
    have := congrArg List.length hd2
    have hb' : body.length ≠ 0 := by simpa using hb
    simp at this
    omega
  unfold checkFrametype
  dsimp only
  rw [h1, h2, if_neg hlen, get_of_drop hd2, ok_bind, if_neg (by simp), get_of_drop hd3]
  cases form <;> rfl

/-- `checkFrametype` resets the session if the prefix of a header is not followed by another byte. -/
theorem checkFrametype_short {j p q : List UInt8}
    (hd : s.rx.buffer.drop s.rx.decodeIndex = j ++ p) (hj : ∀ b ∈ j, b ≠ ZPAD)
    (hp : [ZPAD, ZPAD, ZDLE, form.tag] = p ++ q) :
    ∃ i, s.checkFrametype = .ok (s.decodeTo i, [.event .reset]) := by
  suffices h : s.rx.skip (· = ZPAD) (s.rx.skip (· ≠ ZPAD) s.rx.decodeIndex) + 2 ≥
      s.rx.buffer.length by
    unfold checkFrametype
    dsimp only
    rw [if_pos h]
    exact ⟨_, rfl⟩
  have hlen := congrArg List.length hd
  rw [List.length_drop, List.length_append] at hlen
  have hplen := congrArg List.length hp
  simp at hplen
  have h1 : s.rx.skip (· ≠ ZPAD) s.rx.decodeIndex = s.rx.decodeIndex + j.length :=
    skip_eq hd (by simpa using hj) (by cases p <;> simp at hp ⊢; exact hp.1.symm)
  have h2 := le_skip s.rx (fun b => decide (b = ZPAD)) (s.rx.decodeIndex + j.length)
  rw [h1]
  by_cases h3 : p.length ≤ 2
  · omega
  · -- Both `ZPAD`s are there and are skipped.
    obtain ⟨p', rfl⟩ : ∃ p', p = ZPAD :: ZPAD :: p' := by
      match p, hp, h3 with
      | a :: b :: p', hp, _ =>
        simp at hp
        exact ⟨p', by rw [← hp.1, ← hp.2.1]⟩
    have h4 : s.rx.skip (· = ZPAD) (s.rx.decodeIndex + j.length) =
        s.rx.decodeIndex + j.length + 2 := by
      refine skip_eq (j := [ZPAD, ZPAD]) (k := p') (drop_append_add hd rfl) (by simp) ?_
      cases p' with
      | nil => simp
      | cons c p' =>
        simp at hp
        simp [← hp.1, ZDLE, ZPAD]
    simp at hplen hlen
    omega

/-! ## The body -/

/-- The session after a header `f` has been parsed in the first `n` bytes. -/
def Session.parsed (s : Session) (n : ℕ) (f : Frame) : Session :=
  { (s.decodeTo n).eatBuffer with inputFrame := f }

theorem parseHexFrame_wait (h0 : s.rx.decodeIndex = 0) (hlen : s.rx.buffer.length ≤ 14) :
    s.parseHexFrame = .ok (s, []) := by
  unfold parseHexFrame
  dsimp only
  rw [if_pos (by simp [h0, hexSize, hlen])]
  rfl

/-- The digits of a header are there and are followed by some line ends. -/
theorem parseHexFrame_digits {l k : List UInt8} (h0 : s.rx.decodeIndex = 0)
    (hb : s.rx.buffer = convPlain2Hex f (calcFrameCrc f) ++ (l ++ k))
    (hl : ∀ b ∈ l, isLineseed b = true) (hne : l ≠ [])
    (hr : ∀ b ∈ k.head?, isLineseed b = false) :
    s.parseHexFrame =
      if f.type ≠ ZACK ∧ f.type ≠ ZFIN then do
        let b ← s.rx.get (14 + l.length)
        if b ≠ XON then pure (s.decodeTo (14 + l.length + 1), [.event .reset])
        else pure (s.parsed (14 + l.length + 1) f, [.event .handleFrame])
      else .ok (s.parsed (14 + l.length) f, [.event .handleFrame]) := by
  have hdig := length_convPlain2Hex f (calcFrameCrc f)
  have hl0 : l.length ≠ 0 := by simpa using hne
  have hskip : s.rx.skip isLineseed 14 = 14 + l.length := by
    refine skip_eq (k := k) ?_ hl hr
    rw [hb]
    exact List.drop_left' hdig
  have hslice : s.rx.slice 0 14 = convPlain2Hex f (calcFrameCrc f) := by
    rw [Rx.slice, hb, List.drop_zero]
    exact List.take_left' hdig
  have hlen : s.rx.buffer.length = 14 + (l.length + k.length) := by
    rw [hb, List.length_append, hdig, List.length_append]
  unfold parseHexFrame
  dsimp only
  rw [h0, hexSize, Nat.zero_add, if_neg (by omega), hslice, convHex2Plain_convPlain2Hex]
  dsimp only
  rw [if_neg (by simp), hskip, if_neg (by omega)]
  rfl

/-- A header is parsed if all of it is there. -/
theorem parse_body (h0 : s.rx.decodeIndex = 0) (hb : s.rx.buffer = form.body f) :
    s.action env form.parse =
      .ok (s.parsed (form.body f).length f, [.event .handleFrame]) := by
  cases form with
  | hex =>
    rw [HeaderForm.body, List.append_assoc] at hb
    show s.parseHexFrame = _
    by_cases ht : f.type ≠ ZFIN ∧ f.type ≠ ZACK
    · rw [if_pos ht] at hb
      rw [parseHexFrame_digits h0 hb (by simp [isLineseed]) (by simp) (by simp [isLineseed, XON]),
        if_pos ⟨ht.2, ht.1⟩]
      have hget : s.rx.get (14 + ([0x0D, 0x8A] : List UInt8).length) = .ok XON := by
        refine get_of_drop (k := []) ?_
        rw [hb]
        rfl
      rw [hget, HeaderForm.body, if_pos ht]
      rfl
    · rw [if_neg ht] at hb
      rw [parseHexFrame_digits h0 hb (by simp [isLineseed]) (by simp) (by simp),
        if_neg (by tauto), HeaderForm.body, if_neg ht]
      rfl
  | bin32 =>
    rw [HeaderForm.body] at hb
    have hbs : (f.bytes ++ le32 (calcFrameCrc32 f)).length = 9 := rfl
    have hlen := (length_escs_le (f.bytes ++ le32 (calcFrameCrc32 f))).1
    have hdec := decodeEscape_escs (f.bytes ++ le32 (calcFrameCrc32 f)) []
    rw [List.append_nil, hbs] at hdec
    show s.parseBin32Frame = _
    unfold parseBin32Frame
    rw [h0, Nat.zero_add, hb, if_neg (by omega), List.drop_zero, hdec]
    dsimp only
    rw [if_neg]
    · rw [Nat.zero_add]
      rfl
    · simp only [ne_eq, not_not]
      exact ofLe32_le32 _

/-- A header is waited for if a part of it is there, as long as its line end is not. -/
theorem parse_part {p q : List UInt8} (h0 : s.rx.decodeIndex = 0) (hb : s.rx.buffer = p)
    (hpq : form.body f = p ++ q) (hq : q ≠ []) (hhex : form = .hex → p.length ≤ 14) :
    s.action env form.parse = .ok (s, []) := by
  cases form with
  | hex => exact parseHexFrame_wait h0 (by simpa [hb] using hhex)
  | bin32 =>
    have hdec := decodeEscape_part (f.bytes ++ le32 (calcFrameCrc32 f)) hpq hq
    rw [show (f.bytes ++ le32 (calcFrameCrc32 f)).length = 9 from rfl] at hdec
    show s.parseBin32Frame = _
    unfold parseBin32Frame
    rw [h0, List.drop_zero, hb, hdec]
    split_ifs <;> rfl

/-! ## The events -/

/-- The session after the chunk `c` has been received. -/
def Session.feed (s : Session) (c : List UInt8) : Session :=
  { s with bufferParsed := false, rx := { s.rx with buffer := s.rx.buffer ++ c } }

/-- The session when it starts to parse a header in the chunk `c`. -/
def Session.parsing (s : Session) (form : HeaderForm) (c : List UInt8) : Session :=
  { ({ s with bufferParsed := false }.toState .chkFrameType).toState form.state with
    rx := { s.rx with buffer := c.drop 4, decodeIndex := 0, lastCheckExcaped := 0
                      lastCheckExcapedSaved := 0 } }

/-- The session when it handles the header that has been parsed. -/
def Session.handling (s : Session) : Session :=
  let s := s.toState .handleFrame
  { s with bufferParsed := true }.observe (.frame s.inputFrame)

variable {c c' : List UInt8} {os : List Session} {t : Session} {r : Option Fault}

variable (form) in
theorem exec_handling {s : Session} {ts : List Todo} (hi : s.isInitialized = true)
    (hs : s.curState = form.state) (hd : Done ts)
    (h : ∀ ts', Done ts' → (machine env).Exec s.handling (.frame :: ts') os t r) :
    (machine env).Exec s (.event .handleFrame :: ts) os t r := by
  have ha : getActionList s.curState .handleFrame = [.changeState .handleFrame] := by
    rw [hs]
    cases form <;> rfl
  refine exec_event_changeState hi ha (exec_step (by simp) rfl (h _ ?_))
  simpa using hd

/-- What `handleFrame` does if nothing comes after the header: there is nothing more to do, or the
session is reset, or a fault occurs. -/
inductive HandlesAlone (s : Session) : Next → Prop
  | rest (s' : Session) : HandlesAlone s (.ok (s', []))
  | reset (s' : Session) : s'.isInitialized = s.isInitialized → s'.curState = s.curState →
    HandlesAlone s (.ok (s', [.event .reset]))
  | complete (s' : Session) : s'.isInitialized = s.isInitialized → s'.curState = s.curState →
    HandlesAlone s (.ok (s', [.event .reset, .clearFileSelect]))
  | zdata : HandlesAlone s (.ok (s, [.zdata]))
  | fault (e : Fault) : HandlesAlone s (.error e)

theorem sendZdata_alone (s0 s : Session) : HandlesAlone s0 s.sendZdata := by
  have h := sendZdata_cases s
  generalize s.sendZdata = n at h
  cases h with
  | nullFile => exact .fault _
  | _ => exact .rest _

variable (env) in
theorem handleFrame_alone (hb : s.rx.buffer = []) (h0 : s.rx.decodeIndex = 0) :
    HandlesAlone s (s.handleFrame env) := by
  have hfile : ({ s with isSz := true }.handleZfile env) = .error .overread := by
    simp [handleZfile, Rx.cstring, hb]
  unfold Session.handleFrame
  dsimp only
  split_ifs
  · exact .rest _
  · rw [hfile]
    exact .fault _
  · exact .zdata
  · exact .rest _
  · exact .reset _ rfl rfl
  · exact .rest _
  · exact .complete _ rfl rfl
  · exact .rest _
  · cases s.zmodemFile with
    | none => exact .reset _ rfl rfl
    | some f => exact sendZdata_alone s _
  · simp [hb, h0] at *
  · exact .rest _
  · exact .reset _ rfl rfl

/-- The loop of `handleZdata` finds no byte; it reads one all the same, or asks for more data. -/
theorem exec_zdata_alone (hi : s.isInitialized = true) (hs : s.curState = .handleFrame)
    (hb : s.rx.buffer = []) (hr : s.handleFrame env = .ok (s, [.zdata])) :
    ∃ t r, ∀ ts, Done ts → (machine env).Exec s (.frame :: ts) [s] t r := by
  have hend : ∀ b recv n, ¬ AtEnd s b recv n := by
    intro b recv n h
    have := h.zdle
    simp [hb] at this
  have hz := handleZdata_cases env s
  generalize hres : s.handleZdata env = res at hz
  cases hz with
  | wait h | byte _ _ _ h | escaped _ _ _ _ h => simp [hb] at h
  | reset _ _ h | full _ _ _ h | skip _ _ _ h | block _ _ _ _ h => exact absurd h (hend _ _ _)
  | done _ _ =>
    refine ⟨s.eatBuffer.toState .waitData, none, fun ts hd => exec_frame hr
      (exec_step (by simp) hres (exec_event_changeState hi ?_ (exec_done ?_)))⟩
    · show getActionList s.curState _ = _
      rw [hs]
      rfl
    · simpa [getActionList] using hd
  | nullFile _ _ | assertion _ | overread _ =>
    exact ⟨s, _, fun ts _ => exec_frame hr (exec_fault (by simp) hres)⟩

/-- A header with nothing after it is handled once. -/
theorem exec_frame_alone (hi : s.isInitialized = true) (hs : s.curState = .handleFrame)
    (hb : s.rx.buffer = []) (h0 : s.rx.decodeIndex = 0) :
    ∃ t r, ∀ ts, Done ts → (machine env).Exec s (.frame :: ts) [s] t r := by
  have h := handleFrame_alone env hb h0
  generalize hr : s.handleFrame env = res at h
  cases h with
  | rest s' => exact ⟨s', none, fun ts hd => exec_frame hr (exec_done hd)⟩
  | reset s' h1 h2 =>
    exact ⟨_, none, fun ts hd => exec_frame hr (exec_reset (h1.trans hi) (by simp [h2, hs]) hd)⟩
  | complete s' h1 h2 =>
    have h3 := @exec_reset env _ _ (h1.trans hi) (by simp [h2, hs]) done_nil
    exact ⟨{ (s'.toState .idle).initState with fileSelectState := .none }, none, fun ts hd =>
      exec_frame hr (h3.append (exec_step (by simp) rfl (exec_done hd)))⟩
  | zdata => exact exec_zdata_alone hi hs hb hr
  | fault e => exact ⟨s, some e, fun ts hd => exec_frame_fault hr⟩

variable (env) in
/-- `ZACK` and `ZFIN` end the session. -/
theorem exec_frame_end (hi : s.isInitialized = true) (hs : s.curState = .handleFrame)
    (ht : s.inputFrame.type = ZACK ∨ s.inputFrame.type = ZFIN) :
    ∃ t, (∀ ts, Done ts → (machine env).Exec s (.frame :: ts) [s] t none) ∧
      t.isInitialized = true ∧ t.curState = .idle ∧ t.rx = Rx.init := by
  obtain ⟨s', h1, h2, h3⟩ : ∃ s', s.handleFrame env = .ok (s', [.event .reset]) ∧
      s'.isInitialized = true ∧ s'.curState = .handleFrame := by
    unfold Session.handleFrame
    rcases ht with ht | ht <;> rw [ht] <;> exact ⟨_, rfl, hi, hs⟩
  exact ⟨_, fun ts hd => exec_frame h1 (exec_reset h2 (by simp [h3]) hd), by simpa using h2, by simp, rfl⟩

/-! ## The chunks -/

/-- A session that waits for a header: it is not in the midst of one or of data, and there is no
`ZPAD` in what it has not decoded. -/
structure Ready (s : Session) : Prop where
  isInitialized : s.isInitialized = true
  curState : s.curState ∈ [.handleFrame, .sendZdata, .sendFlowCtrl, .fileSelected]
  decodeIndex_le : s.rx.decodeIndex ≤ s.rx.buffer.length
  lastCheckExcaped_le : s.rx.lastCheckExcaped ≤ s.rx.buffer.length
  lastCheckExcapedSaved_le : s.rx.lastCheckExcapedSaved ≤ s.rx.buffer.length
  noPad : ∀ b ∈ s.rx.buffer.drop s.rx.decodeIndex, b ≠ ZPAD

theorem input_feed {s : Session} (hs : s.curState ≠ .idle ∧ s.curState ≠ .destroy)
    (hc : s.curState = .handleFrame → c ≠ [67] ∧ c ≠ [71]) :
    s.input (.network c) = some (s.feed c, [.event .networkInput]) := by
  rw [Session.input, if_neg hs.2]
  rw [processNetworkInput, if_neg (by simp [isDoingRz, hs.1]), if_neg (by tauto)]
  rfl

@[simp] theorem feed_isInitialized : (s.feed c).isInitialized = s.isInitialized := rfl
@[simp] theorem feed_curState : (s.feed c).curState = s.curState := rfl
@[simp] theorem feed_log : (s.feed c).log = s.log := rfl

theorem toState_withRx (s : Session) (rx : Rx) (st : StateId) :
    { s with rx := rx }.toState st = { s.toState st with rx := rx } := by
  simp only [toState, leave, observe]
  split_ifs <;> rfl

@[simp] theorem parsing_isInitialized : (s.parsing form c).isInitialized = s.isInitialized := by
  simp [parsing]

@[simp] theorem parsing_curState : (s.parsing form c).curState = form.state := rfl

/-- `checkFrametype` eats what is before the header, and its prefix. -/
theorem parsing_eq (h : Ready s) :
    (((s.feed c).toState .chkFrameType).decodeTo (s.rx.buffer.length + 4)).eatBuffer.toState
      form.state = s.parsing form c := by
  have h1 := h.lastCheckExcaped_le
  have h2 := h.lastCheckExcapedSaved_le
  have h3 : (s.rx.buffer ++ c).drop (s.rx.buffer.length + 4) = c.drop 4 := by
    rw [← List.drop_drop, List.drop_left]
  have h4 : { s.rx with buffer := s.rx.buffer ++ c, decodeIndex := s.rx.buffer.length + 4 }.eatBuffer =
      { s.rx with buffer := c.drop 4, decodeIndex := 0, lastCheckExcaped := 0
                  lastCheckExcapedSaved := 0 } := by
    simp [Rx.eatBuffer, h3]
    omega
  rw [feed, toState_withRx { s with bufferParsed := false }, decodeTo, eatBuffer, toState_withRx, h4]
  rfl

/-- The rest of a header may come later. -/
theorem feed_parsing (hc : 4 ≤ c.length) :
    (s.parsing form c).feed c' = s.parsing form (c ++ c') := by
  have h : (s.parsing form c).bufferParsed = false := by
    simp only [parsing, toState, leave, observe]
    split_ifs <;> rfl
  rw [feed, ← h, parsing, parsing, List.drop_append_of_le_length hc]

/-- A header that has been parsed to its end leaves no trace of its bytes. -/
theorem parsed_parsing (c c' : List UInt8) {n n' : ℕ} (hn : (c.drop 4).length = n)
    (hn' : (c'.drop 4).length = n') :
    (s.parsing form c).parsed n f = (s.parsing form c').parsed n' f := by
  rw [parsed, parsed, parsing, parsing, eatBuffer, eatBuffer, decodeTo, decodeTo, Rx.eatBuffer,
    Rx.eatBuffer]
  simp only [List.drop_eq_nil_of_le hn.le, List.drop_eq_nil_of_le hn'.le, Nat.zero_sub]

theorem ready_networkInput (h : Ready s) (hf : s.curState ≠ .sendFlowCtrl) :
    getActionList s.curState .networkInput = [.changeState .chkFrameType] := by
  have h1 := h.curState
  simp only [List.mem_cons, List.not_mem_nil, or_false] at h1
  rcases h1 with h1 | h1 | h1 | h1 <;> simp_all [getActionList]

theorem ready_ne (h : Ready s) : s.curState ≠ .idle ∧ s.curState ≠ .destroy := by
  have h1 := h.curState
  simp only [List.mem_cons, List.not_mem_nil, or_false] at h1
  rcases h1 with h1 | h1 | h1 | h1 <;> simp [h1]

theorem feed_drop (h : Ready s) : (s.feed c).rx.buffer.drop (s.feed c).rx.decodeIndex =
    s.rx.buffer.drop s.rx.decodeIndex ++ c :=
  List.drop_append_of_le_length h.decodeIndex_le

variable (form) in
/-- A prefix of a header and at least one byte: the header is parsed. -/
theorem exec_beyond {body : List UInt8} (h : Ready s) (hf : s.curState ≠ .sendFlowCtrl)
    (hc : c = [ZPAD, ZPAD, ZDLE, form.tag] ++ body) (hb : body ≠ [])
    (hx : ∀ ts, Done ts →
      (machine env).Exec (s.parsing form c) (.action form.parse :: ts) os t r) :
    (machine env).Exec (s.feed c) [.event .networkInput] os t r := by
  refine exec_event_changeState h.isInitialized (ready_networkInput (s := s) h hf) ?_
  have hd : ((s.feed c).toState .chkFrameType).rx.buffer.drop
      ((s.feed c).toState .chkFrameType).rx.decodeIndex =
      s.rx.buffer.drop s.rx.decodeIndex ++ ([ZPAD, ZPAD, ZDLE, form.tag] ++ body) := by
    rw [toState_rx, feed_drop h, hc]
  have hchk := checkFrametype_header hd h.noPad hb
  have hlen : s.rx.decodeIndex + (s.rx.buffer.drop s.rx.decodeIndex).length = s.rx.buffer.length := by
    have := h.decodeIndex_le
    rw [List.length_drop]
    omega
  rw [toState_rx, show (s.feed c).rx.decodeIndex = s.rx.decodeIndex from rfl, hlen] at hchk
  refine exec_step (by simp) hchk (exec_event_changeState (n := form.state) ?_ ?_ ?_)
  · simpa [eatBuffer, decodeTo] using h.isInitialized
  · cases form <;> rfl
  · rw [parsing_eq h]
    have : (getActionList form.state .entry) = [form.parse] := by cases form <;> rfl
    rw [this]
    exact hx _ (by simp [eatBuffer, decodeTo])

variable (env form) in
/-- A part of the prefix of a header: the session is reset. -/
theorem exec_short {j p q : List UInt8} (hi : s.isInitialized = true)
    (ha : getActionList s.curState .networkInput = [.changeState .chkFrameType])
    (hd : s.rx.buffer.drop s.rx.decodeIndex = j ++ p) (hj : ∀ b ∈ j, b ≠ ZPAD)
    (hp : [ZPAD, ZPAD, ZDLE, form.tag] = p ++ q) :
    ∃ t, (machine env).Exec s [.event .networkInput] [] t none ∧
      s.log ++ [.enter .chkFrameType, .enter .idle] <+: t.log := by
  obtain ⟨i, hchk⟩ := checkFrametype_short (s := s.toState .chkFrameType) (by rwa [toState_rx]) hj hp
  have hi' : ((s.toState .chkFrameType).decodeTo i).isInitialized = true := by
    simpa [decodeTo] using hi
  refine ⟨(((s.toState .chkFrameType).decodeTo i).toState .idle).initState,
    exec_event_changeState hi ha
      (exec_step (by simp) hchk (exec_reset hi' (by simp [decodeTo]) (by simp))), ?_⟩
  refine List.IsPrefix.trans ?_ (initState_log _)
  rw [toState_log]
  simp [decodeTo]

variable (form) in
/-- A part of a header beyond its prefix is kept. -/
theorem exec_part {p q : List UInt8} (h : Ready s) (hf : s.curState ≠ .sendFlowCtrl)
    (hc : c = [ZPAD, ZPAD, ZDLE, form.tag] ++ p) (hp : p ≠ []) (hpq : form.body f = p ++ q)
    (hq : q ≠ []) (hhex : form = .hex → p.length ≤ 14) :
    (machine env).Exec (s.feed c) [.event .networkInput] [] (s.parsing form c) none := by
  refine exec_beyond _ h hf hc hp fun ts hd => ?_
  exact exec_step (by simp) (parse_part (f := f) (q := q) rfl (by rw [parsing, hc]; rfl) hpq hq hhex)
    (exec_done hd)

/-- The session when it handles the header `f`. -/
def Session.handled (s : Session) (form : HeaderForm) (f : Frame) : Session :=
  ((s.parsing form (form.header f)).parsed (form.body f).length f).handling

theorem header_drop (form : HeaderForm) (f : Frame) : (form.header f).drop 4 = form.body f := by
  rw [header_eq]
  rfl

@[simp] theorem handled_inputFrame : (s.handled form f).inputFrame = f := by
  simp [handled, handling, parsed, observe]

@[simp] theorem handled_isInitialized : (s.handled form f).isInitialized = s.isInitialized := by
  simp [handled, handling, parsed, observe, eatBuffer, decodeTo]

theorem handled_log : (s.handled form f).log =
    s.log ++ [.enter .chkFrameType, .enter form.state, .enter .handleFrame, .frame f] := by
  simp [handled, handling, parsed, observe, eatBuffer, decodeTo, parsing]

theorem handled_rx : (s.handled form f).rx.buffer = [] ∧ (s.handled form f).rx.decodeIndex = 0 := by
  simp [handled, handling, parsed, observe, Rx.eatBuffer, parsing, header_drop]

/-- A complete header is parsed and handled. -/
theorem exec_parse (hi : s.isInitialized = true)
    (hx : ∀ ts, Done ts → (machine env).Exec (s.handled form f) (.frame :: ts) os t r) :
    ∀ ts, Done ts →
      (machine env).Exec (s.parsing form (form.header f)) (.action form.parse :: ts) os t r := by
  refine fun ts hd => exec_step (by simp) (parse_body (f := f) rfl ?_)
    (exec_handling form ?_ rfl hd hx)
  · rw [parsing, header_drop]
  · simpa [parsed, eatBuffer, decodeTo] using hi

variable (env form) in
theorem exec_handled (hi : s.isInitialized = true) :
    ∃ t r, ∀ ts, Done ts → (machine env).Exec (s.handled form f) (.frame :: ts)
      [s.handled form f] t r :=
  exec_frame_alone (by simpa using hi) rfl handled_rx.1 handled_rx.2

/-- The header arrives in the chunks `c` and `c'`: it is handled once, by the session that handles it
if it arrives in one chunk. -/
def HandledOnce (env : Env) (s : Session) (f : Frame) (c c' : List UInt8) : Prop :=
  ∃ sH t r t' r', Runs env s [.network (c ++ c')] [sH] t r ∧
    Runs env s [.network c, .network c'] [sH] t' r' ∧ sH.inputFrame = f

/-- The first chunk goes beyond the prefix of the header, and does not end between the end of the line
and `XON`. -/
def splits (form : HeaderForm) (f : Frame) (c : List UInt8) : Prop :=
  5 ≤ c.length ∧ (form = .hex → f.type ≠ ZACK → f.type ≠ ZFIN → c.length < 19)

variable (form) in
theorem header_head {q : List UInt8} (hc : form.header f = c ++ q) :
    s.curState = .handleFrame → c ≠ [67] ∧ c ≠ [71] := by
  rw [header_eq] at hc
  refine fun _ => ⟨?_, ?_⟩ <;>
  · rintro rfl
    simp [ZPAD] at hc

theorem body_ne_nil (form : HeaderForm) (f : Frame) : form.body f ≠ [] := by
  cases form with
  | hex => simp [HeaderForm.body]
  | bin32 =>
    have := (length_escs_le (f.bytes ++ le32 (calcFrameCrc32 f))).1
    intro h
    rw [HeaderForm.body] at h
    rw [h] at this
    simp [Frame.bytes, le32] at this

variable (env form) in
/-- A complete header is handled once. -/
theorem runs_header (h : Ready s) (hf : s.curState ≠ .sendFlowCtrl) :
    ∃ t r, Runs env s [.network (form.header f)] [s.handled form f] t r := by
  obtain ⟨t, r, hx⟩ := exec_handled env form (f := f) h.isInitialized
  exact ⟨t, r, runs_one (input_feed (ready_ne h) (header_head _ (List.append_nil _).symm))
    (exec_beyond _ h hf (header_eq form f) (body_ne_nil form f) (exec_parse h.isInitialized hx))⟩

variable (form) in
theorem header_split {q : List UInt8} (hc : form.header f = c ++ q) (h4 : 4 ≤ c.length) :
    c = [ZPAD, ZPAD, ZDLE, form.tag] ++ c.drop 4 ∧ form.body f = c.drop 4 ++ q := by
  rw [header_eq] at hc
  have h1 : c.take 4 = [ZPAD, ZPAD, ZDLE, form.tag] := by
    have := congrArg (List.take 4) hc
    rw [List.take_append_of_le_length h4] at this
    exact this.symm
  have h2 : c = [ZPAD, ZPAD, ZDLE, form.tag] ++ c.drop 4 := by
    rw [← h1, List.take_append_drop]
  refine ⟨h2, ?_⟩
  rw [h2, List.append_assoc] at hc
  simpa using hc

/-- The line of a hexadecimal header after its digits: its end and perhaps `XON`. -/
theorem hex_line {p q : List UInt8} (hpq : HeaderForm.hex.body f = p ++ q) (hp : 14 < p.length) :
    ∃ l, p = convPlain2Hex f (calcFrameCrc f) ++ l ∧ l ≠ [] ∧ l ++ q =
      [0x0D, 0x8A] ++ if f.type ≠ ZFIN ∧ f.type ≠ ZACK then [XON] else [] := by
  rw [HeaderForm.body, List.append_assoc] at hpq
  have hdig := length_convPlain2Hex f (calcFrameCrc f)
  have h1 : p.take 14 = convPlain2Hex f (calcFrameCrc f) := by
    have := congrArg (List.take 14) hpq
    rw [List.take_append_of_le_length hp.le, List.take_left' hdig] at this
    exact this.symm
  refine ⟨p.drop 14, by rw [← h1, List.take_append_drop], by simpa using hp, ?_⟩
  rw [← List.take_append_drop 14 p, h1, List.append_assoc] at hpq
  exact (List.append_cancel_left hpq).symm

variable (form) in
/-- The rest of a header leads to its being handled. -/
theorem exec_rest (hi : s.isInitialized = true) {q : List UInt8} (hc : form.header f = c ++ q)
    (h4 : 4 ≤ c.length)
    (hx : ∀ ts, Done ts → (machine env).Exec (s.handled form f) (.frame :: ts) os t r) :
    (machine env).Exec ((s.parsing form c).feed q) [.event .networkInput] os t r := by
  rw [feed_parsing h4, ← hc]
  refine exec_event (a := form.parse) (by simpa using hi) ?_ (exec_parse hi hx _ (by simp))
  cases form <;> rfl

theorem input_parsing (s : Session) (form : HeaderForm) (c q : List UInt8) :
    (s.parsing form c).input (.network q) =
      some ((s.parsing form c).feed q, [.event .networkInput]) := by
  refine input_feed ?_ ?_ <;> cases form <;> simp [HeaderForm.state]

variable (env) in
theorem runs_rest (h : Ready s) {q : List UInt8} (hc : form.header f = c ++ q) (h4 : 4 ≤ c.length) :
    ∃ t r, Runs env (s.parsing form c) [.network q] [s.handled form f] t r := by
  obtain ⟨t, r, hx⟩ := exec_handled env form (f := f) h.isInitialized
  exact ⟨t, r, runs_one (input_parsing _ _ _ _) (exec_rest _ h.isInitialized hc h4 hx)⟩

variable (env) in
/-- A session that has been reset takes the second half of a line end for nothing. -/
theorem runs_lineEnd (hi : s.isInitialized = true) (hs : s.curState = .idle) (hrx : s.rx = Rx.init) :
    ∃ t, Runs env s [.network [0x8A]] [] t none := by
  by_cases hp : s.bufferParsed = true
  · have hin : s.input (.network [0x8A]) = some (s.feed [0x8A], [.event .networkInput]) := by
      simp [Session.input, processNetworkInput, isDoingRz, hs, hp, feed]
    obtain ⟨t, hx, -⟩ := exec_short env .hex (s := s.feed [0x8A]) (j := [0x8A])
      (p := []) hi (by rw [feed_curState, hs]; rfl) (by rw [feed, hrx]; rfl) (by simp [ZPAD]) rfl
    exact ⟨t, runs_one hin hx⟩
  · have hin : s.input (.network [0x8A]) = some (s, []) := by
      simp [Session.input, processNetworkInput, isDoingRz, hs, hp]
    exact ⟨s, runs_one hin .nil⟩

variable (env) in
/-- The header of `ZACK` and `ZFIN` is complete when its line end has begun. -/
theorem runs_early (h : Ready s) (hf : s.curState ≠ .sendFlowCtrl)
    (ht : f.type = ZACK ∨ f.type = ZFIN)
    (hc : c = [ZPAD, ZPAD, ZDLE, ZHEX] ++ (convPlain2Hex f (calcFrameCrc f) ++ [0x0D])) :
    ∃ t, Runs env s [.network c, .network [0x8A]] [s.handled .hex f] t none := by
  have hparse : (s.parsing .hex c).parseHexFrame =
      .ok ((s.parsing .hex c).parsed 15 f, [.event .handleFrame]) := by
    rw [parseHexFrame_digits (f := f) (l := [0x0D]) (k := []) rfl ?_ (by simp [isLineseed])
      (by simp) (by simp), if_neg (by tauto)]
    · rfl
    · rw [parsing, hc]
      rfl
  have hsame : ((s.parsing .hex c).parsed 15 f).handling = s.handled .hex f := by
    rw [handled]
    congr 1
    refine parsed_parsing _ _ ?_ ?_
    · rw [hc]
      rfl
    · rw [header_drop]
  obtain ⟨t, hx, h1, h2, h3⟩ := exec_frame_end env (s := s.handled .hex f)
    (by simpa using h.isInitialized) rfl (by simpa using ht)
  obtain ⟨t', ht'⟩ := runs_lineEnd env h1 h2 h3
  have h4 : (machine env).Exec (s.feed c) [.event .networkInput] [s.handled .hex f] t none := by
    refine exec_beyond .hex h hf hc (by simp) fun ts hd =>
      exec_step (by simp) hparse (exec_handling .hex ?_ rfl hd ?_)
    · simpa [parsed, eatBuffer, decodeTo] using h.isInitialized
    · rw [hsame]
      exact hx
  refine ⟨t', @Runs.cons _ _ _ _ _ _ _ _ [s.handled .hex f] _ _ (input_feed (ready_ne h) ?_) h4 ht'⟩
  subst hc
  refine fun _ => ⟨?_, ?_⟩ <;> simp

variable (env) in
/-- The hexadecimal header of another type must not end with its line end. -/
theorem runs_overread (h : Ready s) (hf : s.curState ≠ .sendFlowCtrl)
    (ht : f.type ≠ ZACK ∧ f.type ≠ ZFIN) {l : List UInt8} (hl : ∀ b ∈ l, isLineseed b = true)
    (hne : l ≠ []) (hc : c = [ZPAD, ZPAD, ZDLE, ZHEX] ++ (convPlain2Hex f (calcFrameCrc f) ++ l))
    (is : List Input) :
    ∃ t, Runs env s (.network c :: is) [] t (some .overread) := by
  have hparse : (s.parsing .hex c).parseHexFrame = .error .overread := by
    have hb : (s.parsing .hex c).rx.buffer =
        convPlain2Hex f (calcFrameCrc f) ++ (l ++ []) := by
      rw [parsing, hc, List.append_nil]
      rfl
    rw [parseHexFrame_digits (f := f) (k := []) rfl hb hl hne (by simp), if_pos ht]
    have : (s.parsing .hex c).rx.get (14 + l.length) = .error .overread := by
      simp [Rx.get, hb, length_convPlain2Hex]
    rw [this]
    rfl
  refine ⟨_, .fault (input_feed (ready_ne h) ?_) (exec_beyond .hex h hf hc (by simp [hne])
    fun ts _ => exec_fault (by simp) hparse)⟩
  subst hc
  refine fun _ => ⟨?_, ?_⟩ <;> simp

variable (env) in
/-- A header whose first chunk ends at a good place is handled once. -/
theorem runs_split (h : Ready s) (hf : s.curState ≠ .sendFlowCtrl) (hc : form.header f = c ++ c')
    (hne : c' ≠ []) (hsplit : splits form f c) :
    ∃ t r, Runs env s [.network c, .network c'] [s.handled form f] t r := by
  obtain ⟨h5, hxon⟩ := hsplit
  obtain ⟨h1, h2⟩ := header_split _ hc (by omega)
  have hp : c.drop 4 ≠ [] := by
    rw [ne_eq, List.drop_eq_nil_iff]
    omega
  by_cases hlen : form = .hex → (c.drop 4).length ≤ 14
  · obtain ⟨t, r, hrest⟩ := runs_rest env h hc (by omega)
    exact ⟨t, r, @Runs.cons _ _ _ _ _ _ _ _ [] _ _ (input_feed (ready_ne h) (header_head _ hc))
      (exec_part _ h hf h1 hp h2 hne hlen) hrest⟩
  · -- The line end has begun, so that only its second byte is missing.
    obtain ⟨rfl, hlong⟩ : form = .hex ∧ 14 < (c.drop 4).length := by
      rwa [Classical.not_imp, not_le] at hlen
    have ht : f.type = ZACK ∨ f.type = ZFIN := by
      by_contra ht
      have := hxon rfl (by tauto) (by tauto)
      rw [List.length_drop] at hlong
      omega
    obtain ⟨l, h3, h4, h5⟩ := hex_line h2 hlong
    rw [if_neg (by tauto), List.append_nil] at h5
    obtain ⟨rfl, rfl⟩ : l = [0x0D] ∧ c' = [0x8A] := by
      match l, c', h4, hne, h5 with
      | [a], [b], _, _, h5 => simpa using h5
      | a :: b :: l, _ :: _, _, _, h5 => simp at h5
      | [a], b :: d :: l, _, _, h5 => simp at h5
    obtain ⟨t, hx⟩ := runs_early env h hf ht (h3 ▸ h1)
    exact ⟨t, none, hx⟩

/-- A split within the prefix resets the session. -/
theorem not_handledOnce_prefix (h : Ready s) (hf : s.curState ≠ .sendFlowCtrl)
    (hc : form.header f = c ++ c') (h4 : c.length ≤ 4) : ¬ HandledOnce env s f c c' := by
  rintro ⟨sH, t, r, t', r', hone, htwo, -⟩
  obtain ⟨t1, r1, h1⟩ := runs_header env form (f := f) h hf
  rw [hc] at h1
  obtain ⟨hos, -, -⟩ := hone.unique h1
  obtain rfl : sH = s.handled form f := by simpa using hos
  obtain ⟨q, hq⟩ : ∃ q, [ZPAD, ZPAD, ZDLE, form.tag] = c ++ q := by
    rw [header_eq] at hc
    have h2 : c <+: [ZPAD, ZPAD, ZDLE, form.tag] :=
      List.prefix_of_prefix_length_le ⟨c', hc.symm⟩ (List.prefix_append _ _) (by simpa using h4)
    exact ⟨h2.choose, h2.choose_spec.symm⟩
  obtain ⟨t2, h2, hlog⟩ := exec_short env form (s := s.feed c)
    (j := s.rx.buffer.drop s.rx.decodeIndex) (p := c) h.isInitialized
    (ready_networkInput (s := s) h hf) (feed_drop h) h.noPad hq
  obtain ⟨os, h3, h4⟩ := htwo.after (input_feed (ready_ne h) (header_head _ hc)) h2
  -- The session is in its first state before it handles anything.
  obtain rfl : os = [s.handled form f] := by simpa using h3.symm
  have h5 := hlog.trans ((runs_log h4).2 (s.handled form f) (by simp))
  rw [handled_log, feed_log, List.prefix_append_right_inj] at h5
  cases form <;> simp [HeaderForm.state] at h5

/-- A split between the line end and `XON` leads to a read behind the buffer. -/
theorem not_handledOnce_xon (h : Ready s) (hf : s.curState ≠ .sendFlowCtrl)
    (hc : HeaderForm.hex.header f = c ++ c') (hne : c' ≠ []) (ht : f.type ≠ ZACK ∧ f.type ≠ ZFIN)
    (hlen : 19 ≤ c.length) : ¬ HandledOnce env s f c c' := by
  rintro ⟨sH, t, r, t', r', -, htwo, -⟩
  obtain ⟨h1, h2⟩ := header_split _ hc (by omega)
  obtain ⟨l, h3, h4, h5⟩ := hex_line h2 (by rw [List.length_drop]; omega)
  rw [if_pos ⟨ht.2, ht.1⟩] at h5
  have hl : ∀ b ∈ l, isLineseed b = true := by
    have h6 : l <+: [0x0D, 0x8A] := by
      refine List.prefix_of_prefix_length_le ⟨c', h5⟩ (List.prefix_append _ _) ?_
      have := congrArg List.length h5
      have hq : c'.length ≠ 0 := by simpa using hne
      simp at this ⊢
      omega
    intro b hb
    have := h6.subset hb
    simp at this
    rcases this with rfl | rfl <;> rfl
  obtain ⟨t1, hx⟩ := runs_overread env h hf ht hl h4 (h3 ▸ h1) [.network c']
  have := (htwo.unique hx).1
  simp at this

/-- While the session waits for its send buffer to drain, a header ends the transfer. -/
theorem not_handledOnce_flowCtrl (h : Ready s) (hf : s.curState = .sendFlowCtrl)
    (hc : form.header f = c ++ c') : ¬ HandledOnce env s f c c' := by
  rintro ⟨sH, t, r, t', r', hone, -, -⟩
  have hx := runs_one (input_feed (ready_ne h) (header_head _ (q := []) (by rw [List.append_nil])))
    (exec_undefined env (s := s.feed (form.header f)) (e := .networkInput) h.isInitialized
      (by rw [feed_curState, hf]; rfl) done_nil)
  rw [← hc] at hone
  have := (hone.unique hx).1
  simp at this

/-- **A header that arrives in two chunks is handled once and as if it arrived in one, if and only if
the session does not wait for its send buffer to drain, and the first chunk ends behind the prefix of
the header and not between its line end and `XON`.** -/
theorem handledOnce_iff (h : Ready s) (hc : form.header f = c ++ c') (hne : c' ≠ []) :
    HandledOnce env s f c c' ↔ s.curState ≠ .sendFlowCtrl ∧ splits form f c := by
  constructor
  · intro hx
    have hf : s.curState ≠ .sendFlowCtrl := fun hf => not_handledOnce_flowCtrl h hf hc hx
    refine ⟨hf, ?_, ?_⟩
    · by_contra hlen
      exact not_handledOnce_prefix h hf hc (by omega) hx
    · rintro rfl ht ht'
      by_contra hlen
      exact not_handledOnce_xon h hf hc hne ⟨ht, ht'⟩ (by omega) hx
  · rintro ⟨hf, hsplit⟩
    obtain ⟨t, r, h1⟩ := runs_header env form (f := f) h hf
    obtain ⟨t', r', h2⟩ := runs_split env h hf hc hne hsplit
    exact ⟨_, t, r, t', r', hc ▸ h1, h2, handled_inputFrame⟩

/-- The session after the peer has asked twice to send files; a new session loses its first input. -/
def requested : Session :=
  { curState := .handleFrame, isInitialized := true, rx := Rx.init, inputFrame := ⟨ZRQINIT, 0, 0, 0, 0⟩
    zmodemFile := none, bufferParsed := true, isDestroyed := false, sendFinOnReset := false
    isSz := true, uploadFilePath := [], fileSelectState := .none, sendBufferSize := 0
    timer := false, queue := []
    log := [.enter .chkFrameType, .enter .idle, .enter .chkFrameType, .enter .parseHex,
      .enter .handleFrame, .frame ⟨ZRQINIT, 0, 0, 0, 0⟩, .sendFrame ⟨ZRINIT, 0, 0, 0, 0x23⟩] }

theorem ready_requested : Ready requested :=
  { isInitialized := rfl, curState := by simp [requested], decodeIndex_le := by simp [requested, Rx.init]
    lastCheckExcaped_le := by simp [requested, Rx.init]
    lastCheckExcapedSaved_le := by simp [requested, Rx.init], noPad := by simp [requested, Rx.init] }

theorem handledOnce_iff_six : HandledOnce Env.plain requested ⟨ZRPOS, 0, 4, 0, 0⟩
      ((sendFrame ⟨ZRPOS, 0, 4, 0, 0⟩).take 6) ((sendFrame ⟨ZRPOS, 0, 4, 0, 0⟩).drop 6) ↔
    requested.curState ≠ .sendFlowCtrl ∧
      splits .hex ⟨ZRPOS, 0, 4, 0, 0⟩ ((sendFrame ⟨ZRPOS, 0, 4, 0, 0⟩).take 6) :=
  handledOnce_iff ready_requested (List.take_append_drop _ _).symm (by decide)

/-- A session that has been asked to receive files gets a header whose `XON` comes in a chunk of its
own: the parser reads behind the buffer. -/
theorem not_handledOnce_requested :
    Runs Env.plain (Session.new Rx.init default)
      [.network (sendFrame ⟨ZRQINIT, 0, 0, 0, 0⟩), .network (sendFrame ⟨ZRQINIT, 0, 0, 0, 0⟩)]
      [{ requested with log := requested.log.dropLast }] requested none ∧
    ¬ HandledOnce Env.plain requested ⟨ZRPOS, 0, 4, 0, 0⟩
      ((sendFrame ⟨ZRPOS, 0, 4, 0, 0⟩).take 20) ((sendFrame ⟨ZRPOS, 0, 4, 0, 0⟩).drop 20) := by
  constructor
  · exact runs_of_run (n := 100) (by decide +kernel)
  · exact not_handledOnce_xon ready_requested (by simp [requested]) (List.take_append_drop _ _).symm
      (by decide) (by decide) (by decide)

end PuttyNd.Zmodem
