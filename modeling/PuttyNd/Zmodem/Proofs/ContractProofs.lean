import PuttyNd.Zmodem.Proofs.SessionProofs

/-!
# Proofs: what the parts of a session rely on

Every event, action and handler has a precondition and a postcondition. They say where the indices
into the received bytes are, and what is in the checksum register while data are decoded.
-/

namespace PuttyNd.Zmodem

open Session Outcome

/-- The run comes to do `x` in the session `s'`. -/
inductive Visited (env : Env) : Session → List Input → Session → Todo → Prop
  | here {s s0 s' : Session} {ts : List Todo} {x : Todo} {i : Input} {is : List Input} :
    s.input i = some (s0, ts) → (machine env).Visits s0 ts s' x → Visited env s (i :: is) s' x
  | later {s s0 s1 s' : Session} {ts : List Todo} {x : Todo} {i : Input} {is : List Input}
    {os : List Session} :
    s.input i = some (s0, ts) → (machine env).Exec s0 ts os s1 none → Visited env s1 is s' x →
    Visited env s (i :: is) s' x

/-- The run comes to take the input `i` in the session `s'`. -/
inductive Takes (env : Env) : Session → List Input → Session → Input → Prop
  | here {s : Session} {i : Input} {is : List Input} : Takes env s (i :: is) s i
  | later {s s0 s1 s' : Session} {ts : List Todo} {i i' : Input} {is : List Input}
    {os : List Session} :
    s.input i = some (s0, ts) → (machine env).Exec s0 ts os s1 none → Takes env s1 is s' i' →
    Takes env s (i :: is) s' i'

variable {env : Env} {s s' t : Session} {ts new : List Todo} {os : List Session} {r : Option Fault}
  {is : List Input}

/-- A run in which all steps are allowed keeps what every input keeps, up to a fault. -/
theorem Runs.contract {Guard : Session → Todo → Prop} {Pre : Todo → Session → Prop}
    {Post : Todo → Session → Session → Prop} {I : Session → Prop}
    (hc : Machine.Contract (machine env) Guard Pre Post)
    (hI : ∀ s i s' ts, i ∈ is → I s → s.input i = some (s', ts) → Machine.Seq Pre Post ts I s')
    (h : Runs env s is os t r) (hg : ∀ s' x, Visited env s is s' x → Guard s' x) (hs : I s) :
    (r = none → I t) ∧
      ∀ e, r = some e → ∃ x, Pre x t ∧ Visited env s is t x ∧ t.step env x = .error e := by
  induction h with
  | nil => exact ⟨fun _ => hs, by simp⟩
  | fault h1 h2 =>
    refine ⟨by simp, ?_⟩
    intro e he
    cases he
    obtain ⟨x, hx1, hx2, hx3⟩ :=
      hc.exec_fault h2 (fun s' x hx => hg s' x (.here h1 hx)) (hI _ _ _ _ (by simp) hs h1)
    exact ⟨x, hx1, .here h1 hx2, hx3⟩
  | cons h1 h2 _ ih =>
    have h3 := hc.exec h2 (fun s' x hx => hg s' x (.here h1 hx)) (hI _ _ _ _ (by simp) hs h1)
    obtain ⟨h4, h5⟩ := ih (fun s i s' ts hi => hI s i s' ts (List.mem_cons_of_mem _ hi))
      (fun s' x hx => hg s' x (.later h1 h2 hx)) h3
    refine ⟨h4, fun e he => ?_⟩
    obtain ⟨x, hx1, hx2, hx3⟩ := h5 e he
    exact ⟨x, hx1, .later h1 h2 hx2, hx3⟩

/-- What a run comes to do, if each input takes at most `n` steps. -/
def Session.visited (env : Env) (n : ℕ) : Session → List Input → List (Session × Todo)
  | _, [] => []
  | s, i :: is =>
    match s.input i with
    | none => []
    | some (s0, ts) =>
      (machine env).visited n s0 ts ++
        match (machine env).run n s0 ts with
        | some (_, s1, none) => Session.visited env n s1 is
        | _ => []

theorem Visited.mem_visited {n : ℕ} {x : Todo} (h : Visited env s is s' x)
    (hn : (s.run env n is).isSome = true) : (s', x) ∈ s.visited env n is := by
  induction h with
  | here h1 h2 =>
    simp only [Session.run, h1] at hn
    simp only [Session.visited, h1]
    cases hrun : (machine env).run n _ _ with
    | none => simp [hrun] at hn
    | some _ => exact List.mem_append_left _ (h2.mem_visited hrun)
  | later h1 h2 _ ih =>
    simp only [Session.run, h1] at hn
    simp only [Session.visited, h1]
    cases hrun : (machine env).run n _ _ with
    | none => simp [hrun] at hn
    | some out =>
      obtain ⟨os1, s1, r1⟩ := out
      obtain ⟨-, rfl, rfl⟩ := (Machine.exec_of_run hrun).unique h2
      simp only [hrun, Option.isSome_map] at hn
      exact List.mem_append_right _ (ih hn)

/-! ## The received bytes -/

/-- The block of data that is decoded. -/
def Rx.block (rx : Rx) : List UInt8 :=
  rx.slice rx.decodeIndex (rx.lastCheckExcapedSaved - rx.decodeIndex)

/-- No data are decoded. -/
structure NoData (rx : Rx) : Prop where
  decodeIndex : rx.decodeIndex = 0
  lastCheckExcaped : rx.lastCheckExcaped = 0
  lastCheckExcapedSaved : rx.lastCheckExcapedSaved = 0
  dataCrc : rx.dataCrc = 0xFFFFFFFF

/-- The data of a frame have ended. -/
structure AfterData (rx : Rx) : Prop where
  lastCheckExcaped : rx.lastCheckExcaped ≤ rx.decodeIndex
  lastCheckExcapedSaved : rx.lastCheckExcapedSaved ≤ rx.decodeIndex
  dataCrc : rx.dataCrc = 0xFFFFFFFF

/-- Data are decoded in place: what is decoded is in front of what is looked at. The checksum is that
of the block, if it is claimed to be `exact`. -/
structure Decoding (exact : Prop) (rx : Rx) : Prop where
  decodeIndex_le : rx.decodeIndex ≤ rx.lastCheckExcapedSaved
  saved_le : rx.lastCheckExcapedSaved ≤ rx.lastCheckExcaped
  checked_le : rx.lastCheckExcaped ≤ rx.buffer.length
  crc : exact → rx.dataCrc = crcReg 0xFFFFFFFF rx.block

variable {exact : Prop} {rx : Rx}

theorem noData_init : NoData Rx.init := ⟨rfl, rfl, rfl, rfl⟩

theorem NoData.afterData (h : NoData rx) : AfterData rx :=
  ⟨by rw [h.lastCheckExcaped]; omega, by rw [h.lastCheckExcapedSaved]; omega, h.dataCrc⟩

theorem NoData.decoding (h : NoData rx) : Decoding exact rx := by
  obtain ⟨h1, h2, h3, h4⟩ := h
  refine ⟨by omega, by omega, by omega, fun _ => ?_⟩
  rw [Rx.block, h1, h3, h4]
  rfl

/-- What comes after the data of a frame is eaten with them. -/
theorem AfterData.eatBuffer (h : AfterData rx) {i : ℕ} (hi : rx.decodeIndex ≤ i) :
    NoData { rx with decodeIndex := i }.eatBuffer := by
  have h1 := h.lastCheckExcaped
  have h2 := h.lastCheckExcapedSaved
  exact ⟨rfl, Nat.sub_eq_zero_of_le (h1.trans hi), Nat.sub_eq_zero_of_le (h2.trans hi), h.dataCrc⟩

theorem Decoding.eatBuffer (h : Decoding exact rx) : Decoding exact rx.eatBuffer := by
  have h1 := h.decodeIndex_le
  have h2 := h.saved_le
  have h3 := h.checked_le
  refine ⟨by simp [Rx.eatBuffer], by simp only [Rx.eatBuffer]; omega, ?_, fun he => ?_⟩
  · simp only [Rx.eatBuffer, List.length_drop]
    omega
  · have h4 := h.crc he
    simpa [Rx.block, Rx.slice, Rx.eatBuffer] using h4

/-- More data may arrive. -/
theorem Decoding.append (h : Decoding exact rx) (c : List UInt8) :
    Decoding exact { rx with buffer := rx.buffer ++ c } := by
  have h1 := h.decodeIndex_le
  have h2 := h.saved_le
  have h3 := h.checked_le
  refine ⟨h1, h2, by simp only [List.length_append]; omega, fun he => ?_⟩
  have h4 := h.crc he
  have h5 : Rx.block { rx with buffer := rx.buffer ++ c } = rx.block := by
    simp only [Rx.block, Rx.slice]
    rw [List.drop_append_of_le_length (by omega), List.take_append_of_le_length]
    rw [List.length_drop]
    omega
  rw [h5]
  exact h4

theorem NoData.append (h : NoData rx) (c : List UInt8) :
    NoData { rx with buffer := rx.buffer ++ c } := ⟨h.1, h.2, h.3, h.4⟩

/-- A block grows by the byte that is stored behind it. -/
theorem block_set {rx : Rx} (b : UInt8) (n : ℕ) (crc : UInt32)
    (h1 : rx.decodeIndex ≤ rx.lastCheckExcapedSaved)
    (h2 : rx.lastCheckExcapedSaved < rx.buffer.length) :
    Rx.block
      { rx with buffer := rx.buffer.set rx.lastCheckExcapedSaved b, lastCheckExcaped := n
                lastCheckExcapedSaved := rx.lastCheckExcapedSaved + 1, dataCrc := crc } =
      rx.block ++ [b] := by
  simp only [Rx.block, Rx.slice]
  have h3 : (rx.buffer.set rx.lastCheckExcapedSaved b).drop rx.decodeIndex =
      (rx.buffer.drop rx.decodeIndex).set (rx.lastCheckExcapedSaved - rx.decodeIndex) b := by
    rw [List.drop_set, if_neg (by omega)]
  have h4 : rx.lastCheckExcapedSaved - rx.decodeIndex < (rx.buffer.drop rx.decodeIndex).length := by
    rw [List.length_drop]
    omega
  rw [h3, Nat.sub_add_comm h1, List.take_add_one, List.take_set_of_le (le_refl _),
    List.getElem?_set_self h4]
  rfl

/-! ## The contract -/

/-- The checksum that was compared for a block that was written is that of the block. -/
def WritesOk (log : List Obs) : Prop :=
  ∀ crc data frameend, .write crc data frameend ∈ log → crc = calcBufferCrc32 (data ++ [frameend])

/-- The events that a session posts. -/
def postedEvents : List EventId := [.reset, .sendZdata, .sendZdataLater, .destroy]

/-- What holds as long as a session lives. -/
structure Live (exact : Prop) (s : Session) : Prop where
  isInitialized : s.isInitialized = true
  queue : ∀ e ∈ s.queue, e ∈ postedEvents
  timer : s.timer = true → s.curState = .sendFlowCtrl
  log : exact → WritesOk s.log

/-- What a state expects of the received bytes and the header when it is entered. -/
def Enter (exact : Prop) : StateId → Session → Prop
  | .idle, _ | .end, _ | .destroy, _ => True
  | .chkFrameType, s => AfterData s.rx
  | .handleFrame, s => NoData s.rx ∨ s.inputFrame.type = ZDATA ∧ Decoding exact s.rx
  | .waitData, s =>
    s.inputFrame.type = ZFILE ∧ NoData s.rx ∨ s.inputFrame.type = ZDATA ∧ Decoding exact s.rx
  | _, s => NoData s.rx

/-- The session is in the state `st` and has just entered it. -/
structure At (exact : Prop) (st : StateId) (s : Session) : Prop where
  live : Live exact s
  timer : s.timer = false
  curState : s.curState = st
  enter : Enter exact st s

/-- The session has nothing to do. -/
structure Rest (exact : Prop) (s : Session) : Prop where
  queue : ∀ e ∈ s.queue, e ∈ postedEvents
  log : exact → WritesOk s.log
  timer : s.timer = true → s.curState = .sendFlowCtrl
  idle : s.isInitialized = false → s.curState = .idle
  curState : s.curState ≠ .chkFrameType ∧ s.curState ≠ .end
  noData : s.curState ≠ .waitData → s.curState ≠ .destroy → NoData s.rx
  waitData : s.curState = .waitData → Enter exact .waitData s

/-- A session that has not had an event yet; its indices are arbitrary. -/
structure Fresh (exact : Prop) (s : Session) : Prop where
  isInitialized : s.isInitialized = false
  curState : s.curState = .idle
  timer : s.timer = false
  queue : ∀ e ∈ s.queue, e ∈ postedEvents
  log : exact → WritesOk s.log

/-- The sessions between inputs. -/
def Between (exact : Prop) (s : Session) : Prop :=
  Fresh exact s ∨ Rest exact s ∧ s.isInitialized = true

/-- The precondition of an event. -/
def PreEvent (exact : Prop) : EventId → Session → Prop
  | .networkInput, s =>
    Between exact s ∨ Live exact s ∧ s.timer = false ∧ s.curState = .handleFrame ∧ AfterData s.rx
  | .reset, s => Fresh exact s ∨ Live exact s
  | .fileSelected, s | .sendZdata, s | .sendZdataLater, s | .destroy, s => Between exact s
  | .timeout, s => Rest exact s ∧ s.isInitialized = true ∧ s.curState = .sendFlowCtrl
  | .parseHex, s | .parseBin, s | .parseBin32, s =>
    Live exact s ∧ s.curState = .chkFrameType ∧ NoData s.rx
  | .handleFrame, s =>
    Live exact s ∧ s.curState ∈ [.parseHex, .parseBin, .parseBin32] ∧ NoData s.rx
  | .waitData, s => Live exact s ∧ s.curState = .handleFrame ∧ Enter exact .waitData s
  | .entry, _ | .exit, _ => False

/-- The precondition of an action. -/
def PreAction (exact : Prop) : Action → Session → Prop
  | .changeState st, s => Live exact s ∧ Enter exact st s
  | .cancelTimer, _ => True
  | .newTimer _, s => At exact .sendFlowCtrl s
  | .initState, s =>
    s.curState = .idle ∧ s.timer = false ∧ (∀ e ∈ s.queue, e ∈ postedEvents) ∧
      (exact → WritesOk s.log)
  | .checkFrametype, s => At exact .chkFrameType s
  | .parseHexFrame, s => At exact .parseHex s
  | .parseBinFrame, s => At exact .parseBin s
  | .parseBin32Frame, s => At exact .parseBin32 s
  | .handleFrame, s => At exact .handleFrame s
  | .sendZdata, s => At exact .sendZdata s
  | .sendZrpos, _ => False
  | .sendFileInfo, s => At exact .fileSelected s
  | .deleteSelf, s => At exact .destroy s

/-- The precondition of what is to be done. -/
def Pre (exact : Prop) : Todo → Session → Prop
  | .event e, s => PreEvent exact e s
  | .actions _ [], s => Rest exact s
  | .actions st (a :: as), s => s.curState = st ∧ as = [] ∧ a ≠ .cancelTimer ∧ PreAction exact a s
  | .action a, s => PreAction exact a s
  | .toNextState st, s => Live exact s ∧ s.timer = false ∧ Enter exact st s
  | .setInitialized, s => Rest exact s ∧ s.curState = .idle
  | .frame, s => At exact .handleFrame s
  | .zdata, s =>
    Live exact s ∧ s.timer = false ∧ s.curState = .handleFrame ∧ s.inputFrame.type = ZDATA ∧
      Decoding exact s.rx
  | .clearFileSelect, s | .clearParsed, s => Rest exact s

/-- Its postcondition. -/
def Post (exact : Prop) : Todo → Session → Session → Prop
  | .action .cancelTimer, s, s' => s' = { s with timer := false }
  | .setInitialized, s, s' => s' = { s with isInitialized := true }
  | .event _, _, s' => Rest exact s' ∧ s'.isInitialized = true
  | _, s, s' => Rest exact s' ∧ s'.isInitialized = s.isInitialized

/-! ## Events -/

theorem NoData.enter {s : Session} (h : NoData s.rx) {st : StateId} (hst : st ≠ .waitData) :
    Enter exact st s := by
  cases st with
  | chkFrameType => exact h.afterData
  | handleFrame => exact Or.inl h
  | waitData => exact absurd rfl hst
  | idle | «end» | destroy => trivial
  | _ => exact h

theorem Rest.live (h : Rest exact s) (hi : s.isInitialized = true) : Live exact s :=
  ⟨hi, h.queue, h.timer, h.log⟩

theorem Rest.timer_eq (h : Rest exact s) (hs : s.curState ≠ .sendFlowCtrl) : s.timer = false := by
  have := h.timer
  cases ht : s.timer <;> simp_all

theorem Live.timer_eq (h : Live exact s) (hs : s.curState ≠ .sendFlowCtrl) : s.timer = false := by
  have := h.timer
  cases ht : s.timer <;> simp_all

/-- The action for an event from outside. -/
theorem rest_event {e : EventId} (h : Rest exact s) (hi : s.isInitialized = true)
    (he : e = .networkInput ∨ e = .fileSelected ∨ e = .sendZdata ∨ e = .sendZdataLater ∨
      e = .destroy) :
    getActionList s.curState e = [] ∨
      ∃ a, getActionList s.curState e = [a] ∧ a ≠ .cancelTimer ∧ PreAction exact a s := by
  have hlive := h.live hi
  have hstate := h.curState
  have hdata := h.noData
  have hwait := h.waitData
  have htimer := h.timer_eq
  -- Every state that handles the event in another way than by an entry expects no data.
  cases hst : s.curState with
  | chkFrameType | «end» => simp [hst] at hstate
  | destroy => rcases he with rfl | rfl | rfl | rfl | rfl <;> simp [getActionList]
  | waitData =>
    rcases he with rfl | rfl | rfl | rfl | rfl
    · refine Or.inr ⟨_, rfl, by simp, hlive, ?_⟩
      rcases hwait hst with ⟨-, h1⟩ | h1
      · exact Or.inl h1
      · exact Or.inr h1
    · exact Or.inl rfl
    · exact Or.inl rfl
    · exact Or.inl rfl
    · exact Or.inr ⟨_, rfl, by simp, hlive, trivial⟩
  | parseHex | parseBin | parseBin32 =>
    have hd := hdata (by simp [hst]) (by simp [hst])
    rcases he with rfl | rfl | rfl | rfl | rfl
    · exact Or.inr ⟨_, rfl, by simp, hlive, htimer (by simp [hst]), hst, hd⟩
    · exact Or.inl rfl
    · exact Or.inl rfl
    · exact Or.inl rfl
    · exact Or.inr ⟨_, rfl, by simp, hlive, trivial⟩
  | idle | handleFrame | fileSelected | sendZdata | sendFlowCtrl =>
    have hd := hdata (by simp [hst]) (by simp [hst])
    rcases he with rfl | rfl | rfl | rfl | rfl <;> first
      | exact Or.inl rfl
      | exact Or.inr ⟨_, rfl, by simp, hlive, hd.enter (by simp)⟩

/-- The action for any event. -/
theorem pre_event {e : EventId} (h : PreEvent exact e s) (hi : s.isInitialized = true) :
    Live exact s ∧ (getActionList s.curState e = [] ∨
      ∃ a, getActionList s.curState e = [a] ∧ a ≠ .cancelTimer ∧ PreAction exact a s) := by
  have hfresh : ¬ Fresh exact s := fun h => by simp [h.isInitialized] at hi
  have hrest : Between exact s → Rest exact s := fun h => (h.resolve_left hfresh).1
  cases e with
  | networkInput =>
    rcases h with h | ⟨h1, -, h2, h3⟩
    · exact ⟨(hrest h).live hi, rest_event (hrest h) hi (by simp)⟩
    · rw [h2]
      exact ⟨h1, Or.inr ⟨_, rfl, by simp, h1, h3⟩⟩
  | reset =>
    have h1 := h.resolve_left hfresh
    refine ⟨h1, ?_⟩
    cases s.curState <;> first
      | exact Or.inl rfl
      | exact Or.inr ⟨_, rfl, by simp, h1, trivial⟩
  | timeout =>
    obtain ⟨h1, -, h2⟩ := h
    rw [h2]
    exact ⟨h1.live hi, Or.inr ⟨_, rfl, by simp, h1.live hi,
      (h1.noData (by simp [h2]) (by simp [h2])).enter (by simp)⟩⟩
  | parseHex | parseBin | parseBin32 =>
    obtain ⟨h1, h2, h3⟩ := h
    rw [h2]
    exact ⟨h1, Or.inr ⟨_, rfl, by simp, h1, h3.enter (by simp)⟩⟩
  | handleFrame =>
    obtain ⟨h1, h2, h3⟩ := h
    refine ⟨h1, Or.inr ⟨.changeState .handleFrame, ?_, by simp, h1, h3.enter (by simp)⟩⟩
    simp only [List.mem_cons, List.not_mem_nil, or_false] at h2
    rcases h2 with h2 | h2 | h2 <;> rw [h2] <;> rfl
  | waitData =>
    obtain ⟨h1, h2, h3⟩ := h
    rw [h2]
    exact ⟨h1, Or.inr ⟨_, rfl, by simp, h1, h3⟩⟩
  | fileSelected | sendZdata | sendZdataLater | destroy =>
    exact ⟨(hrest h).live hi, rest_event (hrest h) hi (by simp)⟩
  | entry | exit => exact h.elim

theorem step_event {e : EventId} (h : PreEvent exact e s)
    (hs : s.step env (.event e) = .ok (s', new)) :
    Machine.Seq (Pre exact) (Post exact) new (Post exact (.event e) s) s' := by
  simp only [Session.step, Except.ok.injEq] at hs
  obtain ⟨rfl, rfl⟩ : s = s' ∧ (s.handleEvent e).2 = new := by
    have h1 := handleEvent_fst s e
    exact ⟨by rw [← h1, hs], by rw [hs]⟩
  by_cases hi : s.isInitialized = true
  · obtain ⟨h1, h2⟩ := pre_event h hi
    rcases h2 with h2 | ⟨a, h2, h3, h4⟩
    · simp only [handleEvent, hi, h2, not_true, if_false]
      exact ⟨⟨h1, trivial⟩, fun s1 h3 => ⟨h3.1, h3.2.trans hi⟩⟩
    · simp only [handleEvent, hi, h2, not_true, if_false]
      exact ⟨⟨rfl, rfl, h3, h4⟩, fun s1 h5 => ⟨h5.1, h5.2.trans hi⟩⟩
  · have hf : Fresh exact s ∧ (∀ s1, Rest exact s1 → s1.isInitialized = true → PreEvent exact e s1) := by
      have hr : ∀ s1, Rest exact s1 → s1.isInitialized = true → Between exact s1 :=
        fun s1 h1 h2 => Or.inr ⟨h1, h2⟩
      have hl : ∀ {s : Session}, Live exact s → s.isInitialized = true := Live.isInitialized
      cases e with
      | networkInput =>
        rcases h with (h | ⟨-, h⟩) | ⟨h, -⟩
        · exact ⟨h, fun s1 h1 h2 => Or.inl (hr s1 h1 h2)⟩
        · exact absurd h hi
        · exact absurd (hl h) hi
      | reset =>
        rcases h with h | h
        · exact ⟨h, fun s1 h1 h2 => Or.inr (h1.live h2)⟩
        · exact absurd (hl h) hi
      | fileSelected | sendZdata | sendZdataLater | destroy =>
        rcases h with h | ⟨-, h⟩
        · exact ⟨h, hr⟩
        · exact absurd h hi
      | timeout => exact absurd h.2.1 hi
      | parseHex | parseBin | parseBin32 | handleFrame | waitData => exact absurd (hl h.1) hi
      | entry | exit => exact h.elim
    obtain ⟨h1, h2⟩ := hf
    simp only [handleEvent, hi, h1.curState]
    refine ⟨⟨h1.curState, rfl, by simp, h1.curState, h1.timer, h1.queue, h1.log⟩, ?_⟩
    rintro s1 ⟨h3, h4⟩
    refine ⟨⟨h3, h3.idle (h4.trans h1.isInitialized)⟩, ?_⟩
    rintro _ rfl
    refine ⟨h2 _ ?_ rfl, fun s2 h5 => h5⟩
    exact ⟨h3.queue, h3.log, h3.timer, by simp, h3.curState, h3.noData, h3.waitData⟩

/-! ## Actions -/

theorem writesOk_append {log : List Obs} {o : Obs} (h : WritesOk log)
    (ho : ∀ crc data frameend, o = .write crc data frameend →
      crc = calcBufferCrc32 (data ++ [frameend])) : WritesOk (log ++ [o]) := by
  intro crc data fe hmem
  rcases List.mem_append.mp hmem with hmem | hmem
  · exact h crc data fe hmem
  · exact ho crc data fe (List.mem_singleton.mp hmem).symm

theorem Live.observe (h : Live exact s) {o : Obs}
    (ho : ∀ crc data frameend, o ≠ .write crc data frameend) : Live exact (s.observe o) :=
  ⟨h.isInitialized, h.queue, h.timer, fun he =>
    writesOk_append (h.log he) fun crc data fe hw => absurd hw (ho crc data fe)⟩

theorem Live.asynHandleEvent (h : Live exact s) {e : EventId} (he : e ∈ postedEvents) :
    Live exact (s.asynHandleEvent e) := by
  refine ⟨h.isInitialized, fun e' he' => ?_, h.timer, h.log⟩
  rcases List.mem_append.mp he' with he' | he'
  · exact h.queue e' he'
  · rwa [List.mem_singleton.mp he']

theorem Live.postUnlessDestroyed (h : Live exact s) {e : EventId} (he : e ∈ postedEvents) :
    Live exact (s.postUnlessDestroyed e) ∧ (s.postUnlessDestroyed e).rx = s.rx ∧
      (s.postUnlessDestroyed e).curState = s.curState := by
  unfold Session.postUnlessDestroyed
  split_ifs
  · exact ⟨h, rfl, rfl⟩
  · exact ⟨h.asynHandleEvent he, rfl, rfl⟩

/-- A session that decodes no data may rest in most states. -/
theorem Live.rest (h : Live exact s) (hd : NoData s.rx)
    (hs : s.curState ∉ [.idle, .chkFrameType, .end, .waitData]) : Rest exact s := by
  simp only [List.mem_cons, List.not_mem_nil, or_false, not_or] at hs
  exact ⟨h.queue, h.log, h.timer, by simp [h.isInitialized], ⟨hs.2.1, hs.2.2.1⟩, fun _ _ => hd,
    fun hw => absurd hw hs.2.2.2⟩

theorem step_changeState {st : StateId} (h : PreAction exact (.changeState st) s)
    (hs : s.step env (.action (.changeState st)) = .ok (s', new)) :
    Machine.Seq (Pre exact) (Post exact) new (Post exact (.action (.changeState st)) s) s' := by
  obtain ⟨h1, h2⟩ := h
  simp only [Session.step, Session.action, Except.ok.injEq, Prod.mk.injEq] at hs
  obtain ⟨rfl, rfl⟩ := hs
  by_cases he : getActionList s.curState .exit = []
  · rw [he]
    refine ⟨⟨h1, h1.timer_eq ?_, h2⟩, fun s1 h3 => h3⟩
    intro hs
    simp [hs, getActionList] at he
  · have he' : getActionList s.curState .exit = [.cancelTimer] := by
      revert he
      cases s.curState <;> simp [getActionList]
    rw [he']
    refine ⟨trivial, ?_⟩
    rintro _ rfl
    refine ⟨⟨⟨h1.isInitialized, h1.queue, by simp, h1.log⟩, rfl, ?_⟩, fun s1 h3 => h3⟩
    cases st <;> exact h2

theorem step_toNextState {st : StateId} (h : Pre exact (.toNextState st) s)
    (hs : s.step env (.toNextState st) = .ok (s', new)) :
    Machine.Seq (Pre exact) (Post exact) new (Post exact (.toNextState st) s) s' := by
  obtain ⟨h1, h2, h3⟩ := h
  simp only [Session.step, Except.ok.injEq, Prod.mk.injEq] at hs
  obtain ⟨rfl, rfl⟩ := hs
  have h4 : Live exact ({ s with curState := st }.observe (.enter st)) :=
    Live.observe (s := { s with curState := st })
      ⟨h1.isInitialized, h1.queue, by simp [h2], h1.log⟩ (by simp)
  have h5 : At exact st ({ s with curState := st }.observe (.enter st)) :=
    ⟨h4, h2, rfl, by cases st <;> exact h3⟩
  cases st with
  | waitData =>
    exact ⟨⟨h4.queue, h4.log, h4.timer, by simp [h4.isInitialized], by simp [observe],
      by simp [observe], fun _ => h3⟩, rfl⟩
  | idle => exact ⟨⟨rfl, h2, h4.queue, h4.log⟩, fun s1 h => h⟩
  | «end» => exact ⟨⟨h4, trivial⟩, fun s1 h => h⟩
  | _ => exact ⟨h5, fun s1 h => h⟩

theorem step_initState (h : PreAction exact .initState s)
    (hs : s.step env (.action .initState) = .ok (s', new)) :
    Machine.Seq (Pre exact) (Post exact) new (Post exact (.action .initState) s) s' := by
  obtain ⟨h1, h2, h3, h4⟩ := h
  simp only [Session.step, Session.action, Except.ok.injEq, Prod.mk.injEq] at hs
  obtain ⟨rfl, rfl⟩ := hs
  refine ⟨⟨?_, fun he => ?_, ?_, fun _ => by simpa using h1, by simp [h1], fun _ _ => noData_init,
    by simp [h1]⟩, by simp⟩
  · intro e he
    simp only [initState, observe, asynHandleEvent] at he
    split_ifs at he <;> first
      | exact h3 e he
      | · rcases List.mem_append.mp he with he | he
          · exact h3 e he
          · simp [List.mem_singleton.mp he, postedEvents]
  · have h5 := h4 he
    simp only [initState, observe, asynHandleEvent]
    split_ifs <;> first
      | exact h5
      | exact writesOk_append h5 (by simp)
  · simp only [initState, observe, asynHandleEvent]
    split_ifs <;> simp [h2]

theorem step_checkFrametype (h : At exact .chkFrameType s)
    (hs : s.step env (.action .checkFrametype) = .ok (s', new)) :
    Machine.Seq (Pre exact) (Post exact) new (Post exact (.action .checkFrametype) s) s' := by
  have h1 := h.live
  have h2 : s.checkFrametype = _ := hs
  rcases checkFrametype_cases s with ⟨i, h3⟩ | ⟨i, e, he, h4, -, h3⟩
  · rw [h3] at h2
    cases h2
    exact ⟨Or.inr ⟨h1.1, h1.2, h1.3, h1.4⟩, fun s1 h => ⟨h.1, h.2.trans h1.isInitialized.symm⟩⟩
  · rw [h3] at h2
    cases h2
    have h5 : NoData { s.rx with decodeIndex := i }.eatBuffer :=
      AfterData.eatBuffer h.enter (by omega)
    refine ⟨?_, fun s1 h => ⟨h.1, h.2.trans h1.isInitialized.symm⟩⟩
    rcases he with rfl | rfl | rfl <;>
      exact ⟨⟨h1.1, h1.2, h1.3, h1.4⟩, h.curState, h5⟩

/-- The parsers of headers. -/
theorem step_parses {n : Next} {a : Action} (h : Live exact s)
    (hs : s.curState ∈ [.parseHex, .parseBin, .parseBin32]) (hd : NoData s.rx) (hp : Parses s n)
    (hn : n = .ok (s', new)) (ha : a ≠ .cancelTimer) :
    Machine.Seq (Pre exact) (Post exact) new (Post exact (.action a) s) s' := by
  have hpost : ∀ s1, Rest exact s1 ∧ s1.isInitialized = s.isInitialized →
      Post exact (.action a) s s1 := by
    intro s1 h1
    cases a <;> first
      | exact absurd rfl ha
      | exact h1
  cases hp with
  | wait =>
    cases hn
    refine hpost _ ⟨h.rest hd ?_, rfl⟩
    simp only [List.mem_cons, List.not_mem_nil, or_false] at hs
    rcases hs with hs | hs | hs <;> simp [hs]
  | reset i =>
    cases hn
    exact ⟨Or.inr ⟨h.1, h.2, h.3, h.4⟩, fun s1 h1 => hpost _ ⟨h1.1, h1.2.trans h.isInitialized.symm⟩⟩
  | frame i f h1 _ =>
    cases hn
    exact ⟨⟨⟨h.1, h.2, h.3, h.4⟩, hs, hd.afterData.eatBuffer (by omega)⟩,
      fun s1 h1 => hpost _ ⟨h1.1, h1.2.trans h.isInitialized.symm⟩⟩

variable (exact) in
theorem sendZdata_rest (h : Live exact s) (hd : NoData s.rx)
    (hs : s.curState ∉ [.idle, .chkFrameType, .end, .waitData]) (hn : s.sendZdata = .ok (s', new)) :
    new = [] ∧ Rest exact s' ∧ s'.isInitialized = s.isInitialized := by
  have hpost : ∀ {s1 : Session}, Live exact s1 → s1.rx = s.rx → s1.curState = s.curState →
      Rest exact s1 ∧ s1.isInitialized = s.isInitialized :=
    fun h1 h2 h3 => ⟨h1.rest (h2 ▸ hd) (h3 ▸ hs), h1.isInitialized.trans h.isInitialized.symm⟩
  have hsent : ∀ f data fe, Live exact ({ s with zmodemFile := f }.observe (.sendZsda32 data fe)) :=
    fun f data fe => Live.observe (s := { s with zmodemFile := f }) ⟨h.1, h.2, h.3, h.4⟩ (by simp)
  have hn' := sendZdata_cases s
  rw [hn] at hn'
  cases hn' with
  | later _ =>
    obtain ⟨h1, h2, h3⟩ := h.postUnlessDestroyed (e := .sendZdataLater) (by simp [postedEvents])
    exact ⟨rfl, hpost h1 h2 h3⟩
  | more f f' data _ _ _ _ =>
    obtain ⟨h1, h2, h3⟩ := (hsent (some f') data ZCRCG).postUnlessDestroyed (e := .sendZdata)
      (by simp [postedEvents])
    exact ⟨rfl, hpost h1 h2 h3⟩
  | last f f' data _ _ _ _ => exact ⟨rfl, hpost ((hsent (some f') data ZCRCE).observe (by simp)) rfl rfl⟩

theorem step_sendFileInfo (h : At exact .fileSelected s)
    (hs : s.step env (.action .sendFileInfo) = .ok (s', new)) :
    Machine.Seq (Pre exact) (Post exact) new (Post exact (.action .sendFileInfo) s) s' := by
  have h1 := h.live
  have h2 : s.sendFileInfo env = _ := hs
  rw [sendFileInfo] at h2
  cases hf : env.getFileInfo s.uploadFilePath with
  | none =>
    simp only [hf] at h2
    cases h2
    exact ⟨Or.inr ⟨h1.1, h1.2, h1.3, h1.4⟩, fun s1 h => ⟨h.1, h.2.trans h1.isInitialized.symm⟩⟩
  | some info =>
    simp only [hf] at h2
    cases h2
    have h3 : Live exact ((s.observe (.sendBin32Frame ⟨ZFILE, 0, 0, 4, 1⟩)).observe
        (.sendZsda32 (filedata info) ZCRCW)) := (h1.observe (by simp)).observe (by simp)
    have h4 := h.curState
    exact ⟨Live.rest ⟨h3.1, h3.2, h3.3, h3.4⟩ h.enter (by simp [observe, h4]), rfl⟩

/-! ## Frames -/

theorem handleZfile_seq (h : Live exact s) (hs : s.curState = .handleFrame) (hd : NoData s.rx)
    (hf : s.inputFrame.type = ZFILE)
    (hn : s.handleZfile env = .ok (s', new)) :
    Machine.Seq (Pre exact) (Post exact) new
      (fun s' => Rest exact s' ∧ s'.isInitialized = true) s' := by
  rcases handleZfile_cases env s with ⟨-, h1⟩ | ⟨-, h1⟩
  · rw [h1] at hn
    cases hn
  rw [hn] at h1
  cases h1 with
  | wait => exact ⟨⟨h, hs, Or.inl ⟨hf, hd⟩⟩, fun s1 h => h⟩
  | reset rx => exact ⟨Or.inr ⟨h.1, h.2, h.3, h.4⟩, fun s1 h => h⟩
  | opened b i f _ hi _ _ =>
    have h2 : Live exact ({ s with
        rx := { s.rx with buffer := b, decodeIndex := i }.eatBuffer, zmodemFile := some f }.observe
          (.sendFrame (posFrame ZRPOS f.pos))) :=
      Live.observe (s := { s with
        rx := { s.rx with buffer := b, decodeIndex := i }.eatBuffer, zmodemFile := some f })
        ⟨h.1, h.2, h.3, h.4⟩ (by simp)
    have h3 : NoData { s.rx with buffer := b }  := ⟨hd.1, hd.2, hd.3, hd.4⟩
    exact ⟨h2.rest (h3.afterData.eatBuffer hi.le) (by simp [observe, hs]), h2.isInitialized⟩

theorem step_frame (h : At exact .handleFrame s) (hs : s.step env .frame = .ok (s', new)) :
    Machine.Seq (Pre exact) (Post exact) new (Post exact .frame s) s' := by
  have h1 := h.live
  have h2 := h.curState
  have hn : s.handleFrame env = _ := hs
  have hpost : ∀ s1, Rest exact s1 ∧ s1.isInitialized = true → Post exact .frame s s1 :=
    fun s1 h => ⟨h.1, h.2.trans h1.isInitialized.symm⟩
  -- Only `ZDATA` finds data that have been decoded.
  have hdata : s.inputFrame.type ≠ ZDATA → NoData s.rx := fun ht => h.enter.resolve_right (by tauto)
  have hrest : ∀ {u : Session}, Live exact u → u.rx = s.rx → u.curState = .handleFrame →
      s.inputFrame.type ≠ ZDATA → Rest exact u ∧ u.isInitialized = true :=
    fun h3 h4 h5 h6 => ⟨h3.rest (h4 ▸ hdata h6) (by simp [h5]), h3.isInitialized⟩
  have hreset : ∀ {s1 : Session}, Live exact s1 →
      Machine.Seq (Pre exact) (Post exact) [.event .reset] (Post exact .frame s) s1 :=
    fun h3 => ⟨Or.inr h3, fun s2 h4 => hpost s2 h4⟩
  unfold Session.handleFrame at hn
  dsimp only at hn
  split_ifs at hn with a1 a2 a3 a4 a5 a6 a7 a8 a9 a10 a11
  · cases hn
    exact hpost _ (hrest (h1.observe (by simp)) rfl h2 (by simp [a1, ZRQINIT, ZDATA]))
  · have h3 := handleZfile_seq (s := { s with isSz := true }) ⟨h1.1, h1.2, h1.3, h1.4⟩ h2
      (hdata (by simp [a2, ZFILE, ZDATA])) a2 hn
    have := Machine.Seq.append (l := []) h3 hpost
    rwa [List.append_nil] at this
  · cases hn
    refine ⟨⟨h1, h.timer, h2, a3, ?_⟩, fun s1 h3 => h3⟩
    rcases h.enter with h3 | h3
    · exact h3.decoding
    · exact h3.2
  · cases hn
    exact hpost _ (hrest (Live.observe (s := { s with zmodemFile := none })
      ⟨h1.1, h1.2, h1.3, h1.4⟩ (by simp)) rfl h2 a3)
  · cases hn
    exact hreset ⟨h1.1, h1.2, h1.3, h1.4⟩
  · cases hn
    exact hpost _ (hrest (u := { s with isSz := false, fileSelectState := .selecting, sendFinOnReset := true, timer := false })
      ⟨h1.1, h1.2, by simp, h1.4⟩ rfl h2 a3)
  · cases hn
    refine ⟨Or.inr (Live.observe (s := { s with isSz := false }) ⟨h1.1, h1.2, h1.3, h1.4⟩ (by simp)),
      fun s1 h3 => ⟨h3.1, fun s2 h4 => hpost _ ⟨h4.1, h4.2.trans h3.2⟩⟩⟩
  · cases hn
    exact hpost _ (hrest ⟨h1.1, h1.2, h1.3, h1.4⟩ rfl h2 a3)
  · cases hf : s.zmodemFile with
    | none =>
      simp only [hf] at hn
      cases hn
      exact hreset (Live.observe (Live.observe
        (s := { s with zmodemFile := none, sendFinOnReset := true })
        ⟨h1.1, h1.2, h1.3, h1.4⟩ (by simp)) (by simp))
    | some f =>
      simp only [hf] at hn
      obtain ⟨rfl, h3, h4⟩ := sendZdata_rest exact (Live.observe
        (s := { s with zmodemFile := some (f.setPos (getPos s.inputFrame)) })
        ⟨h1.1, h1.2, h1.3, h1.4⟩ (by simp)) (hdata a3) (by simp [observe, h2]) hn
      exact hpost _ ⟨h3, h4.trans h1.isInitialized⟩
  · cases hn
    exact ⟨Or.inr ⟨h1, h.timer, h2, (hdata a3).afterData⟩, fun s1 h3 => hpost s1 h3⟩
  · cases hn
    exact hpost _ (hrest h1 rfl h2 a3)
  · cases hn
    exact hreset ⟨h1.1, h1.2, h1.3, h1.4⟩

/-! ## Data -/

/-- The end of a subpacket that the loop of `handleZdata` is at: its last byte, and its checksum with
the number of its bytes. -/
def Session.subpacketEnd (s : Session) : Option (UInt8 × UInt32 × ℕ) :=
  if s.rx.lastCheckExcaped < zdataBound s.rx.buffer.length ∧
      s.rx.buffer[s.rx.lastCheckExcaped]? = some ZDLE ∧
      s.rx.lastCheckExcaped + 6 ≤ s.rx.buffer.length then
    match s.rx.buffer[s.rx.lastCheckExcaped + 1]? with
    | some b =>
      if isFrameend b then
        (decodeCrc32 (s.rx.buffer.drop (s.rx.lastCheckExcaped + 2))).map fun r => (b, r)
      else none
    | none => none
  else none

/-- The loop passes over what looks like the end of a subpacket and has a wrong checksum. -/
def Session.passesOver (s : Session) : Prop :=
  ∃ p ∈ s.subpacketEnd, p.1 ≠ ZCRCG ∧ p.2.1 ≠ s.calcCrc p.1

theorem AtEnd.subpacketEnd {b : UInt8} {recv : UInt32} {n : ℕ} (h : AtEnd s b recv n) :
    s.subpacketEnd = some (b, recv, n) := by
  have h1 := h.le
  have h2 := h.four_le
  have h3 : s.rx.lastCheckExcaped < zdataBound s.rx.buffer.length := by
    rw [zdataBound, if_neg (by omega)]
    omega
  simp only [Session.subpacketEnd, h3, h.zdle, true_and, h.frameend, h.isFrameend, h.crc]
  rw [if_pos (by omega)]
  rfl

/-- The checksum that is compared is that of the block and the end of the subpacket. -/
theorem calcCrc_eq (h : s.rx.dataCrc = crcReg 0xFFFFFFFF s.rx.block) (b : UInt8) :
    s.calcCrc b = calcBufferCrc32 (s.zdataBlock ++ [b]) := by
  rw [calcCrc, h, calcBufferCrc32, crcReg, crcReg, List.foldl_append]
  rfl

theorem Decoding.stored {s : Session} (h : Decoding exact s.rx) (b : UInt8) (k : ℕ) (hk : 1 ≤ k)
    (hle : s.rx.lastCheckExcaped + k ≤ s.rx.buffer.length) :
    Decoding exact (zdataStored s b k).rx := by
  have h1 := h.decodeIndex_le
  have h2 := h.saved_le
  refine ⟨by simp only [zdataStored]; omega, by simp only [zdataStored]; omega, ?_, fun he => ?_⟩
  · simpa [zdataStored] using hle
  · have h3 := h.crc he
    rw [zdataStored, block_set b _ _ h1 (by omega), crcReg, List.foldl_append]
    show updc32 b s.rx.dataCrc = _
    rw [h3]
    rfl

theorem step_zdata (h : Pre exact .zdata s) (hg : exact → ¬ s.passesOver)
    (hs : s.step env .zdata = .ok (s', new)) :
    Machine.Seq (Pre exact) (Post exact) new (Post exact .zdata s) s' := by
  obtain ⟨h1, ht, h2, h3, h4⟩ := h
  have hn : s.handleZdata env = _ := hs
  have hd := h4.decodeIndex_le
  have hsv := h4.saved_le
  have hc := h4.checked_le
  have hpost : ∀ s1, Rest exact s1 ∧ s1.isInitialized = true → Post exact .zdata s s1 :=
    fun s1 h => ⟨h.1, h.2.trans h1.isInitialized.symm⟩
  have hz := handleZdata_cases env s
  generalize s.handleZdata env = res at hn hz
  cases hz with
  | wait _ =>
    cases hn
    exact ⟨⟨h1, h2, Or.inr ⟨h3, h4⟩⟩, hpost⟩
  | reset _ _ _ _ =>
    cases hn
    exact ⟨Or.inr h1, hpost⟩
  | full _ _ _ _ _ _ =>
    cases hn
    exact ⟨Or.inr ⟨h1.1, h1.2, h1.3, h1.4⟩, hpost⟩
  | byte b _ _ h5 _ =>
    cases hn
    exact ⟨⟨⟨h1.1, h1.2, h1.3, h1.4⟩, ht, h2, h3, h4.stored b 1 (le_refl _) h5.le⟩, fun s1 h => h⟩
  | escaped b _ _ _ h5 _ =>
    cases hn
    exact ⟨⟨⟨h1.1, h1.2, h1.3, h1.4⟩, ht, h2, h3, h4.stored _ 2 (by omega) (by omega)⟩,
      fun s1 h => h⟩
  | skip b recv n h5 h6 h7 =>
    cases hn
    have h8 := h5.le
    refine ⟨⟨⟨h1.1, h1.2, h1.3, h1.4⟩, ht, h2, h3, ?_⟩, fun s1 h => h⟩
    refine ⟨by simp only [zdataNext]; omega, by simp only [zdataNext]; omega,
      by simp only [zdataNext]; omega, fun he => ?_⟩
    exact absurd ⟨_, h5.subpacketEnd, h7, h6⟩ (hg he)
  | block b n f f' h5 _ _ _ _ =>
    have h6 := h5.le
    have h7 : Live exact (s.zdataWritten (s.calcCrc b) b n f') := by
      refine ⟨h1.1, h1.2, h1.3, fun he => ?_⟩
      refine writesOk_append (h1.log he) fun crc data fe hw => ?_
      cases hw
      exact calcCrc_eq (h4.crc he) b
    have h8 : Decoding exact (s.zdataWritten (s.calcCrc b) b n f').zdataNext.rx := by
      refine ⟨by simp [zdataWritten, zdataNext, observe], by simp [zdataWritten, zdataNext, observe],
        by simp only [zdataWritten, zdataNext, observe]; omega, fun _ => ?_⟩
      simp [zdataWritten, zdataNext, observe, Rx.block, Rx.slice, crcReg]
    split_ifs at hn with h9 h10
    · cases hn
      refine ⟨Or.inr ⟨h7, ht, h2, ?_⟩, hpost⟩
      exact ⟨Nat.le_succ _, Nat.le_succ _, rfl⟩
    · cases hn
      exact ⟨⟨⟨h7.1, h7.2, h7.3, h7.4⟩, ht, h2, h3, h8⟩, fun s1 h => h⟩
    · cases hn
      have h11 := h7.observe (o := .sendFrame (posFrame ZNAK f'.pos)) (by simp)
      exact ⟨⟨⟨h11.1, h11.2, h11.3, h11.4⟩, ht, h2, h3, h8⟩, fun s1 h => h⟩
  | done _ _ =>
    cases hn
    exact ⟨⟨⟨h1.1, h1.2, h1.3, h1.4⟩, h2, Or.inr ⟨h3, h4.eatBuffer⟩⟩, hpost⟩
  | nullFile _ _ | assertion _ | overread _ => cases hn

/-! ## Runs -/

/-- The loop of `handleZdata` passes over nothing. -/
def Exactly (exact : Prop) (s : Session) (x : Todo) : Prop := exact → x = .zdata → ¬ s.passesOver

theorem contract (env : Env) (exact : Prop) :
    Machine.Contract (machine env) (Exactly exact) (Pre exact) (Post exact) := by
  refine ⟨fun s x s' new hpre hg hs => ?_⟩
  have hs' : s.step env x = .ok (s', new) := hs
  cases x with
  | event e => exact step_event hpre hs'
  | actions st as =>
    cases as with
    | nil =>
      simp only [Session.step, Except.ok.injEq, Prod.mk.injEq] at hs'
      obtain ⟨rfl, rfl⟩ := hs'
      exact ⟨hpre, rfl⟩
    | cons a as =>
      obtain ⟨rfl, rfl, h1, h2⟩ := hpre
      simp only [Session.step, Except.ok.injEq, Prod.mk.injEq] at hs'
      obtain ⟨rfl, rfl⟩ := hs'
      rw [if_neg (by simp)]
      refine ⟨h2, fun s1 h3 => ?_⟩
      have h4 : Rest exact s1 ∧ s1.isInitialized = s.isInitialized := by
        cases a <;> first
          | exact absurd rfl h1
          | exact h3
      exact ⟨h4.1, fun s2 h5 => ⟨h5.1, h5.2.trans h4.2⟩⟩
  | action a =>
    cases a with
    | changeState st => exact step_changeState hpre hs'
    | cancelTimer =>
      simp only [Session.step, Session.action, Except.ok.injEq, Prod.mk.injEq] at hs'
      obtain ⟨rfl, rfl⟩ := hs'
      rfl
    | newTimer n =>
      simp only [Session.step, Session.action, Except.ok.injEq, Prod.mk.injEq] at hs'
      obtain ⟨rfl, rfl⟩ := hs'
      have h1 := hpre.live
      have h2 := hpre.curState
      exact ⟨Live.rest (s := { s with timer := true }) ⟨h1.1, h1.2, fun _ => h2, h1.4⟩ hpre.enter
        (by simp [h2]), rfl⟩
    | initState => exact step_initState hpre hs'
    | checkFrametype => exact step_checkFrametype hpre hs'
    | parseHexFrame =>
      refine step_parses (n := s.parseHexFrame) hpre.live (by simp [hpre.curState]) hpre.enter ?_ hs'
        (by simp)
      rcases parseHexFrame_cases s with ⟨-, h1⟩ | ⟨-, h1⟩
      · have h2 : s.parseHexFrame = _ := hs'
        rw [h1] at h2
        cases h2
      · exact h1
    | parseBinFrame =>
      exact step_parses hpre.live (by simp [hpre.curState]) hpre.enter (parseBinFrame_cases s) hs'
        (by simp)
    | parseBin32Frame =>
      exact step_parses hpre.live (by simp [hpre.curState]) hpre.enter (parseBin32Frame_cases s) hs'
        (by simp)
    | handleFrame =>
      simp only [Session.step, Session.action, Except.ok.injEq, Prod.mk.injEq] at hs'
      obtain ⟨rfl, rfl⟩ := hs'
      have h1 := hpre.live
      exact ⟨⟨Live.observe (s := { s with bufferParsed := true }) ⟨h1.1, h1.2, h1.3, h1.4⟩ (by simp),
        hpre.timer, hpre.curState, hpre.enter⟩, fun s1 h => h⟩
    | sendZdata =>
      obtain ⟨rfl, h1⟩ := sendZdata_rest _ hpre.live hpre.enter (by simp [hpre.curState]) hs'
      exact h1
    | sendZrpos => exact hpre.elim
    | sendFileInfo => exact step_sendFileInfo hpre hs'
    | deleteSelf =>
      simp only [Session.step, Session.action, Except.ok.injEq, Prod.mk.injEq] at hs'
      obtain ⟨rfl, rfl⟩ := hs'
      have h1 := hpre.live
      have h2 := hpre.curState
      exact ⟨⟨h1.queue, h1.log, h1.timer, by simp [h1.isInitialized], by simp [h2], by simp [h2],
        by simp [h2]⟩, rfl⟩
  | toNextState st => exact step_toNextState hpre hs'
  | setInitialized =>
    simp only [Session.step, Except.ok.injEq, Prod.mk.injEq] at hs'
    obtain ⟨rfl, rfl⟩ := hs'
    rfl
  | frame => exact step_frame hpre hs'
  | zdata => exact step_zdata hpre (fun he => hg he rfl) hs'
  | clearFileSelect | clearParsed =>
    simp only [Session.step, Except.ok.injEq, Prod.mk.injEq] at hs'
    obtain ⟨rfl, rfl⟩ := hs'
    exact ⟨⟨hpre.1, hpre.2, hpre.3, hpre.4, hpre.5, hpre.6, hpre.7⟩, rfl⟩

theorem between_feed (h : Between exact s) (c : List UInt8) :
    Between exact { s with bufferParsed := false, rx := { s.rx with buffer := s.rx.buffer ++ c } } := by
  rcases h with h | ⟨h, hi⟩
  · exact Or.inl ⟨h.1, h.2, h.3, h.4, h.5⟩
  · refine Or.inr ⟨⟨h.1, h.2, h.3, h.4, h.5, fun h1 h2 => (h.6 h1 h2).append c, fun h1 => ?_⟩, hi⟩
    rcases h.7 h1 with ⟨h2, h3⟩ | ⟨h2, h3⟩
    · exact Or.inl ⟨h2, h3.append c⟩
    · exact Or.inr ⟨h2, h3.append c⟩

theorem between_event (h : Between exact s) {e : EventId}
    (he : e ∈ [.networkInput, .fileSelected, .reset, .sendZdata, .sendZdataLater, .destroy]) :
    Machine.Seq (Pre exact) (Post exact) [.event e] (Between exact) s := by
  refine ⟨?_, fun s1 h1 => Or.inr h1⟩
  simp only [List.mem_cons, List.not_mem_nil, or_false] at he
  rcases he with rfl | rfl | rfl | rfl | rfl | rfl
  · exact Or.inl h
  · exact h
  · rcases h with h | ⟨h, hi⟩
    · exact Or.inl h
    · exact Or.inr (h.live hi)
  · exact h
  · exact h
  · exact h

theorem between_reset (h : Between exact s) :
    Machine.Seq (Pre exact) (Post exact) s.reset.2 (Between exact) s.reset.1 := by
  have h1 : Between exact s.reset.1 := by
    rcases h with h | ⟨h, hi⟩
    · exact Or.inl ⟨h.1, h.2, h.3, h.4, fun he => writesOk_append (h.5 he) (by simp)⟩
    · exact Or.inr ⟨⟨h.1, fun he => writesOk_append (h.2 he) (by simp), h.3, h.4, h.5, h.6, h.7⟩, hi⟩
  obtain ⟨h2, -⟩ := between_event (e := .reset) h1 (by simp)
  exact ⟨h2, fun s1 h3 => ⟨h3.1, fun s2 h4 => Or.inr ⟨h4.1, h4.2.trans h3.2⟩⟩⟩

/-- Every input finds what the contract asks for. -/
theorem input_seq {i : Input} (h : Between exact s) (hin : s.input i = some (s', ts)) :
    Machine.Seq (Pre exact) (Post exact) ts (Between exact) s' := by
  by_cases hd : s.curState = .destroy
  · simp [Session.input, hd] at hin
  unfold Session.input at hin
  rw [if_neg hd] at hin
  cases i with
  | network str =>
    simp only [processNetworkInput] at hin
    split_ifs at hin
    · cases hin
      exact h
    · cases hin
      exact between_reset h
    · cases hin
      exact between_event (between_feed h str) (by simp)
  | fileSelected path =>
    cases hin
    refine between_event ?_ (by simp)
    rcases h with h | ⟨h, hi⟩
    · exact Or.inl ⟨h.1, h.2, h.3, h.4, h.5⟩
    · exact Or.inr ⟨⟨h.1, h.2, h.3, h.4, h.5, h.6, h.7⟩, hi⟩
  | reset =>
    cases hin
    exact between_reset h
  | posted e =>
    simp only at hin
    split_ifs at hin with hq
    cases hin
    have he : e ∈ postedEvents := by
      rcases h with h | ⟨h, -⟩
      · exact h.queue e hq
      · exact h.queue e hq
    refine between_event ?_ ?_
    · rcases h with h | ⟨h, hi⟩
      · exact Or.inl ⟨h.1, h.2, h.3, fun e' he' => h.4 e' (List.mem_of_mem_erase he'), h.5⟩
      · exact Or.inr ⟨⟨fun e' he' => h.1 e' (List.mem_of_mem_erase he'), h.2, h.3, h.4, h.5, h.6,
          h.7⟩, hi⟩
    · simp only [postedEvents, List.mem_cons, List.not_mem_nil, or_false] at he ⊢
      tauto
  | timeout =>
    simp only at hin
    split_ifs at hin with ht
    cases hin
    rcases h with h | ⟨h, hi⟩
    · simp [h.timer] at ht
    · exact ⟨⟨⟨h.1, h.2, by simp, h.4, h.5, h.6, h.7⟩, hi, h.timer ht⟩, fun s1 h1 => Or.inr h1⟩
  | sendBuffer size =>
    cases hin
    rcases h with h | ⟨h, hi⟩
    · exact Or.inl ⟨h.1, h.2, h.3, h.4, h.5⟩
    · exact Or.inr ⟨⟨h.1, h.2, h.3, h.4, h.5, h.6, h.7⟩, hi⟩
  | destroy =>
    cases hin
    have hq : (∀ e ∈ s.queue, e ∈ postedEvents) → ∀ e ∈ s.destroy.queue, e ∈ postedEvents := by
      intro hq e he
      rcases List.mem_append.mp he with he | he
      · exact hq e he
      · simp [List.mem_singleton.mp he, postedEvents]
    rcases h with h | ⟨h, hi⟩
    · exact Or.inl ⟨h.1, h.2, h.3, hq h.4, h.5⟩
    · exact Or.inr ⟨⟨hq h.1, h.2, h.3, h.4, h.5, h.6, h.7⟩, hi⟩

theorem between_new (rx : Rx) (f : Frame) : Between exact (Session.new rx f) :=
  Or.inl ⟨rfl, rfl, rfl, by simp [Session.new], fun _ => by simp [Session.new, WritesOk]⟩

variable (exact) in
/-- The contract for a whole run. -/
theorem runs_contract (h : Runs env s is os t r) (hs : Between exact s)
    (hg : ∀ s' x, Visited env s is s' x → Exactly exact s' x) :
    (r = none → Between exact t) ∧
      ∀ e, r = some e → ∃ x, Pre exact x t ∧ Visited env s is t x ∧ t.step env x = .error e :=
  h.contract (contract env exact) (fun _ _ _ _ _ h1 h2 => input_seq h1 h2) hg hs

end PuttyNd.Zmodem
