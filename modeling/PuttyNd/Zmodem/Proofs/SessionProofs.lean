import PuttyNd.Zmodem.Session
import PuttyNd.Zmodem.Proofs.FrameProofs

/-!
# Proofs: the execution of events

Rules for what `handleEvent` and `changeState` do, and for the order of what is observed.
-/

namespace PuttyNd.Zmodem

open Session Outcome

/-- An environment in which files can be created, and there is no file to be sent. -/
def Env.plain : Env := { asserts := true, getFileInfo := fun _ => none, created := fun _ => true }

variable {env : Env} {s s' t t' : Session} {ts new : List Todo} {os os' : List Session}
  {r r' : Option Fault}

/-- A step that does not call `handleFrame`. -/
theorem exec_step {x : Todo} (hx : x ≠ .frame) (h : s.step env x = .ok (s', new))
    (h' : (machine env).Exec s' (new ++ ts) os t r) : (machine env).Exec s (x :: ts) os t r :=
  Machine.Exec.silent h (if_neg hx) h'

theorem exec_frame (h : s.handleFrame env = .ok (s', new))
    (h' : (machine env).Exec s' (new ++ ts) os t r) :
    (machine env).Exec s (.frame :: ts) (s :: os) t r :=
  Machine.Exec.step (m := machine env) (t := .frame) h h'

theorem exec_frame_fault {e : Fault} (h : s.handleFrame env = .error e) :
    (machine env).Exec s (.frame :: ts) [s] s (some e) :=
  Machine.Exec.fault (m := machine env) (t := .frame) h

theorem exec_fault {x : Todo} {e : Fault} (hx : x ≠ .frame) (h : s.step env x = .error e) :
    (machine env).Exec s (x :: ts) [] s (some e) := by
  have : (machine env).Exec s (x :: ts) _ s _ := .fault h
  rwa [show (machine env).observe s x = [] from if_neg hx] at this

/-- The exit actions of a state, which stop the timer or do nothing. -/
def Session.leave (s : Session) : Session :=
  if getActionList s.curState .exit = [] then s else { s with timer := false }

/-- `changeState` up to the entry actions of the next state. -/
def Session.toState (s : Session) (st : StateId) : Session :=
  { s.leave with curState := st }.observe (.enter st)

theorem exec_changeState {st : StateId}
    (h : (machine env).Exec (s.toState st) ((getActionList st .entry).map .action ++ ts) os t r) :
    (machine env).Exec s (.action (.changeState st) :: ts) os t r := by
  refine exec_step (by simp) rfl ?_
  by_cases he : getActionList s.curState .exit = []
  · simp only [he, List.map_nil, List.nil_append, List.singleton_append]
    refine exec_step (by simp) rfl ?_
    rw [toState, leave, if_pos he] at h
    exact h
  · have he' : getActionList s.curState .exit = [.cancelTimer] := by
      revert he
      cases s.curState <;> simp [getActionList]
    simp only [he', List.map_cons, List.map_nil, List.cons_append, List.nil_append]
    refine exec_step (by simp) rfl (exec_step (by simp) rfl ?_)
    rw [toState, leave, if_neg he] at h
    exact h

/-- An event for which one action is defined. -/
theorem exec_event {e : EventId} {a : Action} (hi : s.isInitialized = true)
    (ha : getActionList s.curState e = [a])
    (h : (machine env).Exec s (.action a :: .actions s.curState [] :: ts) os t r) :
    (machine env).Exec s (.event e :: ts) os t r := by
  have hev : s.handleEvent e = (s, [.actions s.curState [a]]) := by
    simp [handleEvent, hi, ha]
  refine exec_step (by simp) (congrArg Except.ok hev) (exec_step (by simp) rfl ?_)
  rw [if_neg (by simp)]
  exact h

/-- An event that is not defined ends the session. -/
theorem exec_event_undefined {e : EventId} (hi : s.isInitialized = true)
    (ha : getActionList s.curState e = [])
    (h : (machine env).Exec s (.action (.changeState .end) :: ts) os t r) :
    (machine env).Exec s (.event e :: ts) os t r := by
  have hev : s.handleEvent e = (s, [.action (.changeState .end)]) := by
    simp [handleEvent, hi, ha]
  exact exec_step (by simp) (congrArg Except.ok hev) h

theorem exec_event_changeState {e : EventId} {n : StateId} (hi : s.isInitialized = true)
    (ha : getActionList s.curState e = [.changeState n])
    (h : (machine env).Exec (s.toState n)
      ((getActionList n .entry).map .action ++ .actions s.curState [] :: ts) os t r) :
    (machine env).Exec s (.event e :: ts) os t r :=
  exec_event hi ha (exec_changeState h)

/-- What remains of lists of actions. -/
def Done (ts : List Todo) : Prop := ∀ x ∈ ts, ∃ st, x = .actions st []

@[simp] theorem done_nil : Done [] := by simp [Done]

@[simp] theorem done_cons {st : StateId} : Done (.actions st [] :: ts) ↔ Done ts := by
  simp [Done]

theorem exec_done (h : Done ts) : (machine env).Exec s ts [] s none := by
  induction ts with
  | nil => exact .nil
  | cons x ts ih =>
    obtain ⟨st, rfl⟩ := h x (by simp)
    exact exec_step (by simp) rfl (ih fun y hy => h y (by simp [hy]))

@[simp] theorem toState_curState (st : StateId) : (s.toState st).curState = st := rfl

@[simp] theorem toState_log (st : StateId) : (s.toState st).log = s.log ++ [.enter st] := by
  simp only [toState, leave, observe]
  split <;> rfl

@[simp] theorem toState_isInitialized (st : StateId) :
    (s.toState st).isInitialized = s.isInitialized := by
  simp only [toState, leave, observe]
  split <;> rfl

@[simp] theorem toState_rx (st : StateId) : (s.toState st).rx = s.rx := by
  simp only [toState, leave, observe]
  split <;> rfl

@[simp] theorem toState_zmodemFile (st : StateId) : (s.toState st).zmodemFile = s.zmodemFile := by
  simp only [toState, leave, observe]
  split <;> rfl

@[simp] theorem toState_inputFrame (st : StateId) : (s.toState st).inputFrame = s.inputFrame := by
  simp only [toState, leave, observe]
  split <;> rfl

@[simp] theorem initState_curState (s : Session) : s.initState.curState = s.curState := by
  simp only [initState, observe, asynHandleEvent]
  split_ifs <;> rfl

@[simp] theorem initState_isInitialized (s : Session) :
    s.initState.isInitialized = s.isInitialized := by
  simp only [initState, observe, asynHandleEvent]
  split_ifs <;> rfl

@[simp] theorem initState_rx (s : Session) : s.initState.rx = Rx.init := rfl

@[simp] theorem toState_queue (st : StateId) : (s.toState st).queue = s.queue := by
  simp only [toState, leave, observe]
  split <;> rfl

@[simp] theorem toState_isDestroyed (st : StateId) :
    (s.toState st).isDestroyed = s.isDestroyed := by
  simp only [toState, leave, observe]
  split <;> rfl

@[simp] theorem toState_sendBufferSize (st : StateId) :
    (s.toState st).sendBufferSize = s.sendBufferSize := by
  simp only [toState, leave, observe]
  split <;> rfl

/-- No timer runs in another state than the one that has started it. -/
theorem toState_timer (st : StateId) (h : s.timer = true → s.curState = .sendFlowCtrl) :
    (s.toState st).timer = false := by
  simp only [toState, leave, observe]
  split
  · rename_i he
    cases ht : s.timer with
    | false => rfl
    | true =>
      rw [h ht] at he
      simp [getActionList] at he
  · rfl

/-- `RESET_EVT` in a state that is not the last one. -/
theorem exec_reset (hi : s.isInitialized = true) (hs : s.curState ≠ .destroy ∧ s.curState ≠ .end)
    (hd : Done ts) :
    (machine env).Exec s (.event .reset :: ts) [] (s.toState .idle).initState none := by
  have ha : getActionList s.curState .reset = [.changeState .idle] := by
    obtain ⟨h1, h2⟩ := hs
    revert h1 h2
    cases s.curState <;> simp [getActionList]
  refine exec_event_changeState hi ha (exec_step (by simp) rfl ?_)
  exact exec_done (by simpa using hd)

variable (env) in
/-- An undefined event leads to the first state. -/
theorem exec_undefined {e : EventId} (hi : s.isInitialized = true)
    (ha : getActionList s.curState e = []) (hd : Done ts) :
    (machine env).Exec s (.event e :: ts) [] ((s.toState .end).toState .idle).initState none := by
  refine exec_event_undefined hi ha (exec_changeState ?_)
  simp only [getActionList, List.map_cons, List.map_nil, List.cons_append, List.nil_append]
  refine exec_changeState (exec_step (by simp) rfl ?_)
  exact exec_done hd

theorem input_posted {e : EventId} (h : s.input (.posted e) = some (s', ts)) :
    e ∈ s.queue ∧ s' = { s with queue := s.queue.erase e } ∧ ts = [.event e] := by
  unfold Session.input at h
  by_cases hd : s.curState = .destroy
  · simp [hd] at h
  · rw [if_neg hd] at h
    simp only at h
    split_ifs at h with he
    cases h
    exact ⟨he, rfl, rfl⟩

theorem input_timeout (h : s.input .timeout = some (s', ts)) :
    s.timer = true ∧ s' = { s with timer := false } ∧ ts = [.event .timeout] := by
  unfold Session.input at h
  by_cases hd : s.curState = .destroy
  · simp [hd] at h
  · rw [if_neg hd] at h
    simp only at h
    split_ifs at h with ht
    cases h
    exact ⟨ht, rfl, rfl⟩

/-- A run has one result. -/
theorem Runs.unique {is : List Input} (h : Runs env s is os t r) (h' : Runs env s is os' t' r') :
    os = os' ∧ t = t' ∧ r = r' := by
  induction h generalizing os' with
  | nil =>
    cases h'
    exact ⟨rfl, rfl, rfl⟩
  | fault h1 h2 =>
    cases h' with
    | fault h3 h4 =>
      cases h1.symm.trans h3
      exact h2.unique h4
    | cons h3 h4 =>
      cases h1.symm.trans h3
      exact absurd (h2.unique h4).2.2 (by simp)
  | cons h1 h2 _ ih =>
    cases h' with
    | fault h3 h4 =>
      cases h1.symm.trans h3
      exact absurd (h2.unique h4).2.2 (by simp)
    | cons h3 h4 h5 =>
      cases h1.symm.trans h3
      obtain ⟨rfl, rfl, -⟩ := h2.unique h4
      obtain ⟨rfl, h6, h7⟩ := ih h5
      exact ⟨rfl, h6, h7⟩

/-- What follows the first input of a run, if it is known what that does. -/
theorem Runs.after {i : Input} {is : List Input} {s1 : Session}
    (h : Runs env s (i :: is) os t r) (hin : s.input i = some (s', ts))
    (hx : (machine env).Exec s' ts os' s1 none) :
    ∃ os'', os = os' ++ os'' ∧ Runs env s1 is os'' t r := by
  cases h with
  | fault h1 h2 =>
    cases h1.symm.trans hin
    exact absurd (h2.unique hx).2.2 (by simp)
  | cons h1 h2 h3 =>
    cases h1.symm.trans hin
    obtain ⟨rfl, rfl, -⟩ := h2.unique hx
    exact ⟨_, rfl, h3⟩

/-- A run with one input. -/
theorem runs_one {i : Input} (h : s.input i = some (s', ts)) (h' : (machine env).Exec s' ts os t r) :
    Runs env s [i] os t r := by
  cases r with
  | some e => exact .fault h h'
  | none => simpa using Runs.cons h h' .nil

/-- The run with the inputs `is`, if each takes at most `n` steps. -/
def Session.run (env : Env) (n : ℕ) :
    Session → List Input → Option (List Session × Session × Option Fault)
  | s, [] => some ([], s, none)
  | s, i :: is =>
    match s.input i with
    | none => none
    | some (s0, ts) =>
      match (machine env).run n s0 ts with
      | none => none
      | some (os, s1, some e) => some (os, s1, some e)
      | some (os, s1, none) => (Session.run env n s1 is).map fun r => (os ++ r.1, r.2)

theorem runs_of_run {n : ℕ} {is : List Input} (h : s.run env n is = some (os, t, r)) :
    Runs env s is os t r := by
  induction is generalizing s os with
  | nil =>
    simp only [Session.run, Option.some.injEq, Prod.mk.injEq] at h
    obtain ⟨rfl, rfl, rfl⟩ := h
    exact .nil
  | cons i is ih =>
    rw [Session.run] at h
    cases hin : s.input i with
    | none => simp [hin] at h
    | some p =>
      obtain ⟨s0, ts⟩ := p
      simp only [hin] at h
      match hrun : (machine env).run n s0 ts with
      | none => simp [hrun] at h
      | some (os1, s1, some e) =>
        simp only [hrun, Option.some.injEq, Prod.mk.injEq] at h
        obtain ⟨rfl, rfl, rfl⟩ := h
        exact .fault hin (Machine.exec_of_run hrun)
      | some (os1, s1, none) =>
        simp only [hrun, Option.map_eq_some_iff, Prod.mk.injEq] at h
        obtain ⟨⟨os2, s2, r2⟩, h1, rfl, rfl, rfl⟩ := h
        exact .cons hin (Machine.exec_of_run hrun) (ih h1)

/-- A run exists and its result has the property `p`, if it is found with enough steps. -/
theorem exists_runs (env : Env) (n : ℕ) {i : List Input}
    {p : List Session × Session × Option Fault → Bool} (h : (s.run env n i).any p = true) :
    ∃ os t r, Runs env s i os t r ∧ p (os, t, r) = true := by
  obtain ⟨⟨os, t, r⟩, h1, h2⟩ := (Option.any_eq_true _ _).mp h
  exact ⟨os, t, r, runs_of_run h1, h2⟩

/-! ## What the handlers do -/

@[simp] theorem decodeTo_rx (s : Session) (i : ℕ) :
    (s.decodeTo i).rx = { s.rx with decodeIndex := i } := rfl

@[simp] theorem eatBuffer_rx (s : Session) : s.eatBuffer.rx = s.rx.eatBuffer := rfl

theorem get_of_lt (rx : Rx) {i : ℕ} (h : i < rx.buffer.length) : rx.get i = .ok rx.buffer[i] := by
  simp [Rx.get, h]

theorem le_skip (rx : Rx) (p : UInt8 → Bool) (i : ℕ) : i ≤ rx.skip p i := Nat.le_add_right _ _

theorem skip_le (rx : Rx) (p : UInt8 → Bool) {i : ℕ} (h : i ≤ rx.buffer.length) :
    rx.skip p i ≤ rx.buffer.length := by
  have := (List.takeWhile_sublist p (l := rx.buffer.drop i)).length_le
  rw [List.length_drop] at this
  rw [Rx.skip]
  omega

/-- `checkFrametype` resets the session or eats the start of a header. -/
theorem checkFrametype_cases (s : Session) :
    (∃ i, s.checkFrametype = .ok (s.decodeTo i, [.event .reset])) ∨
    ∃ i e, (e = .parseHex ∨ e = .parseBin ∨ e = .parseBin32) ∧ s.rx.decodeIndex < i ∧
      i < s.rx.buffer.length ∧ s.checkFrametype = .ok ((s.decodeTo i).eatBuffer, [.event e]) := by
  unfold checkFrametype
  have hj : s.rx.decodeIndex ≤ s.rx.skip (· = ZPAD) (s.rx.skip (· ≠ ZPAD) s.rx.decodeIndex) :=
    Nat.le_trans (le_skip _ _ _) (le_skip _ _ _)
  generalize s.rx.skip (· = ZPAD) (s.rx.skip (· ≠ ZPAD) s.rx.decodeIndex) = j at hj
  by_cases h1 : j + 2 ≥ s.rx.buffer.length
  · left
    exact ⟨j, by simp only [if_pos h1]; rfl⟩
  · have hb := get_of_lt s.rx (i := j) (by omega)
    have hb' := get_of_lt s.rx (i := j + 1) (by omega)
    simp only [if_neg h1, hb, hb', ok_bind, pure_eq]
    by_cases h2 : ZDLE ≠ s.rx.buffer[j]
    · left
      exact ⟨j + 1, by rw [if_pos h2]⟩
    · rw [if_neg h2]
      by_cases h3 : ZHEX = s.rx.buffer[j + 1]
      · exact Or.inr ⟨j + 2, .parseHex, by simp, by omega, by omega, by rw [if_pos h3]⟩
      · by_cases h4 : ZBIN = s.rx.buffer[j + 1]
        · exact Or.inr ⟨j + 2, .parseBin, by simp, by omega, by omega,
            by rw [if_neg h3, if_pos h4]⟩
        · by_cases h5 : ZBIN32 = s.rx.buffer[j + 1]
          · exact Or.inr ⟨j + 2, .parseBin32, by simp, by omega, by omega,
              by rw [if_neg h3, if_neg h4, if_pos h5]⟩
          · left
            exact ⟨j + 2, by rw [if_neg h3, if_neg h4, if_neg h5]⟩

/-- What a parser of headers does: it waits, resets the session, or eats a header. -/
inductive Parses (s : Session) : Next → Prop
  | wait : Parses s (.ok (s, []))
  | reset (i : ℕ) : Parses s (.ok (s.decodeTo i, [.event .reset]))
  | frame (i : ℕ) (f : Frame) : s.rx.decodeIndex < i → i ≤ s.rx.buffer.length →
    Parses s (.ok ({ (s.decodeTo i).eatBuffer with inputFrame := f }, [.event .handleFrame]))

/-- The header at `decodeIndex_` is complete up to its line end, but its `XON` is not there. -/
def xonMissing (s : Session) : Prop :=
  let oldIndex := s.rx.decodeIndex + hexSize
  let (frame, crc) := convHex2Plain (s.rx.slice s.rx.decodeIndex hexSize)
  oldIndex < s.rx.buffer.length ∧ crc = calcFrameCrc frame ∧ frame.type ≠ ZACK ∧
    frame.type ≠ ZFIN ∧ s.rx.skip isLineseed oldIndex = s.rx.buffer.length

instance (s : Session) : Decidable (xonMissing s) := by
  unfold xonMissing
  infer_instance

theorem parseHexFrame_cases (s : Session) :
    (xonMissing s ∧ s.parseHexFrame = .error .overread) ∨
    (¬ xonMissing s ∧ Parses s s.parseHexFrame) := by
  unfold parseHexFrame xonMissing
  dsimp only
  have hpos : s.rx.decodeIndex < s.rx.decodeIndex + hexSize := by
    rw [hexSize]
    omega
  generalize s.rx.decodeIndex + hexSize = i at hpos
  have hij := le_skip s.rx isLineseed i
  have hjlen := skip_le s.rx isLineseed (i := i)
  generalize s.rx.skip isLineseed i = j at hij hjlen
  by_cases h1 : i ≥ s.rx.buffer.length
  · simp only [if_pos h1]
    exact Or.inr ⟨by omega, .wait⟩
  simp only [if_neg h1]
  generalize hp : convHex2Plain (s.rx.slice s.rx.decodeIndex hexSize) = p
  obtain ⟨f, crc⟩ := p
  by_cases h2 : crc ≠ calcFrameCrc f
  · simp only [if_pos h2]
    exact Or.inr ⟨by tauto, .reset _⟩
  simp only [if_neg h2]
  by_cases h3 : i = j
  · simp only [if_pos h3]
    exact Or.inr ⟨by omega, .reset _⟩
  simp only [if_neg h3]
  by_cases h4 : f.type ≠ ZACK ∧ f.type ≠ ZFIN
  · simp only [if_pos h4]
    by_cases h5 : j = s.rx.buffer.length
    · left
      refine ⟨⟨by omega, by tauto, h4.1, h4.2, h5⟩, ?_⟩
      simp [Rx.get, h5]
    · right
      refine ⟨by tauto, ?_⟩
      have hlt : j < s.rx.buffer.length := by omega
      simp only [get_of_lt s.rx hlt, ok_bind]
      by_cases h6 : s.rx.buffer[j] ≠ XON
      · rw [if_pos h6]
        exact .reset _
      · rw [if_neg h6]
        exact .frame (j + 1) f (by omega) (by omega)
  · simp only [if_neg h4]
    exact Or.inr ⟨by tauto, .frame j f (by omega) (hjlen (by omega))⟩

theorem parseBinFrame_cases (s : Session) : Parses s s.parseBinFrame := by
  unfold parseBinFrame
  split_ifs with h1
  · exact .wait
  · cases hd : decodeEscape 7 (s.rx.buffer.drop s.rx.decodeIndex) with
    | none => exact .wait
    | some r =>
      have := decodeEscape_le hd
      rw [List.length_drop] at this
      simp only
      split_ifs
      · exact .reset _
      · exact .frame _ _ (by omega) (by omega)

theorem parseBin32Frame_cases (s : Session) : Parses s s.parseBin32Frame := by
  unfold parseBin32Frame
  split_ifs with h1
  · exact .wait
  · cases hd : decodeEscape 9 (s.rx.buffer.drop s.rx.decodeIndex) with
    | none => exact .wait
    | some r =>
      have := decodeEscape_le hd
      rw [List.length_drop] at this
      simp only
      split_ifs
      · exact .reset _
      · exact .frame _ _ (by omega) (by omega)

/-- `handleZfile` would read past the received bytes: one of its strings does not end there, or the
checksum is complete and the character after it is not there. -/
def zfileMissing (s : Session) : Prop :=
  match s.rx.cstring s.rx.decodeIndex with
  | .error _ => True
  | .ok filename =>
    match s.rx.cstring (s.rx.decodeIndex + (filename.length + 1)) with
    | .error _ => True
    | .ok fileinfo =>
      let i := s.rx.decodeIndex + (filename.length + 1) + (fileinfo.length + 1)
      i + 6 ≤ s.rx.buffer.length ∧
        (decodeCrc32 (s.rx.buffer.drop (i + 2))).any fun r => i + 2 + r.2 ≥ s.rx.buffer.length

/-- What `handleZfile` does: it waits, resets the session, or opens a file. -/
inductive Zfiles (s : Session) : Next → Prop
  | wait : Zfiles s (.ok (s, [.event .waitData]))
  | reset (rx : Rx) :
    Zfiles s (.ok ({ s with rx := rx, bufferParsed := false, sendFinOnReset := true },
      [.event .reset]))
  | opened (b : List UInt8) (i : ℕ) (f : ZmodemFile) : b.length = s.rx.buffer.length →
    s.rx.decodeIndex < i → i ≤ b.length → f.pos = 0 →
    Zfiles s (.ok ({ s with
      rx := { s.rx with buffer := b, decodeIndex := i }.eatBuffer, zmodemFile := some f }.observe
        (.sendFrame (posFrame ZRPOS f.pos)), []))

theorem cstring_ok {rx : Rx} {i : ℕ} {str : List UInt8} (h : rx.cstring i = .ok str) :
    i + str.length < rx.buffer.length := by
  unfold Rx.cstring at h
  dsimp only at h
  split at h
  · cases h
    assumption
  · cases h

theorem cstring_error {rx : Rx} {i : ℕ} {e : Fault} (h : rx.cstring i = .error e) :
    e = .overread := by
  unfold Rx.cstring at h
  dsimp only at h
  split at h <;> cases h
  rfl

theorem handleZfile_cases (env : Env) (s : Session) :
    (zfileMissing s ∧ s.handleZfile env = .error .overread) ∨
    (¬ zfileMissing s ∧ Zfiles s (s.handleZfile env)) := by
  unfold handleZfile zfileMissing
  dsimp only
  cases h1 : s.rx.cstring s.rx.decodeIndex with
  | error e => exact Or.inl ⟨trivial, by simp only [error_bind, cstring_error h1]⟩
  | ok filename =>
    simp only [ok_bind]
    cases h2 : s.rx.cstring (s.rx.decodeIndex + (filename.length + 1)) with
    | error e => exact Or.inl ⟨trivial, by simp only [error_bind, cstring_error h2]⟩
    | ok fileinfo =>
      have hlen := cstring_ok h2
      simp only [ok_bind]
      have hpos : s.rx.decodeIndex < s.rx.decodeIndex + (filename.length + 1) +
        (fileinfo.length + 1) := by omega
      generalize s.rx.decodeIndex + (filename.length + 1) + (fileinfo.length + 1) = i at hpos
      by_cases h3 : i + 6 > s.rx.buffer.length
      · rw [if_pos h3]
        exact Or.inr ⟨by omega, .wait⟩
      rw [if_neg h3]
      cases h4 : decodeCrc32 (s.rx.buffer.drop (i + 2)) with
      | none => exact Or.inr ⟨by simp, .wait⟩
      | some r =>
        have hr := decodeCrc32_le h4
        rw [List.length_drop] at hr
        have hset : s.rx.set i s.rx.buffer[i + 1] =
            .ok { s.rx with buffer := s.rx.buffer.set i s.rx.buffer[i + 1] } :=
          if_pos (by omega)
        simp only [get_of_lt s.rx (i := i + 1) (by omega), ok_bind, hset, Option.any_some,
          decide_eq_true_eq]
        by_cases h5 : i + 2 + r.2 ≥ s.rx.buffer.length
        · left
          refine ⟨⟨by omega, h5⟩, ?_⟩
          have : s.rx.buffer.length ≤ i + 1 + 1 + r.2 := by omega
          simp [Rx.get, this]
        · right
          refine ⟨by omega, ?_⟩
          have hlt : i + 1 + 1 + r.2 < (s.rx.buffer.set i s.rx.buffer[i + 1]).length := by
            rw [List.length_set]
            omega
          rw [get_of_lt { s.rx with buffer := s.rx.buffer.set i s.rx.buffer[i + 1] } hlt]
          simp only [ok_bind]
          split_ifs <;> first
            | exact .reset _
            | exact .opened _ _ _ (by simp) (by omega) (by omega) rfl

/-- An event is posted except if the session is to be deleted. -/
def Session.postUnlessDestroyed (s : Session) (e : EventId) : Session :=
  if ¬ s.isDestroyed then s.asynHandleEvent e else s

/-- What `sendZdata` does: it waits for the send buffer to drain, or sends a subpacket. -/
inductive Sends (s : Session) : Next → Prop
  | later : s.sendBufferSize > 1024 * 1024 →
    Sends s (.ok (s.postUnlessDestroyed .sendZdataLater, []))
  | nullFile : s.sendBufferSize ≤ 1024 * 1024 → s.zmodemFile = none → Sends s (.error .nullFile)
  | more (f f' : ZmodemFile) (data : List UInt8) : s.sendBufferSize ≤ 1024 * 1024 →
    s.zmodemFile = some f → f.read 1024 = (f', data) → f'.isGood = true →
    Sends s (.ok (({ s with zmodemFile := some f' }.observe
      (.sendZsda32 data ZCRCG)).postUnlessDestroyed .sendZdata, []))
  | last (f f' : ZmodemFile) (data : List UInt8) : s.sendBufferSize ≤ 1024 * 1024 →
    s.zmodemFile = some f → f.read 1024 = (f', data) → f'.isGood = false →
    Sends s (.ok (({ s with zmodemFile := some f' }.observe (.sendZsda32 data ZCRCE)).observe
      (.sendBin32Frame (posFrame ZEOF f'.pos)), []))

theorem sendZdata_cases (s : Session) : Sends s s.sendZdata := by
  unfold sendZdata
  by_cases h1 : s.sendBufferSize > 1024 * 1024
  · rw [if_pos h1]
    exact .later h1
  rw [if_neg h1]
  cases h2 : s.zmodemFile with
  | none =>
    simp only [Session.file, h2, error_bind]
    exact .nullFile (by omega) h2
  | some f =>
    simp only [Session.file, h2, ok_bind]
    cases hg : (f.read 1024).1.isGood with
    | true => exact .more f (f.read 1024).1 (f.read 1024).2 (by omega) h2 rfl hg
    | false => exact .last f (f.read 1024).1 (f.read 1024).2 (by omega) h2 rfl hg

/-- The ends of a data subpacket. -/
def isFrameend (b : UInt8) : Prop := b = ZCRCE ∨ b = ZCRCG ∨ b = ZCRCQ ∨ b = ZCRCW

instance (b : UInt8) : Decidable (isFrameend b) := by
  unfold isFrameend
  infer_instance

/-- The checksum that `handleZdata` compares if `b` ends the subpacket. -/
def Session.calcCrc (s : Session) (b : UInt8) : UInt32 := ~~~ updc32 b s.rx.dataCrc

/-- The loop of `handleZdata` is at a `ZDLE` sequence that looks like the end `b` of a subpacket, with
a complete checksum of `n` bytes. -/
structure AtEnd (s : Session) (b : UInt8) (recv : UInt32) (n : ℕ) : Prop where
  zdle : s.rx.buffer[s.rx.lastCheckExcaped]? = some ZDLE
  frameend : s.rx.buffer[s.rx.lastCheckExcaped + 1]? = some b
  isFrameend : isFrameend b
  crc : decodeCrc32 (s.rx.buffer.drop (s.rx.lastCheckExcaped + 2)) = some (recv, n)
  le : s.rx.lastCheckExcaped + 2 + n ≤ s.rx.buffer.length
  four_le : 4 ≤ n

/-- The session after the byte `b` of data has been decoded from `k` received bytes. -/
def zdataStored (s : Session) (b : UInt8) (k : ℕ) : Session :=
  { s with
    rx := { s.rx with
      buffer := s.rx.buffer.set s.rx.lastCheckExcapedSaved b
      lastCheckExcaped := s.rx.lastCheckExcaped + k
      lastCheckExcapedSaved := s.rx.lastCheckExcapedSaved + 1
      dataCrc := updc32 b s.rx.dataCrc } }

/-- What an iteration of the loop of `handleZdata` does. -/
inductive ZdataStep (env : Env) (s : Session) : Next → Prop
  | wait : s.rx.lastCheckExcaped < s.rx.buffer.length →
    ZdataStep env s (.ok (s, [.event .waitData]))
  | reset (recv : UInt32) (n : ℕ) : AtEnd s ZCRCG recv n → recv ≠ s.calcCrc ZCRCG →
    ZdataStep env s (.ok (s, [.event .reset]))
  | full (b : UInt8) (n : ℕ) (f : ZmodemFile) : AtEnd s b (s.calcCrc b) n →
    s.zmodemFile = some f → f.write s.zdataBlock = none →
    ZdataStep env s (.ok ({ s with
      rx := { s.rx with lastCheckExcaped := s.rx.lastCheckExcaped + (1 + n) } }, [.event .reset]))
  | byte (b : UInt8) : s.rx.buffer[s.rx.lastCheckExcaped]? = some b → b ≠ ZDLE →
    s.rx.lastCheckExcaped + 1 < s.rx.buffer.length →
    s.rx.lastCheckExcapedSaved < s.rx.buffer.length →
    ZdataStep env s (.ok (zdataStored s b 1, [.zdata]))
  | escaped (b : UInt8) : s.rx.buffer[s.rx.lastCheckExcaped]? = some ZDLE →
    s.rx.buffer[s.rx.lastCheckExcaped + 1]? = some b → ¬ isFrameend b →
    s.rx.lastCheckExcaped + 6 ≤ s.rx.buffer.length →
    s.rx.lastCheckExcapedSaved < s.rx.buffer.length →
    ZdataStep env s (.ok (zdataStored s (b ^^^ 0x40) 2, [.zdata]))
  | skip (b : UInt8) (recv : UInt32) (n : ℕ) : AtEnd s b recv n → recv ≠ s.calcCrc b → b ≠ ZCRCG →
    ZdataStep env s (.ok (s.zdataNext, [.zdata]))
  | block (b : UInt8) (n : ℕ) (f f' : ZmodemFile) : AtEnd s b (s.calcCrc b) n →
    s.zmodemFile = some f → f.write s.zdataBlock = some f' →
    s.rx.decodeIndex ≤ s.rx.lastCheckExcapedSaved →
    s.rx.lastCheckExcapedSaved ≤ s.rx.buffer.length →
    ZdataStep env s (.ok (
      if b = ZCRCE then (s.zdataWritten (s.calcCrc b) b n f', [.event .networkInput])
      else if b = ZCRCG then ((s.zdataWritten (s.calcCrc b) b n f').zdataNext, [.zdata])
      else (((s.zdataWritten (s.calcCrc b) b n f').observe
        (.sendFrame (posFrame ZNAK f'.pos))).zdataNext, [.zdata])))
  | done : zdataBound s.rx.buffer.length ≤ s.rx.lastCheckExcaped → s.zmodemFile.isSome →
    ZdataStep env s (.ok (s.eatBuffer, [.event .waitData]))
  | nullFile : s.zmodemFile = none →
    (zdataBound s.rx.buffer.length ≤ s.rx.lastCheckExcaped ∨ ∃ b n, AtEnd s b (s.calcCrc b) n) →
    ZdataStep env s (.error .nullFile)
  | assertion : env.asserts → ZdataStep env s (.error .assertion)
  | overread : s.rx.buffer = [] ∨ s.rx.lastCheckExcaped < s.rx.lastCheckExcapedSaved ∨
    s.rx.lastCheckExcapedSaved < s.rx.decodeIndex → ZdataStep env s (.error .overread)

theorem zdataEnd_cases (env : Env) {s : Session} {b : UInt8} {n : ℕ} (h : AtEnd s b (s.calcCrc b) n) :
    ZdataStep env s (s.zdataEnd (s.calcCrc b) b n) := by
  unfold zdataEnd
  rcases Option.eq_none_or_eq_some s.zmodemFile with hf | ⟨f, hf⟩
  · have : s.file = .error .nullFile := by simp [Session.file, hf]
    rw [this]
    exact .nullFile hf (Or.inr ⟨b, n, h⟩)
  have hfile : s.file = .ok f := by simp [Session.file, hf]
  rw [hfile, ok_bind]
  by_cases h1 : s.rx.lastCheckExcapedSaved < s.rx.decodeIndex ∨
      s.rx.buffer.length < s.rx.lastCheckExcapedSaved
  · rw [if_pos h1]
    have := h.le
    exact .overread (Or.inr (by omega))
  rw [if_neg h1]
  cases hw : f.write s.zdataBlock with
  | none => exact .full b n f h hf hw
  | some f' =>
    have hb := @ZdataStep.block env _ b n f f' h hf hw (by omega) (by omega)
    simp only [pure_eq]
    split_ifs with h2 h3
    · rwa [if_pos h2] at hb
    · rwa [if_neg h2, if_pos h3] at hb
    · rwa [if_neg h2, if_neg h3] at hb

theorem handleZdata_cases (env : Env) (s : Session) : ZdataStep env s (s.handleZdata env) := by
  unfold handleZdata
  dsimp only
  by_cases h1 : s.rx.lastCheckExcaped < zdataBound s.rx.buffer.length
  swap
  · rw [if_neg h1]
    cases hf : s.zmodemFile with
    | none =>
      have : s.eatBuffer.file = .error .nullFile := by simp [Session.file, Session.eatBuffer, hf]
      rw [this]
      exact .nullFile hf (Or.inl (by omega))
    | some f =>
      have : s.eatBuffer.file = .ok f := by simp [Session.file, Session.eatBuffer, hf]
      rw [this]
      exact .done (by omega) (by simp [hf])
  rw [if_pos h1]
  by_cases h0 : s.rx.buffer = []
  · have : s.rx.get s.rx.lastCheckExcaped = .error .overread := by simp [Rx.get, h0]
    rw [this]
    exact .overread (Or.inl h0)
  have hlt : s.rx.lastCheckExcaped + 1 < s.rx.buffer.length := by
    have : s.rx.buffer.length ≠ 0 := by simpa using h0
    rw [zdataBound, if_neg this] at h1
    omega
  rw [get_of_lt s.rx (i := s.rx.lastCheckExcaped) (by omega)]
  have hget : s.rx.buffer[s.rx.lastCheckExcaped]? = some s.rx.buffer[s.rx.lastCheckExcaped] := by
    simp
  generalize s.rx.buffer[s.rx.lastCheckExcaped] = b at hget
  simp only [ok_bind]
  by_cases h2 : b = ZDLE
  swap
  · rw [if_neg h2, zdataByte, Rx.set]
    split_ifs with h3
    · exact .byte b hget h2 hlt h3
    · exact .overread (Or.inr (Or.inl (by omega)))
  rw [if_pos h2]
  subst h2
  by_cases h3 : s.rx.lastCheckExcaped + 6 > s.rx.buffer.length
  · rw [if_pos h3]
    exact .wait (by omega)
  rw [if_neg h3, get_of_lt s.rx hlt]
  have hget' : s.rx.buffer[s.rx.lastCheckExcaped + 1]? = some s.rx.buffer[s.rx.lastCheckExcaped + 1] := by
    simp
  generalize s.rx.buffer[s.rx.lastCheckExcaped + 1] = e at hget'
  simp only [ok_bind]
  by_cases h4 : e = ZCRCE ∨ e = ZCRCG ∨ e = ZCRCQ ∨ e = ZCRCW
  · rw [if_pos h4]
    cases hc : decodeCrc32 (s.rx.buffer.drop (s.rx.lastCheckExcaped + 2)) with
    | none => exact .wait (by omega)
    | some r =>
      obtain ⟨recv, n⟩ := r
      have hr := decodeCrc32_le hc
      rw [List.length_drop] at hr
      have hend : AtEnd s e recv n :=
        { zdle := hget, frameend := hget', isFrameend := h4, crc := hc, le := by omega
          four_le := hr.2 }
      dsimp only
      by_cases h5 : ~~~ updc32 e s.rx.dataCrc = recv
      · rw [if_pos h5]
        subst h5
        split_ifs with h6
        · exact .assertion h6.1
        · exact zdataEnd_cases env hend
      · rw [if_neg h5]
        split_ifs with h6
        · subst h6
          exact .reset recv n hend (Ne.symm h5)
        · exact .skip e recv n hend (Ne.symm h5) h6
  · rw [if_neg h4, zdataByte, Rx.set]
    split_ifs with h5
    · exact .escaped e hget hget' h4 (by omega) h5
    · have hle : s.rx.buffer.length ≤ s.rx.lastCheckExcapedSaved := by simpa using h5
      exact .overread (Or.inr (Or.inl (by omega)))

/-! ## The log grows -/

@[simp] theorem observe_log (s : Session) (o : Obs) : (s.observe o).log = s.log ++ [o] := rfl

@[simp] theorem asynHandleEvent_log (s : Session) (e : EventId) :
    (s.asynHandleEvent e).log = s.log := rfl

theorem initState_log (s : Session) : s.log <+: s.initState.log := by
  simp only [initState]
  split_ifs <;> simp [asynHandleEvent]

theorem parses_log {r : Next} (h : Parses s r) : Ensures r fun p => p.1.log = s.log := by
  cases h <;> simp [eatBuffer, decodeTo]

theorem zdata_log {r : Next} (h : ZdataStep env s r) : Ensures r fun p => s.log <+: p.1.log := by
  cases h with
  | block b n f f' _ _ _ _ _ =>
    rw [ensures_ok]
    split_ifs <;> simp [zdataWritten, zdataNext]
  | _ => simp [zdataStored, zdataNext, eatBuffer]

@[simp] theorem postUnlessDestroyed_log (s : Session) (e : EventId) :
    (s.postUnlessDestroyed e).log = s.log := by
  unfold postUnlessDestroyed
  split_ifs <;> rfl

theorem sendZdata_log (s : Session) : Ensures s.sendZdata fun p => s.log <+: p.1.log := by
  have h := sendZdata_cases s
  generalize s.sendZdata = n at h
  cases h <;> simp

theorem handleZfile_log (env : Env) (s : Session) :
    Ensures (s.handleZfile env) fun p => s.log <+: p.1.log := by
  rcases handleZfile_cases env s with ⟨-, h⟩ | ⟨-, h⟩
  · simp [h]
  · generalize s.handleZfile env = r at h
    cases h <;> simp

theorem handleFrame_log (env : Env) (s : Session) :
    Ensures (s.handleFrame env) fun p => s.log <+: p.1.log := by
  unfold Session.handleFrame
  dsimp only
  split_ifs
  · simp [sendZrinit]
  · exact handleZfile_log env _
  · simp
  · simp [sendZrinit]
  · simp
  · simp
  · simp
  · simp
  · cases s.zmodemFile with
    | none => simp
    | some f =>
      refine (sendZdata_log _).mono fun p hp => ?_
      exact (List.prefix_append _ _).trans hp
  · simp
  · simp
  · simp

theorem checkFrametype_log (s : Session) : Ensures s.checkFrametype fun p => p.1.log = s.log := by
  rcases checkFrametype_cases s with ⟨i, h⟩ | ⟨i, e, -, -, -, h⟩ <;> simp [h, decodeTo, eatBuffer]

theorem action_log (env : Env) (s : Session) (a : Action) :
    Ensures (s.action env a) fun p => s.log <+: p.1.log := by
  cases a with
  | initState => simpa [Session.action] using initState_log s
  | checkFrametype =>
    exact (checkFrametype_log s).mono fun p hp => hp ▸ List.prefix_rfl
  | parseHexFrame =>
    rcases parseHexFrame_cases s with ⟨-, h⟩ | ⟨-, h⟩
    · simp [Session.action, h]
    · exact (parses_log h).mono fun p hp => hp ▸ List.prefix_rfl
  | parseBinFrame => exact (parses_log (parseBinFrame_cases s)).mono fun p hp => hp ▸ List.prefix_rfl
  | parseBin32Frame => exact (parses_log (parseBin32Frame_cases s)).mono fun p hp => hp ▸ List.prefix_rfl
  | sendZdata => exact sendZdata_log s
  | sendZrpos =>
    simp only [Session.action, sendZrpos, Session.file]
    cases s.zmodemFile <;> simp
  | sendFileInfo =>
    simp only [Session.action, sendFileInfo]
    split <;> simp
  | _ => simp [Session.action]

@[simp] theorem handleEvent_fst (s : Session) (e : EventId) : (s.handleEvent e).1 = s := by
  cases hi : s.isInitialized with
  | false => simp [handleEvent, hi]
  | true => cases ha : getActionList s.curState e <;> simp [handleEvent, hi, ha]

/-- Nothing that has been observed is forgotten. -/
theorem step_log {x : Todo} (h : s.step env x = .ok (s', new)) : s.log <+: s'.log := by
  cases x with
  | event e =>
    simp only [Session.step, Except.ok.injEq] at h
    have := congrArg Prod.fst h
    rw [handleEvent_fst] at this
    exact this ▸ List.prefix_rfl
  | actions st as =>
    cases as <;>
    · simp only [Session.step, Except.ok.injEq] at h
      obtain ⟨rfl, -⟩ := Prod.mk.inj h
      exact List.prefix_rfl
  | action a => exact action_log env s a _ h
  | frame => exact handleFrame_log env s _ h
  | zdata => exact zdata_log (handleZdata_cases env s) _ h
  | _ =>
    simp only [Session.step, Except.ok.injEq] at h
    obtain ⟨rfl, -⟩ := Prod.mk.inj h
    simp

theorem exec_log (h : (machine env).Exec s ts os t r) :
    s.log <+: t.log ∧ ∀ o ∈ os, s.log <+: o.log := by
  induction h with
  | nil => exact ⟨List.prefix_rfl, by simp⟩
  | @fault s x ts e h1 =>
    refine ⟨List.prefix_rfl, fun o ho => ?_⟩
    simp only [machine] at ho
    split_ifs at ho <;> simp at ho
    exact ho ▸ List.prefix_rfl
  | @step s s' s'' x new ts os r h1 _ ih =>
    have hlog : s.log <+: s'.log := step_log h1
    refine ⟨hlog.trans ih.1, fun o ho => ?_⟩
    rcases List.mem_append.mp ho with ho | ho
    · simp only [machine] at ho
      split_ifs at ho <;> simp at ho
      exact ho ▸ List.prefix_rfl
    · exact hlog.trans (ih.2 o ho)

theorem input_log {i : Input} (h : s.input i = some (s', ts)) : s.log <+: s'.log := by
  by_cases hd : s.curState = .destroy
  · simp [Session.input, hd] at h
  have hlog : ∀ p : Session × List Todo, s.log <+: p.1.log → some p = some (s', ts) →
      s.log <+: s'.log := by
    rintro p hp h
    cases h
    exact hp
  cases i with
  | network str =>
    rw [Session.input, if_neg hd] at h
    refine hlog _ ?_ h
    unfold processNetworkInput
    split_ifs <;> simp [Session.reset]
  | posted e =>
    rw [Session.input, if_neg hd] at h
    split_ifs at h
    exact hlog _ (by simp) h
  | timeout =>
    rw [Session.input, if_neg hd] at h
    split_ifs at h
    exact hlog _ (by simp) h
  | _ =>
    rw [Session.input, if_neg hd] at h
    exact hlog _ (by simp [onFileSelected, Session.reset, destroy]) h

theorem runs_log {is : List Input} (h : Runs env s is os t r) :
    s.log <+: t.log ∧ ∀ o ∈ os, s.log <+: o.log := by
  induction h with
  | nil => exact ⟨List.prefix_rfl, by simp⟩
  | fault h1 h2 =>
    have h3 := input_log h1
    have h4 := exec_log h2
    exact ⟨h3.trans h4.1, fun o ho => h3.trans (h4.2 o ho)⟩
  | cons h1 h2 _ ih =>
    have h3 := input_log h1
    have h4 := exec_log h2
    refine ⟨h3.trans (h4.1.trans ih.1), fun o ho => ?_⟩
    rcases List.mem_append.mp ho with ho | ho
    · exact h3.trans (h4.2 o ho)
    · exact h3.trans (h4.1.trans (ih.2 o ho))

end PuttyNd.Zmodem
