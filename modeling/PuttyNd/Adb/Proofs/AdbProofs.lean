import PuttyNd.Adb.Adb
import PuttyNd.Adb.Proofs.FifoProofs
import PuttyNd.Lib.Machine

/-!
# The adb backend: every careful run

In every state that is reached by careful steps, what the child accepted and what is still buffered are
together the translation of the data, and what was written and what is still buffered are together the
output (`Flow`).
-/

namespace PuttyNd.Adb

open Lib

/-! ## The translation of two calls -/

theorem expected_append (pending : Bool) (a b : List (Bool × UInt8)) :
    expected pending (a ++ b) =
      expected pending a ++ expected (if a = [] then pending else endsInCR a) b := by
  induction a generalizing pending with
  | nil => rfl
  | cons x a ih =>
    obtain ⟨compelCrlf, c⟩ := x
    have hlast : ∀ pending' : Bool, (a = [] → pending' = decide (compelCrlf ∧ c = CR)) →
        (if a = [] then pending' else endsInCR a) = endsInCR ((compelCrlf, c) :: a) := by
      intro pending' hpending
      by_cases ha : a = []
      · rw [if_pos ha, ha, hpending ha]
        rw [endsInCR, List.getLast?_singleton, Bool.eq_iff_iff, decide_eq_true_iff, beq_iff_eq]
        simp
      · rw [if_neg ha, endsInCR, endsInCR, List.getLast?_cons_of_ne_nil ha]
    rw [if_neg (List.cons_ne_nil _ _), List.cons_append, expected, expected]
    by_cases hcr : compelCrlf ∧ c = CR
    · rw [if_pos hcr, if_pos hcr, ih, hlast true (by simp [hcr])]
      rfl
    · rw [if_neg hcr, if_neg hcr, ih, hlast false (by simp [hcr])]
      split <;> rfl

theorem expected_plain {pending : Bool} {buf : List UInt8}
    (h : ¬ (pending ∧ buf.head? = some LF)) : expected pending (buf.map (false, ·)) = buf := by
  induction buf generalizing pending with
  | nil => rfl
  | cons c buf ih =>
    have hc : ¬ (pending ∧ c = LF) := by simpa using h
    rw [List.map_cons, expected, if_neg (by simp), if_neg hc, ih (by simp)]

theorem expected_trbuf {pending : Bool} {buf : List UInt8}
    (h : ¬ (pending ∧ buf.head? = some LF)) : expected pending (buf.map (true, ·)) = trbuf buf := by
  induction buf generalizing pending with
  | nil => rfl
  | cons c buf ih =>
    have hc : ¬ (pending ∧ c = LF) := by simpa using h
    rw [List.map_cons, expected, trbuf]
    by_cases hcr : c = CR
    · rw [if_pos ⟨rfl, hcr⟩, if_pos hcr]
      by_cases hlf : buf.head? = some LF
      · -- the LF that is here belongs to the CR
        obtain ⟨rest, rfl⟩ := List.head?_eq_some_iff.mp hlf
        have hrest : expected false ((LF :: rest).map (true, ·)) = trbuf (LF :: rest) := ih (by simp)
        have hne : ¬ LF = CR := by decide
        rw [List.map_cons, expected, if_neg (by simp [hne]), if_neg (by simp), trbuf,
          if_neg hne] at hrest
        rw [if_pos hlf, trbuf, if_neg hne, List.map_cons, expected, if_neg (by simp [hne]),
          if_pos (by simp), (List.cons.inj hrest).2]
      · rw [if_neg hlf, ih (by simp [hlf])]
    · rw [if_neg (by simp [hcr]), if_neg hc, if_neg hcr, ih (by simp)]

/-- The data of one call, translated behind what was sent before. -/
theorem expected_send {sent : List (Bool × UInt8)} {compelCrlf : Bool} {buf : List UInt8}
    (h : ¬ (endsInCR sent ∧ buf.head? = some LF)) :
    expected false (sent ++ buf.map (compelCrlf, ·)) =
      expected false sent ++ translated compelCrlf buf := by
  have hpending : (if sent = [] then false else endsInCR sent) = endsInCR sent := by
    by_cases hs : sent = []
    · rw [if_pos hs, hs]
      rfl
    · rw [if_neg hs]
  rw [expected_append, hpending]
  cases compelCrlf with
  | false => rw [expected_plain h, translated, if_neg (by simp)]
  | true => rw [expected_trbuf h, translated, if_pos rfl]

/-! ## What the functions do to the buffers -/

/-- The buffers hold the bytes `input` for the child and the bytes `output` for the terminal. -/
structure Buffers (s : State) (input output : List UInt8) : Prop where
  send : Queue s.sendBuffer 11 input
  recv : Queue s.recvBuffer 12 output

variable {s : State} {input output : List UInt8}

theorem buffers_init : Buffers init [] [] :=
  ⟨Queue.new (by omega) (by omega), Queue.new (by omega) (by omega)⟩

theorem send_spec (h : Buffers s input output) {compelCrlf : Bool} {buf : List UInt8}
    (hroom : (translated compelCrlf buf).length ≤ s.sendBuffer.unusedSize.toNat) :
    Buffers (send s compelCrlf buf).1 (input ++ translated compelCrlf buf) output := by
  have hlen := h.send.length_le
  rw [h.send.toNat_unused] at hroom
  exact ⟨h.send.putn (by omega), h.recv⟩

theorem pollWrite_spec (h : Buffers s input output) (w : WriteOutcome) :
    ∃ sendBuffer err, pollWrite s w = ({ s with
        sendBuffer := sendBuffer
        accepted := s.accepted ++ (input.take 1024).take w.count }, err) ∧
      Queue sendBuffer 11 (input.drop 1024) ∧ (fatal w.error = none → err = none) := by
  have htemp : s.sendBuffer.peek 1024 = input.take 1024 := h.send.peek 1024
  unfold pollWrite
  rw [htemp]
  have hle : (input.take 1024).length ≤ 1024 := List.length_take_le _ _
  have hsize : (UInt32.ofNat (input.take 1024).length).toNat = (input.take 1024).length :=
    UInt32.toNat_ofNat_of_lt' (by simp only [UInt32.size]; omega)
  by_cases hpos : UInt32.ofNat (input.take 1024).length > 0
  · simp only [if_pos hpos]
    refine ⟨_, _, rfl, ?_, fun hw => hw⟩
    have hshort : (UInt32.ofNat (input.take 1024).length).toNat ≤ input.length := by
      rw [hsize, List.length_take]
      omega
    have hcommit := h.send.commitRead hshort
    have hdrop : input.drop (UInt32.ofNat (input.take 1024).length).toNat = input.drop 1024 := by
      rw [hsize, List.length_take]
      by_cases hlong : 1024 ≤ input.length
      · rw [Nat.min_eq_left hlong]
      · rw [Nat.min_eq_right (by omega), List.drop_length, List.drop_eq_nil_of_le (by omega)]
    rw [hdrop] at hcommit
    exact hcommit
  · simp only [if_neg hpos]
    have hempty : input = [] := by
      rw [gt_iff_lt, UInt32.lt_iff_toNat_lt, hsize, List.length_take] at hpos
      simp only [UInt32.toNat_zero, not_lt] at hpos
      apply List.eq_nil_of_length_eq_zero
      omega
    subst hempty
    exact ⟨s.sendBuffer, none, by simp, h.send, fun _ => rfl⟩

theorem pollRead_spec (h : Buffers s input output) {r : ReadOutcome}
    (hroom : r.data.length ≤ s.recvBuffer.unusedSize.toNat) :
    ∃ recvBuffer, pollRead s r = ({ s with
        recvBuffer := recvBuffer
        ui := s.ui ++ if 0 < r.data.length then [.processBuffer] else []
        output := s.output ++ r.data }, fatal r.error) ∧
      Queue recvBuffer 12 (output ++ r.data) := by
  have hlen := h.recv.length_le
  rw [h.recv.toNat_unused] at hroom
  unfold pollRead
  by_cases hpos : 0 < r.data.length
  · simp only [if_pos hpos]
    exact ⟨_, rfl, h.recv.putn (by omega)⟩
  · simp only [if_neg hpos]
    have hempty : r.data = [] := by
      apply List.eq_nil_of_length_eq_zero
      omega
    refine ⟨s.recvBuffer, by rw [List.append_nil], ?_⟩
    rw [hempty, List.append_nil]
    exact h.recv

/-- A poll without a fatal error. -/
theorem poll_spec (h : Buffers s input output) {w : WriteOutcome} {r : ReadOutcome}
    (hw : fatal w.error = none) (hr : fatal r.error = none)
    (hroom : r.data.length ≤ s.recvBuffer.unusedSize.toNat) :
    ∃ sendBuffer recvBuffer, poll s w r = { s with
        sendBuffer := sendBuffer
        recvBuffer := recvBuffer
        pollTimer := true
        ui := s.ui ++ if 0 < r.data.length then [.processBuffer] else []
        accepted := s.accepted ++ (input.take 1024).take w.count
        output := s.output ++ r.data } ∧
      Queue sendBuffer 11 (input.drop 1024) ∧ Queue recvBuffer 12 (output ++ r.data) := by
  have h0 : Buffers { s with pollTimer := false } input output := ⟨h.send, h.recv⟩
  obtain ⟨sendBuffer, err, hwrite, hsend, hnone⟩ := pollWrite_spec h0 w
  obtain rfl : err = none := hnone hw
  have h1 : Buffers { s with
      sendBuffer := sendBuffer
      pollTimer := false
      accepted := s.accepted ++ (input.take 1024).take w.count } (input.drop 1024) output :=
    ⟨hsend, h.recv⟩
  obtain ⟨recvBuffer, hread, hrecv⟩ := pollRead_spec h1 (r := r) hroom
  refine ⟨sendBuffer, recvBuffer, ?_, hsend, hrecv⟩
  unfold poll
  simp only [hwrite, hread, hr]

theorem processBuffer_spec (h : Buffers s input output) {n : ℕ} (hn : output.length < n) :
    ∃ recvBuffer, processBuffer s n = { s with
        recvBuffer := recvBuffer
        written := s.written ++ output } ∧ Queue recvBuffer 12 [] := by
  induction n generalizing s output with
  | zero => omega
  | succ n ih =>
    obtain ⟨htemp, hrest⟩ := h.recv.get 1024
    have htoNat : (1024 : UInt32).toNat = 1024 := rfl
    rw [htoNat] at htemp hrest
    rw [processBuffer]
    simp only [htemp]
    by_cases hpos : 0 < (output.take 1024).length
    · rw [if_pos hpos]
      have h' : Buffers (cWrite { s with recvBuffer := (s.recvBuffer.get 1024).1 } (output.take 1024))
          input (output.drop 1024) := ⟨h.send, hrest⟩
      obtain ⟨recvBuffer, hrun, hempty⟩ := ih h' (by
        rw [List.length_drop]
        rw [List.length_take] at hpos
        omega)
      refine ⟨recvBuffer, ?_, hempty⟩
      rw [hrun]
      simp only [cWrite]
      rw [List.append_assoc, List.take_append_drop]
    · rw [if_neg hpos]
      have hnil : output = [] := by
        rw [List.length_take] at hpos
        apply List.eq_nil_of_length_eq_zero
        omega
      subst hnil
      exact ⟨_, by rw [List.append_nil], hrest⟩

theorem length_lt_rounds (h : Buffers s input output) : output.length < rounds s := by
  rw [rounds, KfifoBuffer.size, h.recv.used, h.recv.toNat_length]
  exact Nat.lt_succ_self _

/-! ## Careful runs -/

/-- What is between the pipes and the terminal. -/
structure Flow (s : State) : Prop where
  buffers : ∃ input output, Buffers s input output ∧ s.accepted ++ input = expected false s.sent ∧
    s.written ++ output = s.output
  noError : ∀ err, .writeError err ∉ s.ui

theorem Flow.faithful (h : Flow s) : Faithful s := by
  obtain ⟨input, output, hbuf, hinput, houtput⟩ := h.buffers
  refine ⟨⟨input, hinput⟩, ⟨output, houtput⟩, ?_⟩
  intro hempty
  rw [KfifoBuffer.size, hbuf.recv.used] at hempty
  have hzero := congrArg UInt32.toNat hempty
  rw [hbuf.recv.toNat_length] at hzero
  rw [← houtput, List.eq_nil_of_length_eq_zero hzero, List.append_nil]

theorem flow_init : Flow init := ⟨⟨[], [], buffers_init, rfl, rfl⟩, by simp [init]⟩

theorem Flow.processBuffer (h : Flow s) : Flow (processBuffer s (rounds s)) := by
  obtain ⟨input, output, hbuf, hinput, houtput⟩ := h.buffers
  obtain ⟨recvBuffer, hrun, hempty⟩ := processBuffer_spec hbuf (length_lt_rounds hbuf)
  rw [hrun]
  exact ⟨⟨input, [], ⟨hbuf.send, hempty⟩, hinput, by rw [List.append_nil]; exact houtput⟩, h.noError⟩

variable (winStrerror : ℕ → List UInt8)

/-- A careful step loses nothing. -/
theorem Flow.step (h : Flow s) {a : Action} {s' : State} (ha : Careful s a)
    (hstep : step winStrerror s a = some s') : Flow s' := by
  obtain ⟨input, output, hbuf, hinput, houtput⟩ := h.buffers
  cases a with
  | send compelCrlf buf =>
    cases hstep
    obtain ⟨hroom, hpair⟩ := ha
    refine ⟨⟨_, output, send_spec hbuf hroom, ?_, houtput⟩, h.noError⟩
    show s.accepted ++ (input ++ translated compelCrlf buf) =
      expected false (s.sent ++ buf.map (compelCrlf, ·))
    rw [expected_send hpair, ← List.append_assoc, hinput]
  | poll w r =>
    obtain ⟨hcount, hw, hr, hroom⟩ := ha
    rw [Adb.step] at hstep
    split at hstep
    · cases hstep
      obtain ⟨sendBuffer, recvBuffer, hpoll, hsend, hrecv⟩ := poll_spec hbuf hw hr hroom
      have htemp : s.sendBuffer.peek 1024 = input.take 1024 := hbuf.send.peek 1024
      rw [hpoll]
      refine ⟨⟨_, _, ⟨hsend, hrecv⟩, ?_, ?_⟩, ?_⟩
      · show s.accepted ++ (input.take 1024).take w.count ++ input.drop 1024 = expected false s.sent
        rw [hcount, htemp, List.take_length, List.append_assoc, List.take_append_drop, hinput]
      · show s.written ++ (output ++ r.data) = s.output ++ r.data
        rw [← List.append_assoc, houtput]
      · intro err hmem
        rcases List.mem_append.mp hmem with hmem | hmem
        · exact h.noError err hmem
        · split at hmem
          · simp at hmem
          · cases hmem
    · cases hstep
  | ui i =>
    rw [Adb.step] at hstep
    cases hjob : s.ui[i]? with
    | none =>
      rw [hjob] at hstep
      cases hstep
    | some job =>
      rw [hjob] at hstep
      have herased : Flow { s with ui := s.ui.eraseIdx i } :=
        ⟨⟨input, output, ⟨hbuf.send, hbuf.recv⟩, hinput, houtput⟩, fun err hmem =>
          h.noError err (List.mem_of_mem_eraseIdx hmem)⟩
      cases job with
      | processBuffer =>
        cases hstep
        exact herased.processBuffer
      | writeError err => exact absurd (List.mem_of_getElem? hjob) (h.noError err)
      | remoteExit =>
        cases hstep
        exact herased
  | processBuffer =>
    cases hstep
    exact h.processBuffer

theorem step_poll {w : WriteOutcome} {r : ReadOutcome} (htimer : s.pollTimer = true)
    (hw : w.count ≤ (s.sendBuffer.peek 1024).length) (hr : r.data.length ≤ 1024) :
    step winStrerror s (.poll w r) = some (poll s w r) := if_pos ⟨htimer, hw, hr⟩

end PuttyNd.Adb
