import PuttyNd.Telnet.Proofs.StreamProofs
import Mathlib.Data.List.TakeWhile

/-!
# The round trip of the data stream

A step sends what its event is to say, and the other side hands this up in whatever pieces it reads it.
-/

namespace PuttyNd.Telnet

open Transducer (Reads)

namespace TelnetTag

variable {s t : TelnetTag}

/-! ## What is read is decided by the view -/

theorem procRecOpt_receiver {cmd : UInt8} (hcmd : cmd = WILL ∨ cmd = WONT ∨ cmd = DO ∨ cmd = DONT)
    (option : UInt8) : (s.procRecOpt cmd option).receiver = ⟨s.state, s.inSynch,
      if option = TELOPT_BINARY then
        if cmd = WILL then (s.optStates .theyBin).acked
        else if cmd = WONT then (s.optStates .theyBin).naked
        else s.optStates .theyBin
      else s.optStates .theyBin⟩ := by
  rcases procRecOpt_cases hcmd with ⟨hbin, hcases⟩ | ⟨hbin, hquiet⟩
  · rw [if_pos hbin]
    rcases hcases with ⟨rfl, h⟩ | ⟨rfl, h⟩ | ⟨rfl, h⟩ | ⟨rfl, h⟩
    · rw [h, optAcked_they.receiver, if_pos rfl]
    · rw [h, optNaked_they.receiver, if_neg (by decide), if_pos rfl]
    · rw [h, optAcked_we.receiver, if_neg (by decide), if_neg (by decide)]
      rfl
    · rw [h, optNaked_we.receiver, if_neg (by decide), if_neg (by decide)]
      rfl
  · rw [hquiet.receiver, if_neg hbin]
    rfl

/-- Hiding ends at a data mark. -/
theorem unhide_eq (s : TelnetTag) (c : UInt8) :
    (if s.inSynch ∧ c = DM then { s with inSynch := false } else s) =
      { s with inSynch := s.inSynch && c != DM } := by
  by_cases hc : c = DM
  · have hhide : (s.inSynch && c != DM) = false := by simp [hc]
    rw [hhide]
    by_cases hs : s.inSynch = true
    · rw [if_pos ⟨hs, hc⟩]
    · rw [if_neg fun h => hs h.1, ← Bool.eq_false_iff.mpr hs]
  · have hhide : (s.inSynch && c != DM) = s.inSynch := by simp [hc]
    rw [hhide, if_neg fun h => hc h.2]

theorem step_receiver_top (hstate : s.state = .topLevel ∨ s.state = .seenCr) (c : UInt8) :
    Receiver.step s.receiver c = ((readByte s c).1.receiver, (readByte s c).2) := by
  have hview : s.receiver.state = s.state := rfl
  have hbody : (if c = NUL ∧ s.state = .seenCr then
        (({ s.receiver with state := .topLevel } : Receiver), [])
      else if c = IAC then ({ s.receiver with state := .seenIac }, [])
      else
        ({ s.receiver with
            inSynch := s.inSynch && c != DM
            state := if c = CR ∧ s.optStates .theyBin ≠ .active then .seenCr else .topLevel },
          if s.inSynch then [] else [c])) =
      let read : TelnetTag × List UInt8 :=
        if c = NUL ∧ s.state = .seenCr then ({ s with state := .topLevel }, [])
        else if c = IAC then ({ s with state := .seenIac }, [])
        else
          let out := if s.inSynch then [] else [c]
          let telnet := if s.inSynch ∧ c = DM then { s with inSynch := false } else s
          if c = CR ∧ telnet.optStates .theyBin ≠ .active then
            ({ telnet with state := .seenCr }, out)
          else ({ telnet with state := .topLevel }, out)
      (read.1.receiver, read.2) := by
    rw [unhide_eq]
    by_cases hnul : c = NUL ∧ s.state = .seenCr
    · rw [if_pos hnul, if_pos hnul]
      rfl
    · rw [if_neg hnul, if_neg hnul]
      by_cases hiac : c = IAC
      · rw [if_pos hiac, if_pos hiac]
        rfl
      · rw [if_neg hiac, if_neg hiac]
        by_cases hcr : c = CR ∧ s.optStates .theyBin ≠ .active
        · simp only [if_pos hcr]
          rfl
        · simp only [if_neg hcr]
          rfl
  unfold readByte Receiver.step
  rcases hstate with h | h
  · rw [hview]
    simp only [h] at hbody ⊢
    exact hbody
  · rw [hview]
    simp only [h] at hbody ⊢
    exact hbody

theorem step_receiver_iac (h : s.state = .seenIac) (c : UInt8) :
    Receiver.step s.receiver c = ((readByte s c).1.receiver, (readByte s c).2) := by
  have hview : s.receiver.state = s.state := rfl
  unfold readByte Receiver.step
  simp only [hview, h]
  by_cases hdm : c = DM
  · simp [TelnetTag.receiver, hdm, IAC, DM, DO, DONT, WILL, WONT, SB]
  · by_cases hcmd : c = DO ∨ c = DONT ∨ c = WILL ∨ c = WONT ∨ c = SB
    · rcases hcmd with rfl | rfl | rfl | rfl | rfl <;> rfl
    · simp only [not_or] at hcmd
      simp [TelnetTag.receiver, hdm, hcmd]

/-- A command ends with its option. -/
theorem step_receiver_opt {cmd : UInt8} (hcmd : cmd = WILL ∨ cmd = WONT ∨ cmd = DO ∨ cmd = DONT)
    (c : UInt8) : { s.procRecOpt cmd c with state := .topLevel }.receiver = ⟨.topLevel, s.inSynch,
      if c = TELOPT_BINARY then
        if cmd = WILL then (s.optStates .theyBin).acked
        else if cmd = WONT then (s.optStates .theyBin).naked
        else s.optStates .theyBin
      else s.optStates .theyBin⟩ := by
  have h := Receiver.ext_iff.mp (procRecOpt_receiver (s := s) hcmd c)
  exact Receiver.ext rfl h.2.1 h.2.2

theorem step_receiver (s : TelnetTag) (c : UInt8) :
    Receiver.step s.receiver c = ((readByte s c).1.receiver, (readByte s c).2) := by
  have hview : s.receiver.state = s.state := rfl
  cases hstate : s.state with
  | topLevel => exact step_receiver_top (.inl hstate) c
  | seenCr => exact step_receiver_top (.inr hstate) c
  | seenIac => exact step_receiver_iac hstate c
  | seenWill =>
    unfold readByte Receiver.step
    simp only [hview, hstate]
    rw [step_receiver_opt (.inl rfl)]
    rfl
  | seenWont =>
    unfold readByte Receiver.step
    simp only [hview, hstate]
    rw [step_receiver_opt (.inr (.inl rfl))]
    rfl
  | seenDo =>
    unfold readByte Receiver.step
    simp only [hview, hstate]
    simp only [step_receiver_opt (.inr (.inr (.inl rfl))), if_neg (by decide : DO ≠ WILL),
      if_neg (by decide : DO ≠ WONT), ite_self]
    rfl
  | seenDont =>
    unfold readByte Receiver.step
    simp only [hview, hstate]
    simp only [step_receiver_opt (.inr (.inr (.inr rfl))), if_neg (by decide : DONT ≠ WILL),
      if_neg (by decide : DONT ≠ WONT), ite_self]
    rfl
  | seenSb =>
    unfold readByte Receiver.step
    simp only [hview, hstate]
    rfl
  | subnegot =>
    unfold readByte Receiver.step
    simp only [hview, hstate]
    by_cases hc : c = IAC
    · rw [if_pos hc, if_pos hc]
      rfl
    · rw [if_neg hc, if_neg hc]
      rfl
  | subnegIac =>
    unfold readByte Receiver.step
    simp only [hview, hstate]
    by_cases hc : c = SE
    · rw [if_pos hc, if_neg (not_not_intro hc)]
      unfold processSubneg
      cases s.subnegReply <;> rfl
    · rw [if_neg hc, if_pos hc]
      rfl

/-- What a chunk hands up is decided by the view. -/
theorem doTelnetRead_receiver (s : TelnetTag) (buf : List UInt8) :
    Transducer.run Receiver.step s.receiver buf =
      ((s.doTelnetRead buf).receiver, (Transducer.run readByte s buf).2) := by
  rw [Transducer.run_map receiver step_receiver s buf]
  unfold doTelnetRead
  by_cases hout : (Transducer.run readByte s buf).2 ≠ []
  · simp only [if_pos hout]
    rfl
  · simp only [if_neg hout]

/-! ## What is sent -/

theorem procRecOpt_tells {cmd : UInt8} (hcmd : cmd = WILL ∨ cmd = WONT ∨ cmd = DO ∨ cmd = DONT)
    (option : UInt8) : Tells s (s.procRecOpt cmd option) [] := by
  rcases procRecOpt_cases hcmd with ⟨-, hcases⟩ | ⟨-, hquiet⟩
  · rcases hcases with ⟨rfl, h⟩ | ⟨rfl, h⟩ | ⟨rfl, h⟩ | ⟨rfl, h⟩
    · exact h ▸ optAcked_they.tells
    · exact h ▸ optNaked_they.tells
    · exact h ▸ optAcked_we.tells
    · exact h ▸ optNaked_we.tells
  · exact hquiet.tells

/-- A byte ends a command or a subnegotiation, or it changes neither the options nor what is sent. -/
theorem readByte_cases (s : TelnetTag) (c : UInt8) :
    ((readByte s c).1.optStates = s.optStates ∧ (readByte s c).1.sent = s.sent ∧
        (readByte s c).1.received = s.received) ∨
      (∃ cmd, (cmd = WILL ∨ cmd = WONT ∨ cmd = DO ∨ cmd = DONT) ∧
        (readByte s c).1 = { s.procRecOpt cmd c with state := .topLevel }) ∨
      s.state = .subnegIac ∧ c = SE ∧ (readByte s c).1 = { s.processSubneg with state := .topLevel } := by
  unfold readByte
  cases hstate : s.state with
  | topLevel | seenCr =>
    left
    dsimp only
    split_ifs <;> exact ⟨rfl, rfl, rfl⟩
  | seenIac =>
    left
    dsimp only
    split_ifs <;> exact ⟨rfl, rfl, rfl⟩
  | seenWill => exact .inr (.inl ⟨WILL, .inl rfl, rfl⟩)
  | seenWont => exact .inr (.inl ⟨WONT, .inr (.inl rfl), rfl⟩)
  | seenDo => exact .inr (.inl ⟨DO, .inr (.inr (.inl rfl)), rfl⟩)
  | seenDont => exact .inr (.inl ⟨DONT, .inr (.inr (.inr rfl)), rfl⟩)
  | seenSb => exact .inl ⟨rfl, rfl, rfl⟩
  | subnegot =>
    left
    dsimp only
    split_ifs <;> exact ⟨rfl, rfl, rfl⟩
  | subnegIac =>
    by_cases hc : c = SE
    · simp only [if_neg (not_not_intro hc)]
      exact .inr (.inr ⟨trivial, hc, trivial⟩)
    · simp only [if_pos hc]
      exact .inl ⟨rfl, rfl, rfl⟩

theorem processSubneg_same (s : TelnetTag) :
    s.processSubneg.optStates = s.optStates ∧ s.processSubneg.received = s.received := by
  unfold processSubneg
  cases s.subnegReply <;> exact ⟨rfl, rfl⟩

theorem procRecOpt_received {cmd : UInt8} (hcmd : cmd = WILL ∨ cmd = WONT ∨ cmd = DO ∨ cmd = DONT)
    (option : UInt8) : (s.procRecOpt cmd option).received = s.received := by
  rcases procRecOpt_cases hcmd with ⟨-, hcases⟩ | ⟨-, hquiet⟩
  · rcases hcases with ⟨rfl, h⟩ | ⟨rfl, h⟩ | ⟨rfl, h⟩ | ⟨rfl, h⟩
    · exact h ▸ optAcked_they.received
    · exact h ▸ optNaked_they.received
    · exact h ▸ optAcked_we.received
    · exact h ▸ optNaked_we.received
  · exact hquiet.received

theorem readByte_received (s : TelnetTag) (c : UInt8) : (readByte s c).1.received = s.received := by
  rcases readByte_cases s c with ⟨-, -, h⟩ | ⟨cmd, hcmd, h⟩ | ⟨-, -, h⟩
  · exact h
  · rw [h]
    exact procRecOpt_received hcmd c
  · rw [h]
    exact (processSubneg_same s).2

theorem doTelnetRead_received (s : TelnetTag) (buf : List UInt8) :
    (s.doTelnetRead buf).received = s.received ++ (Transducer.run readByte s buf).2 := by
  have hread : (Transducer.run readByte s buf).1.received = s.received := by
    rw [Transducer.run_fst_eq_foldl]
    exact @Runs.invariant_run _ _ (fun t => t.received = s.received) _ _ _
      (fun t c h => (readByte_received t c).trans h) rfl
  unfold doTelnetRead
  by_cases hout : (Transducer.run readByte s buf).2 ≠ []
  · simp only [if_pos hout]
    exact congrArg (· ++ _) hread
  · simp only [if_neg hout]
    rw [hread, not_not.mp hout, List.append_nil]

theorem processSubneg_tells (hsound : ∀ body ∈ s.subnegReply, Sound body) :
    Tells s s.processSubneg [] := by
  unfold processSubneg
  cases hreply : s.subnegReply with
  | none => exact (Quiet.refl s).tells
  | some body => exact (quiet_skWrite (neutral_subneg (hsound body hreply) s.sbOpt)).tells

theorem readByte_tells {c : UInt8} (hsound : s.ByteSound c) : Tells s (readByte s c).1 [] := by
  rcases readByte_cases s c with ⟨hopts, hsent, -⟩ | ⟨cmd, hcmd, h⟩ | ⟨hstate, hc, h⟩
  · exact tells_same hopts hsent
  · rw [h]
    exact (procRecOpt_tells hcmd c).congr rfl rfl
  · rw [h]
    exact (processSubneg_tells (hsound hstate hc)).congr rfl rfl

theorem read_tells {data : List UInt8}
    (hsound : Runs.Meets (fun telnet c => (readByte telnet c).1) ByteSound s data) :
    Tells s (Transducer.run readByte s data).1 [] := by
  induction data generalizing s with
  | nil => exact (Quiet.refl s).tells
  | cons c data ih => exact (readByte_tells hsound.1).trans (ih hsound.2)

theorem telnetReceive_tells {urgent : Bool} {data : List UInt8}
    (hsound : s.RepliesSound (.receive urgent data)) : Tells s (s.telnetReceive urgent data) [] := by
  have hread := read_tells hsound
  have hstart : Tells s (if urgent then { s with inSynch := true } else s) [] := by
    cases urgent <;> exact tells_same rfl rfl
  unfold telnetReceive doTelnetRead
  by_cases hout : (Transducer.run readByte (if urgent then { s with inSynch := true } else s) data).2 ≠ []
  · simp only [if_pos hout]
    exact (hstart.trans hread).congr rfl rfl
  · simp only [if_neg hout]
    exact hstart.trans hread

/-! ### Data -/

/-- How a byte is sent -/
def escape (writable : UInt8 → Bool) (c : UInt8) : List UInt8 :=
  if writable c then [c] else if c = IAC then [IAC, IAC] else [CR, NUL]

theorem sendLoop_eq_flatMap (writable : UInt8 → Bool) (buf : List UInt8) :
    sendLoop writable buf = buf.flatMap (escape writable) := by
  fun_induction sendLoop writable buf with
  | case1 => rfl
  | case2 buf hne rest ih =>
    have hplain : (buf.takeWhile writable).flatMap (escape writable) = buf.takeWhile writable := by
      have hone : ∀ c ∈ buf.takeWhile writable, escape writable c = [c] := fun c hc =>
        if_pos (List.mem_takeWhile_imp hc)
      rw [List.flatMap_congr hone, List.flatMap_singleton']
    have hcoded : (rest.takeWhile (!writable ·)).flatMap (escape writable) =
        (rest.takeWhile (!writable ·)).flatMap fun c => if c = IAC then [IAC, IAC] else [CR, NUL] := by
      refine List.flatMap_congr fun c hc => if_neg ?_
      simpa using List.mem_takeWhile_imp hc
    rw [ih, ← hcoded]
    conv_lhs => rw [← hplain]
    rw [← List.flatMap_append, ← List.flatMap_append, List.append_assoc, List.takeWhile_append_dropWhile,
      List.takeWhile_append_dropWhile]

/-- A byte is read back as it was sent, if both sides agree about BINARY. -/
theorem reads_escape (s : TelnetTag) (c : UInt8) :
    Reads Receiver.step (.top (s.optStates .weBin)) (escape s.iswritable c) [c]
      (.top (s.optStates .weBin)) := by
  unfold escape iswritable
  by_cases hiac : c = IAC
  · subst hiac
    cases s.optStates .weBin <;> rfl
  · by_cases hcr : c = CR
    · subst hcr
      cases s.optStates .weBin <;> rfl
    · have hplain : Receiver.step (.top (s.optStates .weBin)) c = (.top (s.optStates .weBin), [c]) := by
        simp [Receiver.step, Receiver.top, hiac, hcr]
      have hwritable : (c != IAC && (decide (s.optStates .weBin = .active) || c != CR)) = true := by
        simp [hiac, hcr]
      rw [if_pos hwritable]
      exact Reads.cons hplain (.nil _)

theorem telnetSend_tells (buf : List UInt8) : Tells s (s.telnetSend buf) buf where
  settled hs := hs
  sent _ := by
    refine ⟨sendLoop s.iswritable buf, rfl, ?_⟩
    rw [sendLoop_eq_flatMap]
    exact Reads.flatMap (reads_escape s) buf

theorem telnetSpecial_tells {code : Special} (hband : InBand (.special code)) :
    Tells s (s.telnetSpecial code) (s.said (.special code)) := by
  have hcode : ∀ b ∈ [AYT, BREAK, EC, EL, GA, NOP, ABORT, AO, IP, SUSP, EOR, xEOF],
      Tells s (s.skWrite [IAC, b]) [] := fun b hb => (quiet_skWrite (neutral_special hb)).tells
  have hecho : ∀ cmd, cmd = DO ∨ cmd = DONT →
      Tells s ((s.setOpt .echo .requested).sendOpt cmd TELOPT_ECHO) [] := by
    rintro cmd hcmd
    have hneutral : NeutralOpt cmd TELOPT_ECHO := ⟨.inr (.inr hcmd), fun _ => by decide⟩
    exact ((quiet_setOpt (by decide) (by decide) _).trans (quiet_sendOpt hneutral)).tells
  cases code with
  | eol =>
    refine ⟨fun hs => ?_, fun hs => ?_⟩
    · unfold telnetSpecial
      split_ifs <;> exact hs
    · by_cases hact : s.optStates .weBin = .active
      · simp only [telnetSpecial, said, if_pos hact]
        exact ⟨[CR], rfl, by rw [show (s.skWrite [CR]).optStates = s.optStates from rfl, hact]; rfl⟩
      · simp only [telnetSpecial, said, if_neg hact]
        refine ⟨[CR, LF], rfl, ?_⟩
        rw [show (s.skWrite [CR, LF]).optStates = s.optStates from rfl]
        cases hst : s.optStates .weBin with
        | active => exact absurd hst hact
        | requested | inactive | reallyInactive => rfl
  | synch => exact absurd rfl hband
  | recho =>
    unfold telnetSpecial
    by_cases h : s.optStates .echo = .inactive ∨ s.optStates .echo = .reallyInactive
    · simp only [if_pos h]
      exact hecho DO (.inl rfl)
    · simp only [if_neg h]
      exact tells_same rfl rfl
  | lecho =>
    unfold telnetSpecial
    by_cases h : s.optStates .echo = .active
    · simp only [if_pos h]
      exact hecho DONT (.inr rfl)
    · simp only [if_neg h]
      exact tells_same rfl rfl
  | ping =>
    unfold telnetSpecial
    by_cases h : s.optStates .theySga = .active
    · simp only [if_pos h]
      exact hcode NOP (by decide)
    · simp only [if_neg h]
      exact tells_same rfl rfl
  | other => exact tells_same rfl rfl
  | ayt => exact hcode AYT (by decide)
  | brk => exact hcode BREAK (by decide)
  | ec => exact hcode EC (by decide)
  | el => exact hcode EL (by decide)
  | ga => exact hcode GA (by decide)
  | nop => exact hcode NOP (by decide)
  | abort => exact hcode ABORT (by decide)
  | ao => exact hcode AO (by decide)
  | ip => exact hcode IP (by decide)
  | susp => exact hcode SUSP (by decide)
  | eor => exact hcode EOR (by decide)
  | eof => exact hcode xEOF (by decide)

/-- A step sends what its event is to say. -/
theorem step_tells {e : Event} (hband : InBand e) (hsound : s.RepliesSound e) :
    Tells s (s.step e) (s.said e) := by
  cases e with
  | send buf => exact telnetSend_tells buf
  | receive urgent data => exact telnetReceive_tells hsound
  | size width height => exact (telnetSize_quiet width height).tells
  | special code => exact telnetSpecial_tells hband
  | reconfig conf => exact tells_same rfl rfl

theorem run_tells {events : List Event} (hband : ∀ e ∈ events, InBand e)
    (hsound : Runs.Meets step RepliesSound s events) : Tells s (s.run events) (s.saidRun events) := by
  induction events generalizing s with
  | nil => exact (Quiet.refl s).tells
  | cons e events ih =>
    exact (step_tells (hband e (by simp)) hsound.1).trans
      (ih (fun e' he' => hband e' (List.mem_cons_of_mem e he')) hsound.2)

/-! ## What is received -/

/-- What a peer does beside reading does not concern what it reads. -/
theorem step_local {e : Event} (h : ∀ urgent data, e ≠ .receive urgent data) :
    (s.step e).receiver = s.receiver ∧ (s.step e).received = s.received ∧
      (s.step e).optStates .weBin = s.optStates .weBin := by
  have hset : Quiet s (s.setOpt .echo .requested) := quiet_setOpt (by decide) (by decide) .requested
  cases e with
  | send buf => exact ⟨rfl, rfl, rfl⟩
  | receive urgent data => exact absurd rfl (h urgent data)
  | size width height =>
    have hquiet := telnetSize_quiet (s := s) width height
    exact ⟨hquiet.receiver, hquiet.received, hquiet.weBin⟩
  | special code =>
    unfold step telnetSpecial
    cases code with
    | recho | lecho =>
      dsimp only
      split_ifs
      · exact ⟨hset.receiver, rfl, hset.weBin⟩
      · exact ⟨rfl, rfl, rfl⟩
    | eol | ping =>
      dsimp only
      split_ifs <;> exact ⟨rfl, rfl, rfl⟩
    | _ => exact ⟨rfl, rfl, rfl⟩
  | reconfig conf => exact ⟨rfl, rfl, rfl⟩

/-- A run of a peer reads what the chunks of it are together. -/
theorem run_receiver {events : List Event} (h : ∀ e ∈ events, NotUrgent e) :
    ∃ out, Transducer.run Receiver.step s.receiver (events.flatMap chunk) = ((s.run events).receiver, out) ∧
      (s.run events).received = s.received ++ out := by
  induction events generalizing s with
  | nil => exact ⟨[], rfl, by simp [run]⟩
  | cons e events ih =>
    obtain ⟨out, h1, h2⟩ := ih (s := s.step e) fun e' he' => h e' (List.mem_cons_of_mem e he')
    by_cases he : ∃ urgent data, e = .receive urgent data
    · obtain ⟨urgent, data, rfl⟩ := he
      obtain rfl : urgent = false := h _ (List.mem_cons_self)
      refine ⟨(Transducer.run readByte s data).2 ++ out, ?_, ?_⟩
      · have hchunk := doTelnetRead_receiver s data
        rw [List.flatMap_cons, Transducer.run_append]
        simp only [chunk, hchunk]
        exact congrArg (fun r => (r.1, (Transducer.run readByte s data).2 ++ r.2)) h1
      · rw [← List.append_assoc, ← doTelnetRead_received]
        exact h2
    · have hlocal := step_local (s := s) fun urgent data heq => he ⟨urgent, data, heq⟩
      have hchunk : chunk e = [] := by
        cases e with
        | receive urgent data => exact absurd ⟨urgent, data, rfl⟩ he
        | _ => rfl
      refine ⟨out, ?_, ?_⟩
      · rw [List.flatMap_cons, hchunk, List.nil_append, ← hlocal.1]
        exact h1
      · rw [← hlocal.2.1]
        exact h2

/-! ## Reachable states -/

/-- BINARY is never asked for, so it is settled in both directions. -/
structure BinSettled (s : TelnetTag) : Prop where
  we : (s.optStates .weBin).Settled
  they : (s.optStates .theyBin).Settled

theorem step_settled (r : Receiver) (c : UInt8) (h : r.theyBin.Settled) :
    (r.step c).1.theyBin.Settled := by
  have hacked : r.theyBin.acked.Settled := by
    rcases h with h | h <;> exact .inl (by rw [h]; rfl)
  have hnaked : r.theyBin.naked.Settled := by
    rcases h with h | h <;> exact .inr (by rw [h]; rfl)
  unfold Receiver.step
  cases r.state with
  | seenWill =>
    dsimp only
    split_ifs
    · exact hacked
    · exact h
  | seenWont =>
    dsimp only
    split_ifs
    · exact hnaked
    · exact h
  | seenDo | seenDont | seenSb | subnegot | subnegIac => exact h
  | topLevel | seenCr | seenIac =>
    dsimp only
    split_ifs <;> exact h

theorem readByte_settled (c : UInt8) (h : BinSettled s) : BinSettled (readByte s c).1 where
  we := by
    rcases readByte_cases s c with ⟨hopts, -, -⟩ | ⟨cmd, hcmd, heq⟩ | ⟨-, -, heq⟩
    · rw [hopts]
      exact h.we
    · rw [heq]
      exact (procRecOpt_tells hcmd c).settled h.we
    · rw [heq]
      exact (processSubneg_same s).1 ▸ h.we
  they := by
    have hview : (Receiver.step s.receiver c).1.theyBin = (readByte s c).1.optStates .theyBin :=
      congrArg (fun r => r.1.theyBin) (step_receiver s c)
    rw [← hview]
    exact step_settled s.receiver c h.they

theorem step_binSettled (s : TelnetTag) (e : Event) (h : BinSettled s) : BinSettled (s.step e) := by
  by_cases he : ∃ urgent data, e = .receive urgent data
  · obtain ⟨urgent, data, rfl⟩ := he
    have hstart : BinSettled (if urgent then { s with inSynch := true } else s) := by
      cases urgent <;> exact ⟨h.we, h.they⟩
    have hread : ∀ t, BinSettled t → BinSettled (Transducer.run readByte t data).1 := by
      intro t ht
      rw [Transducer.run_fst_eq_foldl]
      exact Runs.invariant_run (fun t c ht => readByte_settled c ht) ht
    unfold step telnetReceive doTelnetRead
    by_cases hout : (Transducer.run readByte (if urgent then { s with inSynch := true } else s) data).2 ≠ []
    · simp only [if_pos hout]
      exact ⟨(hread _ hstart).we, (hread _ hstart).they⟩
    · simp only [if_neg hout]
      exact hread _ hstart
  · have hlocal := step_local (s := s) fun urgent data heq => he ⟨urgent, data, heq⟩
    refine ⟨?_, ?_⟩
    · rw [hlocal.2.2]
      exact h.we
    · have hthey : (s.step e).optStates .theyBin = s.optStates .theyBin :=
        congrArg Receiver.theyBin hlocal.1
      exact hthey ▸ h.they

theorem telnetInit_binSettled (conf : Conf) : BinSettled (telnetInit conf) := by
  unfold telnetInit
  by_cases hpassive : conf.passiveTelnet = true
  · rw [if_pos hpassive]
    exact ⟨.inr rfl, .inr rfl⟩
  · rw [if_neg hpassive]
    exact ⟨.inr rfl, .inr rfl⟩

theorem Reachable.binSettled (h : Reachable s) : BinSettled s := by
  obtain ⟨conf, events, rfl⟩ := h
  exact Runs.invariant_run step_binSettled (telnetInit_binSettled conf)

/-! ## The round trip -/

/-- Whatever a side sends, also between options and subnegotiations that are handled, its peer hands up
exactly the data, in whatever chunks it reads the stream and whatever it does between them. The strings
that are configured for subnegotiations must not end a reply early or leave it open. -/
theorem doTelnetRead_round_trip {peer : TelnetTag} (hs : Reachable s) (hpeer : Reachable peer)
    (hstate : peer.state = .topLevel) (hsynch : peer.inSynch = false)
    (hagree : s.optStates .weBin = .active ↔ peer.optStates .theyBin = .active)
    {events reads : List Event} (hband : ∀ e ∈ events, InBand e)
    (hsound : Runs.Meets step RepliesSound s events) (hurgent : ∀ e ∈ reads, NotUrgent e)
    (hstream : (s.run events).sent = s.sent ++ reads.flatMap chunk) :
    (peer.run reads).received = peer.received ++ s.saidRun events ∧
      (peer.run reads).state = .topLevel ∧ (peer.run reads).inSynch = false ∧
      ((s.run events).optStates .weBin = .active ↔ (peer.run reads).optStates .theyBin = .active) := by
  have hwe := hs.binSettled.we
  have hsame : peer.optStates .theyBin = s.optStates .weBin := by
    rcases hwe with h1 | h1
    · rw [h1, hagree.mp h1]
    · rcases hpeer.binSettled.they with h2 | h2
      · rw [hagree.mpr h2] at h1
        cases h1
      · rw [h1, h2]
  have hview : peer.receiver = .top (s.optStates .weBin) := by
    unfold TelnetTag.receiver Receiver.top
    rw [hstate, hsynch, hsame]
  obtain ⟨wire, h1, h2⟩ := (run_tells hband hsound).sent hwe
  obtain ⟨out, h3, h4⟩ := run_receiver (s := peer) hurgent
  have hwire : wire = reads.flatMap chunk := List.append_cancel_left (h1.symm.trans hstream)
  rw [hview, ← hwire, h2] at h3
  obtain ⟨h5, rfl⟩ := Prod.ext_iff.mp h3
  refine ⟨h4, (congrArg Receiver.state h5).symm, (congrArg Receiver.inSynch h5).symm, ?_⟩
  have hthey : (s.run events).optStates .weBin = (peer.run reads).optStates .theyBin :=
    congrArg Receiver.theyBin h5
  rw [hthey]

/-- Data with IAC and CR are sent in binary and, after the other side asks to stop this, in text mode. -/
theorem doTelnetRead_round_trip_binary :
    let conf : Conf := ⟨80, 24, true, [], [], false, [], none⟩
    let s := telnetInit conf
    let events : List Event := [.receive false [IAC, DO, TELOPT_BINARY], .send [255, 13, 97],
      .receive false [IAC, DONT, TELOPT_BINARY], .send [13, 98], .special .eol]
    let wire : List UInt8 := [IAC, WILL, TELOPT_BINARY, IAC, DO, TELOPT_ECHO, IAC, WILL, TELOPT_SGA,
      IAC, DO, TELOPT_SGA, IAC, IAC, CR, 97, IAC, WONT, TELOPT_BINARY, CR, NUL, 98, CR, LF]
    let reads : List Event := [.receive false (wire.take 13), .size 80 25, .receive false (wire.drop 13)]
    (s.run reads).received = s.received ++ s.saidRun events ∧
      (s.run reads).state = .topLevel ∧ (s.run reads).inSynch = false ∧
      ((s.run events).optStates .weBin = .active ↔ (s.run reads).optStates .theyBin = .active) := by
  intro conf s events wire reads
  have hreach : Reachable s := ⟨conf, [], rfl⟩
  have hband : ∀ e ∈ events, InBand e := by decide
  have hsound : Runs.Meets step RepliesSound s events := by decide
  have hurgent : ∀ e ∈ reads, NotUrgent e := by decide
  have hstream : (s.run events).sent = s.sent ++ reads.flatMap chunk := by decide +kernel
  exact doTelnetRead_round_trip hreach hreach rfl rfl (by decide) hband hsound hurgent hstream

/-- A terminal type that ends with IAC is sent as it is, and what is sent after the reply is not read. -/
theorem ttype_iac_swallows : ∃ (s peer : TelnetTag) (events reads : List Event),
    Reachable s ∧ Reachable peer ∧ peer.state = .topLevel ∧ peer.inSynch = false ∧
      (s.optStates .weBin = .active ↔ peer.optStates .theyBin = .active) ∧
      (∀ e ∈ events, InBand e) ∧ (∀ e ∈ reads, NotUrgent e) ∧
      (s.run events).sent = s.sent ++ reads.flatMap chunk ∧
      s.saidRun events = [120, 121] ∧ peer.received = [] ∧ (peer.run reads).received = [] := by
  have hreach : ∀ conf, Reachable (telnetInit conf) := fun conf => ⟨conf, [], rfl⟩
  refine ⟨telnetInit ⟨80, 24, false, [], [65, 255], false, [], none⟩,
    telnetInit ⟨80, 24, true, [], [], false, [], none⟩,
    [.receive false [IAC, DO, TELOPT_TTYPE, IAC, SB, TELOPT_TTYPE, TELQUAL_SEND, IAC, SE],
      .send [120, 121]],
    [.receive false [IAC, SB, TELOPT_TTYPE, TELQUAL_IS, 65, 255, IAC, SE, 120, 121]],
    hreach _, hreach _, ?_⟩
  decide +kernel

end TelnetTag

end PuttyNd.Telnet
