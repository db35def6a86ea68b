import PuttyNd.Telnet.Stream

/-!
# The data stream is not disturbed by negotiations

What a side sends beside its data is read as nothing, and its state of the BINARY option and that of its
peer change at the same place of the stream.
-/

namespace PuttyNd.Telnet

open Transducer (Reads)
open TelnetTag

/-! ## What is read as nothing -/

/-- Read between data, the bytes hand nothing up and change nothing. -/
def Neutral (wire : List UInt8) : Prop :=
  ∀ theyBin, Reads Receiver.step (.top theyBin) wire [] (.top theyBin)

theorem Neutral.nil : Neutral [] := fun _ => .nil _

theorem Neutral.append {wire wire' : List UInt8} (h : Neutral wire) (h' : Neutral wire') :
    Neutral (wire ++ wire') := fun theyBin => (h theyBin).append (h' theyBin)

/-- A command that does not say what the sender does about BINARY -/
structure NeutralOpt (cmd option : UInt8) : Prop where
  command : cmd = WILL ∨ cmd = WONT ∨ cmd = DO ∨ cmd = DONT
  notBinary : cmd = WILL ∨ cmd = WONT → option ≠ TELOPT_BINARY

instance (cmd option : UInt8) : Decidable (NeutralOpt cmd option) :=
  decidable_of_iff ((cmd = WILL ∨ cmd = WONT ∨ cmd = DO ∨ cmd = DONT) ∧
    (cmd = WILL ∨ cmd = WONT → option ≠ TELOPT_BINARY)) ⟨fun h => ⟨h.1, h.2⟩, fun h => ⟨h.1, h.2⟩⟩

theorem NeutralOpt.neutral {cmd option : UInt8} (h : NeutralOpt cmd option) :
    Neutral [IAC, cmd, option] := by
  intro theyBin
  rcases h.command with rfl | rfl | rfl | rfl
  · have hopt := h.notBinary (.inl rfl)
    simp [Reads, Transducer.run, Receiver.step, Receiver.top, hopt, IAC, NUL, WILL, DO, DONT]
  · have hopt := h.notBinary (.inr rfl)
    simp [Reads, Transducer.run, Receiver.step, Receiver.top, hopt, IAC, NUL, WILL, WONT, DO, DONT]
  · simp [Reads, Transducer.run, Receiver.step, Receiver.top, IAC, NUL, DO]
  · simp [Reads, Transducer.run, Receiver.step, Receiver.top, IAC, NUL, DO, DONT]

/-- A command about a code that is no option of the receiver -/
theorem neutral_special {code : UInt8} (h : code ∈ [AYT, BREAK, EC, EL, GA, NOP, ABORT, AO, IP, SUSP, EOR,
    xEOF]) : Neutral [IAC, code] := by
  intro theyBin
  have hall : ∀ code ∈ [AYT, BREAK, EC, EL, GA, NOP, ABORT, AO, IP, SUSP, EOR, xEOF],
      Receiver.step ⟨.seenIac, false, theyBin⟩ code = (.top theyBin, []) := by
    intro code hcode
    simp only [List.mem_cons, List.not_mem_nil, or_false] at hcode
    rcases hcode with rfl | rfl | rfl | rfl | rfl | rfl | rfl | rfl | rfl | rfl | rfl | rfl <;> rfl
  refine Reads.silent ?_ (.silent (hall code h) (.nil _))
  cases theyBin <;> rfl

/-! ### Subnegotiations -/

/-- The body of a subnegotiation is read to its end. -/
theorem reads_body {body : List UInt8} (h : Sound body) (inSynch : Bool) (theyBin : OptState) :
    Reads Receiver.step ⟨.subnegot, inSynch, theyBin⟩ body [] ⟨.subnegot, inSynch, theyBin⟩ := by
  induction body using Sound.induct with
  | case1 => exact .nil _
  | case2 c =>
    have hc : c ≠ IAC := h
    exact Reads.silent (by simp [Receiver.step, hc]) (.nil _)
  | case3 d body ih =>
    unfold Sound at h
    rw [if_pos rfl] at h
    refine Reads.silent rfl ?_
    exact Reads.silent (by simp [Receiver.step, h.1]) (ih h.2)
  | case4 c d body hc ih =>
    unfold Sound at h
    rw [if_neg hc] at h
    exact Reads.silent (by simp [Receiver.step, hc]) (ih h)

theorem neutral_subneg {body : List UInt8} (h : Sound body) (option : UInt8) :
    Neutral ([IAC, SB, option] ++ body ++ [IAC, SE]) := by
  intro theyBin
  have hhead : Reads Receiver.step (.top theyBin) [IAC, SB, option] [] ⟨.subnegot, false, theyBin⟩ := by
    simp [Reads, Transducer.run, Receiver.step, Receiver.top, IAC, NUL, DO, DONT, WILL, WONT, SB]
  have htail : Reads Receiver.step ⟨.subnegot, false, theyBin⟩ [IAC, SE] [] (.top theyBin) := by
    simp [Reads, Transducer.run, Receiver.step, Receiver.top]
  exact (hhead.append (reads_body h false theyBin)).append htail

theorem Sound.append {body body' : List UInt8} (h : Sound body) (h' : Sound body') :
    Sound (body ++ body') := by
  induction body using Sound.induct with
  | case1 => exact h'
  | case2 c =>
    have hc : c ≠ IAC := h
    cases body' with
    | nil => exact h
    | cons d body' => simpa [Sound, hc] using h'
  | case3 d body ih =>
    unfold Sound at h
    rw [if_pos rfl] at h
    rw [List.cons_append, List.cons_append]
    unfold Sound
    rw [if_pos rfl]
    exact ⟨h.1, ih h.2⟩
  | case4 c d body hc ih =>
    unfold Sound at h
    rw [if_neg hc] at h
    rw [List.cons_append, List.cons_append]
    unfold Sound
    rw [if_neg hc]
    exact ih h

theorem sizeByte_sound (n : ℤ) : Sound (sizeByte n) := by
  unfold sizeByte
  by_cases hb : UInt8.ofInt n = IAC
  · simp only [hb, if_true, Sound, and_true]
    decide
  · simp [hb, Sound]

/-! ## Changes beside the data -/

/-- Nothing changes that decides about the data, and what is sent is read as nothing. -/
structure Quiet (s t : TelnetTag) : Prop where
  receiver : t.receiver = s.receiver
  received : t.received = s.received
  weBin : t.optStates .weBin = s.optStates .weBin
  sent : ∃ wire, t.sent = s.sent ++ wire ∧ Neutral wire

variable {s t u : TelnetTag}

theorem Quiet.refl (s : TelnetTag) : Quiet s s :=
  ⟨rfl, rfl, rfl, [], by simp, .nil⟩

theorem Quiet.trans (h : Quiet s t) (h' : Quiet t u) : Quiet s u := by
  obtain ⟨wire, h1, h2⟩ := h.sent
  obtain ⟨wire', h3, h4⟩ := h'.sent
  refine ⟨h'.receiver.trans h.receiver, h'.received.trans h.received, h'.weBin.trans h.weBin,
    wire ++ wire', ?_, h2.append h4⟩
  rw [h3, h1, List.append_assoc]

@[simp]
theorem sendOpt_optStates (cmd option : UInt8) : (s.sendOpt cmd option).optStates = s.optStates := rfl

@[simp]
theorem setOpt_self (index : OptIndex) (st : OptState) : (s.setOpt index st).optStates index = st :=
  Function.update_self ..

theorem setOpt_of_ne {index index' : OptIndex} (h : index' ≠ index) (st : OptState) :
    (s.setOpt index st).optStates index' = s.optStates index' := Function.update_of_ne h ..

theorem quiet_skWrite {wire : List UInt8} (h : Neutral wire) : Quiet s (s.skWrite wire) :=
  ⟨rfl, rfl, rfl, wire, rfl, h⟩

theorem quiet_sendOpt {cmd option : UInt8} (h : NeutralOpt cmd option) :
    Quiet s (s.sendOpt cmd option) := quiet_skWrite h.neutral

theorem quiet_setOpt {index : OptIndex} (hwe : index ≠ .weBin) (hthey : index ≠ .theyBin)
    (st : OptState) : Quiet s (s.setOpt index st) where
  receiver := by
    unfold TelnetTag.receiver
    rw [setOpt_of_ne hthey.symm]
    rfl
  received := rfl
  weBin := setOpt_of_ne hwe.symm st
  sent := ⟨[], by simp [setOpt], .nil⟩

/-- An option that is not about BINARY -/
structure OtherOpt (o : Opt) : Prop where
  weBin : o.index ≠ .weBin
  theyBin : o.index ≠ .theyBin
  send : NeutralOpt o.send o.option
  nsend : NeutralOpt o.nsend o.option

instance (o : Opt) : Decidable (OtherOpt o) :=
  decidable_of_iff (o.index ≠ .weBin ∧ o.index ≠ .theyBin ∧ NeutralOpt o.send o.option ∧
    NeutralOpt o.nsend o.option) ⟨fun h => ⟨h.1, h.2.1, h.2.2.1, h.2.2.2⟩,
      fun h => ⟨h.weBin, h.theyBin, h.send, h.nsend⟩⟩

theorem opts_cases : ∀ o ∈ opts, OtherOpt o ∨ o = oWeBin ∨ o = oTheyBin := by decide

theorem deactivateOption_quiet {o : Opt} (h : OtherOpt o) : Quiet s (s.deactivateOption o) := by
  refine Quiet.trans ?_ (quiet_setOpt h.weBin h.theyBin _)
  by_cases hst : s.optStates o.index = .requested ∨ s.optStates o.index = .active
  · rw [if_pos hst]
    exact quiet_sendOpt h.nsend
  · rw [if_neg hst]
    exact .refl s

theorem ensureOption_quiet {o : Opt} (h : OtherOpt o) : Quiet s (s.ensureOption o) := by
  unfold ensureOption
  by_cases hst : s.optStates o.index = .inactive
  · rw [if_pos hst]
    exact (quiet_setOpt h.weBin h.theyBin _).trans (quiet_sendOpt h.send)
  · rw [if_neg hst]
    exact .refl s

theorem optionSideEffects_quiet (o : Opt) (enabled : Bool) :
    Quiet s (s.optionSideEffects o enabled) := by
  have hmode : Quiet s
      (if o.option = TELOPT_ECHO ∧ o.send = DO then { s with echoing := !enabled }
      else if o.option = TELOPT_SGA ∧ o.send = DO then { s with editing := !enabled }
      else s) := by
    by_cases hecho : o.option = TELOPT_ECHO ∧ o.send = DO
    · rw [if_pos hecho]
      exact ⟨rfl, rfl, rfl, [], by simp, .nil⟩
    · rw [if_neg hecho]
      by_cases hsga : o.option = TELOPT_SGA ∧ o.send = DO
      · rw [if_pos hsga]
        exact ⟨rfl, rfl, rfl, [], by simp, .nil⟩
      · rw [if_neg hsga]
        exact .refl s
  unfold optionSideEffects
  refine hmode.trans ?_
  dsimp only
  generalize (if o.option = TELOPT_ECHO ∧ o.send = DO then { s with echoing := !enabled }
      else if o.option = TELOPT_SGA ∧ o.send = DO then { s with editing := !enabled }
      else s) = t
  by_cases hact : t.activated = true
  · rw [if_pos hact]
    exact .refl t
  · rw [if_neg hact]
    have hall : Quiet t (((t.ensureOption oEcho).ensureOption oWeSga).ensureOption oTheySga) :=
      ((ensureOption_quiet (by decide)).trans (ensureOption_quiet (by decide))).trans
        (ensureOption_quiet (by decide))
    exact ⟨hall.receiver, hall.received, hall.weBin, hall.sent⟩

theorem telnetSize_quiet (width height : ℤ) : Quiet s (s.telnetSize width height) := by
  unfold telnetSize
  dsimp only
  have hdim : Quiet s { s with termWidth := width, termHeight := height } :=
    ⟨rfl, rfl, rfl, [], by simp, .nil⟩
  by_cases hnaws : s.optStates .naws ≠ .active
  · rw [if_pos hnaws]
    exact hdim
  · rw [if_neg hnaws]
    refine hdim.trans (quiet_skWrite ?_)
    have hbody := (((sizeByte_sound (width >>> (8 : ℕ))).append (sizeByte_sound width)).append
      (sizeByte_sound (height >>> (8 : ℕ)))).append (sizeByte_sound height)
    simpa only [List.append_assoc] using neutral_subneg hbody TELOPT_NAWS

theorem activateOption_quiet (o : Opt) : Quiet s (s.activateOption o) := by
  have hnaws : Quiet s (if o.send = WILL ∧ o.option = TELOPT_NAWS then
      s.telnetSize s.termWidth s.termHeight else s) := by
    by_cases h : o.send = WILL ∧ o.option = TELOPT_NAWS
    · rw [if_pos h]
      exact telnetSize_quiet _ _
    · rw [if_neg h]
      exact .refl s
  unfold activateOption
  refine hnaws.trans ?_
  dsimp only
  generalize (if o.send = WILL ∧ o.option = TELOPT_NAWS then
      s.telnetSize s.termWidth s.termHeight else s) = t
  refine Quiet.trans ?_ (optionSideEffects_quiet o true)
  by_cases h : o.send = WILL ∧ (o.option = TELOPT_NEW_ENVIRON ∨ o.option = TELOPT_OLD_ENVIRON)
  · rw [if_pos h]
    by_cases hnew : o.option = TELOPT_NEW_ENVIRON
    · rw [if_pos hnew]
      exact deactivateOption_quiet (by decide)
    · rw [if_neg hnew]
      exact deactivateOption_quiet (by decide)
  · rw [if_neg h]
    exact .refl t

theorem refusedOption_quiet (o : Opt) : Quiet s (s.refusedOption o) := by
  unfold refusedOption
  refine Quiet.trans ?_ (optionSideEffects_quiet o false)
  by_cases h : o.send = WILL ∧ o.option = TELOPT_NEW_ENVIRON ∧ s.optStates .oenv = .inactive
  · rw [if_pos h]
    exact (quiet_sendOpt (by decide)).trans (quiet_setOpt (by decide) (by decide) _)
  · rw [if_neg h]
    exact .refl s

/-! ## Negotiation -/

theorem optAcked_quiet {o : Opt} (h : OtherOpt o) : Quiet s (s.optAcked o) := by
  have hset := quiet_setOpt (s := s) h.weBin h.theyBin .active
  unfold optAcked
  cases s.optStates o.index with
  | requested => exact hset.trans (activateOption_quiet o)
  | active => exact .refl s
  | inactive => exact (hset.trans (quiet_sendOpt h.send)).trans (activateOption_quiet o)
  | reallyInactive => exact quiet_sendOpt h.nsend

theorem optNaked_quiet {o : Opt} (h : OtherOpt o) : Quiet s (s.optNaked o) := by
  have hset := quiet_setOpt (s := s) h.weBin h.theyBin .inactive
  unfold optNaked
  cases s.optStates o.index with
  | requested => exact hset.trans (refusedOption_quiet o)
  | active => exact (hset.trans (quiet_sendOpt h.nsend)).trans (optionSideEffects_quiet o false)
  | inactive => exact .refl s
  | reallyInactive => exact .refl s

/-- BINARY in the direction that is received has the given state, and the rest is quiet. -/
structure TheyChange (s t : TelnetTag) (they : OptState) : Prop where
  receiver : t.receiver = ⟨s.state, s.inSynch, they⟩
  received : t.received = s.received
  weBin : t.optStates .weBin = s.optStates .weBin
  sent : ∃ wire, t.sent = s.sent ++ wire ∧ Neutral wire

theorem Quiet.theyChange {they : OptState} (h : Quiet s t) (hthey : s.optStates .theyBin = they) :
    TheyChange s t they :=
  ⟨by rw [h.receiver, ← hthey]; rfl, h.received, h.weBin, h.sent⟩

theorem Quiet.theySet {they : OptState} (h : Quiet (s.setOpt .theyBin they) t) :
    TheyChange s t they where
  receiver := by
    rw [h.receiver]
    unfold TelnetTag.receiver
    rw [setOpt_self]
    rfl
  received := h.received
  weBin := by
    rw [h.weBin]
    exact setOpt_of_ne (by decide) they
  sent := h.sent

theorem optAcked_they : TheyChange s (s.optAcked oTheyBin) (s.optStates .theyBin).acked := by
  have hsend : NeutralOpt DO TELOPT_BINARY := by decide
  have hnsend : NeutralOpt DONT TELOPT_BINARY := by decide
  unfold optAcked
  rw [show oTheyBin.index = .theyBin from rfl]
  cases hst : s.optStates .theyBin with
  | requested => exact (activateOption_quiet oTheyBin).theySet
  | active => exact (Quiet.refl s).theyChange hst
  | inactive => exact ((quiet_sendOpt hsend).trans (activateOption_quiet oTheyBin)).theySet
  | reallyInactive => exact (quiet_sendOpt hnsend).theyChange hst

theorem optNaked_they : TheyChange s (s.optNaked oTheyBin) (s.optStates .theyBin).naked := by
  have hnsend : NeutralOpt DONT TELOPT_BINARY := by decide
  unfold optNaked
  rw [show oTheyBin.index = .theyBin from rfl]
  cases hst : s.optStates .theyBin with
  | requested => exact (refusedOption_quiet oTheyBin).theySet
  | active =>
    exact ((quiet_sendOpt hnsend).trans (optionSideEffects_quiet oTheyBin false)).theySet
  | inactive => exact (Quiet.refl s).theyChange hst
  | reallyInactive => exact (Quiet.refl s).theyChange hst

/-- An option that is agreed about -/
def OptState.Settled (st : OptState) : Prop := st = .active ∨ st = .inactive

/-- Between the states the data are sent. A reader that agrees about BINARY before reads them and agrees
after them. -/
structure Tells (s t : TelnetTag) (data : List UInt8) : Prop where
  settled : (s.optStates .weBin).Settled → (t.optStates .weBin).Settled
  sent : (s.optStates .weBin).Settled → ∃ wire, t.sent = s.sent ++ wire ∧
    Reads Receiver.step (.top (s.optStates .weBin)) wire data (.top (t.optStates .weBin))

theorem Tells.trans {data data' : List UInt8} (h : Tells s t data) (h' : Tells t u data') :
    Tells s u (data ++ data') where
  settled hs := h'.settled (h.settled hs)
  sent hs := by
    obtain ⟨wire, h1, h2⟩ := h.sent hs
    obtain ⟨wire', h3, h4⟩ := h'.sent (h.settled hs)
    exact ⟨wire ++ wire', by rw [h3, h1, List.append_assoc], h2.append h4⟩

/-- Nothing is said if nothing is sent and BINARY stays as it is. -/
theorem tells_nothing (hwe : t.optStates .weBin = s.optStates .weBin) {wire : List UInt8}
    (hsent : t.sent = s.sent ++ wire) (hwire : Neutral wire) : Tells s t [] where
  settled hs := by rwa [hwe]
  sent _ := ⟨wire, hsent, by rw [hwe]; exact hwire _⟩

theorem Quiet.tells (h : Quiet s t) : Tells s t [] := by
  obtain ⟨wire, h1, h2⟩ := h.sent
  exact tells_nothing h.weBin h1 h2

theorem TheyChange.tells {they : OptState} (h : TheyChange s t they) : Tells s t [] := by
  obtain ⟨wire, h1, h2⟩ := h.sent
  exact tells_nothing h.weBin h1 h2

/-- A state that differs in what is not sent -/
theorem Tells.congr {u : TelnetTag} {data : List UInt8} (h : Tells s t data)
    (hopts : u.optStates = t.optStates) (hsent : u.sent = t.sent) : Tells s u data where
  settled := hopts ▸ h.settled
  sent := by
    rw [hopts, hsent]
    exact h.sent

theorem tells_same (hopts : t.optStates = s.optStates) (hsent : t.sent = s.sent) : Tells s t [] :=
  (Quiet.refl s).tells.congr hopts hsent

/-- BINARY in the direction that is sent changes, which is read at the same place. -/
structure WeChange (s t : TelnetTag) : Prop where
  receiver : t.receiver = s.receiver
  received : t.received = s.received
  tells : Tells s t []

theorem Quiet.weChange (h : Quiet s t) : WeChange s t := ⟨h.receiver, h.received, h.tells⟩

theorem receiver_setWeBin (we : OptState) : (s.setOpt .weBin we).receiver = s.receiver := by
  unfold TelnetTag.receiver
  rw [setOpt_of_ne (by decide)]
  rfl

/-- A change that is not read, of an option that is not settled -/
theorem weChange_unsettled (hs : ¬ (s.optStates .weBin).Settled) (hreceiver : t.receiver = s.receiver)
    (hreceived : t.received = s.received) : WeChange s t :=
  ⟨hreceiver, hreceived, ⟨fun hs' => absurd hs' hs, fun hs' => absurd hs' hs⟩⟩

/-- A change of BINARY is sent and then read. -/
theorem weChange_sent {we : OptState} {cmd : UInt8} (hwe : we.Settled)
    (hread : Reads Receiver.step (.top (s.optStates .weBin)) [IAC, cmd, TELOPT_BINARY] [] (.top we))
    (h : Quiet ((s.setOpt .weBin we).sendOpt cmd TELOPT_BINARY) t) : WeChange s t := by
  have hset : t.optStates .weBin = we := by simp [h.weBin]
  refine ⟨h.receiver.trans (receiver_setWeBin we), h.received, fun _ => hset ▸ hwe, fun _ => ?_⟩
  obtain ⟨wire, h1, h2⟩ := h.sent
  refine ⟨[IAC, cmd, TELOPT_BINARY] ++ wire, ?_, ?_⟩
  · rw [h1, ← List.append_assoc]
    rfl
  · rw [hset]
    exact hread.append (h2 we)

theorem optAcked_we : WeChange s (s.optAcked oWeBin) := by
  unfold optAcked
  rw [show oWeBin.index = .weBin from rfl]
  cases hst : s.optStates .weBin with
  | requested =>
    have hquiet := activateOption_quiet (s := s.setOpt .weBin .active) oWeBin
    exact weChange_unsettled (by simp [hst, OptState.Settled])
      (hquiet.receiver.trans (receiver_setWeBin _)) hquiet.received
  | active => exact (Quiet.refl s).weChange
  | inactive => exact weChange_sent (.inl rfl) (by rw [hst]; rfl) (activateOption_quiet oWeBin)
  | reallyInactive => exact weChange_unsettled (by simp [hst, OptState.Settled]) rfl rfl

theorem optNaked_we : WeChange s (s.optNaked oWeBin) := by
  unfold optNaked
  rw [show oWeBin.index = .weBin from rfl]
  cases hst : s.optStates .weBin with
  | requested =>
    have hquiet := refusedOption_quiet (s := s.setOpt .weBin .inactive) oWeBin
    exact weChange_unsettled (by simp [hst, OptState.Settled])
      (hquiet.receiver.trans (receiver_setWeBin _)) hquiet.received
  | active =>
    exact weChange_sent (.inr rfl) (by rw [hst]; rfl) (optionSideEffects_quiet oWeBin false)
  | inactive => exact (Quiet.refl s).weChange
  | reallyInactive => exact (Quiet.refl s).weChange

/-- The option that a command is about -/
theorem procRecOpt_cases {cmd option : UInt8} (hcmd : cmd = WILL ∨ cmd = WONT ∨ cmd = DO ∨ cmd = DONT) :
    (option = TELOPT_BINARY ∧ (cmd = WILL ∧ s.procRecOpt cmd option = s.optAcked oTheyBin ∨
        cmd = WONT ∧ s.procRecOpt cmd option = s.optNaked oTheyBin ∨
        cmd = DO ∧ s.procRecOpt cmd option = s.optAcked oWeBin ∨
        cmd = DONT ∧ s.procRecOpt cmd option = s.optNaked oWeBin)) ∨
      option ≠ TELOPT_BINARY ∧ Quiet s (s.procRecOpt cmd option) := by
  by_cases hbin : option = TELOPT_BINARY
  · subst hbin
    rcases hcmd with rfl | rfl | rfl | rfl
    · exact .inl ⟨rfl, .inl ⟨rfl, rfl⟩⟩
    · exact .inl ⟨rfl, .inr (.inl ⟨rfl, rfl⟩)⟩
    · exact .inl ⟨rfl, .inr (.inr (.inl ⟨rfl, rfl⟩))⟩
    · exact .inl ⟨rfl, .inr (.inr (.inr ⟨rfl, rfl⟩))⟩
  · refine .inr ⟨hbin, ?_⟩
    unfold procRecOpt
    cases hfind : opts.find? fun o => o.option == option && (o.ack == cmd || o.nak == cmd) with
    | some o =>
      have hopt : o.option = option := by
        have h := List.find?_some hfind
        simp only [Bool.and_eq_true, beq_iff_eq] at h
        exact h.1
      have hother : OtherOpt o := by
        rcases opts_cases o (List.mem_of_find?_eq_some hfind) with h | rfl | rfl
        · exact h
        · exact absurd hopt.symm hbin
        · exact absurd hopt.symm hbin
      by_cases hack : o.ack = cmd
      · simp only [if_pos hack]
        exact optAcked_quiet hother
      · simp only [if_neg hack]
        exact optNaked_quiet hother
    | none =>
      by_cases hpos : cmd = WILL ∨ cmd = DO
      · simp only [if_pos hpos]
        refine quiet_sendOpt ⟨?_, fun _ => hbin⟩
        by_cases hwill : cmd = WILL
        · simp [hwill]
        · simp [hwill]
      · simp only [if_neg hpos]
        exact .refl s

end PuttyNd.Telnet
