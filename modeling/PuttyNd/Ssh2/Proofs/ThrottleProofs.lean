import PuttyNd.Ssh2.Proofs.CloseProofs

/-!
# Proofs: what throttles the connection
-/

namespace PuttyNd.Ssh2

open Psftp CInt Outcome Runs

variable {s s' s'' : Conn} {c : Ssh2Channel} {e : Event} {F : Prop}

/-- The channel is there, and its `Channel` may buffer data. -/
def Ssh2Channel.Active (c : Ssh2Channel) : Prop := ∃ chan, c.chan = some chan ∧ chan.vt ≠ .zombie

theorem Ssh2Channel.Active.retains {c' : Ssh2Channel} (h : c.Active) (hchan : Retains c.chan c'.chan) :
    c'.Active := by
  obtain ⟨chan, hc, hvt⟩ := h
  obtain ⟨chan', hc', hvt', -⟩ := hchan.to_some hc
  exact ⟨chan', hc', hvt' ▸ hvt⟩

/-- The channel throttles the connection as before; it is freed, or loses its `Channel`, only if `F` holds. -/
structure Steady (F : Prop) (s s' : Conn) : Prop where
  cfg : s'.cfg = s.cfg
  count : s'.connThrottleCount = s.connThrottleCount
  frozen : s'.logicallyFrozen = s.logicallyFrozen
  channel : ∀ c', s'.channel = some c' → ∃ c, s.channel = some c ∧
    c'.throttlingConn = c.throttlingConn ∧ c.locmaxwin ≤ c'.locmaxwin ∧ (c.Active → c'.Active ∨ F)
  freed : s'.channel = none → s.channel = none ∨ F

namespace Steady

theorem refl : Steady F s s :=
  ⟨rfl, rfl, rfl, fun c hc => ⟨c, hc, rfl, Int.le_refl _, Or.inl⟩, Or.inl⟩

theorem trans (h : Steady F s s') (h' : Steady F s' s'') : Steady F s s'' := by
  refine ⟨h'.cfg.trans h.cfg, h'.count.trans h.count, h'.frozen.trans h.frozen, ?_, ?_⟩
  · intro c'' hc''
    obtain ⟨c', hc', hflag', hwin', hactive'⟩ := h'.channel c'' hc''
    obtain ⟨c, hc, hflag, hwin, hactive⟩ := h.channel c' hc'
    refine ⟨c, hc, hflag'.trans hflag, Int.le_trans hwin hwin', ?_⟩
    intro hold
    rcases hactive hold with hactive | hF
    · exact hactive' hactive
    · exact Or.inr hF
  · intro hnone
    rcases h'.freed hnone with hnone' | hF
    · exact h.freed hnone'
    · exact Or.inr hF

theorem mono {F' : Prop} (h : Steady F s s') (hF : F → F') : Steady F' s s' := by
  refine ⟨h.cfg, h.count, h.frozen, ?_, fun hnone => (h.freed hnone).imp_right hF⟩
  intro c' hc'
  obtain ⟨c, hc, hflag, hwin, hactive⟩ := h.channel c' hc'
  exact ⟨c, hc, hflag, hwin, fun hold => (hactive hold).imp_right hF⟩

theorem outgoing (hout : Outgoing s s')
    (hF : ∀ c, s.channel = some c → c.rcvdClose = true → c.chanreqs = [] → F) : Steady F s s' := by
  refine ⟨by rw [hout.rest], by rw [hout.rest], by rw [hout.rest], ?_, ?_⟩
  · intro c' hc'
    obtain ⟨c, hc, heq, hchan⟩ := hout.channel c' hc'
    refine ⟨c, hc, by rw [heq]; rfl, by rw [heq]; exact Int.le_refl _, ?_⟩
    exact fun hold => Or.inl (hold.retains hchan)
  · intro hnone
    rcases hout.freed hnone with hnone' | ⟨c, hc, hrcvd, hreqs⟩
    · exact Or.inl hnone'
    · exact Or.inr (hF c hc hrcvd hreqs)

theorem waiting (hout : Outgoing s s') (h : Waiting s) : Steady F s s' :=
  outgoing hout fun c hc hrcvd hreqs => absurd hreqs (h c hc hrcvd).1

theorem windowing (hwin : Windowing s s') : Steady F s s' := by
  refine ⟨by rw [hwin.rest], by rw [hwin.rest], by rw [hwin.rest], ?_, ?_⟩
  · intro c'' hc''
    rcases hwin.changes with rfl | ⟨c, c', t, hc, hc', heq, -⟩
    · exact ⟨c'', hc'', rfl, Int.le_refl _, Or.inl⟩
    · cases hc'.symm.trans hc''
      rw [heq]
      exact ⟨c, hc, rfl, Int.le_refl _, Or.inl⟩
  · intro hnone
    rcases hwin.changes with rfl | ⟨c, c', t, hc, hc', -⟩
    · exact Or.inl hnone
    · rw [hc'] at hnone
      cases hnone

/-- A change of the channel -/
theorem set (hc : s.channel = some c) {c' : Ssh2Channel}
    (hflag : c'.throttlingConn = c.throttlingConn)
    (hwin : c.locmaxwin ≤ c'.locmaxwin)
    (hactive : c.Active → c'.Active ∨ F) : Steady F s (s.set c') := by
  refine ⟨rfl, rfl, rfl, ?_, fun hnone => nomatch hnone⟩
  intro c'' hc''
  cases hc''
  exact ⟨c, hc, hflag, hwin, hactive⟩

theorem note {x : Trace} : Steady F s (s.note x) :=
  ⟨rfl, rfl, rfl, fun c hc => ⟨c, hc, rfl, Int.le_refl _, Or.inl⟩, Or.inl⟩

theorem of_note {x : Trace} (h : Steady F (s.note x) s') : Steady F s s' := note.trans h

theorem of_set {c' : Ssh2Channel} (h : Steady F (s.set c') s') (hc : s.channel = some c)
    (hflag : c'.throttlingConn = c.throttlingConn)
    (hwin : c.locmaxwin ≤ c'.locmaxwin)
    (hactive : c.Active → c'.Active ∨ F) : Steady F s s' :=
  (set hc hflag hwin hactive).trans h

end Steady

/-! ## Messages -/

/-- A CLOSE for which no reply has to be waited for, or the last reply that is waited for -/
def LastReply (c : Ssh2Channel) : Prop := c.rcvdClose = true ∧ c.chanreqs.tail = []

/-- CLOSE is received, and the server sends no late replies. -/
def NoReply (s : Conn) (c : Ssh2Channel) : Prop :=
  ¬ s.cfg.bugSendsLateRequestReply = true ∨ c.chanreqs = []

/-- When does a step free a channel, or does a channel lose its `Channel` -/
def Loses (s : Conn) (e : Event) : Prop :=
  ∃ c, s.channel = some c ∧
    match e with
    | .server .openFailure => s.calling = none
    | .server .close => s.calling = none ∧ c.rcvdEof = true ∧ NoReply s c
    | .server .success => s.calling = none ∧ LastReply c
    | .server .failure => s.calling = none ∧ LastReply c
    | .returns _ => s.calling = some .close ∧ NoReply s c ∨ s.calling = some .response ∧ LastReply c
    | .initiateClose => s.calling = none
    | .x11SharingHandover _ => s.calling = some .data ∧
      ∃ chan, c.chan = some chan ∧ chan.initialFixedWindowSize ≠ 0
    | .deleteSharingChannel => s.calling = none ∧ c.sharectx.isSome = true
    | _ => False

theorem responseRest_steady :
    Ensures (responseRest s) (Steady (∃ c, s.channel = some c ∧ LastReply c) s) := by
  unfold responseRest
  refine Conn.ensures_get.bind ?_
  intro c hc
  refine checkClose_outgoing.mono ?_
  intro s' hs'
  refine (Steady.set hc (by exact rfl) (by exact Int.le_refl _) (by exact Or.inl)).trans (Steady.outgoing hs' ?_)
  intro c' hc' hrcvd hreqs
  cases hc'
  exact ⟨c, hc, hrcvd, hreqs⟩

theorem receiveCloseRest_steady :
    Ensures (receiveCloseRest s) (Steady (∃ c, s.channel = some c ∧ NoReply s c) s) := by
  unfold receiveCloseRest
  refine Conn.ensures_get.bind ?_
  intro c hc
  have habandon : Ensures (if s.cfg.bugSendsLateRequestReply = true then .ok s
      else abandonRequests c.chanreqs s) fun s1 =>
        Steady (∃ c, s.channel = some c ∧ NoReply s c) s s1 ∧ ∀ c1, s1.channel = some c1 →
          c1.chanreqs = [] → NoReply s c := by
    split
    · refine ensures_ok.mpr ⟨.refl, ?_⟩
      intro c1 hc1 hreqs
      cases hc.symm.trans hc1
      exact Or.inr hreqs
    · next hbug =>
      refine (abandonRequests_eq hc rfl).mono ?_
      rintro s1 ⟨-, remlocwin, state, rfl⟩
      refine ⟨⟨rfl, rfl, rfl, ?_, fun hnone => nomatch hnone⟩, fun _ _ _ => Or.inl hbug⟩
      intro c' hc'
      cases hc'
      exact ⟨c, hc, rfl, Int.le_refl _, Or.inl⟩
  refine habandon.bind ?_
  rintro s1 ⟨h1, hreqs1⟩
  refine closeOutgoing_outgoing.bind ?_
  intro s2 hout
  have h2 := h1.trans (Steady.outgoing hout fun c1 hc1 _ hreqs => ⟨c, hc, hreqs1 c1 hc1 hreqs⟩)
  refine Conn.ensures_get.bind ?_
  intro c2 hc2
  split
  · exact ensures_ok.mpr h2
  · refine checkClose_outgoing.mono ?_
    intro s3 hout'
    refine h2.trans ((Steady.set hc2 (by exact rfl) (by exact Int.le_refl _) (by exact Or.inl)).trans (Steady.outgoing hout' ?_))
    intro c3 hc3 _ hreqs
    cases hc3
    obtain ⟨c1, hc1, heq, -⟩ := hout.channel c2 hc2
    refine ⟨c, hc, hreqs1 c1 hc1 ?_⟩
    rw [heq] at hreqs
    exact hreqs

theorem callMethod_steady {rest : Rest} : Ensures (callMethod s rest) (Steady F s) := by
  refine callMethod_eq.mono ?_
  rintro s' ⟨-, rfl⟩
  exact ⟨rfl, rfl, rfl, fun c hc => ⟨c, hc, rfl, Int.le_refl _, Or.inl⟩, Or.inl⟩

theorem receiveResponse_steady {success : Bool} :
    Ensures (receiveResponse s success) (Steady (∃ c, s.channel = some c ∧ LastReply c) s) := by
  unfold receiveResponse
  refine Conn.ensures_get.bind ?_
  intro c hc
  split
  · exact ensures_ok.mpr ⟨rfl, rfl, rfl, fun c hc => ⟨c, hc, rfl, Int.le_refl _, Or.inl⟩, Or.inl⟩
  · next handler rest hreqs =>
    unfold handleResponse
    cases handler with
    | winadj size =>
      refine responseRest_steady.mono ?_
      intro s' hs'
      refine (Steady.of_set (hs'.mono ?_) hc rfl (Int.le_refl _) Or.inl).of_note
      rintro ⟨c', hc', hlast⟩
      cases hc'
      exact ⟨c, hc, hlast⟩
    | response =>
      refine Ssh2Channel.ensures_getChan.bind ?_
      intro chan _
      split
      · exact callMethod_steady.mono fun s' hs' => Steady.note.trans hs'
      · exact ensures_error.mpr trivial

theorem receive_steady {m : ServerMsg} (hcalling : s.calling = none) (hwaiting : Waiting s)
    (hc : s.channel = some c) :
    Ensures (receive (s.note (.got m)) m) (Steady (Loses s (.server m)) s) := by
  cases m with
  | openConfirmation remoteid remwindow remmaxpkt =>
    show Ensures (openConfirmation _ remoteid remwindow remmaxpkt) _
    unfold openConfirmation
    rw [Conn.get_note, Conn.get_eq hc, ok_bind]
    exact Ensures.mono callMethod_steady fun s' hs' => (Steady.of_set hs' hc rfl (Int.le_refl _) Or.inl).of_note.of_note
  | openFailure =>
    show Ensures (openFailure _) _
    unfold openFailure
    refine Conn.ensures_get.bind ?_
    intro c' _
    refine Ssh2Channel.ensures_getChan.bind ?_
    intro chan _
    exact ensures_ok.mpr ⟨rfl, rfl, rfl, fun _ hc => (nomatch hc), fun _ => Or.inr ⟨c, hc, hcalling⟩⟩
  | data extType data =>
    show Ensures (receiveData _ data) _
    unfold receiveData
    rw [Conn.get_note, Conn.get_eq hc, ok_bind]
    exact Ensures.mono callMethod_steady fun s' hs' => (Steady.of_set hs' hc rfl (Int.le_refl _) Or.inl).of_note
  | windowAdjust size =>
    show Ensures (receiveWindowAdjust _ size) _
    unfold receiveWindowAdjust
    rw [Conn.get_note, Conn.get_eq hc, ok_bind]
    split
    · exact ensures_ok.mpr .note
    · refine trySendAndUnthrottle_outgoing.mono ?_
      intro s' hs'
      refine (Steady.of_set (Steady.waiting hs' ?_) hc rfl (Int.le_refl _) Or.inl).of_note
      intro c' hc' hrcvd
      cases hc'
      exact hwaiting c hc hrcvd
  | request wantReply success =>
    show Ensures (receiveRequest _ wantReply success) _
    unfold receiveRequest
    refine Conn.ensures_get.bind ?_
    intro c' _
    refine Ssh2Channel.ensures_getChan.bind ?_
    intro chan _
    split
    · exact ensures_ok.mpr (Steady.trans .note .note)
    · exact ensures_ok.mpr .note
  | success =>
    refine Ensures.mono receiveResponse_steady ?_
    intro s' hs'
    refine Steady.trans .note (hs'.mono ?_)
    rintro ⟨c', hc', hlast⟩
    exact ⟨c', hc', hcalling, hlast⟩
  | failure =>
    refine Ensures.mono receiveResponse_steady ?_
    intro s' hs'
    refine Steady.trans .note (hs'.mono ?_)
    rintro ⟨c', hc', hlast⟩
    exact ⟨c', hc', hcalling, hlast⟩
  | eof =>
    show Ensures (receiveEof _) _
    unfold receiveEof
    rw [Conn.get_note, Conn.get_eq hc, ok_bind]
    split
    · exact ensures_ok.mpr .note
    · exact Ensures.mono callMethod_steady fun s' hs' => (Steady.of_set hs' hc rfl (Int.le_refl _) Or.inl).of_note
  | close =>
    show Ensures (receiveClose _) _
    unfold receiveClose
    rw [Conn.get_note, Conn.get_eq hc, ok_bind]
    split
    · next heof =>
      refine Ensures.mono receiveCloseRest_steady ?_
      intro s' hs'
      refine Steady.trans .note (hs'.mono ?_)
      rintro ⟨c', hc', hnoReply⟩
      cases hc.symm.trans hc'
      exact ⟨c, hc, hcalling, heof, hnoReply⟩
    · exact Ensures.mono callMethod_steady fun s' hs' => (Steady.of_set hs' hc rfl (Int.le_refl _) Or.inl).of_note

/-! ## The count -/

/-- A step that is steady, but for a channel that begins or ends to throttle the connection -/
def Throttles (F : Prop) (s s' : Conn) : Prop :=
  Steady F s s' ∨ ∃ s1 c1, Steady F s s1 ∧ s1.channel = some c1 ∧
    (c1.throttlingConn = false ∧ c1.Active ∧
        sshThrottleConn (s1.set { c1 with throttlingConn := true }) 1 = .ok s' ∨
      c1.throttlingConn = true ∧
        sshThrottleConn (s1.set { c1 with throttlingConn := false }) (-1) = .ok s')

theorem Throttles.mono {F' : Prop} (h : Throttles F s s') (hF : F → F') : Throttles F' s s' := by
  rcases h with h | ⟨s1, c1, h1, hc1, hcount⟩
  · exact Or.inl (h.mono hF)
  · exact Or.inr ⟨s1, c1, h1.mono hF, hc1, hcount⟩

theorem unthrottle_throttles {bufsize : ℕ} :
    Ensures (ssh2channelUnthrottle s bufsize) (Throttles F s) := by
  unfold ssh2channelUnthrottle
  refine Conn.ensures_get.bind ?_
  intro c hc
  dsimp only
  generalize (if s.cfg.sshIsSimple = true then 0 else c.locmaxwin) = buflimit
  have hset : Ensures (if (bufsize : ℤ) < buflimit then ssh2SetWindow s (buflimit - bufsize) else .ok s)
      (Steady F s) := by
    split
    · exact setWindow_windowing.mono fun s' hs' => .windowing hs'
    · exact ensures_ok.mpr .refl
  refine hset.bind ?_
  intro s1 h1
  refine Conn.ensures_get.bind ?_
  intro c1 hc1
  split
  · next hthrottling => exact fun s' hs' => Or.inr ⟨s1, c1, h1, hc1, Or.inr ⟨hthrottling.1, hs'⟩⟩
  · exact ensures_ok.mpr (Or.inl h1)

theorem growWindow_locmaxwin : c.locmaxwin ≤ (growWindow c).locmaxwin := by
  unfold growWindow
  split
  · show c.locmaxwin ≤ c.locmaxwin + ourV2Winsize
    have hsize : ourV2Winsize = 16384 := rfl
    omega
  · exact Int.le_refl _

theorem growWindow_throttlingConn : (growWindow c).throttlingConn = c.throttlingConn := by
  unfold growWindow
  split
  · rfl
  · rfl

theorem growWindow_chan : (growWindow c).chan = c.chan := by
  unfold growWindow
  split
  · rfl
  · rfl

/-- Only a `Channel` that buffers something throttles the connection. -/
theorem receiveDataRest_throttles {bufsize : ℕ} (hmaxwin : ∀ c, s.channel = some c → 0 ≤ c.locmaxwin)
    (hactive : ∀ c, s.channel = some c → bufsize ≠ 0 → c.Active) :
    Ensures (receiveDataRest s bufsize) (Throttles False s) := by
  unfold receiveDataRest
  refine Conn.ensures_get.bind ?_
  intro c hc
  split
  · exact ensures_ok.mpr (Or.inl .refl)
  · have hgrown : Steady False s (s.set (growWindow c)) := by
      refine .set hc growWindow_throttlingConn growWindow_locmaxwin ?_
      rintro ⟨chan, hchan, hvt⟩
      exact Or.inl ⟨chan, growWindow_chan.trans hchan, hvt⟩
    dsimp only
    have hset : Ensures (if toInt32 bufsize < (growWindow c).locmaxwin then
        ssh2SetWindow (s.set (growWindow c)) (toInt32 ((growWindow c).locmaxwin - toInt32 bufsize))
        else .ok (s.set (growWindow c))) (Steady False s) := by
      split
      · exact setWindow_windowing.mono fun s' hs' => hgrown.trans (.windowing hs')
      · exact ensures_ok.mpr hgrown
    refine hset.bind ?_
    intro s1 h1
    unfold throttleIfFull
    refine Conn.ensures_get.bind ?_
    intro c1 hc1
    split
    · next hfull =>
      obtain ⟨c', hc', -, hwin, hactive'⟩ := h1.channel c1 hc1
      cases hc.symm.trans hc'
      have hpos : 0 < toInt32 bufsize := by
        have hnonneg := hmaxwin c hc
        rcases hfull.1 with hlt | ⟨-, hpos⟩
        · omega
        · exact hpos
      have hne : bufsize ≠ 0 := by
        rintro rfl
        exact absurd hpos (by decide)
      have hactive1 : c1.Active := (hactive' (hactive c hc hne)).resolve_right id
      exact fun s' hs' => Or.inr ⟨s1, c1, h1, hc1, Or.inl ⟨Bool.not_eq_true _ ▸ hfull.2, hactive1, hs'⟩⟩
    · exact ensures_ok.mpr (Or.inl h1)

/-- What always holds of the count -/
structure CountInv (s : Conn) : Prop where
  frozen : s.logicallyFrozen = true ↔ s.connThrottleCount ≠ 0
  maxwin : ∀ c, s.channel = some c → 0 ≤ c.locmaxwin

theorem chan_active : s.chan.isSome = true ↔ ∃ c, s.channel = some c ∧ c.Active := by
  rw [Option.isSome_iff_exists]
  constructor
  · rintro ⟨chan, hchan⟩
    obtain ⟨c, hc, hchan', hvt⟩ := Conn.chan_eq_some.mp hchan
    exact ⟨c, hc, chan, hchan', hvt⟩
  · rintro ⟨c, hc, chan, hchan, hvt⟩
    exact ⟨chan, Conn.chan_eq_some.mpr ⟨c, hc, hchan, hvt⟩⟩

theorem Throttles.of_steady (h : Steady F s s') (h' : Throttles F s' s'') : Throttles F s s'' := by
  rcases h' with h' | ⟨s1, c1, h1, hc1, hcount⟩
  · exact Or.inl (h.trans h')
  · exact Or.inr ⟨s1, c1, h.trans h1, hc1, hcount⟩

theorem methodReturns_throttles {rest : Rest} {bufsize n : ℕ} (hcalling : s.calling = some rest)
    (hwaiting : Waiting s) (hmaxwin : ∀ c, s.channel = some c → 0 ≤ c.locmaxwin)
    (hactive : ∀ c, s.channel = some c → bufsize ≠ 0 → c.Active) :
    Ensures (methodReturns s rest bufsize) (Throttles (Loses s (.returns n)) s) := by
  have hreturned : ∀ {F : Prop}, Steady F s { s with calling := none } :=
    ⟨rfl, rfl, rfl, fun c hc => ⟨c, hc, rfl, Int.le_refl _, Or.inl⟩, Or.inl⟩
  have hwaiting' : Waiting { s with calling := none } := hwaiting
  unfold methodReturns
  cases rest with
  | openConfirmation =>
    refine Ensures.mono openConfirmationRest_outgoing ?_
    intro s' hs'
    exact Or.inl (hreturned.trans (.waiting hs' hwaiting'))
  | data =>
    refine Ensures.mono (receiveDataRest_throttles hmaxwin hactive) ?_
    intro s' hs'
    exact .of_steady hreturned (hs'.mono False.elim)
  | response =>
    refine Ensures.mono responseRest_steady ?_
    intro s' hs'
    refine Or.inl (hreturned.trans (hs'.mono ?_))
    rintro ⟨c, hc, hlast⟩
    exact ⟨c, hc, Or.inr ⟨hcalling, hlast⟩⟩
  | eof =>
    refine Ensures.mono checkClose_outgoing ?_
    intro s' hs'
    exact Or.inl (hreturned.trans (.waiting hs' hwaiting'))
  | close =>
    refine Ensures.mono receiveCloseRest_steady ?_
    intro s' hs'
    refine Or.inl (hreturned.trans (hs'.mono ?_))
    rintro ⟨c, hc, hnoReply⟩
    exact ⟨c, hc, Or.inl ⟨hcalling, hnoReply⟩⟩

theorem callStep_steady {k : Call} (hwaiting : Waiting s) : Ensures (callStep s k) (Steady F s) := by
  cases k with
  | write isStderr data => exact write_outgoing.mono fun s' hs' => .waiting hs' hwaiting
  | writeEof => exact writeEof_outgoing.mono fun s' hs' => .waiting hs' hwaiting
  | chanreq type wantReply =>
    refine chanreqInit_eq.mono ?_
    rintro s' ⟨c, hc, -, -, rfl⟩
    cases wantReply with
    | false => exact .note
    | true =>
      refine ⟨rfl, rfl, rfl, ?_, fun hnone => nomatch hnone⟩
      intro c' hc'
      cases hc'
      exact ⟨c, hc, rfl, Int.le_refl _, Or.inl⟩

/-- What a step does to the count of the channels that throttle the connection -/
theorem step_throttles (h : CloseSound s) (hinv : CountInv s) :
    Ensures (step s e) (Throttles (Loses s e) s) := by
  have hwaiting := h.settled.waiting
  apply step_rule (R := fun r => Ensures r (Throttles (Loses s e) s))
  case hsame => exact ensures_ok.mpr (Or.inl .refl)
  case haborted =>
    exact ensures_ok.mpr (Or.inl ⟨rfl, rfl, rfl, fun c hc => ⟨c, hc, rfl, Int.le_refl _, Or.inl⟩, Or.inl⟩)
  case hserver =>
    rintro m c rfl hcalling hc _ _
    exact (receive_steady hcalling hwaiting hc).mono fun s' hs' => Or.inl hs'
  case hreturns =>
    rintro bufsize rest rfl hcalling
    refine methodReturns_throttles hcalling hwaiting hinv.maxwin ?_
    intro c hc hne
    split at hne
    · next hchan =>
      obtain ⟨c', hc', hactive⟩ := chan_active.mp hchan
      cases hc.symm.trans hc'
      exact hactive
    · exact absurd rfl hne
  case hcall =>
    intro k _
    exact (callStep_steady hwaiting).mono fun s' hs' => Or.inl hs'
  case hclose =>
    rintro chan rfl hchan hcalling
    refine initiateClose_outgoing.mono ?_
    rintro s' ⟨c, chan', hc, -, hout⟩
    refine Or.inl ((Steady.waiting hout ?_).of_set hc rfl (Int.le_refl _) ?_)
    · intro c' hc' hrcvd
      cases hc'
      exact hwaiting c hc hrcvd
    · intro _
      exact Or.inr ⟨c, hc, hcalling⟩
  case hunthrottle =>
    intro bufsize c _ _ _
    exact unthrottle_throttles
  case hoverride =>
    rintro c chan rfl hc hchan hvt _ _
    unfold ssh2channelWindowOverrideRemoved
    refine Conn.ensures_get.bind ?_
    intro c' hc'
    refine Ssh2Channel.ensures_getChan.bind ?_
    intro chan' _
    split
    · exact ensures_error.mpr trivial
    · refine setWindow_windowing.mono ?_
      intro s' hs'
      exact Or.inl ((Steady.windowing hs').of_set hc rfl (Int.le_refl _) fun _ => Or.inl ⟨_, rfl, hvt⟩)
  case hhandover =>
    rintro shareCs c chan rfl hc hchan _ hfixed hcalling
    unfold ssh2channelX11SharingHandover
    rw [Conn.get_eq hc, ok_bind]
    exact ensures_ok.mpr (Or.inl (.set hc rfl (Int.le_refl _) fun _ =>
      Or.inr ⟨c, hc, hcalling, chan, hchan, hfixed⟩))
  case hdelete =>
    rintro c rfl hc hshare hcalling
    refine destroy_eq.mono ?_
    rintro s' ⟨rfl, -⟩
    exact Or.inl ⟨rfl, rfl, rfl, fun _ hc => (nomatch hc), fun _ => Or.inr ⟨c, hc, hcalling, hshare⟩⟩
  case hthrottle =>
    intro throttled _
    have hset : ∀ {F : Prop}, Steady F s { s with allChannelsThrottled := throttled } :=
      ⟨rfl, rfl, rfl, fun c hc => ⟨c, hc, rfl, Int.le_refl _, Or.inl⟩, Or.inl⟩
    refine ⟨ensures_ok.mpr (Or.inl hset), ?_⟩
    intro c _ _
    refine checkThrottle_outgoing.mono ?_
    intro s' hs'
    exact Or.inl (hset.trans (.waiting hs' hwaiting))
  case hdangling =>
    intro _
    exact ensures_error.mpr trivial

/-! ## What a step does to the count -/

/-- What a channel has added to the count -/
def held (s : Conn) : ℤ :=
  match s.channel with
  | none => 0
  | some c => if c.throttlingConn then 1 else 0

theorem held_eq (hc : s.channel = some c) : held s = if c.throttlingConn then 1 else 0 := by
  unfold held
  rw [hc]

theorem held_none (h : s.channel = none) : held s = 0 := by
  unfold held
  rw [h]

theorem Steady.held (h : Steady F s s') :
    held s' = held s ∨ held s' = 0 ∧ ((∃ c, s.channel = some c ∧ c.throttlingConn = true) → F) := by
  cases hchannel : s'.channel with
  | some c' =>
    obtain ⟨c, hc, hflag, -⟩ := h.channel c' hchannel
    rw [held_eq hc, held_eq hchannel, hflag]
    exact Or.inl rfl
  | none =>
    rw [held_none hchannel]
    rcases h.freed hchannel with hnone | hF
    · exact Or.inl (held_none hnone).symm
    · exact Or.inr ⟨rfl, fun _ => hF⟩

/-- What `ssh_throttle_conn` does -/
theorem throttleConn_frozen {adjust : ℤ} (h : s.logicallyFrozen = true ↔ s.connThrottleCount ≠ 0) :
    Ensures (sshThrottleConn s adjust) fun s' =>
      s'.connThrottleCount = s.connThrottleCount + adjust ∧ s'.channel = s.channel ∧ s'.cfg = s.cfg ∧
        (s'.logicallyFrozen = true ↔ s'.connThrottleCount ≠ 0) := by
  unfold sshThrottleConn
  dsimp only
  split
  · exact ensures_error.mpr trivial
  · split
    · next hfreeze => exact ensures_ok.mpr ⟨rfl, rfl, rfl, fun _ => hfreeze.1, fun _ => rfl⟩
    · next hfreeze =>
      split
      · next hthaw =>
        refine ensures_ok.mpr ⟨rfl, rfl, rfl, nofun, fun hne => absurd hthaw.1 hne⟩
      · next hthaw =>
        refine ensures_ok.mpr ⟨rfl, rfl, rfl, ?_⟩
        show s.logicallyFrozen = true ↔ s.connThrottleCount + adjust ≠ 0
        rw [h]
        constructor
        · intro hne hzero
          exact hthaw ⟨hzero, hne⟩
        · intro hne hzero
          exact hfreeze ⟨hne, hzero⟩

theorem Throttles.inv (h : Throttles F s s') (hinv : CountInv s) : CountInv s' := by
  have hsteady : ∀ {s1 : Conn}, Steady F s s1 → CountInv s1 := by
    intro s1 h1
    refine ⟨?_, ?_⟩
    · rw [h1.count, h1.frozen]
      exact hinv.frozen
    · intro c1 hc1
      obtain ⟨c, hc, -, hwin, -⟩ := h1.channel c1 hc1
      exact Int.le_trans (hinv.maxwin c hc) hwin
  rcases h with h | ⟨s1, c1, h1, hc1, hcount⟩
  · exact hsteady h
  · have hinv1 := hsteady h1
    have hset : ∀ {flag : Bool} {adjust : ℤ},
        sshThrottleConn (s1.set { c1 with throttlingConn := flag }) adjust = .ok s' → CountInv s' := by
      intro flag adjust hs'
      obtain ⟨-, hchannel, -, hfrozen⟩ := throttleConn_frozen (s := s1.set _) hinv1.frozen s' hs'
      refine ⟨hfrozen, ?_⟩
      intro c hc
      rw [hchannel] at hc
      cases hc
      exact hinv1.maxwin c1 hc1
    rcases hcount with ⟨-, -, hs'⟩ | ⟨-, hs'⟩
    · exact hset hs'
    · exact hset hs'

/-- The count changes by as much as what the channel has added to it, unless the channel is lost. -/
theorem Throttles.count (h : Throttles F s s') (hinv : CountInv s) :
    s'.connThrottleCount - held s' = s.connThrottleCount - held s ∨
      s'.connThrottleCount = s.connThrottleCount ∧ held s' = 0 ∧
        ((∃ c, s.channel = some c ∧ c.throttlingConn = true) → F) := by
  rcases h with h | ⟨s1, c1, h1, hc1, hcount⟩
  · rcases h.held with hheld | ⟨hzero, hF⟩
    · exact Or.inl (by rw [hheld, h.count])
    · exact Or.inr ⟨h.count, hzero, hF⟩
  · have hheld : held s1 = held s := by
      rw [held_eq hc1]
      obtain ⟨c, hc, hflag, -⟩ := h1.channel c1 hc1
      rw [held_eq hc, hflag]
    have hfrozen : s1.logicallyFrozen = true ↔ s1.connThrottleCount ≠ 0 := by
      rw [h1.count, h1.frozen]
      exact hinv.frozen
    refine Or.inl ?_
    rw [← hheld, ← h1.count, held_eq hc1]
    rcases hcount with ⟨hflag, -, hs'⟩ | ⟨hflag, hs'⟩
    · obtain ⟨hcount, hchannel, -⟩ := throttleConn_frozen (s := s1.set _) hfrozen s' hs'
      rw [held_eq hchannel, hcount, hflag]
      show s1.connThrottleCount + 1 - 1 = s1.connThrottleCount - 0
      omega
    · obtain ⟨hcount, hchannel, -⟩ := throttleConn_frozen (s := s1.set _) hfrozen s' hs'
      rw [held_eq hchannel, hcount, hflag]
      show s1.connThrottleCount + -1 - 0 = s1.connThrottleCount - 1
      omega

theorem Throttles.cfg (h : Throttles F s s') : s'.cfg = s.cfg := by
  have hset : ∀ {s1 : Conn} {adjust : ℤ}, sshThrottleConn s1 adjust = .ok s' → s'.cfg = s1.cfg := by
    intro s1 adjust hs'
    obtain ⟨frozen, rfl⟩ := throttleConn_eq s' hs'
    rfl
  rcases h with h | ⟨s1, c1, h1, hc1, ⟨-, -, hs'⟩ | ⟨-, hs'⟩⟩
  · exact h.cfg
  · exact (hset hs').trans h1.cfg
  · exact (hset hs').trans h1.cfg

/-- A channel that throttles the connection has a `Channel` that buffers data. -/
def HeldActive (s : Conn) : Prop :=
  ∀ c, s.channel = some c → c.throttlingConn = true → c.Active

theorem Throttles.active (h : Throttles F s s') (hinv : CountInv s) (hactive : HeldActive s)
    (hF : ∀ c, s.channel = some c → c.throttlingConn = true → ¬ F) : HeldActive s' := by
  have hsteady : ∀ {s1 : Conn}, Steady F s s1 → HeldActive s1 := by
    intro s1 h1 c1 hc1 hflag1
    obtain ⟨c, hc, hflag, -, hkept⟩ := h1.channel c1 hc1
    have hheld := hflag ▸ hflag1
    exact (hkept (hactive c hc hheld)).resolve_right (hF c hc hheld)
  rcases h with h | ⟨s1, c1, h1, hc1, hcount⟩
  · exact hsteady h
  · have hfrozen : s1.logicallyFrozen = true ↔ s1.connThrottleCount ≠ 0 := by
      rw [h1.count, h1.frozen]
      exact hinv.frozen
    intro c' hc' hflag'
    rcases hcount with ⟨-, hactive1, hs'⟩ | ⟨hflag, hs'⟩
    · obtain ⟨-, hchannel, -⟩ := throttleConn_frozen (s := s1.set _) hfrozen s' hs'
      rw [hchannel] at hc'
      cases hc'
      exact hactive1
    · obtain ⟨-, hchannel, -⟩ := throttleConn_frozen (s := s1.set _) hfrozen s' hs'
      rw [hchannel] at hc'
      cases hc'
      cases hflag'

theorem initialWindow_pos {cfg : Config} : 0 < initialWindow cfg := by
  unfold initialWindow
  split
  · decide
  · decide

end PuttyNd.Ssh2
