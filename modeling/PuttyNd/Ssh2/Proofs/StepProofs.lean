import PuttyNd.Ssh2.Proofs.FrameProofs

/-!
# Proofs: the steps of a channel
-/

namespace PuttyNd.Ssh2

open Psftp CInt Outcome

variable {s s' : Conn} {c c' : Ssh2Channel} {e : Event}

/-! ## A rule for steps -/

theorem Conn.chan_eq_some {chan : Channel} :
    s.chan = some chan ↔ ∃ c, s.channel = some c ∧ c.chan = some chan ∧ chan.vt ≠ .zombie := by
  unfold Conn.chan
  constructor
  · intro h
    split at h
    · cases h
    · next c hc =>
      split at h
      · cases h
      · next chan' hchan =>
        split at h
        · cases h
        · next hvt =>
          cases h
          exact ⟨c, hc, hchan, hvt⟩
  · rintro ⟨c, hc, hchan, hvt⟩
    simp only [hc, hchan, if_neg hvt]

/-- A step in which the `Channel` calls this -/
inductive Event.Calls (s : Conn) : Event → Call → Prop where
  | call {k : Call} {chan : Channel} : s.chan = some chan → canCall chan k → Calls s (.call k) k
  | userInput {data : List UInt8} {c : Ssh2Channel} : s.channel = some c → s.isMainchan = true →
      Calls s (.userInput data) (.write false data)
  | terminalSize {mc : Mainchan} {k : Call} {chan : Channel} : s.chan = some chan →
      s.isMainchan = true → k ∈ mainchanTerminalSize mc → Calls s (.terminalSize mc) k
  | specialCmd {mc : Mainchan} {code : SpecialCode} {k : Call} {chan : Channel} :
      s.chan = some chan → s.isMainchan = true → k ∈ (mainchanSpecialCmd mc code).2 →
      Calls s (.specialCmd mc code) k

theorem mainchanTerminalSize_cases (mc : Mainchan) :
    mainchanTerminalSize mc = [] ∨ ∃ k, mainchanTerminalSize mc = [k] := by
  unfold mainchanTerminalSize
  split
  · exact Or.inr ⟨_, rfl⟩
  · exact Or.inl rfl

theorem mainchanSpecialCmd_cases (mc : Mainchan) (code : SpecialCode) :
    (mainchanSpecialCmd mc code).2 = [] ∨ ∃ k, (mainchanSpecialCmd mc code).2 = [k] := by
  unfold mainchanSpecialCmd
  split
  · split
    · exact Or.inl rfl
    · split
      · exact Or.inr ⟨_, rfl⟩
      · exact Or.inl rfl
  · exact Or.inr ⟨_, rfl⟩
  · exact Or.inr ⟨_, rfl⟩
  · exact Or.inl rfl

/-- The mainchan that a step uses was freed. -/
def Event.Dangling (s : Conn) : Event → Prop
  | .terminalSize _ => s.channel.isSome = true ∧ s.isMainchan = true ∧ s.chan = none
  | .specialCmd _ _ => s.channel.isSome = true ∧ s.isMainchan = true ∧ s.chan = none
  | _ => False

theorem calls_rule {R : Except Fault Conn → Prop} {ks : List Call} (hks : ks = [] ∨ ∃ k, ks = [k])
    (hsame : R (.ok s)) (hcall : ∀ k ∈ ks, R (callStep s k)) : R (ks.foldlM callStep s) := by
  rcases hks with rfl | ⟨k, rfl⟩
  · exact hsame
  · have hone : [k].foldlM callStep s = callStep s k := by
      rw [List.foldlM_cons]
      cases callStep s k with
      | error f => rfl
      | ok s' => rfl
    rw [hone]
    exact hcall k List.mem_cons_self

/-- What can happen in a step, with what is known when it happens -/
theorem step_rule {R : Except Fault Conn → Prop} (hsame : R (.ok s))
    (haborted : R (.ok { s with aborted := true }))
    (hserver : ∀ m c, e = .server m → s.calling = none → s.channel = some c → c.sharectx = none →
      c.halfopen = m.expectHalfopen → R (receive (s.note (.got m)) m))
    (hreturns : ∀ bufsize rest, e = .returns bufsize → s.calling = some rest →
      R (methodReturns s rest (if s.chan.isSome then bufsize else 0)))
    (hcall : ∀ k, e.Calls s k → R (callStep s k))
    (hclose : ∀ chan, e = .initiateClose → s.chan = some chan → s.calling = none →
      R (ssh2channelInitiateClose s))
    (hunthrottle : ∀ bufsize c, e = .unthrottle bufsize ∨ e = .stdoutUnthrottle bufsize →
      s.channel = some c → s.calling = none → R (ssh2channelUnthrottle s bufsize))
    (hoverride : ∀ c chan, e = .windowOverrideRemoved → s.channel = some c → c.chan = some chan →
      chan.vt ≠ .zombie → chan.initialFixedWindowSize ≠ 0 → s.calling = some .data →
      R (ssh2channelWindowOverrideRemoved
        (s.set { c with chan := some { chan with initialFixedWindowSize := 0 } })))
    (hhandover : ∀ shareCs c chan, e = .x11SharingHandover shareCs → s.channel = some c →
      c.chan = some chan → chan.vt ≠ .zombie → chan.initialFixedWindowSize ≠ 0 →
      s.calling = some .data → R (ssh2channelX11SharingHandover s shareCs))
    (hdelete : ∀ c, e = .deleteSharingChannel → s.channel = some c → c.sharectx.isSome = true →
      s.calling = none → R (ssh2ChannelDestroy (s.note .deleted)))
    (hthrottle : ∀ throttled, e = .throttleAllChannels throttled →
      R (.ok { s with allChannelsThrottled := throttled }) ∧
      ∀ c, s.channel = some c → c.sharectx = none →
        R (ssh2ChannelCheckThrottle { s with allChannelsThrottled := throttled }))
    (hdangling : e.Dangling s → R (.error .badPointer)) : R (step s e) := by
  unfold step
  split
  · exact hsame
  · cases e with
    | server m =>
      dsimp only
      split
      · next hcalling =>
        unfold serverStep
        split
        · exact haborted
        · next c hchannel =>
          split
          · exact hsame
          · next hshare =>
            split
            · exact haborted
            · next hhalf =>
              exact hserver m c rfl hcalling hchannel (by simpa using hshare) (by simpa using hhalf)
      · exact hsame
    | returns bufsize =>
      dsimp only
      split
      · exact hsame
      · next rest hcalling => exact hreturns bufsize rest rfl hcalling
    | call k =>
      dsimp only
      split
      · exact hsame
      · next chan hchan =>
        split
        · next hcan => exact hcall k (.call hchan hcan)
        · exact hsame
    | initiateClose =>
      dsimp only
      split
      · next henabled =>
        obtain ⟨chan, hchan⟩ := Option.isSome_iff_exists.mp henabled.1
        exact hclose chan rfl hchan henabled.2
      · exact hsame
    | unthrottle bufsize =>
      dsimp only
      split
      · next henabled =>
        obtain ⟨chan, hchan⟩ := Option.isSome_iff_exists.mp henabled.1
        obtain ⟨c, hc, -, -⟩ := Conn.chan_eq_some.mp hchan
        exact hunthrottle bufsize c (Or.inl rfl) hc henabled.2
      · exact hsame
    | windowOverrideRemoved =>
      dsimp only
      split
      · next c chan hc hchan =>
        obtain ⟨c', hc', hchan', hvt⟩ := Conn.chan_eq_some.mp hchan
        cases hc.symm.trans hc'
        split
        · next henabled => exact hoverride c chan rfl hc hchan' hvt henabled.1 henabled.2
        · exact hsame
      · exact hsame
    | x11SharingHandover shareCs =>
      dsimp only
      split
      · exact hsame
      · next chan hchan =>
        obtain ⟨c, hc, hchan', hvt⟩ := Conn.chan_eq_some.mp hchan
        split
        · next henabled => exact hhandover shareCs c chan rfl hc hchan' hvt henabled.1 henabled.2
        · exact hsame
    | deleteSharingChannel =>
      dsimp only
      split
      · exact hsame
      · next c hc =>
        split
        · next henabled => exact hdelete c rfl hc henabled.1 henabled.2
        · exact hsame
    | throttleAllChannels throttled =>
      obtain ⟨hok, hcheck⟩ := hthrottle throttled rfl
      dsimp only
      split
      · exact hok
      · next c hc =>
        split
        · exact hok
        · next hshare => exact hcheck c hc (by simpa using hshare)
    | userInput data =>
      dsimp only
      split
      · next henabled =>
        obtain ⟨c, hc⟩ := Option.isSome_iff_exists.mp henabled.1
        exact hcall _ (.userInput hc henabled.2)
      · exact hsame
    | stdoutUnthrottle bufsize =>
      dsimp only
      split
      · next henabled =>
        obtain ⟨c, hc⟩ := Option.isSome_iff_exists.mp henabled.1
        exact hunthrottle bufsize c (Or.inr rfl) hc henabled.2.2
      · exact hsame
    | terminalSize mc =>
      dsimp only
      split
      · next henabled =>
        cases hchan : s.chan with
        | none => exact hdangling ⟨henabled.1, henabled.2, hchan⟩
        | some chan =>
          refine calls_rule (mainchanTerminalSize_cases mc) hsame ?_
          intro k hk
          exact hcall k (.terminalSize hchan henabled.2 hk)
      · exact hsame
    | specialCmd mc code =>
      dsimp only
      split
      · next henabled =>
        cases hchan : s.chan with
        | none => exact hdangling ⟨henabled.1, henabled.2, hchan⟩
        | some chan =>
          refine calls_rule (mainchanSpecialCmd_cases mc code) hsame ?_
          intro k hk
          exact hcall k (.specialCmd hchan henabled.2 hk)
      · exact hsame

/-! ## Methods that run -/

/-- The method that runs stays the same. -/
def KeepsCalling (s s' : Conn) : Prop := s'.calling = s.calling

theorem Outgoing.calling (h : Outgoing s s') : KeepsCalling s s' := by
  unfold KeepsCalling
  rw [h.rest]

theorem Windowing.calling (h : Windowing s s') : KeepsCalling s s' := by
  unfold KeepsCalling
  rw [h.rest]

theorem throttleConn_calling {adjust : ℤ} : Ensures (sshThrottleConn s adjust) (KeepsCalling s) := by
  refine throttleConn_eq.mono ?_
  rintro s' ⟨frozen, rfl⟩
  rfl

theorem unthrottle_calling {bufsize : ℕ} :
    Ensures (ssh2channelUnthrottle s bufsize) (KeepsCalling s) := by
  unfold ssh2channelUnthrottle
  refine Conn.ensures_get.bind ?_
  intro c _
  dsimp only
  generalize (if s.cfg.sshIsSimple = true then 0 else c.locmaxwin) = buflimit
  have hset : Ensures (if (bufsize : ℤ) < buflimit then ssh2SetWindow s (buflimit - bufsize) else .ok s)
      (KeepsCalling s) := by
    split
    · exact setWindow_windowing.mono fun s' hs' => hs'.calling
    · exact ensures_ok.mpr rfl
  refine hset.bind ?_
  intro s1 h1
  refine Conn.ensures_get.bind ?_
  intro c1 _
  split
  · exact throttleConn_calling.mono fun s2 h2 => h2.trans h1
  · exact ensures_ok.mpr h1

theorem windowOverrideRemoved_calling :
    Ensures (ssh2channelWindowOverrideRemoved s) (KeepsCalling s) := by
  unfold ssh2channelWindowOverrideRemoved
  refine Conn.ensures_get.bind ?_
  intro c _
  refine Ssh2Channel.ensures_getChan.bind ?_
  intro chan _
  split
  · exact ensures_error.mpr trivial
  · exact setWindow_windowing.mono fun s' hs' => hs'.calling

theorem throttleIfFull_calling {bufsize : ℤ} : Ensures (throttleIfFull s bufsize) (KeepsCalling s) := by
  unfold throttleIfFull
  refine Conn.ensures_get.bind ?_
  intro c _
  split
  · exact throttleConn_calling
  · exact ensures_ok.mpr rfl

theorem receiveDataRest_calling {bufsize : ℕ} :
    Ensures (receiveDataRest s bufsize) (KeepsCalling s) := by
  unfold receiveDataRest
  refine Conn.ensures_get.bind ?_
  intro c _
  split
  · exact ensures_ok.mpr rfl
  · dsimp only
    generalize toInt32 (bufsize : ℤ) = size
    have hset : Ensures (if size < (growWindow c).locmaxwin then
        ssh2SetWindow (s.set (growWindow c)) (toInt32 ((growWindow c).locmaxwin - size))
        else .ok (s.set (growWindow c))) (KeepsCalling s) := by
      split
      · exact setWindow_windowing.mono fun s' hs' => hs'.calling
      · exact ensures_ok.mpr rfl
    refine hset.bind ?_
    intro s1 h1
    exact throttleIfFull_calling.mono fun s2 h2 => h2.trans h1

theorem responseRest_calling : Ensures (responseRest s) (KeepsCalling s) := by
  unfold responseRest
  refine Conn.ensures_get.bind ?_
  intro c _
  exact checkClose_outgoing.mono fun s1 h1 => h1.calling

theorem abandonRequests_calling {hs : List Handler} :
    Ensures (abandonRequests hs s) (KeepsCalling s) := by
  induction hs generalizing s with
  | nil => exact ensures_ok.mpr rfl
  | cons h hs ih =>
    unfold abandonRequests
    refine Conn.ensures_get.bind ?_
    intro c _
    cases h with
    | winadj size => exact ih.mono fun s' hs' => hs'
    | response => exact ensures_error.mpr trivial

theorem receiveCloseRest_calling : Ensures (receiveCloseRest s) (KeepsCalling s) := by
  unfold receiveCloseRest
  refine Conn.ensures_get.bind ?_
  intro c _
  have habandon : Ensures (if s.cfg.bugSendsLateRequestReply = true then .ok s
      else abandonRequests c.chanreqs s) (KeepsCalling s) := by
    split
    · exact ensures_ok.mpr rfl
    · exact abandonRequests_calling
  refine habandon.bind ?_
  intro s1 h1
  refine closeOutgoing_outgoing.bind ?_
  intro s2 h2
  refine Conn.ensures_get.bind ?_
  intro c2 _
  split
  · exact ensures_ok.mpr (h2.calling.trans h1)
  · exact checkClose_outgoing.mono fun s3 h3 => h3.calling.trans (h2.calling.trans h1)

theorem methodReturns_calling {rest : Rest} {bufsize : ℕ} :
    Ensures (methodReturns s rest bufsize) fun s' => s'.calling = none := by
  unfold methodReturns
  cases rest with
  | openConfirmation => exact openConfirmationRest_outgoing.mono fun s' hs' => hs'.calling
  | data => exact receiveDataRest_calling
  | response => exact responseRest_calling
  | eof => exact checkClose_outgoing.mono fun s' hs' => hs'.calling
  | close => exact receiveCloseRest_calling

/-- While the method for a response runs, the request that was answered is the first one. -/
def Responding (s : Conn) : Prop :=
  s.calling = some .response → ∀ c, s.channel = some c → ∃ rest, c.chanreqs = .response :: rest

theorem Responding.of_calling (h : s.calling ≠ some .response) : Responding s :=
  fun hcalling => absurd hcalling h

theorem Responding.of_none (h : s.calling = none) : Responding s :=
  .of_calling (by rw [h]; exact nofun)

theorem Responding.outgoing (h : Responding s) (hout : Outgoing s s') : Responding s' := by
  intro hcalling c' hc'
  obtain ⟨c, hc, heq, -⟩ := hout.channel c' hc'
  rw [hout.calling] at hcalling
  rw [heq]
  exact h hcalling c hc

theorem callStep_responding {k : Call} (h : Responding s) : Ensures (callStep s k) Responding := by
  cases k with
  | write isStderr data => exact write_outgoing.mono fun s' hs' => h.outgoing hs'
  | writeEof => exact writeEof_outgoing.mono fun s' hs' => h.outgoing hs'
  | chanreq type wantReply =>
    refine chanreqInit_eq.mono ?_
    rintro s' ⟨c, hc, -, -, rfl⟩
    cases wantReply with
    | false => exact h
    | true =>
      intro hcalling c' hc'
      cases hc'
      obtain ⟨rest, hrest⟩ := h hcalling c hc
      exact ⟨rest ++ [.response], by rw [hrest]; rfl⟩

theorem receiveResponse_responding {success : Bool} (h : s.calling = none) :
    Ensures (receiveResponse s success) Responding := by
  unfold receiveResponse
  refine Conn.ensures_get.bind ?_
  intro c hc
  split
  · exact ensures_ok.mpr (.of_none h)
  · next handler rest hreqs =>
    unfold handleResponse
    cases handler with
    | winadj size => exact responseRest_calling.mono fun s' hs' => .of_none (hs'.trans h)
    | response =>
      refine Ssh2Channel.ensures_getChan.bind ?_
      intro chan _
      split
      · refine callMethod_eq.mono ?_
        rintro s' ⟨-, rfl⟩
        intro _ c' hc'
        cases hc.symm.trans hc'
        exact ⟨rest, hreqs⟩
      · exact ensures_error.mpr trivial

/-- A method other than the one for a response is called. -/
theorem callMethod_responding {rest : Rest} (h : rest ≠ .response) :
    Ensures (callMethod s rest) Responding := by
  refine callMethod_eq.mono ?_
  rintro s' ⟨-, rfl⟩
  exact .of_calling fun heq => h (Option.some.inj heq)

theorem receive_responding {m : ServerMsg} (h : s.calling = none) :
    Ensures (receive s m) Responding := by
  cases m with
  | openConfirmation remoteid remwindow remmaxpkt =>
    show Ensures (openConfirmation s remoteid remwindow remmaxpkt) _
    unfold openConfirmation
    refine Conn.ensures_get.bind ?_
    intro c _
    exact callMethod_responding nofun
  | openFailure =>
    show Ensures (openFailure s) _
    unfold openFailure
    refine Conn.ensures_get.bind ?_
    intro c _
    refine Ssh2Channel.ensures_getChan.bind ?_
    intro chan _
    exact ensures_ok.mpr (.of_none h)
  | data extType data =>
    show Ensures (receiveData s data) _
    unfold receiveData
    refine Conn.ensures_get.bind ?_
    intro c _
    exact callMethod_responding nofun
  | windowAdjust size =>
    show Ensures (receiveWindowAdjust s size) _
    unfold receiveWindowAdjust
    refine Conn.ensures_get.bind ?_
    intro c _
    split
    · exact ensures_ok.mpr (.of_none h)
    · exact trySendAndUnthrottle_outgoing.mono fun s' hs' => .of_none (hs'.calling.trans h)
  | request wantReply success =>
    show Ensures (receiveRequest s wantReply success) _
    unfold receiveRequest
    refine Conn.ensures_get.bind ?_
    intro c _
    refine Ssh2Channel.ensures_getChan.bind ?_
    intro chan _
    split
    · exact ensures_ok.mpr (.of_none h)
    · exact ensures_ok.mpr (.of_none h)
  | success => exact receiveResponse_responding h
  | failure => exact receiveResponse_responding h
  | eof =>
    show Ensures (receiveEof s) _
    unfold receiveEof
    refine Conn.ensures_get.bind ?_
    intro c _
    split
    · exact ensures_ok.mpr (.of_none h)
    · exact callMethod_responding nofun
  | close =>
    show Ensures (receiveClose s) _
    unfold receiveClose
    refine Conn.ensures_get.bind ?_
    intro c _
    split
    · exact receiveCloseRest_calling.mono fun s' hs' => .of_none (hs'.trans h)
    · exact callMethod_responding nofun

theorem step_responding (h : Responding s) : Ensures (step s e) Responding := by
  apply step_rule (R := fun r => Ensures r Responding)
  case hsame => exact ensures_ok.mpr h
  case haborted => exact ensures_ok.mpr h
  case hserver =>
    intro m c _ hcalling _ _ _
    exact receive_responding hcalling
  case hreturns =>
    intro bufsize rest _ _
    exact methodReturns_calling.mono fun s' hs' => .of_none hs'
  case hcall =>
    intro k _
    exact callStep_responding h
  case hclose =>
    intro chan _ _ _
    refine initiateClose_outgoing.mono ?_
    rintro s' ⟨c, chan', hc, -, hout⟩
    refine Responding.outgoing ?_ hout
    intro hcalling c' hc'
    cases hc'
    exact h hcalling c hc
  case hunthrottle =>
    intro bufsize c _ _ hcalling
    exact unthrottle_calling.mono fun s' hs' => .of_none (hs'.trans hcalling)
  case hoverride =>
    intro c chan _ _ _ _ _ hcalling
    refine windowOverrideRemoved_calling.mono fun s' hs' => .of_calling ?_
    rw [show s'.calling = s.calling from hs', hcalling]
    exact nofun
  case hhandover =>
    intro shareCs c chan _ hc _ _ _ hcalling
    unfold ssh2channelX11SharingHandover
    rw [Conn.get_eq hc, ok_bind]
    refine ensures_ok.mpr (.of_calling ?_)
    rw [show (s.set _).calling = s.calling from rfl, hcalling]
    exact nofun
  case hdelete =>
    intro c _ _ _ _
    refine destroy_eq.mono ?_
    rintro s' ⟨rfl, -⟩
    exact fun _ _ hc => nomatch hc
  case hthrottle =>
    intro throttled _
    refine ⟨ensures_ok.mpr h, ?_⟩
    intro c _ _
    exact checkThrottle_outgoing.mono fun s' hs' =>
      Responding.outgoing (s := { s with allChannelsThrottled := throttled }) h hs'
  case hdangling =>
    intro _
    exact ensures_error.mpr trivial

end PuttyNd.Ssh2
