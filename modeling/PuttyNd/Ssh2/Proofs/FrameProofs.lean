import PuttyNd.Ssh2.Messages

/-!
# Proofs: what sending and closing leave alone
-/

namespace PuttyNd.Ssh2

open Psftp CInt Outcome

variable {s s' : Conn} {c c' : Ssh2Channel}

@[simp] theorem Conn.get_set : (s.set c).get = .ok c := rfl

@[simp] theorem Conn.get_note {t : Trace} : (s.note t).get = s.get := rfl

theorem Conn.get_eq (h : s.channel = some c) : s.get = .ok c := by
  unfold get
  simp only [h]

theorem Conn.ensures_get : Ensures s.get fun c => s.channel = some c := by
  unfold get
  cases hchannel : s.channel with
  | none => exact ensures_error.mpr trivial
  | some c => exact ensures_ok.mpr rfl

theorem Ssh2Channel.getChan_eq {chan : Channel} (h : c.chan = some chan) : c.getChan = .ok chan := by
  unfold getChan
  simp only [h]

theorem Ssh2Channel.ensures_getChan : Ensures c.getChan fun chan => c.chan = some chan := by
  unfold getChan
  cases hchan : c.chan with
  | none => exact ensures_error.mpr trivial
  | some chan => exact ensures_ok.mpr rfl

/-- What is noted when data, EOF or CLOSE is sent, or the channel is deleted -/
def Trace.isOutgoing : Trace → Prop
  | .sent (.data _) => True
  | .sent (.extendedData _) => True
  | .sent .eof => True
  | .sent .close => True
  | .wrote _ _ => True
  | .deleted => True
  | _ => False

/-- What sending and closing may change in a channel -/
def Ssh2Channel.outgoing (c c' : Ssh2Channel) : Ssh2Channel :=
  { c with
    sentEof := c'.sentEof
    sentClose := c'.sentClose
    pendingEof := c'.pendingEof
    throttledByBacklog := c'.throttledByBacklog
    outbuffer := c'.outbuffer
    errbuffer := c'.errbuffer
    remwindow := c'.remwindow
    chan := c'.chan }

/-- The `Channel` stays the same, but for whether it wants input. -/
def Retains : Option Channel → Option Channel → Prop
  | none, none => True
  | some chan, some chan' =>
    chan'.vt = chan.vt ∧ chan'.initialFixedWindowSize = chan.initialFixedWindowSize
  | _, _ => False

theorem Retains.refl {chan : Option Channel} : Retains chan chan := by
  cases chan with
  | none => trivial
  | some chan => exact ⟨rfl, rfl⟩

theorem Retains.trans {chan chan' chan'' : Option Channel} (h : Retains chan chan')
    (h' : Retains chan' chan'') : Retains chan chan'' := by
  cases chan with
  | none =>
    cases chan' with
    | none => exact h'
    | some _ => cases h
  | some chan =>
    cases chan' with
    | none => cases h
    | some chan' =>
      cases chan'' with
      | none => cases h'
      | some chan'' => exact ⟨h'.1.trans h.1, h'.2.trans h.2⟩

theorem Retains.of_some {chan chan' : Option Channel} (h : Retains chan chan') {x : Channel}
    (hx : chan' = some x) :
    ∃ y, chan = some y ∧ x.vt = y.vt ∧ x.initialFixedWindowSize = y.initialFixedWindowSize := by
  subst hx
  cases chan with
  | none => cases h
  | some y => exact ⟨y, rfl, h.1, h.2⟩

theorem Retains.to_some {chan chan' : Option Channel} (h : Retains chan chan') {x : Channel}
    (hx : chan = some x) :
    ∃ y, chan' = some y ∧ y.vt = x.vt ∧ y.initialFixedWindowSize = x.initialFixedWindowSize := by
  subst hx
  cases chan' with
  | none => cases h
  | some y => exact ⟨y, rfl, h.1, h.2⟩

/-- Something was sent, or the channel was closed; else nothing has changed. A channel is freed when it has
received CLOSE. -/
structure Outgoing (s s' : Conn) : Prop where
  trace : ∃ t, s'.trace = s.trace ++ t ∧ ∀ x ∈ t, x.isOutgoing
  rest : s' = { s with trace := s'.trace, channel := s'.channel }
  channel : ∀ c', s'.channel = some c' →
    ∃ c, s.channel = some c ∧ c' = c.outgoing c' ∧ Retains c.chan c'.chan
  freed : s'.channel = none →
    s.channel = none ∨ ∃ c, s.channel = some c ∧ c.rcvdClose = true ∧ c.chanreqs = []

namespace Outgoing

theorem refl : Outgoing s s :=
  ⟨⟨[], (List.append_nil _).symm, fun _ h => (nomatch h)⟩, rfl, fun c hc => ⟨c, hc, rfl, .refl⟩, Or.inl⟩

theorem trans {s'' : Conn} (h : Outgoing s s') (h' : Outgoing s' s'') : Outgoing s s'' := by
  obtain ⟨t, ht, houtgoing⟩ := h.trace
  obtain ⟨t', ht', houtgoing'⟩ := h'.trace
  refine ⟨⟨t ++ t', ?_, ?_⟩, ?_, ?_, ?_⟩
  · rw [ht', ht, List.append_assoc]
  · intro x hx
    rcases List.mem_append.mp hx with hx | hx
    · exact houtgoing x hx
    · exact houtgoing' x hx
  · rw [h'.rest, h.rest]
  · intro c'' hc''
    obtain ⟨c', hc', heq', hchan'⟩ := h'.channel c'' hc''
    obtain ⟨c, hc, heq, hchan⟩ := h.channel c' hc'
    refine ⟨c, hc, ?_, hchan.trans hchan'⟩
    rw [heq', heq]
    rfl
  · intro hnone
    rcases h'.freed hnone with hnone' | ⟨c', hc', hclose, hreqs⟩
    · exact h.freed hnone'
    · obtain ⟨c, hc, heq, -⟩ := h.channel c' hc'
      rw [heq] at hclose hreqs
      exact Or.inr ⟨c, hc, hclose, hreqs⟩

/-- A change of the channel -/
theorem set (hc : s.channel = some c) (h : c' = c.outgoing c')
    (hchan : Retains c.chan c'.chan) : Outgoing s (s.set c') :=
  ⟨⟨[], (List.append_nil _).symm, fun _ h => (nomatch h)⟩, rfl, fun _ hc' =>
    ⟨c, hc, Option.some.inj hc' ▸ h, Option.some.inj hc' ▸ hchan⟩, fun h => (nomatch h)⟩

theorem note {t : Trace} (ht : t.isOutgoing) : Outgoing s (s.note t) :=
  ⟨⟨[t], rfl, fun _ hx => List.mem_singleton.mp hx ▸ ht⟩, rfl, fun c hc => ⟨c, hc, rfl, .refl⟩, Or.inl⟩

/-- The channel is freed. -/
theorem free (hc : s.channel = some c) (hclose : c.rcvdClose = true) (hreqs : c.chanreqs = []) :
    Outgoing s { s with channel := none } :=
  ⟨⟨[], (List.append_nil _).symm, fun _ h => (nomatch h)⟩, rfl, fun _ hc => (nomatch hc), fun _ =>
    Or.inr ⟨c, hc, hclose, hreqs⟩⟩

end Outgoing

theorem destroy_eq : Ensures (ssh2ChannelDestroy s) fun s' =>
    s' = { s with channel := none } ∧ ∃ c, s.channel = some c ∧ c.chanreqs = [] := by
  unfold ssh2ChannelDestroy
  refine Conn.ensures_get.bind ?_
  intro c hc
  split
  · exact ensures_error.mpr trivial
  · next hreqs =>
    unfold ssh2ChannelCloseLocal
    rw [Conn.get_eq hc, ok_bind]
    split
    · exact ensures_ok.mpr ⟨rfl, c, hc, not_not.mp hreqs⟩
    · rw [bind_assoc]
      refine Ssh2Channel.ensures_getChan.bind ?_
      intro chan _
      exact ensures_ok.mpr ⟨rfl, c, hc, not_not.mp hreqs⟩

theorem checkClose_outgoing : Ensures (ssh2ChannelCheckClose s) (Outgoing s) := by
  unfold ssh2ChannelCheckClose
  refine Conn.ensures_get.bind ?_
  intro c hc
  split
  · exact ensures_ok.mpr .refl
  · refine Ssh2Channel.ensures_getChan.bind ?_
    intro chan _
    have hsend : Outgoing s (if chanWantClose chan c.sentEof c.rcvdEof = true ∧ c.chanreqs = [] ∧
        ¬ c.sentClose = true then sendClose s c else s) := by
      split
      · exact (Outgoing.note (t := .sent .close) trivial).trans (.set hc rfl (by exact .refl))
      · exact .refl
    refine Conn.ensures_get.bind ?_
    intro c1 hc1
    split
    · next hboth =>
      split
      · exact ensures_error.mpr trivial
      · refine destroy_eq.mono ?_
        rintro s' ⟨rfl, c1', hc1', hreqs⟩
        cases hc1.symm.trans hc1'
        exact hsend.trans (.free hc1 hboth.2 hreqs)
    · exact ensures_ok.mpr hsend

theorem tryEof_outgoing : Ensures (ssh2ChannelTryEof s) (Outgoing s) := by
  unfold ssh2ChannelTryEof
  refine Conn.ensures_get.bind ?_
  intro c hc
  split
  · exact ensures_error.mpr trivial
  · split
    · exact ensures_ok.mpr .refl
    · split
      · exact ensures_ok.mpr .refl
      · refine checkClose_outgoing.mono ?_
        intro s' hs'
        have heof : Outgoing s (s.push .eof) := Outgoing.note (t := .sent .eof) trivial
        exact (heof.trans (.set hc rfl (by exact .refl))).trans hs'

theorem nextData_outgoing : (nextData c).2 = c.outgoing (nextData c).2 := by
  unfold nextData
  split
  · rfl
  · rfl

theorem nextData_chan : (nextData c).2.chan = c.chan := by
  unfold nextData
  split
  · rfl
  · rfl

theorem nextData_isOutgoing : Trace.isOutgoing (.sent (nextData c).1) := by
  unfold nextData
  split
  · trivial
  · trivial

theorem sendLoop_outgoing {rounds : ℕ} : Ensures (sendLoop rounds s) (Outgoing s) := by
  induction rounds generalizing s with
  | zero => exact ensures_error.mpr trivial
  | succ rounds ih =>
    unfold sendLoop
    refine Conn.ensures_get.bind ?_
    intro c hc
    split
    · refine ih.mono ?_
      intro s' hs'
      have hsent : Outgoing s (s.push (nextData c).1) := .note nextData_isOutgoing
      exact (hsent.trans (.set hc nextData_outgoing (nextData_chan ▸ .refl))).trans hs'
    · exact ensures_ok.mpr .refl

theorem trySend_outgoing : Ensures (ssh2TrySend s) fun r => Outgoing s r.2 := by
  unfold ssh2TrySend
  refine Conn.ensures_get.bind ?_
  intro c _
  have hloop : Ensures (if c.halfopen = true then .ok s else sendLoop (c.backlog + 1) s)
      (Outgoing s) := by
    split
    · exact ensures_ok.mpr .refl
    · exact sendLoop_outgoing
  refine hloop.bind ?_
  intro s1 hs1
  refine Conn.ensures_get.bind ?_
  intro c1 _
  have heof : Ensures (if c1.backlog = 0 ∧ c1.pendingEof = true then ssh2ChannelTryEof s1 else .ok s1)
      (Outgoing s1) := by
    split
    · exact tryEof_outgoing
    · exact ensures_ok.mpr .refl
  refine heof.bind ?_
  intro s2 hs2
  exact ensures_ok.mpr (hs1.trans hs2)

theorem checkThrottle_outgoing : Ensures (ssh2ChannelCheckThrottle s) (Outgoing s) := by
  unfold ssh2ChannelCheckThrottle
  refine Conn.ensures_get.bind ?_
  intro c hc
  refine Ssh2Channel.ensures_getChan.bind ?_
  intro chan hchan
  refine ensures_ok.mpr (.set hc rfl ?_)
  rw [hchan]
  exact ⟨rfl, rfl⟩

theorem trySendAndUnthrottle_outgoing : Ensures (ssh2TrySendAndUnthrottle s) (Outgoing s) := by
  unfold ssh2TrySendAndUnthrottle
  refine Conn.ensures_get.bind ?_
  intro c _
  split
  · exact ensures_ok.mpr .refl
  · refine trySend_outgoing.bind ?_
    rintro ⟨bufsize, s1⟩ hs1
    dsimp only
    split
    · refine Conn.ensures_get.bind ?_
      intro c1 hc1
      refine checkThrottle_outgoing.mono ?_
      intro s2 hs2
      exact (hs1.trans (.set hc1 rfl (by exact .refl))).trans hs2
    · exact ensures_ok.mpr hs1

theorem write_outgoing {isStderr : Bool} {data : List UInt8} :
    Ensures (ssh2channelWrite s isStderr data) (Outgoing s) := by
  unfold ssh2channelWrite
  refine Conn.ensures_get.bind ?_
  intro c hc
  split
  · exact ensures_error.mpr trivial
  · refine trySend_outgoing.bind ?_
    rintro ⟨bufsize, s1⟩ hs1
    refine ensures_ok.mpr ?_
    have hwrote : Outgoing s (s.note (.wrote isStderr data)) := .note trivial
    refine hwrote.trans (Outgoing.trans ?_ hs1)
    split
    · exact .set hc rfl (by exact .refl)
    · exact .set hc rfl (by exact .refl)

theorem writeEof_outgoing : Ensures (ssh2channelWriteEof s) (Outgoing s) := by
  unfold ssh2channelWriteEof
  refine Conn.ensures_get.bind ?_
  intro c hc
  split
  · exact ensures_ok.mpr .refl
  · refine tryEof_outgoing.mono ?_
    intro s' hs'
    exact Outgoing.trans (.set hc rfl (by exact .refl)) hs'

/-- The channel becomes a zombie, if it is not shared, and is closed. -/
theorem initiateClose_outgoing : Ensures (ssh2channelInitiateClose s) fun s' =>
    ∃ c chan, s.channel = some c ∧ (chan = c.chan ∨ chan = some zombiechanNew) ∧
      Outgoing (s.set { c with chan := chan, pendingEof := false }) s' := by
  unfold ssh2channelInitiateClose ssh2ChannelCloseLocal
  rw [bind_assoc]
  refine Conn.ensures_get.bind ?_
  intro c hc
  split
  · rw [pure_bind, Conn.get_eq hc, ok_bind]
    exact checkClose_outgoing.mono fun s' hs' => ⟨c, c.chan, hc, Or.inl rfl, hs'⟩
  · rw [bind_assoc]
    refine Ssh2Channel.ensures_getChan.bind ?_
    intro chan _
    have hclosed := checkClose_outgoing (s := s.set { c with chan := some zombiechanNew, pendingEof := false })
    exact fun s' hs' => ⟨c, some zombiechanNew, hc, Or.inr rfl, hclosed s' hs'⟩

theorem closeOutgoing_outgoing : Ensures (closeOutgoing s) (Outgoing s) := by
  unfold closeOutgoing
  refine Conn.ensures_get.bind ?_
  intro c hc
  split
  · exact ensures_ok.mpr .refl
  · refine writeEof_outgoing.bind ?_
    intro s1 hs1
    refine checkThrottle_outgoing.mono ?_
    intro s2 hs2
    exact (Outgoing.trans (.set hc rfl (by exact .refl)) hs1).trans hs2

theorem openConfirmationRest_outgoing : Ensures (openConfirmationRest s) (Outgoing s) := by
  unfold openConfirmationRest
  refine checkClose_outgoing.bind ?_
  intro s1 h1
  refine Conn.ensures_get.bind ?_
  intro c _
  split
  · exact tryEof_outgoing.mono fun s2 h2 => h1.trans h2
  · exact ensures_ok.mpr h1

/-! ## Channel requests and the window -/

/-- The handlers of the requests that were sent -/
def asked (trace : List Trace) : List Handler :=
  trace.filterMap fun
    | .asked h => some h
    | _ => none

/-- What is noted when the window is set -/
def Trace.isWindowing : Trace → Prop
  | .sent (.windowAdjust _) => True
  | .sent (.request _ _) => True
  | .asked (.winadj _) => True
  | _ => False

/-- What setting the window may change in a channel -/
def Ssh2Channel.windowing (c c' : Ssh2Channel) : Ssh2Channel :=
  { c with
    locwindow := c'.locwindow
    remlocwin := c'.remlocwin
    throttleState := c'.throttleState
    chanreqs := c'.chanreqs }

/-- The window was set, or nothing has changed. -/
structure Windowing (s s' : Conn) : Prop where
  rest : s' = { s with trace := s'.trace, channel := s'.channel }
  changes : s' = s ∨ ∃ c c' t, s.channel = some c ∧ s'.channel = some c' ∧ c' = c.windowing c' ∧
    s'.trace = s.trace ++ t ∧ (∀ x ∈ t, x.isWindowing) ∧ c'.chanreqs = c.chanreqs ++ asked t ∧
    c.rcvdEof = false ∧ c.sentClose = false ∧
    ∃ chan, c.chan = some chan ∧ chan.initialFixedWindowSize = 0

theorem Windowing.refl : Windowing s s := ⟨rfl, Or.inl rfl⟩

theorem chanreqInit_eq {type : String} {handler : Option Handler} :
    Ensures (ssh2ChanreqInit s type handler) fun s' => ∃ c, s.channel = some c ∧
      c.sentClose = false ∧ c.rcvdClose = false ∧
      s' = match handler with
        | none => s.push (.request type false)
        | some h => ((s.push (.request type true)).note (.asked h)).set
            { c with chanreqs := c.chanreqs ++ [h] } := by
  unfold ssh2ChanreqInit
  refine Conn.ensures_get.bind ?_
  intro c hc
  split
  · exact ensures_error.mpr trivial
  · next hopen =>
    rw [not_or, Bool.not_eq_true, Bool.not_eq_true] at hopen
    cases handler with
    | none => exact ensures_ok.mpr ⟨c, hc, hopen.1, hopen.2, rfl⟩
    | some h => exact ensures_ok.mpr ⟨c, hc, hopen.1, hopen.2, rfl⟩

theorem askForAck_eq {size : UInt32} :
    Ensures (askForAck s size) fun s' => ∃ c state, s.channel = some c ∧
      s' = ((s.push (.request "winadj@putty.projects.tartarus.org" true)).note
        (.asked (.winadj size))).set
          { c with chanreqs := c.chanreqs ++ [.winadj size], throttleState := state } := by
  unfold askForAck
  refine chanreqInit_eq.bind ?_
  rintro s1 ⟨c, hc, -, -, rfl⟩
  exact ensures_ok.mpr ⟨c, _, hc, rfl⟩

theorem enlargeWindow_windowing {newwin : ℤ} (hc : s.channel = some c) (heof : c.rcvdEof = false)
    (hclose : c.sentClose = false)
    (hfixed : ∃ chan, c.chan = some chan ∧ chan.initialFixedWindowSize = 0) :
    Ensures (enlargeWindow s c newwin) (Windowing s) := by
  unfold enlargeWindow
  dsimp only
  split
  · refine askForAck_eq.bind ?_
    rintro s1 ⟨c1, state, hc1, rfl⟩
    cases hc.symm.trans hc1
    let size := UInt32.ofInt (newwin - c.locwindow)
    refine ensures_ok.mpr ⟨rfl, Or.inr ⟨c, _, [.sent (.request "winadj@putty.projects.tartarus.org" true),
      .asked (.winadj size), .sent (.windowAdjust size)], hc, rfl, ?_, ?_, ?_, ?_, heof, hclose, hfixed⟩⟩
    · rfl
    · show s.trace ++ [_] ++ [_] ++ [_] = _
      rw [List.append_assoc, List.append_assoc]
      rfl
    · intro x hx
      simp only [List.mem_cons, List.not_mem_nil, or_false] at hx
      rcases hx with rfl | rfl | rfl
      · trivial
      · trivial
      · trivial
    · rfl
  · let size := UInt32.ofInt (newwin - c.locwindow)
    refine ensures_ok.mpr ⟨rfl, Or.inr ⟨c, _, [.sent (.windowAdjust size)], hc, rfl, ?_, ?_, ?_, ?_, heof,
      hclose, hfixed⟩⟩
    · rfl
    · rfl
    · intro x hx
      rw [List.mem_singleton.mp hx]
      trivial
    · exact (List.append_nil _).symm

theorem setWindow_windowing {newwin : ℤ} : Ensures (ssh2SetWindow s newwin) (Windowing s) := by
  unfold ssh2SetWindow
  refine Conn.ensures_get.bind ?_
  intro c hc
  split
  · exact ensures_ok.mpr .refl
  · next hopen =>
    rw [not_or, Bool.not_eq_true, Bool.not_eq_true] at hopen
    refine Ssh2Channel.ensures_getChan.bind ?_
    intro chan hchan
    split
    · exact ensures_ok.mpr .refl
    · next hfixed =>
      split
      · exact enlargeWindow_windowing hc hopen.1 hopen.2 ⟨chan, hchan, not_not.mp hfixed⟩
      · exact ensures_ok.mpr .refl

theorem throttleConn_eq {adjust : ℤ} : Ensures (sshThrottleConn s adjust) fun s' =>
    ∃ frozen, s' = { s with
      connThrottleCount := s.connThrottleCount + adjust, logicallyFrozen := frozen } := by
  unfold sshThrottleConn
  dsimp only
  split
  · exact ensures_error.mpr trivial
  · split
    · exact ensures_ok.mpr ⟨true, rfl⟩
    · split
      · exact ensures_ok.mpr ⟨false, rfl⟩
      · exact ensures_ok.mpr ⟨s.logicallyFrozen, rfl⟩

theorem callMethod_eq {rest : Rest} :
    Ensures (callMethod s rest) fun s' => (∃ c chan, s.channel = some c ∧ c.chan = some chan) ∧
      s' = { s with calling := some rest } := by
  unfold callMethod
  refine Conn.ensures_get.bind ?_
  intro c hc
  refine Ssh2Channel.ensures_getChan.bind ?_
  intro chan hchan
  exact ensures_ok.mpr ⟨⟨c, chan, hc, hchan⟩, rfl⟩

/-- When a channel is closed, its requests are abandoned; none of them is a request of the main channel. -/
theorem abandonRequests_eq {hs : List Handler} (hc : s.channel = some c) (hreqs : c.chanreqs = hs) :
    Ensures (abandonRequests hs s) fun s' => (∀ h ∈ hs, h ≠ .response) ∧ ∃ remlocwin state,
      s' = Conn.set { s with trace := s.trace ++ hs.map fun h => .handled h none }
        { c with remlocwin := remlocwin, throttleState := state, chanreqs := [] } := by
  induction hs generalizing s c with
  | nil =>
    refine ensures_ok.mpr ⟨nofun, c.remlocwin, c.throttleState, ?_⟩
    rw [List.map_nil, List.append_nil, ← hreqs]
    unfold Conn.set
    rw [← hc]
  | cons handler hs ih =>
    unfold abandonRequests
    rw [Conn.get_eq hc, ok_bind]
    cases handler with
    | winadj size =>
      refine Ensures.mono (ih rfl rfl) ?_
      rintro s' ⟨hall, remlocwin, state, rfl⟩
      refine ⟨?_, remlocwin, state, ?_⟩
      · intro h hmem
        rcases List.mem_cons.mp hmem with rfl | hmem
        · exact nofun
        · exact hall h hmem
      · show Conn.set { s with trace := s.trace ++ [_] ++ _ } _ = _
        rw [List.append_assoc]
        rfl
    | response => exact ensures_error.mpr trivial

end PuttyNd.Ssh2
