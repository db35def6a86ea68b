import PuttyNd.Share.Proofs.FrameProofs

/-!
# Proofs: which packets a downstream is disconnected for

`Disconnects` reads this off the packet and the state before it.
-/

namespace PuttyNd.Share

open Outcome Psftp

/-- A `tcpip-forward` or `cancel-tcpip-forward`, with its host and port unless the packet is too short -/
def requestOf (pkt : List UInt8) : Option (GlobreqType × Option HostPort) :=
  let (requestName, src) := getString ⟨pkt, false⟩
  let (_, src) := getBool src
  if requestName = ascii "tcpip-forward" then some (.tcpipForward, getHostPort src)
  else if requestName = ascii "cancel-tcpip-forward" then some (.cancelTcpipForward, getHostPort src)
  else none

/-- The `CHANNEL_OPEN` ends before its last field. -/
def TruncatedOpen (pkt : List UInt8) : Prop :=
  let (_, src) := getString ⟨pkt, false⟩
  let (_, src) := getUint32 src
  let (_, src) := getUint32 src
  let (_, src) := getUint32 src
  src.err = true

/-- The `x11-req` ends before its last field. -/
def TruncatedX11Req (src : BinarySource) : Prop :=
  let (_, src) := getBool src
  let (_, src) := getBool src
  let (_, src) := getString src
  let (_, src) := getString src
  let (_, src) := getUint32 src
  src.err = true

/-- A request for agent forwarding or X11 forwarding that is not for a channel, or is too short -/
def BadChannelRequest (env : Env) (s : Sharing) (pkt : List UInt8) : Prop :=
  let (serverId, src) := getUint32 ⟨pkt, false⟩
  let (requestName, src) := getString src
  if requestName = ascii "auth-agent-req@openssh.com" ∧ ¬ env.sshAgentForwardingPermitted then
    s.cs.channels.findServer serverId = none
  else requestName = ascii "x11-req" ∧
    (s.cs.channels.findServer serverId = none ∨ TruncatedX11Req src)

/-- The answer to the opening of a channel is not for one that waits for it. -/
def UnknownChannel (s : Sharing) (pkt : List UInt8) : Prop :=
  (getUint32 ⟨pkt, false⟩).1 ∉ s.cs.halfchannels ∧
    s.cs.xchannels.findServer (getUint32 ⟨pkt, false⟩).1 = none

/-- An X11 channel is confirmed with an initial window that is too small. -/
def SmallWindow (s : Sharing) (pkt : List UInt8) : Prop :=
  16 ≤ pkt.length ∧ (getUint32 ⟨pkt, false⟩).1 ∉ s.cs.halfchannels ∧
    s.cs.xchannels.findServer (getUint32 ⟨pkt, false⟩).1 ≠ none ∧
    get32bitMsbFirst (pkt.drop 8) < 256

/-- The downstream is disconnected for this packet. -/
def Disconnects (env : Env) (s : Sharing) (type : Msg) (pkt : List UInt8) : Prop :=
  match type with
  | .globalRequest => ∃ type, requestOf pkt = some (type, none)
  | .channelOpen => TruncatedOpen pkt
  | .channelOpenConfirmation => pkt.length < 16 ∨ UnknownChannel s pkt ∨ SmallWindow s pkt
  | .channelOpenFailure => (getUint32 ⟨pkt, false⟩).2.err = true ∨ UnknownChannel s pkt
  | .channelRequest => BadChannelRequest env s pkt
  | .channelWindowAdjust | .channelData | .channelExtendedData | .channelEof | .channelClose
  | .channelSuccess | .channelFailure | .ignore | .debug => False
  | _ => True

section Disconnects

variable {s : Sharing} {env : Env} {type : Msg} {pkt : List UInt8}

theorem gotGlobalRequest_err :
    Ensures (gotGlobalRequest s pkt) fun r =>
      r.2.isSome ↔ ∃ type, requestOf pkt = some (type, none) := by
  unfold gotGlobalRequest requestOf
  dsimp only
  split
  · split
    · next hnone => exact ensures_ok.mpr ⟨fun _ => ⟨_, by rw [hnone]⟩, fun _ => rfl⟩
    · next address hsome =>
      refine Ensures.bind (P := fun _ => True) (fun _ _ => trivial) ?_
      intro s' _
      refine ensures_ok.mpr ⟨fun h => (nomatch h), ?_⟩
      rintro ⟨type, h⟩
      rw [hsome] at h
      cases h
  · split
    · split
      · next hnone => exact ensures_ok.mpr ⟨fun _ => ⟨_, by rw [hnone]⟩, fun _ => rfl⟩
      · next address hsome =>
        refine Ensures.bind (P := fun _ => True) (fun _ _ => trivial) ?_
        intro s' _
        refine ensures_ok.mpr ⟨fun h => (nomatch h), ?_⟩
        rintro ⟨type, h⟩
        rw [hsome] at h
        cases h
    · refine Ensures.bind (P := fun _ => True) (fun _ _ => trivial) ?_
      intro s' _
      refine ensures_ok.mpr ⟨fun h => (nomatch h), ?_⟩
      rintro ⟨type, h⟩
      cases h

theorem gotChannelOpen_err :
    Ensures (gotChannelOpen s pkt) fun r => r.2.isSome ↔ TruncatedOpen pkt := by
  unfold gotChannelOpen TruncatedOpen
  dsimp only
  split
  · next herr => exact ensures_ok.mpr ⟨fun _ => herr, fun _ => rfl⟩
  · next herr => exact ensures_ok.mpr ⟨fun h => (nomatch h), fun h => absurd h herr⟩

theorem gotChannelOpenConfirmation_err :
    Ensures (gotChannelOpenConfirmation s pkt) fun r =>
      r.2.isSome ↔ pkt.length < 16 ∨ UnknownChannel s pkt ∨ SmallWindow s pkt := by
  unfold gotChannelOpenConfirmation UnknownChannel SmallWindow
  dsimp only
  split
  · next hlen => exact ensures_ok.mpr ⟨fun _ => Or.inl hlen, fun _ => rfl⟩
  · next hlen =>
    split
    · next hhalf =>
      refine ensures_ok.mpr ⟨fun h => (nomatch h), ?_⟩
      rintro (h | h | h)
      · exact absurd h hlen
      · exact absurd hhalf h.1
      · exact absurd hhalf h.2.1
    · next hhalf =>
      split
      · next hfind => exact ensures_ok.mpr ⟨fun _ => Or.inr (Or.inl ⟨hhalf, hfind⟩), fun _ => rfl⟩
      · next xa hfind =>
        refine deref_bind ?_
        intro xc _
        dsimp only
        split
        · next hwindow =>
          refine ensures_ok.mpr ⟨fun _ => Or.inr (Or.inr ?_), fun _ => rfl⟩
          exact ⟨Nat.le_of_not_lt hlen, hhalf, by rw [hfind]; simp, hwindow⟩
        · next hwindow =>
          refine Ensures.bind (P := fun _ => True) (fun _ _ => trivial) ?_
          intro s' _
          refine ensures_ok.mpr ⟨fun h => (nomatch h), ?_⟩
          rintro (h | h | h)
          · exact absurd h hlen
          · rw [hfind] at h
            exact nomatch h.2
          · exact absurd h.2.2.2 hwindow

theorem gotChannelOpenFailure_err :
    Ensures (gotChannelOpenFailure s pkt) fun r =>
      r.2.isSome ↔ (getUint32 ⟨pkt, false⟩).2.err = true ∨ UnknownChannel s pkt := by
  unfold gotChannelOpenFailure UnknownChannel
  dsimp only
  split
  · next herr => exact ensures_ok.mpr ⟨fun _ => Or.inl herr, fun _ => rfl⟩
  · next herr =>
    split
    · next hhalf =>
      refine ensures_ok.mpr ⟨fun h => (nomatch h), ?_⟩
      rintro (h | h)
      · exact absurd h herr
      · exact absurd hhalf h.1
    · next hhalf =>
      split
      · next hfind => exact ensures_ok.mpr ⟨fun _ => Or.inr ⟨hhalf, hfind⟩, fun _ => rfl⟩
      · next xa hfind =>
        refine deref_bind ?_
        intro xc _
        refine Ensures.bind (P := fun _ => True) (fun _ _ => trivial) ?_
        intro s' _
        refine ensures_ok.mpr ⟨fun h => (nomatch h), ?_⟩
        rintro (h | h)
        · exact absurd h herr
        · rw [hfind] at h
          exact nomatch h.2

theorem passOn_err {serverId : UInt32} :
    Ensures (passOn s type pkt serverId) fun r => r.2 = none := by
  unfold passOn
  dsimp only
  split
  · split
    · exact ensures_ok.mpr rfl
    · refine deref_bind ?_
      intro chan _
      dsimp only
      split
      · exact ensures_ok.mpr rfl
      · exact ensures_ok.mpr rfl
  · exact ensures_ok.mpr rfl

theorem refuseRequest_err {chan : ShareChannel} :
    Ensures (refuseRequest s chan) fun r => r.2 = none := by
  unfold refuseRequest
  refine Ensures.bind (P := fun _ => True) (fun _ _ => trivial) ?_
  intro s' _
  exact ensures_ok.mpr rfl

theorem gotX11Req_err {src : BinarySource} {serverId : UInt32} :
    Ensures (gotX11Req env s src serverId) fun r =>
      r.2.isSome ↔ s.cs.channels.findServer serverId = none ∨ TruncatedX11Req src := by
  unfold gotX11Req TruncatedX11Req
  dsimp only
  split
  · next hfind => exact ensures_ok.mpr ⟨fun _ => Or.inl hfind, fun _ => rfl⟩
  · next a hfind =>
    refine deref_bind ?_
    intro chan _
    dsimp only
    have hgood : ∀ r : Sharing × Option Message, r.2 = none →
        ((getUint32 (getString (getString (getBool (getBool src).2).2).2).2).2.err ≠ true) →
        (r.2.isSome ↔ s.cs.channels.findServer serverId = none ∨
          (getUint32 (getString (getString (getBool (getBool src).2).2).2).2).2.err = true) := by
      intro r hr herr
      rw [hr, hfind]
      refine ⟨fun h => (nomatch h), ?_⟩
      rintro (h | h)
      · cases h
      · exact absurd h herr
    split
    · next herr => exact ensures_ok.mpr ⟨fun _ => Or.inr herr, fun _ => rfl⟩
    · next herr =>
      split
      · exact refuseRequest_err.mono fun r hr => hgood r hr herr
      · exact ensures_ok.mpr (hgood _ rfl herr)

theorem gotChannelMessage_err :
    Ensures (gotChannelMessage env s type pkt) fun r =>
      r.2.isSome ↔ type = .channelRequest ∧ BadChannelRequest env s pkt := by
  unfold gotChannelMessage BadChannelRequest
  dsimp only
  split
  · next htype =>
    simp only [htype, true_and]
    split
    · split
      · next a hfind =>
        refine deref_bind ?_
        intro chan _
        refine refuseRequest_err.mono ?_
        intro r hr
        rw [hr, hfind]
        exact ⟨fun h => (nomatch h), fun h => (nomatch h)⟩
      · next hfind => exact ensures_ok.mpr ⟨fun _ => hfind, fun _ => rfl⟩
    · split
      · next hname =>
        refine gotX11Req_err.mono ?_
        intro r hr
        rw [hr]
        exact ⟨fun h => ⟨hname, h⟩, fun h => h.2⟩
      · next hname =>
        refine passOn_err.mono ?_
        intro r hr
        rw [hr]
        exact ⟨fun h => (nomatch h), fun h => absurd h.1 hname⟩
  · next htype =>
    refine passOn_err.mono ?_
    intro r hr
    rw [hr]
    exact ⟨fun h => (nomatch h), fun h => absurd h.1 htype⟩

/-- A packet, other than `DISCONNECT`, makes the upstream disconnect exactly when it is one of these. -/
theorem handlePacket_err (htype : type ≠ .disconnect) :
    Ensures (handlePacket env s type pkt) fun r => r.2.isSome ↔ Disconnects env s type pkt := by
  unfold handlePacket
  cases type with
  | globalRequest => exact gotGlobalRequest_err
  | channelOpen => exact gotChannelOpen_err
  | channelOpenConfirmation => exact gotChannelOpenConfirmation_err
  | channelOpenFailure => exact gotChannelOpenFailure_err
  | disconnect => exact absurd rfl htype
  | channelRequest => exact gotChannelMessage_err.mono fun r hr => by simpa [Disconnects] using hr
  | requestSuccess => exact ensures_ok.mpr ⟨fun _ => trivial, fun _ => rfl⟩
  | requestFailure => exact ensures_ok.mpr ⟨fun _ => trivial, fun _ => rfl⟩
  | other type => exact ensures_ok.mpr ⟨fun _ => trivial, fun _ => rfl⟩
  | _ => exact gotChannelMessage_err.mono fun r hr => by simpa [Disconnects] using hr

end Disconnects

end PuttyNd.Share
