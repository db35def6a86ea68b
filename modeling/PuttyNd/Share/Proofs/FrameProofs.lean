import PuttyNd.Share.Downstream

/-!
# Proofs: what the functions leave as it is

The state has parts that few functions write: the channels, the xchannels and the forwardings, each with
what the connection layer keeps for it.
-/

namespace PuttyNd.Share

open Outcome Psftp Function

/-- Only packets are sent. -/
def OnlyEffects (s s' : Sharing) : Prop := ∃ effects, s' = { s with effects := effects }

/-- Only xchannels are changed, and which channels the connection layer has. -/
def OnlyXchannels (s s' : Sharing) : Prop :=
  ∃ effects xchannels channels, s' = { s with
    effects := effects
    cs := { s.cs with xchannels := xchannels }
    cl := { s.cl with channels := channels } }

/-- Only channels are changed, and which channels the connection layer has. -/
def OnlyChannels (s s' : Sharing) : Prop :=
  ∃ effects cchannels channels, s' = { s with
    effects := effects
    cs := { s.cs with channels := cchannels }
    cl := { s.cl with channels := channels } }

/-- Only forwardings and the requests for them are changed. -/
def OnlyForwardings (s s' : Sharing) : Prop :=
  ∃ effects forwardings rportfwds rportfwdTree globreqs, s' = { s with
    effects := effects
    cs := { s.cs with forwardings := forwardings }
    cl := { s.cl with rportfwds := rportfwds, rportfwdTree := rportfwdTree }
    globreqs := globreqs }

section Only

variable {s s' s'' : Sharing}

theorem OnlyEffects.refl : OnlyEffects s s := ⟨_, rfl⟩

theorem OnlyEffects.trans (h : OnlyEffects s s') (h' : OnlyEffects s' s'') : OnlyEffects s s'' := by
  obtain ⟨_, rfl⟩ := h
  obtain ⟨_, rfl⟩ := h'
  exact ⟨_, rfl⟩

theorem onlyEffects_emit {e : Effect} : OnlyEffects s (s.emit e) := ⟨_, rfl⟩

theorem OnlyEffects.xchannels (h : OnlyEffects s s') : OnlyXchannels s s' := by
  obtain ⟨_, rfl⟩ := h
  exact ⟨_, _, _, rfl⟩

theorem OnlyEffects.channels (h : OnlyEffects s s') : OnlyChannels s s' := by
  obtain ⟨_, rfl⟩ := h
  exact ⟨_, _, _, rfl⟩

theorem OnlyEffects.forwardings (h : OnlyEffects s s') : OnlyForwardings s s' := by
  obtain ⟨_, rfl⟩ := h
  exact ⟨_, _, _, _, _, rfl⟩

theorem OnlyXchannels.trans (h : OnlyXchannels s s') (h' : OnlyXchannels s' s'') :
    OnlyXchannels s s'' := by
  obtain ⟨_, _, _, rfl⟩ := h
  obtain ⟨_, _, _, rfl⟩ := h'
  exact ⟨_, _, _, rfl⟩

theorem OnlyChannels.trans (h : OnlyChannels s s') (h' : OnlyChannels s' s'') :
    OnlyChannels s s'' := by
  obtain ⟨_, _, _, rfl⟩ := h
  obtain ⟨_, _, _, rfl⟩ := h'
  exact ⟨_, _, _, rfl⟩

theorem OnlyForwardings.trans (h : OnlyForwardings s s') (h' : OnlyForwardings s' s'') :
    OnlyForwardings s s'' := by
  obtain ⟨_, _, _, _, _, rfl⟩ := h
  obtain ⟨_, _, _, _, _, rfl⟩ := h'
  exact ⟨_, _, _, _, _, rfl⟩

end Only

/-! ## Sending -/

section Sending

variable {s : Sharing} {type : Msg} {pkt : List UInt8}

theorem ensures_deref {α : Type} {h : Heap α} {p : Option ℕ} :
    Ensures (deref h p) fun r => p = some r.1 ∧ h.cell r.1 = some r.2 := by
  unfold deref
  cases p with
  | none => exact ensures_error.mpr trivial
  | some a =>
    dsimp only
    cases hcell : h.cell a with
    | none => exact ensures_error.mpr trivial
    | some v => exact ensures_ok.mpr ⟨rfl, hcell⟩

theorem deref_eq {α : Type} {h : Heap α} {a : ℕ} {v : α} (ha : h.cell a = some v) :
    deref h (some a) = .ok (a, v) := by
  unfold deref
  simp only [ha]

theorem deref_bind {α β : Type} {h : Heap α} {a : ℕ} {f : ℕ × α → Except Fault β} {Q : β → Prop}
    (hf : ∀ v, h.cell a = some v → Ensures (f (a, v)) Q) :
    Ensures (deref h (some a) >>= f) Q := by
  refine ensures_deref.bind ?_
  rintro ⟨b, v⟩ ⟨hb, hv⟩
  cases hb
  exact hf v hv

theorem onlyEffects_foldl {α : Type} {l : List α} {f : Sharing → α → Sharing}
    (hf : ∀ s a, OnlyEffects s (f s a)) : OnlyEffects s (l.foldl f s) := by
  induction l generalizing s with
  | nil => exact .refl
  | cons a l ih => exact (hf s a).trans ih

theorem sendPacketToDownstream_only {chan : Option ℕ} :
    Ensures (sendPacketToDownstream s type pkt chan) (OnlyEffects s) := by
  unfold sendPacketToDownstream
  split
  · exact ensures_ok.mpr .refl
  · split
    · refine ensures_deref.bind ?_
      intro r _
      refine Ensures.bind (P := fun _ => True) (fun _ _ => trivial) ?_
      intro pieces _
      exact ensures_ok.mpr (onlyEffects_foldl fun _ _ => onlyEffects_emit)
    · exact ensures_ok.mpr onlyEffects_emit

theorem manufactureFailure_only {origWantreply : Bool} :
    Ensures (manufactureFailure s origWantreply) (OnlyEffects s) := by
  unfold manufactureFailure
  split
  · exact sendPacketToDownstream_only
  · exact ensures_ok.mpr .refl

end Sending

/-! ## X channels -/

section Xchannels

variable {s : Sharing} {a : ℕ} {xc : ShareXchannel}

theorem shareAddXchannel_only {upstreamId serverId window : UInt32} :
    OnlyXchannels s (shareAddXchannel s upstreamId serverId window).2 := by
  unfold shareAddXchannel
  dsimp only
  split
  · exact ⟨_, _, _, rfl⟩
  · split
    · exact ⟨_, _, _, rfl⟩
    · exact ⟨_, _, _, rfl⟩

theorem deadXchannelAnswer_only {msg : Msg × List UInt8} :
    OnlyEffects s (deadXchannelAnswer s xc msg) := by
  unfold deadXchannelAnswer
  split
  · dsimp only
    split
    · exact onlyEffects_emit
    · exact .refl
  · exact .refl

theorem shareDeadXchannelRespond_only :
    Ensures (shareDeadXchannelRespond s a) (OnlyXchannels s) := by
  unfold shareDeadXchannelRespond
  refine ensures_deref.bind ?_
  rintro ⟨b, xc⟩ -
  have hanswers : OnlyEffects s (xc.msgs.foldl (fun s msg => deadXchannelAnswer s xc msg) s) :=
    onlyEffects_foldl fun _ _ => deadXchannelAnswer_only
  dsimp only
  split
  · exact ensures_ok.mpr (hanswers.xchannels.trans ⟨_, _, _, rfl⟩)
  · exact ensures_ok.mpr (hanswers.xchannels.trans ⟨_, _, _, rfl⟩)

theorem shareXchannelFailure_only : Ensures (shareXchannelFailure s a xc) (OnlyXchannels s) := by
  unfold shareXchannelFailure
  refine shareDeadXchannelRespond_only.mono ?_
  intro s' h
  exact OnlyXchannels.trans ⟨_, _, _, rfl⟩ h

theorem shareXchannelConfirmation_only {chan : Option ℕ} {downstreamWindow : UInt32} :
    Ensures (shareXchannelConfirmation s xc chan downstreamWindow) (OnlyEffects s) := by
  unfold shareXchannelConfirmation
  refine Ensures.bind (P := OnlyEffects s) (Ensures.foldlM ?_ .refl) ?_
  · intro s' msg _ h
    refine Ensures.bind (P := fun _ => True) (fun _ _ => trivial) ?_
    intro data _
    exact sendPacketToDownstream_only.mono fun _ => h.trans
  · intro s' h
    exact ensures_ok.mpr (h.trans onlyEffects_emit)

end Xchannels

/-! ## Forwardings -/

section Forwardings

variable {s : Sharing} {a : ℕ} {address : HostPort}

theorem sshRportfwdAlloc_only {shareCtx : Option ℕ} :
    OnlyForwardings s (sshRportfwdAlloc s address shareCtx).2 := by
  unfold sshRportfwdAlloc
  dsimp only
  split
  · exact ⟨_, _, _, _, _, rfl⟩
  · exact ⟨_, _, _, _, _, rfl⟩

theorem sshRportfwdRemove_only {rpf : Option ℕ} :
    Ensures (sshRportfwdRemove s rpf) (OnlyForwardings s) := by
  unfold sshRportfwdRemove
  refine ensures_deref.bind ?_
  rintro ⟨b, v⟩ -
  dsimp only
  split
  · exact ensures_ok.mpr ⟨_, _, _, _, _, rfl⟩
  · exact ensures_error.mpr trivial

theorem shareAddForwarding_only : OnlyForwardings s (shareAddForwarding s address).2 := by
  unfold shareAddForwarding
  dsimp only
  split
  · exact ⟨_, _, _, _, _, rfl⟩
  · exact ⟨_, _, _, _, _, rfl⟩

theorem shareRemoveForwarding_only {fwd : ℕ} :
    Ensures (shareRemoveForwarding s fwd) (OnlyForwardings s) := by
  unfold shareRemoveForwarding
  refine ensures_deref.bind ?_
  rintro ⟨b, v⟩ -
  exact ensures_ok.mpr ⟨_, _, _, _, _, rfl⟩

theorem queueGlobreq_only {globreq : ShareGlobreq} :
    Ensures (queueGlobreq s globreq) (OnlyForwardings s) := by
  unfold queueGlobreq
  dsimp only
  split
  · refine ensures_deref.bind ?_
    rintro ⟨b, v⟩ -
    exact ensures_ok.mpr ⟨_, _, _, _, _, rfl⟩
  · exact ensures_ok.mpr ⟨_, _, _, _, _, rfl⟩

theorem gotTcpipForward_only {pkt : List UInt8} {wantreplypos : ℕ} {origWantreply : Bool} :
    Ensures (gotTcpipForward s pkt wantreplypos origWantreply address) (OnlyForwardings s) := by
  unfold gotTcpipForward
  have halloc : OnlyForwardings s (sshRportfwdAlloc s address (some s.ctx)).2 :=
    sshRportfwdAlloc_only
  revert halloc
  rcases sshRportfwdAlloc s address (some s.ctx) with ⟨_ | rpf, s1⟩ <;> intro halloc
  · exact manufactureFailure_only.mono fun _ h => halloc.trans h.forwardings
  · dsimp only
    let s0 := s1.sendPacketFromDownstream .globalRequest (pkt.set wantreplypos 1)
    have hadd : OnlyForwardings s0 (shareAddForwarding s0 address).2 := shareAddForwarding_only
    revert hadd
    rcases shareAddForwarding _ address with ⟨_ | fwd, s2⟩ <;> intro hadd
    · refine ensures_ok.mpr ((halloc.trans onlyEffects_emit.forwardings).trans (hadd.trans ?_))
      exact ⟨_, _, _, _, _, rfl⟩
    · dsimp only
      refine queueGlobreq_only.bind ?_
      intro s3 hqueue
      refine ensures_deref.bind ?_
      rintro ⟨b, v⟩ -
      have hlast : OnlyForwardings s2 (sshSharingQueueGlobalRequest s2
          ⟨.tcpipForward, origWantreply, address⟩) := ⟨_, _, _, _, _, rfl⟩
      refine ensures_ok.mpr ((halloc.trans onlyEffects_emit.forwardings).trans
        (hadd.trans (hlast.trans (hqueue.trans ?_))))
      exact ⟨_, _, _, _, _, rfl⟩

theorem gotCancelTcpipForward_only {pkt : List UInt8} {wantreplypos : ℕ} {origWantreply : Bool} :
    Ensures (gotCancelTcpipForward s pkt wantreplypos origWantreply address) (OnlyForwardings s) := by
  unfold gotCancelTcpipForward
  cases s.cs.forwardings.find address with
  | none => exact manufactureFailure_only.mono fun _ h => h.forwardings
  | some fwd =>
    refine ensures_deref.bind ?_
    rintro ⟨b, v⟩ -
    refine sshRportfwdRemove_only.bind ?_
    intro s1 hremove
    refine queueGlobreq_only.mono ?_
    intro s2 hqueue
    exact hremove.trans (OnlyForwardings.trans ⟨_, _, _, _, _, rfl⟩ hqueue)

theorem gotGlobalRequest_only {pkt : List UInt8} :
    Ensures (gotGlobalRequest s pkt) fun r => OnlyForwardings s r.1 := by
  unfold gotGlobalRequest
  dsimp only
  split
  · split
    · exact ensures_ok.mpr OnlyEffects.refl.forwardings
    · exact gotTcpipForward_only.bind fun s' h => ensures_ok.mpr h
  · split
    · split
      · exact ensures_ok.mpr OnlyEffects.refl.forwardings
      · exact gotCancelTcpipForward_only.bind fun s' h => ensures_ok.mpr h
    · exact manufactureFailure_only.bind fun s' h => ensures_ok.mpr h.forwardings

theorem cleanupForwarding_only : Ensures (cleanupForwarding s a) (OnlyForwardings s) := by
  unfold cleanupForwarding
  refine ensures_deref.bind ?_
  rintro ⟨b, fwd⟩ -
  dsimp only
  split
  · refine sshRportfwdRemove_only.bind ?_
    intro s1 hremove
    refine shareRemoveForwarding_only.mono ?_
    intro s2 hfree
    exact onlyEffects_emit.forwardings.trans (hremove.trans hfree)
  · exact ensures_ok.mpr OnlyEffects.refl.forwardings

end Forwardings

/-! ## Channels -/

section Channels

variable {s : Sharing} {a : ℕ} {chan : ShareChannel}

theorem shareAddChannel_only {downstreamId upstreamId serverId : UInt32} {state : ChannelState}
    {maxpkt : ℤ} :
    OnlyChannels s (shareAddChannel s downstreamId upstreamId serverId state maxpkt).2 := by
  unfold shareAddChannel
  dsimp only
  split
  · exact ⟨_, _, _, rfl⟩
  · split
    · exact ⟨_, _, _, rfl⟩
    · split
      · exact ⟨_, _, _, rfl⟩
      · exact ⟨_, _, _, rfl⟩

theorem shareChannelSetServerId_only {serverId : UInt32} :
    OnlyChannels s (shareChannelSetServerId s a chan serverId) := by
  unfold shareChannelSetServerId
  dsimp only
  split
  · exact ⟨_, _, _, rfl⟩
  · exact ⟨_, _, _, rfl⟩

theorem shareRemoveChannel_only : OnlyChannels s (shareRemoveChannel s a chan) := by
  unfold shareRemoveChannel
  dsimp only
  split
  · exact ⟨_, _, _, rfl⟩
  · exact ⟨_, _, _, rfl⟩

theorem passOn_only {type : Msg} {pkt : List UInt8} {serverId : UInt32} :
    Ensures (passOn s type pkt serverId) fun r => OnlyChannels s r.1 := by
  unfold passOn
  dsimp only
  split
  · split
    · exact ensures_ok.mpr onlyEffects_emit.channels
    · refine ensures_deref.bind ?_
      rintro ⟨b, chan⟩ -
      dsimp only
      split
      · exact ensures_ok.mpr (OnlyChannels.trans ⟨_, _, _, rfl⟩ shareRemoveChannel_only)
      · exact ensures_ok.mpr ⟨_, _, _, rfl⟩
  · exact ensures_ok.mpr onlyEffects_emit.channels

theorem refuseRequest_only : Ensures (refuseRequest s chan) fun r => OnlyEffects s r.1 := by
  unfold refuseRequest
  exact sendPacketToDownstream_only.bind fun s' h => ensures_ok.mpr h

theorem gotX11Req_only {env : Env} {src : BinarySource} {serverId : UInt32} :
    Ensures (gotX11Req env s src serverId) fun r => OnlyChannels s r.1 := by
  unfold gotX11Req
  split
  · exact ensures_ok.mpr OnlyEffects.refl.channels
  · refine ensures_deref.bind ?_
    rintro ⟨b, chan⟩ -
    dsimp only
    split
    · exact ensures_ok.mpr OnlyEffects.refl.channels
    · split
      · exact refuseRequest_only.mono fun _ h => h.channels
      · exact ensures_ok.mpr ⟨_, _, _, rfl⟩

theorem gotChannelMessage_only {env : Env} {type : Msg} {pkt : List UInt8} :
    Ensures (gotChannelMessage env s type pkt) fun r => OnlyChannels s r.1 := by
  unfold gotChannelMessage
  dsimp only
  split
  · split
    · split
      · refine ensures_deref.bind ?_
        rintro ⟨b, chan⟩ -
        exact refuseRequest_only.mono fun _ h => h.channels
      · exact ensures_ok.mpr OnlyEffects.refl.channels
    · split
      · exact gotX11Req_only
      · exact passOn_only
  · exact passOn_only

theorem gotChannelOpen_only {pkt : List UInt8} :
    Ensures (gotChannelOpen s pkt) fun r => OnlyChannels s r.1 := by
  unfold gotChannelOpen
  dsimp only
  split
  · exact ensures_ok.mpr ⟨_, _, _, rfl⟩
  · have halloc : OnlyChannels s (sshAllocSharingChannel s).2 := ⟨_, _, _, rfl⟩
    exact ensures_ok.mpr ((halloc.trans shareAddChannel_only).trans onlyEffects_emit.channels)

end Channels

end PuttyNd.Share

/-!
## Proofs: the pieces of the data for a downstream
-/

namespace PuttyNd.Share

open Psftp Outcome

variable {s : Sharing} {pkt data : List UInt8} {a m rounds : ℕ} {chan : ShareChannel} {maxpkt : UInt32}

/-! ## The loop -/

/-- Every round takes something, so the loop ends, and the pieces are the data. -/
theorem chop_spec (hm : 0 < m ∨ data = []) (hrounds : data.length < rounds) :
    ∃ pieces, chop m rounds data = .ok pieces ∧ pieces.flatten = data ∧
      ∀ piece ∈ pieces, piece.length ≤ m := by
  induction rounds generalizing data with
  | zero => exact absurd hrounds (Nat.not_lt_zero _)
  | succ rounds ih =>
    unfold chop
    dsimp only
    by_cases hlong : data.length > m
    · have hpos : 0 < m := by
        rcases hm with h | h
        · exact h
        · rw [h] at hlong
          exact absurd hlong (Nat.not_lt_zero _)
      have hleft : (data.drop m).length > 0 := by
        rw [List.length_drop]
        omega
      rw [if_pos hlong, if_pos hleft]
      obtain ⟨pieces, hchop, hflat, hlen⟩ := @ih (data.drop m) (Or.inl hpos) (by
        rw [List.length_drop]
        omega)
      refine ⟨data.take m :: pieces, ?_, ?_, ?_⟩
      · rw [hchop]
        rfl
      · rw [List.flatten_cons, hflat, List.take_append_drop]
      · intro piece hpiece
        rcases List.mem_cons.mp hpiece with rfl | hpiece
        · exact List.length_take_le _ _
        · exact hlen piece hpiece
    · rw [if_neg hlong, List.drop_length, List.take_length]
      refine ⟨[data], rfl, ?_, ?_⟩
      · simp
      · intro piece hpiece
        rw [List.mem_singleton.mp hpiece]
        omega

/-- A round that takes nothing is followed by the same round. -/
theorem chop_zero (hdata : data ≠ []) (rounds : ℕ) : chop 0 rounds data = .error .endlessLoop := by
  have hpos := List.length_pos_iff.mpr hdata
  induction rounds with
  | zero => rfl
  | succ rounds ih =>
    unfold chop
    dsimp only
    rw [if_pos hpos, List.drop_zero, if_pos hpos, ih]
    rfl

/-! ## The maximum -/

/-- A maximum that is negative as an `int` is never reached. -/
theorem sizeT_toInt (maxpkt : UInt32) : sizeT maxpkt.toBitVec.toInt =
    if maxpkt.toNat < 2 ^ 31 then maxpkt.toNat else 2 ^ 64 - 2 ^ 32 + maxpkt.toNat := by
  have hlt := maxpkt.toNat_lt
  have htoInt : maxpkt.toBitVec.toInt =
      if 2 * maxpkt.toNat < 2 ^ 32 then (maxpkt.toNat : ℤ) else (maxpkt.toNat : ℤ) - (2 ^ 32 : ℕ) :=
    BitVec.toInt_eq_toNat_cond _
  unfold sizeT
  rw [htoInt]
  by_cases h : maxpkt.toNat < 2 ^ 31
  · rw [if_pos (by omega), if_pos h]
    omega
  · rw [if_neg (by omega), if_neg h]
    omega

/-! ## The packet -/

/-- The channel that a `CHANNEL_DATA` is for -/
def packetChannel (pkt : List UInt8) : UInt32 := (getUint32 ⟨pkt, false⟩).1

/-- The data in a `CHANNEL_DATA` -/
def packetData (pkt : List UInt8) : List UInt8 := (getString (getUint32 ⟨pkt, false⟩).2).1

theorem avail_data_length (src : BinarySource) (wanted : ℕ) :
    (avail src wanted).2.data.length ≤ src.data.length := by
  unfold avail
  split_ifs
  · exact Nat.le_refl _
  · simp
  · exact Nat.le_refl _

theorem getUint32_data_length (src : BinarySource) :
    (getUint32 src).2.data.length ≤ src.data.length := by
  have h := avail_data_length src 4
  unfold getUint32
  split <;> simp_all

theorem getString_length (src : BinarySource) : (getString src).1.length ≤ src.data.length := by
  have h := avail_data_length src 4
  unfold getString
  split
  · rename_i rest hrest
    rw [hrest] at h
    dsimp only
    split
    · exact Nat.le_trans (List.length_take_le' _ _) h
    · exact Nat.zero_le _
  · exact Nat.zero_le _

theorem packetData_length (pkt : List UInt8) : (packetData pkt).length ≤ pkt.length :=
  Nat.le_trans (getString_length _) (getUint32_data_length _)

/-- The packet with a piece of the data -/
def dataWrite (pkt piece : List UInt8) : Effect :=
  .skWrite (downstreamPacket .channelData (putUint32 (packetChannel pkt) ++ putString piece))

/-- The data are written in packets with at most as many bytes each, one after the other. -/
def Delivers (s : Sharing) (pkt : List UInt8) (a : ℕ) (maxpkt : UInt32) : Prop :=
  ∃ pieces : List (List UInt8), sendPacketToDownstream s .channelData pkt (some a) =
      .ok { s with effects := s.effects ++ pieces.map (dataWrite pkt) } ∧
    (∀ piece ∈ pieces, piece.length ≤ maxpkt.toNat) ∧ pieces.flatten = packetData pkt

theorem foldl_emit (f : List UInt8 → Effect) (pieces : List (List UInt8)) (s : Sharing) :
    pieces.foldl (fun s piece => s.emit (f piece)) s =
      { s with effects := s.effects ++ pieces.map f } := by
  induction pieces generalizing s with
  | nil => simp
  | cons piece pieces ih =>
    rw [List.foldl_cons, ih]
    simp [Sharing.emit]

theorem sendPacketToDownstream_chop (hsock : s.cs.sock = true)
    (ha : s.cs.channels.heap.cell a = some chan) :
    sendPacketToDownstream s .channelData pkt (some a) =
      (chop (sizeT chan.downstreamMaxpkt) ((packetData pkt).length + 1) (packetData pkt)).map
        fun pieces => { s with effects := s.effects ++ pieces.map (dataWrite pkt) } := by
  unfold sendPacketToDownstream deref
  rw [if_neg (by rw [hsock]; exact not_not.mpr rfl), if_pos rfl]
  simp only [ha, ok_bind]
  show (chop _ ((packetData pkt).length + 1) (packetData pkt) >>= _) = _
  cases chop (sizeT chan.downstreamMaxpkt) ((packetData pkt).length + 1) (packetData pkt) with
  | error e => rfl
  | ok pieces =>
    rw [ok_bind, foldl_emit]
    rfl

/-- For any maximum that a downstream announced, a packet of data is delivered exactly when the maximum is
not zero or there are no data. -/
theorem delivers_iff (hsock : s.cs.sock = true) (ha : s.cs.channels.heap.cell a = some chan)
    (hmax : chan.downstreamMaxpkt = maxpkt.toBitVec.toInt) (hpkt : pkt.length < 2 ^ 31) :
    Delivers s pkt a maxpkt ↔ maxpkt ≠ 0 ∨ packetData pkt = [] := by
  have hlen := packetData_length pkt
  unfold Delivers
  rw [sendPacketToDownstream_chop hsock ha, hmax, sizeT_toInt]
  constructor
  · rintro ⟨pieces, hsend, -, -⟩
    by_contra hnot
    obtain ⟨hzero, hdata⟩ := not_or.mp hnot
    have hzero : maxpkt = 0 := not_not.mp hzero
    subst hzero
    rw [if_pos (by decide), show (0 : UInt32).toNat = 0 from rfl, chop_zero hdata] at hsend
    cases hsend
  · intro h
    by_cases hsmall : maxpkt.toNat < 2 ^ 31
    · rw [if_pos hsmall]
      have hpos : 0 < maxpkt.toNat ∨ packetData pkt = [] := by
        refine h.imp_left fun hne => Nat.pos_of_ne_zero fun h0 => hne ?_
        exact UInt32.toNat_inj.mp h0
      obtain ⟨pieces, hchop, hflat, hle⟩ := chop_spec hpos (Nat.lt_succ_self _)
      exact ⟨pieces, by rw [hchop]; rfl, hle, hflat⟩
    · rw [if_neg hsmall]
      obtain ⟨pieces, hchop, hflat, hle⟩ := @chop_spec (packetData pkt) (2 ^ 64 - 2 ^ 32 + maxpkt.toNat)
        _ (Or.inl (by omega)) (Nat.lt_succ_self _)
      refine ⟨pieces, by rw [hchop]; rfl, fun piece hpiece => ?_, hflat⟩
      have hpiece := (List.sublist_flatten_of_mem hpiece).length_le
      rw [hflat] at hpiece
      omega

/-- A downstream opens a session and announces a maximum. -/
def openWith (maxpkt : UInt32) : ShareEvent :=
  .downstream ⟨false, []⟩ .channelOpen
    (putString (ascii "session") ++ putUint32 0 ++ putUint32 16384 ++ putUint32 maxpkt)

/-- Three bytes for a channel -/
def threeBytes : List UInt8 := putUint32 256 ++ putString [97, 98, 99]

/-- Packets with two bytes and with one -/
theorem delivers_two : ∃ s, shareRun .init [openWith 2] = .ok s ∧ Delivers s threeBytes 0 2 :=
  ⟨_, rfl, (delivers_iff rfl rfl rfl (by decide)).mpr (Or.inl (by decide))⟩

/-- A downstream that announces 0 makes the loop write packets without data for ever. -/
theorem data_endless : ∃ s, shareRun .init [openWith 0] = .ok s ∧
    shareStep s (.server .channelData threeBytes) = .error .endlessLoop ∧
    ¬ Delivers s threeBytes 0 0 ∧
    ∀ rounds, chop 0 rounds (packetData threeBytes) = .error .endlessLoop := by
  refine ⟨_, rfl, rfl, ?_, chop_zero (by decide)⟩
  rintro ⟨_, hsend, -, -⟩
  cases hsend

end PuttyNd.Share
