import PuttyNd.Share.Proofs.FrameProofs

/-!
# Proofs: the indexes of the channels

Every operation keeps both indexes right, apart from three messages from the server; a channel that is
acknowledged stays so until it is freed.
-/

namespace PuttyNd.Share

open Outcome Psftp Function Index

/-! ## What the indexes should be -/

/-- A channel is in `channels_by_us`, and found there; it is in `channels_by_server`, and found there,
exactly when it is acknowledged; and the trees have no channel that was freed. -/
structure ChannelsFound (c : Channels) : Prop where
  us : ∀ a v, c.heap.cell a = some v → a ∈ c.byUs ∧ c.findUs v.upstreamId = some a
  us_live : ∀ a ∈ c.byUs, c.heap.cell a ≠ none
  server : ∀ a v, c.heap.cell a = some v → v.state ≠ .unacknowledged →
    a ∈ c.byServer ∧ c.findServer v.serverId = some a
  server_unacknowledged : ∀ a v, c.heap.cell a = some v → v.state = .unacknowledged → a ∉ c.byServer
  server_live : ∀ a ∈ c.byServer, c.heap.cell a ≠ none

/-- A channel that is still there is in each of the trees in which it was. -/
def ChannelsKept (c c' : Channels) : Prop :=
  ∀ a, a < c.heap.next → c'.heap.cell a ≠ none →
    (a ∈ c.byUs → a ∈ c'.byUs) ∧ (a ∈ c.byServer → a ∈ c'.byServer)

/-- The indexes are right; that of `server_id`s is so as long as the server is orderly. -/
structure ChannelIndexes (orderly : Prop) (c : Channels) : Prop where
  us : IsIndex c.heap.cell ShareChannel.upstreamId (fun _ => True) c.byUs
  server : orderly →
    IsIndex c.heap.cell ShareChannel.serverId (fun v => v.state ≠ .unacknowledged) c.byServer

/-- A channel that is still there is acknowledged if it was. -/
structure Evolves (c c' : Channels) : Prop where
  next : c.heap.next ≤ c'.heap.next
  acknowledged : ∀ a v', a < c.heap.next → c'.heap.cell a = some v' →
    ∃ v, c.heap.cell a = some v ∧ (v.state ≠ .unacknowledged → v'.state ≠ .unacknowledged)

/-- The indexes are right afterwards. -/
structure Good (orderly : Prop) (c c' : Channels) : Prop where
  indexes : ChannelIndexes orderly c'
  evolves : Evolves c c'

section Indexes

variable {orderly : Prop} {c c' c'' : Channels} {a : ℕ} {chan w : ShareChannel}

theorem ChannelIndexes.found (h : ChannelIndexes True c) : ChannelsFound c where
  us := fun a v ha => ⟨h.us.mem_of ha trivial, h.us.find_self ha trivial⟩
  us_live := by
    intro a ha
    obtain ⟨v, hv, -⟩ := (h.us.mem a).mp ha
    simp [hv]
  server := fun a v ha hv =>
    ⟨(h.server trivial).mem_of ha hv, (h.server trivial).find_self ha hv⟩
  server_unacknowledged := fun a v ha hv => (h.server trivial).not_mem_of ha fun hne => hne hv
  server_live := by
    intro a ha
    obtain ⟨v, hv, -⟩ := ((h.server trivial).mem a).mp ha
    simp [hv]

theorem Evolves.refl : Evolves c c where
  next := Nat.le_refl _
  acknowledged := fun _ v' _ h => ⟨v', h, id⟩

theorem Evolves.trans (h : Evolves c c') (h' : Evolves c' c'') : Evolves c c'' where
  next := h.next.trans h'.next
  acknowledged := by
    intro a v'' ha hv''
    obtain ⟨v', hv', hack'⟩ := h'.acknowledged a v'' (ha.trans_le h.next) hv''
    obtain ⟨v, hv, hack⟩ := h.acknowledged a v' ha hv'
    exact ⟨v, hv, fun hne => hack' (hack hne)⟩

theorem Good.refl (h : ChannelIndexes orderly c) : Good orderly c c := ⟨h, .refl⟩

theorem Good.trans (h : Good orderly c c') (h' : Good orderly c' c'') : Good orderly c c'' :=
  ⟨h'.indexes, h.evolves.trans h'.evolves⟩

theorem ChannelIndexes.kept (h : ChannelIndexes True c) (h' : Good True c c') : ChannelsKept c c' := by
  intro a ha hlive
  obtain ⟨v', hv'⟩ := Option.ne_none_iff_exists'.mp hlive
  obtain ⟨v, hv, hack⟩ := h'.evolves.acknowledged a v' ha hv'
  refine ⟨fun _ => h'.indexes.us.mem_of hv' trivial, ?_⟩
  intro hmem
  obtain ⟨w, hw, hne⟩ := ((h.server trivial).mem a).mp hmem
  rw [hv] at hw
  cases hw
  exact (h'.indexes.server trivial).mem_of hv' (hack hne)

/-- A channel is written, and what it is found by stays as it is. -/
theorem ChannelIndexes.set (h : ChannelIndexes orderly c) (ha : c.heap.cell a = some chan)
    (hus : w.upstreamId = chan.upstreamId) (hserver : w.serverId = chan.serverId)
    (hacknowledged : chan.state ≠ .unacknowledged → w.state ≠ .unacknowledged)
    (hstate : orderly → w.state ≠ .unacknowledged → chan.state ≠ .unacknowledged) :
    Good orderly c ⟨c.heap.set a w, c.byUs, c.byServer⟩ where
  indexes := by
    constructor <;> dsimp only <;> rw [Heap.cell_set ha]
    · exact h.us.update_same ha hus Iff.rfl
    · intro ho
      exact (h.server ho).update_same ha hserver ⟨hstate ho, hacknowledged⟩
  evolves := by
    refine ⟨Nat.le_refl _, ?_⟩
    intro b v' _ hv'
    rw [Heap.cell_set ha] at hv'
    by_cases hba : b = a
    · rw [hba, update_self] at hv'
      cases hv'
      exact ⟨chan, hba ▸ ha, hacknowledged⟩
    · rw [update_of_ne hba] at hv'
      exact ⟨v', hv', id⟩

theorem evolves_free {byUs byServer : List ℕ} : Evolves c ⟨c.heap.free a, byUs, byServer⟩ where
  next := Nat.le_refl _
  acknowledged := by
    intro b v' _ hv'
    dsimp only at hv'
    rw [Heap.cell_free] at hv'
    by_cases hba : b = a
    · rw [hba, update_self] at hv'
      cases hv'
    · rw [update_of_ne hba] at hv'
      exact ⟨v', hv', id⟩

theorem evolves_alloc {byUs byServer : List ℕ} : Evolves c ⟨c.heap.alloc w, byUs, byServer⟩ where
  next := Nat.le_succ _
  acknowledged := by
    intro b v' hb hv'
    dsimp only at hv'
    rw [Heap.cell_alloc, update_of_ne (Nat.ne_of_lt hb)] at hv'
    exact ⟨v', hv', id⟩

end Indexes

/-! ## The operations on channels -/

section Operations

variable {orderly : Prop} {s : Sharing} {a : ℕ} {chan : ShareChannel}

theorem setChannelState_good (h : ChannelIndexes orderly s.cs.channels)
    (ha : s.cs.channels.heap.cell a = some chan) {state : ChannelState}
    (hstate : state ≠ .unacknowledged) (hchan : orderly → chan.state ≠ .unacknowledged) :
    Good orderly s.cs.channels (setChannelState s a chan state).cs.channels :=
  h.set ha rfl rfl (fun _ => hstate) fun ho _ => hchan ho

/-- A channel is removed; if it is not in `channels_by_server`, then nothing is found there by what its
`server_id` is. -/
theorem shareRemoveChannel_good (h : ChannelIndexes orderly s.cs.channels)
    (ha : s.cs.channels.heap.cell a = some chan)
    (hserver : orderly → chan.state = .unacknowledged →
      s.cs.channels.findServer chan.serverId = none) :
    Good orderly s.cs.channels (shareRemoveChannel s a chan).cs.channels := by
  have hgood : Good orderly s.cs.channels
      ⟨s.cs.channels.heap.free a,
        del s.cs.channels.heap.cell ShareChannel.upstreamId chan.upstreamId s.cs.channels.byUs,
        del s.cs.channels.heap.cell ShareChannel.serverId chan.serverId s.cs.channels.byServer⟩ := by
    refine ⟨⟨?_, ?_⟩, evolves_free⟩
    · exact h.us.free_del ha trivial
    · intro ho
      by_cases hstate : chan.state = .unacknowledged
      · have hdel : del s.cs.channels.heap.cell ShareChannel.serverId chan.serverId
            s.cs.channels.byServer = s.cs.channels.byServer := by
          unfold del
          rw [show find _ _ _ _ = none from hserver ho hstate]
        rw [hdel]
        exact (h.server ho).update_out ((h.server ho).not_mem_of ha fun hne => hne hstate)
          fun v hv => nomatch hv
      · exact (h.server ho).free_del ha hstate
  unfold shareRemoveChannel
  cases chan.x11AuthUpstream with
  | none => exact hgood
  | some auth => exact hgood

theorem shareChannelSetServerId_good (h : ChannelIndexes orderly s.cs.channels)
    (ha : s.cs.channels.heap.cell a = some chan) {serverId : UInt32}
    (hchan : chan.state = .unacknowledged)
    (hserver : orderly → s.cs.channels.findServer serverId = none) :
    Good orderly s.cs.channels (shareChannelSetServerId s a chan serverId).cs.channels := by
  let w : ShareChannel := { chan with serverId := serverId, state := .open }
  have hw : w.state ≠ .unacknowledged := by simp [w]
  have hcell : (s.cs.channels.heap.set a w).cell = update s.cs.channels.heap.cell a (some w) :=
    Heap.cell_set ha
  have hus : IsIndex (s.cs.channels.heap.set a w).cell ShareChannel.upstreamId (fun _ => True)
      s.cs.channels.byUs := by
    rw [hcell]
    exact h.us.update_same ha rfl Iff.rfl
  have hevolves : ∀ byServer, Evolves s.cs.channels
      ⟨s.cs.channels.heap.set a w, s.cs.channels.byUs, byServer⟩ := by
    refine fun byServer => ⟨Nat.le_refl _, ?_⟩
    intro b v' _ hv'
    dsimp only at hv'
    rw [hcell] at hv'
    by_cases hba : b = a
    · exact ⟨chan, hba ▸ ha, fun hne => absurd hchan hne⟩
    · rw [update_of_ne hba] at hv'
      exact ⟨v', hv', id⟩
  -- When the server is orderly, the channel is added.
  have hcases : orderly → ∃ byServer,
      add (s.cs.channels.heap.set a w).cell ShareChannel.serverId serverId a s.cs.channels.byServer =
        some byServer ∧
      IsIndex (s.cs.channels.heap.set a w).cell ShareChannel.serverId
        (fun v => v.state ≠ .unacknowledged) byServer := by
    intro ho
    rw [hcell]
    have hout : a ∉ s.cs.channels.byServer := (h.server ho).not_mem_of ha fun hne => hne hchan
    rcases (h.server ho).add_cases hout hw with ⟨-, hfound⟩ | ⟨t, hadd, -, hindex⟩
    · exact absurd (hserver ho) hfound
    · exact ⟨t, hadd, hindex⟩
  unfold shareChannelSetServerId
  dsimp only
  split
  · next hadd =>
    refine ⟨⟨hus, ?_⟩, hevolves _⟩
    intro ho
    obtain ⟨byServer, hadd', -⟩ := hcases ho
    exact absurd (hadd.symm.trans hadd') (by simp)
  · next byServer hadd =>
    refine ⟨⟨hus, ?_⟩, hevolves _⟩
    intro ho
    obtain ⟨byServer', hadd', hindex⟩ := hcases ho
    have heq : byServer = byServer' := Option.some.inj (hadd.symm.trans hadd')
    rw [heq]
    exact hindex

/-- A channel that could not be added leaves nothing. -/
theorem evolves_alloc_free {c : Channels} {v : ShareChannel} {byUs byServer : List ℕ} :
    Evolves c ⟨(c.heap.alloc v).free c.heap.next, byUs, byServer⟩ :=
  have halloc : Evolves c ⟨c.heap.alloc v, c.byUs, c.byServer⟩ := evolves_alloc
  halloc.trans evolves_free

theorem shareAddChannel_good (h : ChannelIndexes orderly s.cs.channels)
    {downstreamId upstreamId serverId : UInt32} {state : ChannelState} {maxpkt : ℤ} :
    Good orderly s.cs.channels
      (shareAddChannel s downstreamId upstreamId serverId state maxpkt).2.cs.channels := by
  let v : ShareChannel := ⟨downstreamId, upstreamId, serverId, maxpkt, state, none, false⟩
  have hus : s.cs.channels.heap.next ∉ s.cs.channels.byUs := h.us.not_mem_of_none Heap.cell_next
  have hserver : orderly → s.cs.channels.heap.next ∉ s.cs.channels.byServer :=
    fun ho => (h.server ho).not_mem_of_none Heap.cell_next
  have hfail : ChannelIndexes orderly
      ⟨(s.cs.channels.heap.alloc v).free s.cs.channels.heap.next, s.cs.channels.byUs,
        s.cs.channels.byServer⟩ := by
    constructor <;> dsimp only <;> rw [Heap.cell_alloc_free]
    · exact h.us
    · exact h.server
  unfold shareAddChannel
  dsimp only
  rcases h.us.add_cases hus (v := v) trivial with ⟨hadd, -⟩ | ⟨byUs, hadd, -, hindex⟩
  · have hadd : add (s.cs.channels.heap.alloc v).cell ShareChannel.upstreamId upstreamId
        s.cs.channels.heap.next s.cs.channels.byUs = none := hadd
    rw [hadd]
    exact ⟨hfail, evolves_alloc_free⟩
  · have hadd : add (s.cs.channels.heap.alloc v).cell ShareChannel.upstreamId upstreamId
        s.cs.channels.heap.next s.cs.channels.byUs = some byUs := hadd
    rw [hadd]
    dsimp only
    by_cases hstate : state = .unacknowledged
    · rw [if_pos hstate]
      refine ⟨⟨hindex, ?_⟩, evolves_alloc⟩
      intro ho
      refine (h.server ho).update_out (hserver ho) ?_
      intro w hw hne
      cases hw
      exact hne hstate
    · rw [if_neg hstate]
      split
      · refine ⟨⟨hindex.free_del (v := v) (update_self _ _ _) trivial, hfail.server⟩, ?_⟩
        exact evolves_alloc_free
      · next byServer hadd' =>
        refine ⟨⟨hindex, ?_⟩, evolves_alloc⟩
        intro ho
        rcases (h.server ho).add_cases (hserver ho) (v := v) hstate with
          ⟨hnone, -⟩ | ⟨byServer', hsome, -, hindex'⟩
        · exact absurd (hnone.symm.trans hadd') (by simp)
        · have heq : byServer = byServer' := Option.some.inj (hadd'.symm.trans hsome)
          rw [heq]
          exact hindex'

end Operations

/-! ## Cleaning up -/

section Cleanup

variable {orderly : Prop} {s s' : Sharing} {a : ℕ}

theorem OnlyEffects.channels_eq (h : OnlyEffects s s') : s'.cs.channels = s.cs.channels := by
  obtain ⟨_, rfl⟩ := h
  rfl

theorem OnlyXchannels.channels_eq (h : OnlyXchannels s s') : s'.cs.channels = s.cs.channels := by
  obtain ⟨_, _, _, rfl⟩ := h
  rfl

theorem OnlyForwardings.channels_eq (h : OnlyForwardings s s') : s'.cs.channels = s.cs.channels := by
  obtain ⟨_, _, _, _, _, rfl⟩ := h
  rfl

theorem cleanupChannel_good (h : ChannelIndexes orderly s.cs.channels) :
    Ensures (cleanupChannel s a) fun s' => Good orderly s.cs.channels s'.cs.channels := by
  unfold cleanupChannel
  refine deref_bind ?_
  intro chan hchan
  dsimp only
  split
  · next hstate =>
    let s1 := s.sendPacketFromDownstream .channelClose (putUint32 chan.serverId)
    split
    · exact ensures_ok.mpr (setChannelState_good (s := s1) h hchan (by simp) fun _ => hstate.2)
    · exact ensures_ok.mpr (shareRemoveChannel_good
        (s := sshDeleteSharingChannel s1 chan.upstreamId) h hchan fun _ hun => absurd hun hstate.2)
  · exact ensures_ok.mpr (.refl h)

theorem cleanupHalfchannels_channels {l : List UInt32} :
    (l.foldl cleanupHalfchannel s).cs.channels = s.cs.channels := by
  induction l generalizing s with
  | nil => rfl
  | cons id l ih =>
    rw [List.foldl_cons, ih]
    rfl

theorem shareTryCleanup_good (h : ChannelIndexes orderly s.cs.channels) :
    Ensures (shareTryCleanup s) fun s' => Good orderly s.cs.channels s'.cs.channels := by
  unfold shareTryCleanup
  have hstart : Good orderly s.cs.channels (s.cs.halfchannels.foldl cleanupHalfchannel s).cs.channels := by
    rw [cleanupHalfchannels_channels]
    exact .refl h
  refine Ensures.bind (P := fun s' => Good orderly s.cs.channels s'.cs.channels)
    (Ensures.foldlM ?_ hstart) ?_
  · intro s1 a _ hgood
    exact (cleanupChannel_good hgood.indexes).mono fun s2 => hgood.trans
  · intro s1 hgood
    refine Ensures.bind (P := fun s' => Good orderly s.cs.channels s'.cs.channels)
      (Ensures.foldlM ?_ hgood) ?_
    · intro s2 a _ hgood2
      refine cleanupForwarding_only.mono ?_
      intro s3 honly
      rw [honly.channels_eq]
      exact hgood2
    · intro s2 hgood2
      split
      · exact ensures_ok.mpr hgood2
      · exact ensures_ok.mpr hgood2

theorem shareBeginCleanup_good (h : ChannelIndexes orderly s.cs.channels) :
    Ensures (shareBeginCleanup s) fun s' => Good orderly s.cs.channels s'.cs.channels := by
  unfold shareBeginCleanup
  split
  · exact shareTryCleanup_good (s := { s with cs := { s.cs with sock := false } }) h
  · exact ensures_error.mpr trivial

theorem shareDisconnect_good (h : ChannelIndexes orderly s.cs.channels) {message : List UInt8} :
    Ensures (shareDisconnect s message) fun s' => Good orderly s.cs.channels s'.cs.channels := by
  unfold shareDisconnect
  refine sendPacketToDownstream_only.bind ?_
  intro s1 honly
  rw [← honly.channels_eq] at h ⊢
  exact shareBeginCleanup_good h

end Cleanup

/-! ## Packets from the server -/

/-- The packet is for this channel. -/
def Recipient (s : Sharing) (pkt : List UInt8) (a : ℕ) (chan : ShareChannel) : Prop :=
  s.cs.channels.findUs (getUint32 ⟨pkt, false⟩).1 = some a ∧ s.cs.channels.heap.cell a = some chan

/-- For a channel that is not acknowledged, the server does not send an `OPEN_FAILURE` while the
placeholder in its `server_id` is the `server_id` of another channel, nor an `OPEN_CONFIRMATION` with the
`server_id` of another channel, nor a `CLOSE`. -/
def Orderly (s : Sharing) : ShareEvent → Prop
  | .server type pkt => ∀ a chan, Recipient s pkt a chan → chan.state = .unacknowledged →
      (type = .channelOpenFailure → s.cs.channels.findServer chan.serverId = none) ∧
      (type = .channelOpenConfirmation → pkt.length ≥ 8 →
        s.cs.channels.findServer (get32bitMsbFirst (pkt.drop 4)) = none) ∧
      type ≠ .channelClose
  | _ => True

section Server

variable {orderly : Prop} {s : Sharing} {a : ℕ} {chan : ShareChannel} {type : Msg} {pkt : List UInt8}

theorem gotReplyFromServer_good (h : ChannelIndexes orderly s.cs.channels) {success : Bool} :
    Ensures (gotReplyFromServer s success pkt) fun s' => Good orderly s.cs.channels s'.cs.channels := by
  unfold gotReplyFromServer
  split
  · exact ensures_error.mpr trivial
  · refine ensures_deref.bind ?_
    rintro ⟨b, cell⟩ -
    dsimp only
    refine Ensures.bind (P := OnlyForwardings s) ?_ ?_
    · unfold replyToForwarding
      split
      · exact shareRemoveForwarding_only
      · refine ensures_deref.bind ?_
        rintro ⟨fwd, v⟩ -
        exact ensures_ok.mpr ⟨_, _, _, _, _, rfl⟩
      · exact shareRemoveForwarding_only
      · exact ensures_ok.mpr OnlyEffects.refl.forwardings
    · intro s1 h1
      refine Ensures.bind (P := OnlyForwardings s) ?_ ?_
      · unfold passReply
        split
        · exact sendPacketToDownstream_only.mono fun _ h2 => h1.trans h2.forwardings
        · exact ensures_ok.mpr h1
      · intro s2 h2
        have heq : (freeGlobreq s2 b cell.next).cs.channels = s.cs.channels := h2.channels_eq
        rw [← heq] at h ⊢
        split
        · exact shareTryCleanup_good h
        · exact ensures_ok.mpr (.refl h)

theorem gotChannelOpenFromServer_good (h : ChannelIndexes orderly s.cs.channels) :
    Ensures (gotChannelOpenFromServer s pkt) fun s' => Good orderly s.cs.channels s'.cs.channels := by
  unfold gotChannelOpenFromServer
  dsimp only
  split
  · exact ensures_error.mpr trivial
  · refine sendPacketToDownstream_only.mono ?_
    intro s' honly
    rw [honly.channels_eq]
    unfold shareAddHalfchannel
    split
    · exact .refl h
    · exact .refl h

theorem updateChannel_good (h : ChannelIndexes orderly s.cs.channels)
    (ha : s.cs.channels.heap.cell a = some chan)
    (horderly : orderly → chan.state = .unacknowledged →
      (type = .channelOpenFailure → s.cs.channels.findServer chan.serverId = none) ∧
      (type = .channelOpenConfirmation → pkt.length ≥ 8 →
        s.cs.channels.findServer (get32bitMsbFirst (pkt.drop 4)) = none) ∧
      type ≠ .channelClose) :
    Ensures (updateChannel s a type pkt) fun s' => Good orderly s.cs.channels s'.cs.channels := by
  unfold updateChannel
  refine deref_bind ?_
  intro v hv
  have hvchan : v = chan := Option.some.inj (hv.symm.trans ha)
  rw [hvchan]
  dsimp only
  split
  · split
    · next hcond =>
      have hgood := shareChannelSetServerId_good h ha hcond.1 fun ho => (horderly ho hcond.1).2.1 rfl hcond.2
      split
      · exact (shareTryCleanup_good hgood.indexes).mono fun _ => hgood.trans
      · exact ensures_ok.mpr hgood
    · exact ensures_ok.mpr (.refl h)
  · exact ensures_ok.mpr (shareRemoveChannel_good
      (s := sshDeleteSharingChannel s chan.upstreamId) h ha fun ho hun => (horderly ho hun).1 rfl)
  · split
    · next hstate =>
      have hgood := shareRemoveChannel_good (s := sshDeleteSharingChannel s chan.upstreamId) h ha
        fun _ hun => absurd (hstate.symm.trans hun) (by simp)
      split
      · exact (shareTryCleanup_good hgood.indexes).mono fun _ => hgood.trans
      · exact ensures_ok.mpr hgood
    · exact ensures_ok.mpr (setChannelState_good h ha (by simp) fun ho hun => (horderly ho hun).2.2 rfl)
  · exact ensures_ok.mpr (.refl h)

theorem gotChannelMessageFromServer_good (h : ChannelIndexes orderly s.cs.channels)
    (horderly : orderly → Orderly s (.server type pkt)) :
    Ensures (gotChannelMessageFromServer s type pkt) fun s' =>
      Good orderly s.cs.channels s'.cs.channels := by
  unfold gotChannelMessageFromServer
  dsimp only
  split
  · next a hfind =>
    refine deref_bind ?_
    intro chan hchan
    dsimp only
    split
    · exact ensures_error.mpr trivial
    · refine sendPacketToDownstream_only.bind ?_
      intro s1 honly
      have hcond := fun ho => horderly ho a chan ⟨hfind, hchan⟩
      rw [← honly.channels_eq] at h hchan hcond ⊢
      exact updateChannel_good h hchan hcond
  · split
    · next a _ =>
      refine ensures_deref.bind ?_
      rintro ⟨b, xc⟩ -
      dsimp only
      split
      · refine shareDeadXchannelRespond_only.mono ?_
        intro s' honly
        rw [honly.channels_eq]
        exact .refl h
      · exact ensures_ok.mpr (.refl h)
    · exact ensures_ok.mpr (.refl h)

theorem shareGotPktFromServer_good (h : ChannelIndexes orderly s.cs.channels)
    (horderly : orderly → Orderly s (.server type pkt)) :
    Ensures (shareGotPktFromServer s type pkt) fun s' => Good orderly s.cs.channels s'.cs.channels := by
  unfold shareGotPktFromServer
  split
  · exact ensures_error.mpr trivial
  · split
    · exact gotReplyFromServer_good h
    · exact gotReplyFromServer_good h
    · exact gotChannelOpenFromServer_good h
    all_goals first
      | exact gotChannelMessageFromServer_good h horderly
      | exact ensures_error.mpr trivial

end Server

/-! ## Packets from the downstream -/

section Downstream

variable {orderly : Prop} {s : Sharing} {a : ℕ} {chan : ShareChannel} {type : Msg} {pkt : List UInt8}

theorem gotChannelOpen_good (h : ChannelIndexes orderly s.cs.channels) :
    Ensures (gotChannelOpen s pkt) fun r => Good orderly s.cs.channels r.1.cs.channels := by
  unfold gotChannelOpen
  dsimp only
  split
  · exact ensures_ok.mpr (.refl h)
  · exact ensures_ok.mpr (shareAddChannel_good (s := (sshAllocSharingChannel s).2) h)

theorem gotChannelOpenConfirmation_good (h : ChannelIndexes orderly s.cs.channels) :
    Ensures (gotChannelOpenConfirmation s pkt) fun r => Good orderly s.cs.channels r.1.cs.channels := by
  unfold gotChannelOpenConfirmation
  dsimp only
  split
  · exact ensures_ok.mpr (.refl h)
  · split
    · exact ensures_ok.mpr (shareAddChannel_good (s := (sshAllocSharingChannel s).2) h)
    · split
      · exact ensures_ok.mpr (.refl h)
      · refine ensures_deref.bind ?_
        rintro ⟨b, xc⟩ -
        dsimp only
        split
        · exact ensures_ok.mpr (shareAddChannel_good h)
        · refine shareXchannelConfirmation_only.bind ?_
          intro s' honly
          refine ensures_ok.mpr ?_
          show Good orderly _ s'.cs.channels
          rw [honly.channels_eq]
          exact shareAddChannel_good h

theorem gotChannelOpenFailure_good (h : ChannelIndexes orderly s.cs.channels) :
    Ensures (gotChannelOpenFailure s pkt) fun r => Good orderly s.cs.channels r.1.cs.channels := by
  unfold gotChannelOpenFailure
  dsimp only
  split
  · exact ensures_ok.mpr (.refl h)
  · split
    · exact ensures_ok.mpr (.refl h)
    · split
      · exact ensures_ok.mpr (.refl h)
      · refine ensures_deref.bind ?_
        rintro ⟨b, xc⟩ -
        refine shareXchannelFailure_only.bind ?_
        intro s' honly
        refine ensures_ok.mpr ?_
        show Good orderly _ s'.cs.channels
        rw [honly.channels_eq]
        exact .refl h

theorem passOn_good (h : ChannelIndexes orderly s.cs.channels) {serverId : UInt32} :
    Ensures (passOn s type pkt serverId) fun r => Good orderly s.cs.channels r.1.cs.channels := by
  unfold passOn
  dsimp only
  split
  · split
    · exact ensures_ok.mpr (.refl h)
    · next b hfind =>
      refine deref_bind ?_
      intro chan hchan
      have hacknowledged : orderly → chan.state ≠ .unacknowledged := by
        intro ho
        obtain ⟨v, hv, hne, -⟩ := (h.server ho).find_some hfind
        rwa [Option.some.inj (hchan.symm.trans hv)]
      let s1 := s.sendPacketFromDownstream type pkt
      dsimp only
      split
      · exact ensures_ok.mpr (shareRemoveChannel_good
          (s := sshDeleteSharingChannel s1 chan.upstreamId) h hchan
          fun ho hun => absurd hun (hacknowledged ho))
      · exact ensures_ok.mpr (setChannelState_good (s := s1) h hchan (by simp) hacknowledged)
  · exact ensures_ok.mpr (.refl h)

theorem gotX11Req_good (h : ChannelIndexes orderly s.cs.channels) {env : Env} {src : BinarySource}
    {serverId : UInt32} :
    Ensures (gotX11Req env s src serverId) fun r => Good orderly s.cs.channels r.1.cs.channels := by
  unfold gotX11Req
  split
  · exact ensures_ok.mpr (.refl h)
  · refine deref_bind ?_
    intro chan hchan
    dsimp only
    split
    · exact ensures_ok.mpr (.refl h)
    · split
      · refine refuseRequest_only.mono ?_
        intro r honly
        rw [honly.channels_eq]
        exact .refl h
      · exact ensures_ok.mpr (h.set hchan rfl rfl id fun _ => id)

theorem gotChannelMessage_good (h : ChannelIndexes orderly s.cs.channels) {env : Env} :
    Ensures (gotChannelMessage env s type pkt) fun r => Good orderly s.cs.channels r.1.cs.channels := by
  unfold gotChannelMessage
  dsimp only
  split
  · split
    · split
      · refine ensures_deref.bind ?_
        rintro ⟨b, chan⟩ -
        refine refuseRequest_only.mono ?_
        intro r honly
        rw [honly.channels_eq]
        exact .refl h
      · exact ensures_ok.mpr (.refl h)
    · split
      · exact gotX11Req_good h
      · exact passOn_good h
  · exact passOn_good h

theorem handlePacket_good (h : ChannelIndexes orderly s.cs.channels) {env : Env} :
    Ensures (handlePacket env s type pkt) fun r => Good orderly s.cs.channels r.1.cs.channels := by
  unfold handlePacket
  split
  · refine gotGlobalRequest_only.mono ?_
    intro r honly
    rw [honly.channels_eq]
    exact .refl h
  · exact gotChannelOpen_good h
  · exact gotChannelOpenConfirmation_good h
  · exact gotChannelOpenFailure_good h
  all_goals first
    | exact gotChannelMessage_good h
    | exact ensures_ok.mpr (.refl h)

theorem shareGotPktFromDownstream_good (h : ChannelIndexes orderly s.cs.channels) {env : Env} :
    Ensures (shareGotPktFromDownstream env s type pkt) fun s' =>
      Good orderly s.cs.channels s'.cs.channels := by
  unfold shareGotPktFromDownstream
  split
  · exact ensures_error.mpr trivial
  · split
    · exact shareBeginCleanup_good h
    · refine (handlePacket_good h).bind ?_
      rintro ⟨s1, err⟩ hgood
      cases err with
      | none => exact ensures_ok.mpr hgood
      | some message => exact (shareDisconnect_good hgood.indexes).mono fun _ => hgood.trans

theorem shareSetupX11Channel_good (h : ChannelIndexes orderly s.cs.channels) {x : X11Channel} :
    Ensures (shareSetupX11Channel s x) fun s' => Good orderly s.cs.channels s'.cs.channels := by
  unfold shareSetupX11Channel
  split
  · exact ensures_error.mpr trivial
  · dsimp only
    have hadd : OnlyXchannels s (shareAddXchannel s x.upstreamId x.serverId
      (x.clientAdjustedWindow + UInt32.ofNat x.greeting.length)).2 := shareAddXchannel_only
    revert hadd
    rcases shareAddXchannel s x.upstreamId x.serverId _ with ⟨xc, s1⟩
    intro hadd
    dsimp only at hadd ⊢
    rw [← hadd.channels_eq] at h ⊢
    refine deref_bind ?_
    intro chan hchan
    refine ensures_deref.bind ?_
    rintro ⟨a, xc⟩ -
    dsimp only
    refine sendPacketToDownstream_only.bind ?_
    intro s2 honly
    have heq : s2.cs.channels = s1.cs.channels := honly.channels_eq
    rw [← heq] at h hchan ⊢
    split
    · exact ensures_ok.mpr (.refl h)
    · exact ensures_error.mpr trivial
    · exact ensures_ok.mpr (h.set hchan rfl rfl id fun _ => id)

theorem x11SharingHandover_good (h : ChannelIndexes orderly s.cs.channels) {x : X11Channel} :
    Ensures (x11SharingHandover s x) fun s' => Good orderly s.cs.channels s'.cs.channels := by
  unfold x11SharingHandover
  exact shareSetupX11Channel_good (s := setSharectx s x.upstreamId) h

end Downstream

/-! ## Runs -/

theorem shareStep_good {orderly : Prop} {s : Sharing} {e : ShareEvent} (h : ChannelIndexes orderly s.cs.channels)
    (horderly : orderly → Orderly s e) :
    Ensures (shareStep s e) fun s' => Good orderly s.cs.channels s'.cs.channels := by
  cases e with
  | server type pkt =>
    refine (shareGotPktFromServer_good h horderly).bind ?_
    intro s' hgood
    refine ensures_ok.mpr ?_
    unfold popGlobreq
    split
    · exact hgood
    · exact hgood
  | downstream env type pkt => exact shareGotPktFromDownstream_good h
  | closing =>
    simp only [shareStep]
    split
    · exact ensures_error.mpr trivial
    · exact shareBeginCleanup_good h
  | x11 x => exact x11SharingHandover_good h
  | otherChannel sharectx =>
    simp only [shareStep]
    split
    · exact ensures_ok.mpr (Good.refl h)
    · exact ensures_ok.mpr (Good.refl h)
  | deleteOtherChannel localid =>
    simp only [shareStep]
    split
    · exact ensures_ok.mpr (Good.refl h)
    · exact ensures_ok.mpr (Good.refl h)
  | otherRportfwd address shareCtx =>
    simp only [shareStep]
    split
    · exact ensures_ok.mpr (Good.refl h)
    · refine ensures_ok.mpr ?_
      rw [sshRportfwdAlloc_only.channels_eq]
      exact .refl h
  | removeOtherRportfwd rpf =>
    simp only [shareStep]
    split
    · exact ensures_ok.mpr (Good.refl h)
    · split
      · exact ensures_ok.mpr (Good.refl h)
      · refine sshRportfwdRemove_only.mono ?_
        intro s' honly
        rw [honly.channels_eq]
        exact .refl h

/-- What a run reaches when any event is allowed -/
theorem reached_of_run {s s' : Sharing} {events : List ShareEvent}
    (hrun : shareRun s events = .ok s') (h : Reached (fun _ _ => True) s) :
    Reached (fun _ _ => True) s' := by
  induction events generalizing s with
  | nil =>
    cases hrun
    exact h
  | cons e events ih =>
    unfold shareRun at hrun
    rw [List.foldlM_cons] at hrun
    cases hstep : shareStep s e with
    | error fault =>
      rw [hstep] at hrun
      cases hrun
    | ok s1 =>
      rw [hstep] at hrun
      exact ih hrun (.step h ⟨e, trivial, hstep⟩)

theorem channelIndexes_init {orderly : Prop} : ChannelIndexes orderly Sharing.init.cs.channels :=
  ⟨.empty, fun _ => .empty⟩

theorem reached_indexes {s : Sharing} (h : Reached Orderly s) :
    ChannelIndexes True s.cs.channels := by
  let Inv : Sharing → Prop := fun s => ChannelIndexes True s.cs.channels
  show Inv s
  refine Reach.invariant ?_ ?_ h
  · rintro s rfl
    exact channelIndexes_init
  · rintro s s' hs ⟨e, horderly, hstep⟩
    exact (shareStep_good hs (fun _ => horderly) s' hstep).indexes

end PuttyNd.Share
