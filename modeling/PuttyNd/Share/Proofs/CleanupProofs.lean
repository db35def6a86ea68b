import PuttyNd.Share.Proofs.FrameProofs

/-!
# Proofs: cleaning up after a downstream

What `share_try_cleanup` does to each channel and to each forwarding, and that it does not fault as long
as a forwarding that is active has its `rpf`.
-/

namespace PuttyNd.Share

open Outcome Psftp Function Index

/-- The channels that there are can be found by their upstream ids. -/
abbrev UsIndex (c : Channels) : Prop :=
  IsIndex c.heap.cell ShareChannel.upstreamId (fun _ => True) c.byUs

/-! ## Channels -/

/-- What becomes of a channel -/
def cleaned (v : ShareChannel) : Option ShareChannel :=
  match v.state with
  | .open => some { v with state := .sentClose }
  | .sentClose | .unacknowledged => some v
  | .rcvdClose => none

/-- What is sent for a channel -/
def closing (v : ShareChannel) : List Effect :=
  match v.state with
  | .open => [.sendPacketFromDownstream .channelClose (putUint32 v.serverId)]
  | .sentClose | .unacknowledged => []
  | .rcvdClose => .sendPacketFromDownstream .channelClose (putUint32 v.serverId) ::
      (v.x11AuthUpstream.map Effect.removeSharingX11Display).toList

/-- The channels of the connection layer afterwards -/
def released (v : ShareChannel) (channels : List (UInt32 × Option ℕ)) : List (UInt32 × Option ℕ) :=
  if v.state = .rcvdClose then channels.eraseP fun c => c.1 == v.upstreamId else channels

section Channels

variable {s : Sharing} {a : ℕ} {v : ShareChannel}

theorem UsIndex.set {c : Channels} (h : UsIndex c) (ha : c.heap.cell a = some v) {w : ShareChannel}
    (hus : w.upstreamId = v.upstreamId) {byServer : List ℕ} :
    UsIndex ⟨c.heap.set a w, c.byUs, byServer⟩ := by
  show IsIndex (c.heap.set a w).cell _ _ _
  rw [Heap.cell_set ha]
  exact h.update_same ha hus Iff.rfl

theorem shareRemoveChannel_effects :
    (shareRemoveChannel s a v).effects =
      s.effects ++ (v.x11AuthUpstream.map Effect.removeSharingX11Display).toList := by
  unfold shareRemoveChannel
  cases v.x11AuthUpstream with
  | none => exact (List.append_nil _).symm
  | some auth => rfl

theorem shareRemoveChannel_channels :
    (shareRemoveChannel s a v).cs.channels =
      ⟨s.cs.channels.heap.free a,
        del s.cs.channels.heap.cell ShareChannel.upstreamId v.upstreamId s.cs.channels.byUs,
        del s.cs.channels.heap.cell ShareChannel.serverId v.serverId s.cs.channels.byServer⟩ := by
  unfold shareRemoveChannel
  cases v.x11AuthUpstream with
  | none => rfl
  | some auth => rfl

theorem shareRemoveChannel_clChannels :
    (shareRemoveChannel s a v).cl.channels = s.cl.channels := by
  unfold shareRemoveChannel
  cases v.x11AuthUpstream with
  | none => rfl
  | some auth => rfl

/-- What a round of the loop over the channels does -/
structure CleanedChannel (s s' : Sharing) (a : ℕ) (v : ShareChannel) : Prop where
  only : OnlyChannels s s'
  us : UsIndex s'.cs.channels
  cell : s'.cs.channels.heap.cell = update s.cs.channels.heap.cell a (cleaned v)
  clChannels : s'.cl.channels = released v s.cl.channels
  effects : s'.effects = s.effects ++ closing v

theorem cleanupChannel_spec (h : UsIndex s.cs.channels) (ha : s.cs.channels.heap.cell a = some v) :
    Succeeds (cleanupChannel s a) fun s' => CleanedChannel s s' a v := by
  unfold cleanupChannel
  rw [deref_eq ha, ok_bind]
  dsimp only
  cases hstate : v.state with
  | «open» =>
    refine succeeds_ok.mpr ⟨⟨_, _, _, rfl⟩, h.set (w := { v with state := .sentClose }) ha rfl,
      ?_, ?_, ?_⟩
    · show (s.cs.channels.heap.set a _).cell = _
      rw [Heap.cell_set ha]
      simp only [cleaned, hstate]
    · simp only [released, hstate]
      rfl
    · simp only [closing, hstate]
      rfl
  | sentClose =>
    refine succeeds_ok.mpr ⟨OnlyEffects.refl.channels, h, ?_, ?_, ?_⟩
    · simp only [cleaned, hstate]
      exact (update_eq_self_iff.mpr ha.symm).symm
    · simp only [released, hstate]
      rfl
    · simp only [closing, hstate, List.append_nil]
  | rcvdClose =>
    refine succeeds_ok.mpr ⟨OnlyChannels.trans ⟨_, _, _, rfl⟩ shareRemoveChannel_only, ?_, ?_, ?_, ?_⟩
    · rw [shareRemoveChannel_channels]
      exact h.free_del ha trivial
    · rw [shareRemoveChannel_channels]
      simp only [cleaned, hstate]
      rfl
    · rw [shareRemoveChannel_clChannels]
      simp only [released, hstate]
      rfl
    · rw [shareRemoveChannel_effects]
      simp only [closing, hstate]
      exact List.append_assoc _ _ _
  | unacknowledged =>
    refine succeeds_ok.mpr ⟨OnlyEffects.refl.channels, h, ?_, ?_, ?_⟩
    · simp only [cleaned, hstate]
      exact (update_eq_self_iff.mpr ha.symm).symm
    · simp only [released, hstate]
      rfl
    · simp only [closing, hstate, List.append_nil]

/-- The channels at these addresses -/
def channelsAt (s : Sharing) (l : List ℕ) : List ShareChannel :=
  l.filterMap s.cs.channels.heap.cell

/-- What the loop over the channels does -/
structure CleanedChannels (s s' : Sharing) : Prop where
  only : OnlyChannels s s'
  us : UsIndex s'.cs.channels
  cell : ∀ a, s'.cs.channels.heap.cell a = (s.cs.channels.heap.cell a).bind cleaned
  clChannels : s'.cl.channels =
    (channelsAt s s.cs.channels.byUs).foldl (fun channels v => released v channels) s.cl.channels
  effects : s'.effects = s.effects ++ (channelsAt s s.cs.channels.byUs).flatMap closing

theorem cleanupChannels_spec (h : UsIndex s.cs.channels) :
    Succeeds (s.cs.channels.byUs.foldlM cleanupChannel s) (CleanedChannels s) := by
  -- Before the rounds that are left, their channels are as they were, and the others are cleaned up.
  let P : List ℕ → Sharing → Prop := fun l s' =>
    l.Nodup ∧ (∀ a ∈ l, s.cs.channels.heap.cell a ≠ none) ∧ OnlyChannels s s' ∧
      UsIndex s'.cs.channels ∧
      (∀ a, s'.cs.channels.heap.cell a = if a ∈ l then s.cs.channels.heap.cell a
        else (s.cs.channels.heap.cell a).bind cleaned) ∧
      (channelsAt s l).foldl (fun channels v => released v channels) s'.cl.channels =
        (channelsAt s s.cs.channels.byUs).foldl (fun channels v => released v channels)
          s.cl.channels ∧
      s'.effects ++ (channelsAt s l).flatMap closing =
        s.effects ++ (channelsAt s s.cs.channels.byUs).flatMap closing
  have hloop : Succeeds (s.cs.channels.byUs.foldlM cleanupChannel s) (P []) := by
    refine Succeeds.foldlM ?_ ?_
    · rintro a l s1 ⟨hnodup, hlive, honly, hus, hcell, hcl, heffects⟩
      rw [List.nodup_cons] at hnodup
      obtain ⟨v, hv⟩ := Option.ne_none_iff_exists'.mp (hlive a List.mem_cons_self)
      have hv1 : s1.cs.channels.heap.cell a = some v := by
        rw [hcell a, if_pos List.mem_cons_self, hv]
      have hat : channelsAt s (a :: l) = v :: channelsAt s l := List.filterMap_cons_some hv
      rw [hat, List.foldl_cons] at hcl
      rw [hat, List.flatMap_cons, ← List.append_assoc] at heffects
      refine (cleanupChannel_spec hus hv1).mono ?_
      intro s2 h2
      refine ⟨hnodup.2, fun b hb => hlive b (List.mem_cons_of_mem a hb), honly.trans h2.only, h2.us,
        ?_, ?_, ?_⟩
      · intro b
        rw [h2.cell]
        by_cases hba : b = a
        · rw [hba, update_self, if_neg hnodup.1, hv]
          rfl
        · rw [update_of_ne hba, hcell b]
          simp only [List.mem_cons, hba, false_or]
      · rw [h2.clChannels]
        exact hcl
      · rw [h2.effects]
        exact heffects
    · refine ⟨h.nodup, ?_, OnlyEffects.refl.channels, h, ?_, rfl, rfl⟩
      · intro a ha
        obtain ⟨v, hv, -⟩ := (h.mem a).mp ha
        simp [hv]
      · intro a
        by_cases ha : a ∈ s.cs.channels.byUs
        · rw [if_pos ha]
        · rw [if_neg ha]
          cases hcell : s.cs.channels.heap.cell a with
          | none => rfl
          | some v => exact absurd (h.mem_of hcell trivial) ha
  refine hloop.mono ?_
  rintro s' ⟨-, -, honly, hus, hcell, hcl, heffects⟩
  refine ⟨honly, hus, ?_, hcl, ?_⟩
  · intro a
    rw [hcell a, if_neg List.not_mem_nil]
  · rw [← heffects]
    exact (List.append_nil _).symm

end Channels

/-! ## Forwardings -/

/-- Only the tree of the forwardings and that of the connection layer are changed. -/
def OnlyCancels (s s' : Sharing) : Prop :=
  ∃ effects heap tree rportfwds rportfwdTree, s' = { s with
    effects := effects
    cs := { s.cs with forwardings := { s.cs.forwardings with heap := heap, tree := tree } }
    cl := { s.cl with rportfwds := rportfwds, rportfwdTree := rportfwdTree } }

theorem OnlyCancels.refl {s : Sharing} : OnlyCancels s s := ⟨_, _, _, _, _, rfl⟩

theorem OnlyCancels.trans {s s' s'' : Sharing} (h : OnlyCancels s s') (h' : OnlyCancels s' s'') :
    OnlyCancels s s'' := by
  obtain ⟨_, _, _, _, _, rfl⟩ := h
  obtain ⟨_, _, _, _, _, rfl⟩ := h'
  exact ⟨_, _, _, _, _, rfl⟩

/-- The forwardings and the `ssh_rportfwd`s can be found by host and port. -/
structure ForwardIndexes (s : Sharing) : Prop where
  forwardings : IsIndex s.cs.forwardings.heap.cell ShareForwarding.address (fun _ => True)
    s.cs.forwardings.tree
  rportfwds : IsIndex s.cl.rportfwds.cell SshRportfwd.address (fun _ => True) s.cl.rportfwdTree

/-- The forwarding's `rpf` is there. -/
def RpfLive (s : Sharing) (v : ShareForwarding) : Prop :=
  ∃ r w, v.rpf = some r ∧ s.cl.rportfwds.cell r = some w ∧ w.address = v.address

/-- What is sent for a forwarding -/
def cancelling (v : ShareForwarding) : List Effect :=
  if v.active then [.sendPacketFromDownstream .globalRequest (cleanupCancel v.address)] else []

section Forwardings

variable {s : Sharing} {a r : ℕ} {v : ShareForwarding} {w : SshRportfwd}

theorem sshRportfwdRemove_spec (h : ForwardIndexes s) (hr : s.cl.rportfwds.cell r = some w) :
    Succeeds (sshRportfwdRemove s (some r)) fun s' =>
      OnlyCancels s s' ∧ s'.effects = s.effects ∧ s'.cs = s.cs ∧ ForwardIndexes s' ∧
        s'.cl.rportfwds = s.cl.rportfwds.free r := by
  unfold sshRportfwdRemove
  rw [deref_eq hr, ok_bind]
  dsimp only
  rw [if_pos (h.rportfwds.find_self hr trivial)]
  refine succeeds_ok.mpr ⟨⟨_, _, _, _, _, rfl⟩, rfl, rfl, ⟨h.forwardings, ?_⟩, rfl⟩
  exact h.rportfwds.free_del hr trivial

theorem shareRemoveForwarding_spec (h : ForwardIndexes s)
    (ha : s.cs.forwardings.heap.cell a = some v) :
    Succeeds (shareRemoveForwarding s a) fun s' =>
      OnlyCancels s s' ∧ s'.effects = s.effects ∧ s'.cl = s.cl ∧ ForwardIndexes s' ∧
        s'.cs.forwardings.heap = s.cs.forwardings.heap.free a := by
  unfold shareRemoveForwarding
  dsimp only
  rw [deref_eq ha, ok_bind]
  refine succeeds_ok.mpr ⟨⟨_, _, _, _, _, rfl⟩, rfl, rfl, ⟨?_, h.rportfwds⟩, rfl⟩
  exact h.forwardings.free_del ha trivial

/-- Two forwardings whose `rpf` is the same are the same. -/
theorem ForwardIndexes.rpf_unique (h : ForwardIndexes s) {b : ℕ} {x : ShareForwarding}
    (ha : s.cs.forwardings.heap.cell a = some v) (hb : s.cs.forwardings.heap.cell b = some x)
    (hv : RpfLive s v) (hx : RpfLive s x) (hvx : v.rpf = x.rpf) : a = b := by
  obtain ⟨r, w, hr, hw, hwv⟩ := hv
  obtain ⟨r', w', hr', hw', hwx⟩ := hx
  have hrr : r = r' := Option.some.inj (hr.symm.trans (hvx.trans hr'))
  rw [← hrr] at hw'
  have hww : w = w' := Option.some.inj (hw.symm.trans hw')
  exact h.forwardings.unique a b v x ha hb trivial trivial (hwv.symm.trans (hww ▸ hwx))

/-- What a round of the loop over the forwardings does -/
structure CleanedForwarding (s s' : Sharing) (a : ℕ) (v : ShareForwarding) : Prop where
  only : OnlyCancels s s'
  indexes : ForwardIndexes s'
  cell : s'.cs.forwardings.heap.cell =
    if v.active then update s.cs.forwardings.heap.cell a none else s.cs.forwardings.heap.cell
  rportfwds : ∀ r, s'.cl.rportfwds.cell r =
    if v.active ∧ v.rpf = some r then none else s.cl.rportfwds.cell r
  next : s'.cl.rportfwds.next = s.cl.rportfwds.next
  effects : s'.effects = s.effects ++ cancelling v

theorem cleanupForwarding_spec (h : ForwardIndexes s) (ha : s.cs.forwardings.heap.cell a = some v)
    (hrpf : v.active → RpfLive s v) :
    Succeeds (cleanupForwarding s a) fun s' => CleanedForwarding s s' a v := by
  unfold cleanupForwarding
  rw [deref_eq ha, ok_bind]
  dsimp only
  by_cases hactive : v.active
  · rw [if_pos hactive]
    obtain ⟨r, w, hr, hw, -⟩ := hrpf hactive
    let s0 := s.sendPacketFromDownstream .globalRequest (cleanupCancel v.address)
    have hremove := sshRportfwdRemove_spec (s := s0) ⟨h.forwardings, h.rportfwds⟩ hw
    rw [hr]
    refine hremove.bind ?_
    rintro s1 ⟨honly1, heffects1, hcs1, hindexes1, hrportfwds1⟩
    have ha1 : s1.cs.forwardings.heap.cell a = some v := by
      rw [hcs1]
      exact ha
    refine (shareRemoveForwarding_spec hindexes1 ha1).mono ?_
    rintro s2 ⟨honly2, heffects2, hcl2, hindexes2, hheap2⟩
    refine ⟨OnlyCancels.trans ⟨_, _, _, _, _, rfl⟩ (honly1.trans honly2), hindexes2, ?_, ?_, ?_, ?_⟩
    · rw [if_pos hactive, hheap2, hcs1]
      rfl
    · intro b
      rw [hcl2, hrportfwds1, Heap.cell_free]
      by_cases hb : b = r
      · rw [hb, update_self, if_pos ⟨hactive, hr⟩]
      · rw [update_of_ne hb, if_neg]
        · rfl
        · rintro ⟨-, hrb⟩
          exact hb (Option.some.inj (hrb.symm.trans hr))
    · rw [hcl2, hrportfwds1]
      rfl
    · rw [heffects2, heffects1]
      simp only [cancelling, if_pos hactive]
      rfl
  · rw [if_neg hactive]
    refine succeeds_ok.mpr ⟨.refl, h, by rw [if_neg hactive], ?_, rfl, ?_⟩
    · intro b
      rw [if_neg fun hb => hactive hb.1]
    · simp only [cancelling, if_neg hactive, List.append_nil]

/-- The forwardings at these addresses -/
def forwardingsAt (s : Sharing) (l : List ℕ) : List ShareForwarding :=
  l.filterMap s.cs.forwardings.heap.cell

/-- What the loop over the forwardings does: those that are active are removed. -/
structure CleanedForwardings (s s' : Sharing) : Prop where
  only : OnlyCancels s s'
  indexes : ForwardIndexes s'
  cell : ∀ a, s'.cs.forwardings.heap.cell a = (s.cs.forwardings.heap.cell a).filter (! ·.active)
  rportfwds : ∀ r w, s'.cl.rportfwds.cell r = some w ↔ s.cl.rportfwds.cell r = some w ∧
    ∀ a v, s.cs.forwardings.heap.cell a = some v → v.active → v.rpf ≠ some r
  next : s'.cl.rportfwds.next = s.cl.rportfwds.next
  effects : s'.effects = s.effects ++ (forwardingsAt s s.cs.forwardings.tree).flatMap cancelling

theorem cleanupForwardings_spec (h : ForwardIndexes s)
    (hrpf : ∀ a v, s.cs.forwardings.heap.cell a = some v → v.active → RpfLive s v) :
    Succeeds (s.cs.forwardings.tree.foldlM cleanupForwarding s) (CleanedForwardings s) := by
  -- Before the rounds that are left, their forwardings are as they were.
  let P : List ℕ → Sharing → Prop := fun l s' =>
    l.Nodup ∧ (∀ a ∈ l, s.cs.forwardings.heap.cell a ≠ none) ∧ OnlyCancels s s' ∧
      ForwardIndexes s' ∧
      (∀ a, s'.cs.forwardings.heap.cell a = if a ∈ l then s.cs.forwardings.heap.cell a
        else (s.cs.forwardings.heap.cell a).filter (! ·.active)) ∧
      (∀ r w, s'.cl.rportfwds.cell r = some w ↔ s.cl.rportfwds.cell r = some w ∧
        ∀ a v, a ∉ l → s.cs.forwardings.heap.cell a = some v → v.active → v.rpf ≠ some r) ∧
      s'.cl.rportfwds.next = s.cl.rportfwds.next ∧
      s'.effects ++ (forwardingsAt s l).flatMap cancelling =
        s.effects ++ (forwardingsAt s s.cs.forwardings.tree).flatMap cancelling
  have hloop : Succeeds (s.cs.forwardings.tree.foldlM cleanupForwarding s) (P []) := by
    refine Succeeds.foldlM ?_ ?_
    · rintro a l s1 ⟨hnodup, hlive, honly, hindexes, hcell, hrs, hnext, heffects⟩
      rw [List.nodup_cons] at hnodup
      obtain ⟨v, hv⟩ := Option.ne_none_iff_exists'.mp (hlive a List.mem_cons_self)
      have hv1 : s1.cs.forwardings.heap.cell a = some v := by
        rw [hcell a, if_pos List.mem_cons_self, hv]
      -- Its `rpf` was not removed with another forwarding.
      have hrpf1 : v.active → RpfLive s1 v := by
        intro hactive
        have hlive1 := hrpf a v hv hactive
        obtain ⟨r, w, hr, hw, hwv⟩ := hrpf a v hv hactive
        refine ⟨r, w, hr, (hrs r w).mpr ⟨hw, ?_⟩, hwv⟩
        intro b x hb hx hxactive hxr
        have hab := h.rpf_unique hv hx hlive1 (hrpf b x hx hxactive) (hr.trans hxr.symm)
        exact hb (hab ▸ List.mem_cons_self)
      have hat : forwardingsAt s (a :: l) = v :: forwardingsAt s l := List.filterMap_cons_some hv
      rw [hat, List.flatMap_cons, ← List.append_assoc] at heffects
      refine (cleanupForwarding_spec hindexes hv1 hrpf1).mono ?_
      intro s2 h2
      refine ⟨hnodup.2, fun b hb => hlive b (List.mem_cons_of_mem a hb), honly.trans h2.only,
        h2.indexes, ?_, ?_, h2.next.trans hnext, ?_⟩
      · intro b
        rw [h2.cell]
        by_cases hba : b = a
        · rw [hba, if_neg hnodup.1, hv]
          by_cases hactive : v.active
          · rw [if_pos hactive, update_self]
            simp [hactive, Option.filter_some]
          · rw [if_neg hactive, hv1]
            simp [hactive, Option.filter_some]
        · have hb : s1.cs.forwardings.heap.cell b = if b ∈ l then s.cs.forwardings.heap.cell b
              else (s.cs.forwardings.heap.cell b).filter (! ·.active) := by
            rw [hcell b]
            simp only [List.mem_cons, hba, false_or]
          split
          · rw [update_of_ne hba, hb]
          · exact hb
      · intro r w
        rw [h2.rportfwds r]
        constructor
        · intro hr
          split at hr
          · cases hr
          · next hne =>
            obtain ⟨hw, hothers⟩ := (hrs r w).mp hr
            refine ⟨hw, ?_⟩
            intro b x hb hx hxactive hxr
            by_cases hba : b = a
            · rw [hba, hv] at hx
              cases hx
              exact hne ⟨hxactive, hxr⟩
            · exact hothers b x (by simp [hba, hb]) hx hxactive hxr
        · rintro ⟨hw, hothers⟩
          rw [if_neg fun hr => hothers a v hnodup.1 hv hr.1 hr.2]
          refine (hrs r w).mpr ⟨hw, ?_⟩
          intro b x hb
          exact hothers b x fun hbl => hb (List.mem_cons_of_mem a hbl)
      · rw [h2.effects]
        exact heffects
    · refine ⟨h.forwardings.nodup, ?_, .refl, h, ?_, ?_, rfl, rfl⟩
      · intro a ha
        obtain ⟨v, hv, -⟩ := (h.forwardings.mem a).mp ha
        simp [hv]
      · intro a
        by_cases ha : a ∈ s.cs.forwardings.tree
        · rw [if_pos ha]
        · rw [if_neg ha]
          cases hcell : s.cs.forwardings.heap.cell a with
          | none => rfl
          | some v => exact absurd (h.forwardings.mem_of hcell trivial) ha
      · intro r w
        refine ⟨fun hw => ⟨hw, ?_⟩, fun hw => hw.1⟩
        intro a v ha hv
        exact absurd (h.forwardings.mem_of hv trivial) ha
  refine hloop.mono ?_
  rintro s' ⟨-, -, honly, hindexes, hcell, hrs, hnext, heffects⟩
  refine ⟨honly, hindexes, ?_, ?_, hnext, ?_⟩
  · intro a
    rw [hcell a, if_neg List.not_mem_nil]
  · intro r w
    rw [hrs r w]
    refine and_congr_right fun _ => forall_congr' fun a => forall_congr' fun v => ?_
    exact ⟨fun hr => hr List.not_mem_nil, fun hr _ => hr⟩
  · rw [← heffects]
    exact (List.append_nil _).symm

end Forwardings

/-! ## `share_try_cleanup` -/

/-- What `share_try_cleanup` does -/
structure Cleaned (s s' : Sharing) : Prop where
  rest : s' = { s with
    cs := { s.cs with
      halfchannels := []
      channels := s'.cs.channels
      forwardings := { s.cs.forwardings with
        heap := s'.cs.forwardings.heap
        tree := s'.cs.forwardings.tree } }
    freed := s'.freed
    cl := s'.cl
    effects := s'.effects }
  us : UsIndex s'.cs.channels
  channel : ∀ a, s'.cs.channels.heap.cell a = (s.cs.channels.heap.cell a).bind cleaned
  clChannels : s'.cl.channels =
    (channelsAt s s.cs.channels.byUs).foldl (fun channels v => released v channels) s.cl.channels
  indexes : ForwardIndexes s'
  forwarding : ∀ a,
    s'.cs.forwardings.heap.cell a = (s.cs.forwardings.heap.cell a).filter (! ·.active)
  rportfwds : ∀ r w, s'.cl.rportfwds.cell r = some w ↔ s.cl.rportfwds.cell r = some w ∧
    ∀ a v, s.cs.forwardings.heap.cell a = some v → v.active → v.rpf ≠ some r
  next : s'.cl.rportfwds.next = s.cl.rportfwds.next
  freed : s'.freed = true ↔
    s.freed = true ∨ s'.cs.channels.byUs = [] ∧ s'.cs.forwardings.tree = []
  effects : s'.effects = s.effects ++
    s.cs.halfchannels.map (fun id => .sendPacketFromDownstream .channelOpenFailure (cleanupFailure id)) ++
    (channelsAt s s.cs.channels.byUs).flatMap closing ++
    (forwardingsAt s s.cs.forwardings.tree).flatMap cancelling

section Cleanup

variable {s : Sharing}

theorem cleanupHalfchannels_eq {l : List UInt32} (hl : s.cs.halfchannels = l) :
    l.foldl cleanupHalfchannel s = { s with
      cs := { s.cs with halfchannels := [] }
      effects := s.effects ++
        l.map fun id => .sendPacketFromDownstream .channelOpenFailure (cleanupFailure id) } := by
  induction l generalizing s with
  | nil =>
    rw [List.foldl_nil, List.map_nil, List.append_nil, ← hl]
  | cons id l ih =>
    have hrest : (cleanupHalfchannel s id).cs.halfchannels = l := by
      show s.cs.halfchannels.erase id = l
      rw [hl, List.erase_cons_head]
    rw [List.foldl_cons, ih hrest, List.map_cons, List.append_cons]
    rfl

theorem shareTryCleanup_spec (hus : UsIndex s.cs.channels) (h : ForwardIndexes s)
    (hrpf : ∀ a v, s.cs.forwardings.heap.cell a = some v → v.active → RpfLive s v) :
    Succeeds (shareTryCleanup s) (Cleaned s) := by
  unfold shareTryCleanup
  dsimp only
  rw [cleanupHalfchannels_eq rfl]
  let s1 : Sharing := { s with
    cs := { s.cs with halfchannels := [] }
    effects := s.effects ++ s.cs.halfchannels.map fun id =>
      .sendPacketFromDownstream .channelOpenFailure (cleanupFailure id) }
  refine (cleanupChannels_spec (s := s1) hus).bind ?_
  intro s2 h2
  obtain ⟨es2, cc2, ch2, honly2⟩ := h2.only
  have hforwardings2 : s2.cs.forwardings = s.cs.forwardings := by rw [honly2]
  have hrportfwds2 : s2.cl.rportfwds = s.cl.rportfwds := by rw [honly2]
  have htree2 : s2.cl.rportfwdTree = s.cl.rportfwdTree := by rw [honly2]
  have hindexes2 : ForwardIndexes s2 := by
    constructor
    · rw [hforwardings2]
      exact h.forwardings
    · rw [hrportfwds2, htree2]
      exact h.rportfwds
  have hrpf2 : ∀ a v, s2.cs.forwardings.heap.cell a = some v → v.active → RpfLive s2 v := by
    intro a v hv hactive
    rw [hforwardings2] at hv
    unfold RpfLive
    rw [hrportfwds2]
    exact hrpf a v hv hactive
  refine (cleanupForwardings_spec hindexes2 hrpf2).bind ?_
  intro s3 h3
  obtain ⟨es3, heap3, tree3, rs3, rt3, honly3⟩ := h3.only
  have hchannels3 : s3.cs.channels = s2.cs.channels := by rw [honly3]
  have hcl3 : s3.cl.channels = s2.cl.channels := by rw [honly3]
  have hhalf3 : s3.cs.halfchannels = [] := by rw [honly3, honly2]
  have hfreed3 : s3.freed = s.freed := by rw [honly3, honly2]
  have heffects3 : s3.effects = s.effects ++
      s.cs.halfchannels.map (fun id =>
        .sendPacketFromDownstream .channelOpenFailure (cleanupFailure id)) ++
      (channelsAt s s.cs.channels.byUs).flatMap closing ++
      (forwardingsAt s s.cs.forwardings.tree).flatMap cancelling := by
    rw [h3.effects, h2.effects]
    unfold forwardingsAt
    rw [hforwardings2]
    rfl
  have hrportfwds3 : ∀ r w, s3.cl.rportfwds.cell r = some w ↔ s.cl.rportfwds.cell r = some w ∧
      ∀ a v, s.cs.forwardings.heap.cell a = some v → v.active → v.rpf ≠ some r := by
    intro r w
    rw [h3.rportfwds, hforwardings2, hrportfwds2]
  have hcleaned : ∀ freed : Bool, (freed = true ↔
      s.freed = true ∨ s3.cs.channels.byUs = [] ∧ s3.cs.forwardings.tree = []) →
      Cleaned s { s3 with freed := freed } := by
    intro freed hfreed
    refine ⟨by rw [honly3, honly2], ?_, ?_, ?_, ⟨h3.indexes.forwardings, h3.indexes.rportfwds⟩, ?_,
      hrportfwds3, ?_, hfreed, heffects3⟩
    · exact hchannels3 ▸ h2.us
    · intro a
      exact (congrArg (fun c : Channels => c.heap.cell a) hchannels3).trans (h2.cell a)
    · exact hcl3.trans h2.clChannels
    · intro a
      exact (h3.cell a).trans (by rw [hforwardings2])
    · exact h3.next.trans (by rw [hrportfwds2])
  split
  · next hempty => exact succeeds_ok.mpr (hcleaned true (by simp [hempty.2.1, hempty.2.2]))
  · next hpending =>
    refine succeeds_ok.mpr (hcleaned s3.freed ?_)
    rw [hfreed3]
    exact ⟨Or.inl, fun hor => hor.resolve_right fun hempty => hpending ⟨hhalf3, hempty⟩⟩

end Cleanup

end PuttyNd.Share
