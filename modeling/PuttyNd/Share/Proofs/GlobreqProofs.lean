import PuttyNd.Share.Proofs.ChannelsProofs
import PuttyNd.Share.Proofs.CleanupProofs
import PuttyNd.Share.Proofs.DisconnectProofs

/-!
# Proofs: the global requests of a downstream

The list of the global requests has the requests whose replies are outstanding, as long as there is at
most one of them at a time; then the forwarding that it is for is there when the reply arrives.
-/

namespace PuttyNd.Share

open Outcome Psftp Function Index LinkedQueue

/-! ## What the list should be -/

/-- The list that starts at `p` -/
def ListFrom (mem : ℕ → Option (Cell ShareGlobreq)) : Option ℕ → List ShareGlobreq → Prop
  | p, [] => p = none
  | p, g :: l => ∃ a next, p = some a ∧ mem a = some ⟨g, next⟩ ∧ ListFrom mem next l

/-- An entry of the list is for this request: it has its type, it says whether the downstream wants the
reply, and it points to a forwarding that is there, with its host and port. -/
def IsFor (f : Forwardings) (g : ShareGlobreq) (r : GlobalRequest) : Prop :=
  g.type = r.type ∧ g.wantReply = r.wantReply ∧
    g.fwd ∈ f.tree ∧ ∃ v, f.heap.cell g.fwd = some v ∧ v.address = r.address

/-- The list has the requests whose replies are outstanding, in order; and there are none after `cs` was
freed. -/
structure Mirrors (s : Sharing) : Prop where
  list : ∃ l, ListFrom s.cs.forwardings.globreqs.cell s.cs.forwardings.globreqHead l ∧
    List.Forall₂ (IsFor s.cs.forwardings) l s.globreqs
  freed : s.freed = true → s.globreqs = []

/-! ## When it is -/

/-- No `cancel-tcpip-forward` is outstanding, and none was refused: the forwardings that are active have
their `rpf`. -/
def Quiet (s : Sharing) : Prop :=
  (∀ r ∈ s.globreqs, r.type ≠ .cancelTcpipForward) ∧
    ∀ a v, s.cs.forwardings.heap.cell a = some v → v.active → RpfLive s v

/-- A request is passed on to the server only while no other one is outstanding, a `tcpip-forward` only
if the downstream has no forwarding of that host and port left, and a `cancel-tcpip-forward` only if the
forwarding still has its `rpf`. -/
def RequestSettled (s : Sharing) (pkt : List UInt8) : Prop :=
  (∀ address, requestOf pkt = some (.tcpipForward, some address) →
    find s.cl.rportfwds.cell SshRportfwd.address address s.cl.rportfwdTree = none →
      s.globreqs = [] ∧ s.cs.forwardings.find address = none) ∧
  ∀ address a v, requestOf pkt = some (.cancelTcpipForward, some address) →
    s.cs.forwardings.find address = some a → s.cs.forwardings.heap.cell a = some v →
      s.globreqs = [] ∧ RpfLive s v

/-- Packets come from the downstream while it is connected; its requests are settled one at a time; it
is not disconnected while a `cancel-tcpip-forward` is outstanding or after one was refused; and there is
a request for each reply. -/
def Settled (s : Sharing) : ShareEvent → Prop
  | .downstream env type pkt => s.cs.sock = true ∧ (Disconnects env s type pkt → Quiet s) ∧
      (type = .globalRequest → RequestSettled s pkt)
  | .closing => s.cs.sock = true ∧ Quiet s
  | .server type _ => type = .requestSuccess ∨ type = .requestFailure → s.globreqs ≠ []
  | _ => True

/-- The events that the list is about -/
def ForwardEvent : ShareEvent → Prop
  | .server type _ => type = .requestSuccess ∨ type = .requestFailure
  | .downstream _ type _ => type = .globalRequest ∨ type = .disconnect
  | .closing => True
  | _ => False

/-! ## The invariant -/

/-- The requests `q` are outstanding. -/
def Outstanding (s : Sharing) (q : List GlobalRequest) : Prop :=
  (q = [] ∧ s.cs.forwardings.globreqHead = none ∧
    ∀ a v, s.cs.forwardings.heap.cell a = some v → v.active = true) ∨
  ∃ r a g v, q = [r] ∧ s.cs.forwardings.globreqHead = some a ∧
    s.cs.forwardings.globreqs.cell a = some ⟨g, none⟩ ∧ g.type = r.type ∧
    g.wantReply = r.wantReply ∧ s.cs.forwardings.heap.cell g.fwd = some v ∧
    v.address = r.address ∧ (v.active = true ↔ r.type = .cancelTcpipForward) ∧
    (r.type = .tcpipForward → RpfLive s v) ∧
    ∀ b w, s.cs.forwardings.heap.cell b = some w → b ≠ g.fwd → w.active = true

/-- What holds when `q` is outstanding, also before the downstream's forwardings are cleaned up -/
structure ForwardCore (s : Sharing) (q : List GlobalRequest) : Prop where
  us : UsIndex s.cs.channels
  indexes : ForwardIndexes s
  rpf : ∀ a v, s.cs.forwardings.heap.cell a = some v →
    ∃ r, v.rpf = some r ∧ r < s.cl.rportfwds.next ∧
      ∀ w, s.cl.rportfwds.cell r = some w → w.address = v.address ∧ w.shareCtx = some s.ctx
  tail : s.cs.forwardings.globreqTail = none
  outstanding : Outstanding s q

structure ForwardInv (s : Sharing) (q : List GlobalRequest) : Prop where
  core : ForwardCore s q
  closed : s.cs.sock = false → ∀ a v, s.cs.forwardings.heap.cell a = some v → v.active = false
  freed : s.freed = true → s.cs.sock = false ∧ s.cs.forwardings.tree = []

/-! ## What leaves the forwardings as they are -/

structure SameForwardings (s s' : Sharing) : Prop where
  forwardings : s'.cs.forwardings = s.cs.forwardings
  rportfwds : s'.cl.rportfwds = s.cl.rportfwds
  rportfwdTree : s'.cl.rportfwdTree = s.cl.rportfwdTree
  sock : s'.cs.sock = s.cs.sock
  freed : s'.freed = s.freed
  ctx : s'.ctx = s.ctx
  globreqs : s'.globreqs = s.globreqs

section Frame

variable {s s' s'' : Sharing} {q : List GlobalRequest}

theorem SameForwardings.trans (h : SameForwardings s s') (h' : SameForwardings s' s'') :
    SameForwardings s s'' where
  forwardings := h'.forwardings.trans h.forwardings
  rportfwds := h'.rportfwds.trans h.rportfwds
  rportfwdTree := h'.rportfwdTree.trans h.rportfwdTree
  sock := h'.sock.trans h.sock
  freed := h'.freed.trans h.freed
  ctx := h'.ctx.trans h.ctx
  globreqs := h'.globreqs.trans h.globreqs

theorem OnlyEffects.same (h : OnlyEffects s s') : SameForwardings s s' := by
  obtain ⟨_, rfl⟩ := h
  exact ⟨rfl, rfl, rfl, rfl, rfl, rfl, rfl⟩

theorem OnlyXchannels.same (h : OnlyXchannels s s') : SameForwardings s s' := by
  obtain ⟨_, _, _, rfl⟩ := h
  exact ⟨rfl, rfl, rfl, rfl, rfl, rfl, rfl⟩

theorem OnlyChannels.same (h : OnlyChannels s s') : SameForwardings s s' := by
  obtain ⟨_, _, _, rfl⟩ := h
  exact ⟨rfl, rfl, rfl, rfl, rfl, rfl, rfl⟩

theorem RpfLive.congr {v : ShareForwarding} (h : RpfLive s v)
    (hsame : s'.cl.rportfwds = s.cl.rportfwds) : RpfLive s' v := by
  unfold RpfLive
  rw [hsame]
  exact h

theorem ForwardCore.congr (h : ForwardCore s q) (hsame : SameForwardings s s')
    (hus : UsIndex s'.cs.channels) : ForwardCore s' q := by
  obtain ⟨hf, hr, ht, -, -, hctx, -⟩ := hsame
  refine ⟨hus, ⟨by rw [hf]; exact h.indexes.forwardings, by rw [hr, ht]; exact h.indexes.rportfwds⟩,
    ?_, by rw [hf]; exact h.tail, ?_⟩
  · rw [hf, hr, hctx]
    exact h.rpf
  · unfold Outstanding RpfLive
    rw [hf, hr]
    exact h.outstanding

theorem ForwardInv.congr (h : ForwardInv s q) (hsame : SameForwardings s s')
    (hus : UsIndex s'.cs.channels) : ForwardInv s' q := by
  refine ⟨h.core.congr hsame hus, ?_, ?_⟩
  · rw [hsame.sock, hsame.forwardings]
    exact h.closed
  · rw [hsame.freed, hsame.sock, hsame.forwardings]
    exact h.freed

/-- What others do to the `ssh_rportfwd`s leaves those of this downstream. -/
theorem ForwardInv.others (h : ForwardInv s q) (hcs : s'.cs = s.cs) (hctx : s'.ctx = s.ctx)
    (hfreed : s'.freed = s.freed)
    (hindex : IsIndex s'.cl.rportfwds.cell SshRportfwd.address (fun _ => True) s'.cl.rportfwdTree)
    (hnext : s.cl.rportfwds.next ≤ s'.cl.rportfwds.next)
    (hold : ∀ r w, r < s.cl.rportfwds.next → s'.cl.rportfwds.cell r = some w →
      s.cl.rportfwds.cell r = some w)
    (hkept : ∀ r w, s.cl.rportfwds.cell r = some w → w.shareCtx = some s.ctx →
      s'.cl.rportfwds.cell r = some w) :
    ForwardInv s' q := by
  refine ⟨⟨by rw [hcs]; exact h.core.us, ⟨by rw [hcs]; exact h.core.indexes.forwardings, hindex⟩,
    ?_, by rw [hcs]; exact h.core.tail, ?_⟩, by rw [hcs]; exact h.closed,
    by rw [hfreed, hcs]; exact h.freed⟩
  · rw [hcs, hctx]
    intro a v hv
    obtain ⟨r, hr, hlt, hw⟩ := h.core.rpf a v hv
    exact ⟨r, hr, by omega, fun w hcell => hw w (hold r w hlt hcell)⟩
  · unfold Outstanding
    rw [hcs]
    rcases h.core.outstanding with hnone |
      ⟨r, a, g, v, hq, hhead, hcell, htype, hwant, hv, haddress, hactive, hlive, hothers⟩
    · exact Or.inl hnone
    · refine Or.inr ⟨r, a, g, v, hq, hhead, hcell, htype, hwant, hv, haddress, hactive, ?_, hothers⟩
      intro hr
      obtain ⟨p, w, hp, hw, hwv⟩ := hlive hr
      obtain ⟨p', hp', -, hctxw⟩ := h.core.rpf _ v hv
      cases Option.some.inj (hp.symm.trans hp')
      exact ⟨p, w, hp, hkept p w hw (hctxw w hw).2, hwv⟩

theorem forwardInv_init : ForwardInv Sharing.init [] where
  core := {
    us := .empty
    indexes := ⟨.empty, .empty⟩
    rpf := fun _ _ h => nomatch h
    tail := rfl
    outstanding := Or.inl ⟨rfl, rfl, fun _ _ h => nomatch h⟩ }
  closed := fun h => nomatch h
  freed := fun h => nomatch h

/-- The list has the one request that is outstanding, if there is one. -/
theorem ForwardInv.mirrors (h : ForwardInv s s.globreqs) : Mirrors s := by
  constructor
  · rcases h.core.outstanding with ⟨hq, hhead, -⟩ |
      ⟨r, a, g, v, hq, hhead, hcell, htype, hwant, hv, haddress, -⟩
    · refine ⟨[], hhead, ?_⟩
      rw [hq]
      exact .nil
    · refine ⟨[g], ⟨a, none, hhead, hcell, rfl⟩, ?_⟩
      rw [hq]
      refine .cons ⟨htype, hwant, ?_, v, hv, haddress⟩ .nil
      exact h.core.indexes.forwardings.mem_of hv trivial
  · intro hfreed
    rcases h.core.outstanding with ⟨hq, -⟩ | ⟨r, a, g, v, -, -, -, -, -, hv, -⟩
    · exact hq
    · have := h.core.indexes.forwardings.mem_of hv trivial
      rw [(h.freed hfreed).2] at this
      cases this

end Frame

/-! ## Cleaning up -/

/-- The state is as it should be before cleaning up. -/
def QuietCore (s : Sharing) (q : List GlobalRequest) : Prop :=
  (∀ r ∈ q, r.type ≠ .cancelTcpipForward) ∧
    ∀ a v, s.cs.forwardings.heap.cell a = some v → v.active → RpfLive s v

section Cleanup

variable {s : Sharing} {q : List GlobalRequest}

theorem cleanup_inv (h : ForwardCore s q) (hsock : s.cs.sock = false) (hfreed : s.freed = false)
    (hquiet : QuietCore s q) :
    Succeeds (shareTryCleanup s) fun s' => ForwardInv s' q ∧ s'.globreqs = s.globreqs := by
  refine (shareTryCleanup_spec h.us h.indexes hquiet.2).mono ?_
  intro s' hs'
  have hf : ∀ a v, s'.cs.forwardings.heap.cell a = some v →
      s.cs.forwardings.heap.cell a = some v ∧ v.active = false := by
    intro a v ha
    rw [hs'.forwarding a, Option.filter_eq_some_iff] at ha
    simpa using ha
  have hinactive : ∀ a v, s.cs.forwardings.heap.cell a = some v → v.active = false →
      s'.cs.forwardings.heap.cell a = some v := by
    intro a v ha hv
    rw [hs'.forwarding a, Option.filter_eq_some_iff]
    exact ⟨ha, by simp [hv]⟩
  have hrest := hs'.rest
  have hsock' : s'.cs.sock = false := by rw [hrest]; exact hsock
  have hctx : s'.ctx = s.ctx := by rw [hrest]
  have hhead : s'.cs.forwardings.globreqHead = s.cs.forwardings.globreqHead := by rw [hrest]
  have hglobreqs : s'.cs.forwardings.globreqs = s.cs.forwardings.globreqs := by rw [hrest]
  refine ⟨⟨⟨hs'.us, hs'.indexes, ?_, by rw [hrest]; exact h.tail, ?_⟩, ?_, ?_⟩, by rw [hrest]⟩
  · intro a v ha
    obtain ⟨r, hr, hlt, hw⟩ := h.rpf a v (hf a v ha).1
    refine ⟨r, hr, by rw [hs'.next]; exact hlt, ?_⟩
    intro w hcell
    rw [hctx]
    exact hw w ((hs'.rportfwds r w).mp hcell).1
  · rcases h.outstanding with ⟨hq, hnone, hall⟩ |
      ⟨r, a, g, v, hq, hsome, hcell, htype, hwant, hv, haddress, hactive, hlive, hothers⟩
    · refine Or.inl ⟨hq, hhead.trans hnone, ?_⟩
      intro b w hb
      exact hall b w (hf b w hb).1
    · have hr : r.type ≠ .cancelTcpipForward := hquiet.1 r (by rw [hq]; exact List.mem_cons_self)
      have hv0 : v.active = false := by
        rw [Bool.eq_false_iff]
        exact fun hv0 => hr (hactive.mp hv0)
      have hrtype : r.type = .tcpipForward := by
        cases htype : r.type with
        | tcpipForward => rfl
        | cancelTcpipForward => exact absurd htype hr
      refine Or.inr ⟨r, a, g, v, hq, hhead.trans hsome, by rw [hglobreqs]; exact hcell, htype, hwant,
        hinactive _ v hv hv0, haddress, hactive, ?_, ?_⟩
      · intro _
        have hvlive := hlive hrtype
        obtain ⟨p, w, hp, hw, hwv⟩ := hlive hrtype
        refine ⟨p, w, hp, (hs'.rportfwds p w).mpr ⟨hw, ?_⟩, hwv⟩
        intro b x hb hx hxp
        have hbg := h.indexes.rpf_unique hb hv (hquiet.2 b x hb hx) hvlive (hxp.trans hp.symm)
        rw [hbg, hv] at hb
        cases hb
        exact absurd hx (by simp [hv0])
      · intro b w hb hne
        exact hothers b w (hf b w hb).1 hne
  · intro _ a v ha
    exact (hf a v ha).2
  · intro hfreed'
    refine ⟨hsock', ?_⟩
    rcases hs'.freed.mp hfreed' with h1 | h1
    · exact absurd h1 (by simp [hfreed])
    · exact h1.2

theorem beginCleanup_inv (h : ForwardCore s q) (hsock : s.cs.sock = true) (hfreed : s.freed = false)
    (hquiet : QuietCore s q) :
    Succeeds (shareBeginCleanup s) fun s' => ForwardInv s' q ∧ s'.globreqs = s.globreqs := by
  unfold shareBeginCleanup
  rw [if_pos hsock]
  have hcore : ForwardCore { s with cs := { s.cs with sock := false } } q :=
    ⟨h.us, ⟨h.indexes.forwardings, h.indexes.rportfwds⟩, h.rpf, h.tail, h.outstanding⟩
  exact cleanup_inv hcore rfl hfreed hquiet

/-- A packet that is not data is sent. -/
theorem sendPacketToDownstream_succeeds {type : Msg} {pkt : List UInt8} {chan : Option ℕ}
    (htype : type ≠ .channelData) :
    Succeeds (sendPacketToDownstream s type pkt chan) (OnlyEffects s) := by
  unfold sendPacketToDownstream
  split
  · exact succeeds_ok.mpr .refl
  · exact succeeds_ok.mpr onlyEffects_emit

theorem disconnect_inv (h : ForwardCore s q) (hsock : s.cs.sock = true) (hfreed : s.freed = false)
    (hquiet : QuietCore s q) {message : List UInt8} :
    Succeeds (shareDisconnect s message) fun s' => ForwardInv s' q ∧ s'.globreqs = s.globreqs := by
  unfold shareDisconnect
  refine (sendPacketToDownstream_succeeds (by simp)).bind ?_
  intro s1 honly
  have hsame := honly.same
  have hus : UsIndex s1.cs.channels := honly.channels_eq ▸ h.us
  refine (beginCleanup_inv (h.congr hsame hus) (hsame.sock.trans hsock) (hsame.freed.trans hfreed)
    ⟨hquiet.1, ?_⟩).mono ?_
  · rw [hsame.forwardings]
    exact fun a v ha hv => (hquiet.2 a v ha hv).congr hsame.rportfwds
  · rintro s2 ⟨hinv, hglobreqs⟩
    exact ⟨hinv, hglobreqs.trans hsame.globreqs⟩

/-- After the downstream is gone it can be cleaned up again. -/
theorem ForwardInv.again (h : ForwardInv s q) (hsock : s.cs.sock = false) (hfreed : s.freed = false) :
    Succeeds (shareTryCleanup s) fun s' => ForwardInv s' q ∧ s'.globreqs = s.globreqs := by
  refine cleanup_inv h.core hsock hfreed ⟨?_, ?_⟩
  · intro r hr
    rcases h.core.outstanding with ⟨hq, -⟩ | ⟨r', a, g, v, hq, -, -, -, -, hv, -, hactive, -⟩
    · rw [hq] at hr
      cases hr
    · rw [hq, List.mem_singleton] at hr
      rw [hr]
      intro hcancel
      have := h.closed hsock _ v hv
      rw [hactive.mpr hcancel] at this
      cases this
  · intro a v ha hv
    rw [h.closed hsock a v ha] at hv
    cases hv

end Cleanup

/-! ## Replies -/

section Replies

variable {s : Sharing} {pkt : List UInt8} {success : Bool}

/-- What a reply leaves: no request is outstanding. -/
theorem replyToForwarding_core {r : GlobalRequest} {a : ℕ} {g : ShareGlobreq} {v : ShareForwarding}
    (h : ForwardCore s [r]) (htype : g.type = r.type)
    (hv : s.cs.forwardings.heap.cell g.fwd = some v)
    (hactive : v.active = true ↔ r.type = .cancelTcpipForward)
    (hothers : ∀ b w, s.cs.forwardings.heap.cell b = some w → b ≠ g.fwd → w.active = true) :
    Succeeds (replyToForwarding s g success) fun s' =>
      OnlyForwardings s s' ∧ s'.globreqs = s.globreqs ∧ s'.cl = s.cl ∧
        s'.cs.forwardings.globreqs = s.cs.forwardings.globreqs ∧
        ForwardCore (freeGlobreq s' a none) [] ∧
        ∀ b w, s'.cs.forwardings.heap.cell b = some w → w.active = true ∧
          ∃ w', s.cs.forwardings.heap.cell b = some w' ∧ w'.rpf = w.rpf ∧ w'.address = w.address ∧
            (b = g.fwd → success = true ∧ r.type = .tcpipForward ∨
              success = false ∧ r.type = .cancelTcpipForward) := by
  -- The forwarding is removed.
  have hremove : ∀ P : Prop, Succeeds (shareRemoveForwarding s g.fwd) fun s' =>
      OnlyForwardings s s' ∧ s'.globreqs = s.globreqs ∧ s'.cl = s.cl ∧
        s'.cs.forwardings.globreqs = s.cs.forwardings.globreqs ∧
        ForwardCore (freeGlobreq s' a none) [] ∧
        ∀ b w, s'.cs.forwardings.heap.cell b = some w → w.active = true ∧
          ∃ w', s.cs.forwardings.heap.cell b = some w' ∧ w'.rpf = w.rpf ∧ w'.address = w.address ∧
            (b = g.fwd → P) := by
    intro P
    refine (shareRemoveForwarding_spec h.indexes hv).mono ?_
    rintro s' ⟨honly, heffects, hcl, hindexes, hheap⟩
    obtain ⟨es, heap, tree, rs, rt, hs'⟩ := honly
    have hcell : s'.cs.forwardings.heap.cell = update s.cs.forwardings.heap.cell g.fwd none := by
      rw [hheap, Heap.cell_free]
    have hold : ∀ b w, s'.cs.forwardings.heap.cell b = some w →
        b ≠ g.fwd ∧ s.cs.forwardings.heap.cell b = some w := by
      intro b w hb
      rw [hcell] at hb
      by_cases hbg : b = g.fwd
      · rw [hbg, update_self] at hb
        cases hb
      · rw [update_of_ne hbg] at hb
        exact ⟨hbg, hb⟩
    refine ⟨⟨es, _, rs, rt, s.globreqs, by rw [hs']⟩, by rw [hs'], hcl, by rw [hs'], ?_, ?_⟩
    · refine ⟨by rw [hs']; exact h.us, ⟨hindexes.forwardings, hindexes.rportfwds⟩, ?_, rfl, ?_⟩
      · intro b w hb
        have hrpf := h.rpf b w (hold b w hb).2
        show ∃ r, w.rpf = some r ∧ r < s'.cl.rportfwds.next ∧
          ∀ x, s'.cl.rportfwds.cell r = some x → x.address = w.address ∧ x.shareCtx = some s'.ctx
        have hctx : s'.ctx = s.ctx := by rw [hs']
        rw [hcl, hctx]
        exact hrpf
      · refine Or.inl ⟨rfl, rfl, ?_⟩
        intro b w hb
        exact hothers b w (hold b w hb).2 (hold b w hb).1
    · intro b w hb
      obtain ⟨hbg, hb'⟩ := hold b w hb
      exact ⟨hothers b w hb' hbg, w, hb', rfl, rfl, fun hbg' => absurd hbg' hbg⟩
  unfold replyToForwarding
  rw [htype]
  cases hr : r.type with
  | tcpipForward =>
    cases success with
    | false => exact hremove _
    | true =>
      dsimp only
      rw [deref_eq hv, ok_bind]
      let w : ShareForwarding := { v with active := true }
      have hcell : (s.cs.forwardings.heap.set g.fwd w).cell =
          update s.cs.forwardings.heap.cell g.fwd (some w) := Heap.cell_set hv
      have hold : ∀ b x, (s.cs.forwardings.heap.set g.fwd w).cell b = some x →
          x.active = true ∧ ∃ x', s.cs.forwardings.heap.cell b = some x' ∧ x'.rpf = x.rpf ∧
            x'.address = x.address := by
        intro b x hb
        rw [hcell] at hb
        by_cases hbg : b = g.fwd
        · rw [hbg, update_self] at hb
          cases hb
          exact ⟨rfl, v, hbg ▸ hv, rfl, rfl⟩
        · rw [update_of_ne hbg] at hb
          exact ⟨hothers b x hb hbg, x, hb, rfl, rfl⟩
      refine succeeds_ok.mpr ⟨⟨_, _, _, _, _, rfl⟩, rfl, rfl, rfl, ?_, ?_⟩
      · refine ⟨h.us, ⟨?_, h.indexes.rportfwds⟩, ?_, rfl, ?_⟩
        · show IsIndex (s.cs.forwardings.heap.set g.fwd w).cell _ _ _
          rw [hcell]
          exact h.indexes.forwardings.update_same hv rfl Iff.rfl
        · intro b x hb
          obtain ⟨-, x', hx', hrpf, haddress⟩ := hold b x hb
          rw [← hrpf, ← haddress]
          exact h.rpf b x' hx'
        · exact Or.inl ⟨rfl, rfl, fun b x hb => (hold b x hb).1⟩
      · intro b x hb
        obtain ⟨hx, x', hx', hrpf, haddress⟩ := hold b x hb
        exact ⟨hx, x', hx', hrpf, haddress, fun _ => Or.inl ⟨rfl, rfl⟩⟩
  | cancelTcpipForward =>
    cases success with
    | true => exact hremove _
    | false =>
      have hall : ∀ b w, s.cs.forwardings.heap.cell b = some w → w.active = true := by
        intro b w hb
        by_cases hbg : b = g.fwd
        · rw [hbg, hv] at hb
          cases hb
          exact hactive.mpr hr
        · exact hothers b w hb hbg
      refine succeeds_ok.mpr ⟨OnlyEffects.refl.forwardings, rfl, rfl, rfl, ?_, ?_⟩
      · exact ⟨h.us, ⟨h.indexes.forwardings, h.indexes.rportfwds⟩, h.rpf, rfl,
          Or.inl ⟨rfl, rfl, hall⟩⟩
      · intro b w hb
        exact ⟨hall b w hb, w, hb, rfl, rfl, fun _ => Or.inr ⟨rfl, rfl⟩⟩

theorem passReply_succeeds {g : ShareGlobreq} :
    Succeeds (passReply s g success pkt) (OnlyEffects s) := by
  unfold passReply
  split
  · exact sendPacketToDownstream_succeeds (by split <;> simp)
  · exact succeeds_ok.mpr .refl

/-- A reply is handled if there is a request for it. -/
theorem gotReplyFromServer_inv (h : ForwardInv s s.globreqs) (hne : s.globreqs ≠ []) :
    Succeeds (gotReplyFromServer s success pkt) fun s' =>
      ForwardInv s' s.globreqs.tail ∧ s'.globreqs = s.globreqs := by
  have hfreed : s.freed = false := by
    rw [Bool.eq_false_iff]
    exact fun hfreed => hne (h.mirrors.freed hfreed)
  rcases h.core.outstanding with ⟨hq, -⟩ |
    ⟨r, a, g, v, hq, hhead, hcell, htype, -, hv, haddress, hactive, hlive, hothers⟩
  · exact absurd hq hne
  have hcore : ForwardCore s [r] := hq ▸ h.core
  unfold gotReplyFromServer
  rw [hhead, if_neg (by simp), deref_eq hcell, ok_bind]
  dsimp only
  refine (replyToForwarding_core (a := a) hcore htype hv hactive hothers).bind ?_
  rintro s1 ⟨honly1, hglobreqs1, hcl1, -, hcore1, hstill⟩
  refine passReply_succeeds.bind ?_
  intro s2 honly2
  obtain ⟨es, rfl⟩ := honly2
  obtain ⟨_, f1, _, _, _, hs1⟩ := honly1
  have hsock1 : s1.cs.sock = s.cs.sock := by rw [hs1]
  have hfreed1 : s1.freed = false := by rw [hs1]; exact hfreed
  have hsame : SameForwardings (freeGlobreq s1 a none)
      (freeGlobreq { s1 with effects := es } a none) := ⟨rfl, rfl, rfl, rfl, rfl, rfl, rfl⟩
  have hcore2 := hcore1.congr hsame hcore1.us
  rw [hq, List.tail_cons]
  by_cases hsock : s.cs.sock = true
  · have hopen : (freeGlobreq { s1 with effects := es } a none).cs.sock = true := hsock1.trans hsock
    rw [if_neg (by simp [hopen])]
    refine succeeds_ok.mpr ⟨⟨hcore2, ?_, ?_⟩, hglobreqs1.trans hq⟩
    · intro hclosed
      rw [hopen] at hclosed
      cases hclosed
    · intro hfreed2
      exact absurd (hfreed1.symm.trans hfreed2) (by simp)
  · have hclosed : s.cs.sock = false := by simpa using hsock
    have hclosed2 : (freeGlobreq { s1 with effects := es } a none).cs.sock = false :=
      hsock1.trans hclosed
    rw [if_pos (by simp [hclosed2])]
    refine (cleanup_inv hcore2 hclosed2 hfreed1 ⟨fun r hr => (nomatch hr), ?_⟩).mono ?_
    · -- Of the forwardings only the one that the reply was for can be active.
      intro b w hb hw
      obtain ⟨-, w', hw', hrpf, haddr, hcases⟩ := hstill b w hb
      have hbg : b = g.fwd := by
        by_contra hbg
        have := hothers b w' hw' hbg
        rw [h.closed hclosed b w' hw'] at this
        cases this
      rcases hcases hbg with ⟨-, hr⟩ | ⟨-, hr⟩
      · rw [hbg, hv] at hw'
        cases hw'
        obtain ⟨p, x, hp, hx, hxv⟩ := hlive hr
        refine ⟨p, x, hrpf.symm.trans hp, ?_, hxv.trans haddr⟩
        show s1.cl.rportfwds.cell p = some x
        rw [hcl1]
        exact hx
      · have := hactive.mpr hr
        rw [h.closed hclosed _ v hv] at this
        cases this
    · rintro s3 ⟨hinv, hglobreqs⟩
      exact ⟨hinv, hglobreqs.trans (hglobreqs1.trans hq)⟩

end Replies

/-! ## Requests -/

section Requests

variable {s : Sharing} {pkt : List UInt8} {wantreplypos : ℕ} {origWantreply : Bool}
  {address : HostPort}

/-- `ssh_rportfwd_alloc` fails if there is one with this host and port. -/
theorem sshRportfwdAlloc_cases {a : HostPort} {c : Option ℕ}
    (h : IsIndex s.cl.rportfwds.cell SshRportfwd.address (fun _ => True) s.cl.rportfwdTree) :
    (find s.cl.rportfwds.cell SshRportfwd.address a s.cl.rportfwdTree ≠ none ∧
      sshRportfwdAlloc s a c = (none, { s with cl := { s.cl with
        rportfwds := (s.cl.rportfwds.alloc ⟨a, c⟩).free s.cl.rportfwds.next } })) ∨
    find s.cl.rportfwds.cell SshRportfwd.address a s.cl.rportfwdTree = none ∧
      ∃ tree, sshRportfwdAlloc s a c =
          (some s.cl.rportfwds.next, { s with cl := { s.cl with
            rportfwds := s.cl.rportfwds.alloc ⟨a, c⟩, rportfwdTree := tree } }) ∧
        IsIndex (s.cl.rportfwds.alloc ⟨a, c⟩).cell SshRportfwd.address (fun _ => True)
          tree := by
  let w : SshRportfwd := ⟨a, c⟩
  have hout := h.not_mem_of_none Heap.cell_next
  unfold sshRportfwdAlloc
  dsimp only
  rcases h.add_cases hout (v := w) trivial with ⟨hadd, hfind⟩ | ⟨tree, hadd, hfind, hindex⟩
  · have hadd : add (s.cl.rportfwds.alloc w).cell SshRportfwd.address a
        s.cl.rportfwds.next s.cl.rportfwdTree = none := hadd
    rw [hadd]
    exact Or.inl ⟨hfind, rfl⟩
  · have hadd : add (s.cl.rportfwds.alloc w).cell SshRportfwd.address a
        s.cl.rportfwds.next s.cl.rportfwdTree = some tree := hadd
    rw [hadd]
    exact Or.inr ⟨hfind, tree, rfl, hindex⟩

theorem shareAddForwarding_new
    (h : IsIndex s.cs.forwardings.heap.cell ShareForwarding.address (fun _ => True)
      s.cs.forwardings.tree)
    (hfind : s.cs.forwardings.find address = none) :
    ∃ tree, shareAddForwarding s address =
        (some s.cs.forwardings.heap.next, s.setForwardings { s.cs.forwardings with
          heap := s.cs.forwardings.heap.alloc ⟨address, false, none⟩, tree := tree }) ∧
      IsIndex (s.cs.forwardings.heap.alloc ⟨address, false, none⟩).cell ShareForwarding.address
        (fun _ => True) tree := by
  let v : ShareForwarding := ⟨address, false, none⟩
  have hout := h.not_mem_of_none Heap.cell_next
  unfold shareAddForwarding
  dsimp only
  rcases h.add_cases hout (v := v) trivial with ⟨-, hfound⟩ | ⟨tree, hadd, -, hindex⟩
  · exact absurd hfind hfound
  · have hadd : add (s.cs.forwardings.heap.alloc v).cell ShareForwarding.address address
        s.cs.forwardings.heap.next s.cs.forwardings.tree = some tree := hadd
    rw [hadd]
    exact ⟨tree, rfl, hindex⟩

theorem queueGlobreq_eq {g : ShareGlobreq} (htail : s.cs.forwardings.globreqTail = none) :
    queueGlobreq s g = .ok (s.setForwardings { s.cs.forwardings with
      globreqs := s.cs.forwardings.globreqs.alloc ⟨g, none⟩
      globreqHead := some s.cs.forwardings.globreqs.next }) := by
  unfold queueGlobreq
  dsimp only
  rw [htail, if_neg (by simp)]
  rfl

theorem manufactureFailure_inv (h : ForwardInv s s.globreqs) :
    Succeeds (manufactureFailure s origWantreply) fun s' => ForwardInv s' s'.globreqs := by
  have hok : Succeeds (manufactureFailure s origWantreply) (OnlyEffects s) := by
    unfold manufactureFailure
    split
    · exact sendPacketToDownstream_succeeds (by simp)
    · exact succeeds_ok.mpr .refl
  refine hok.mono ?_
  intro s' honly
  rw [honly.same.globreqs]
  exact h.congr honly.same (honly.channels_eq ▸ h.core.us)

/-- A `tcpip-forward` is refused here, or its request is the one that is outstanding afterwards. -/
theorem gotTcpipForward_inv (h : ForwardInv s s.globreqs) (hsock : s.cs.sock = true)
    (hfreed : s.freed = false)
    (hsettled : find s.cl.rportfwds.cell SshRportfwd.address address s.cl.rportfwdTree = none →
      s.globreqs = [] ∧ s.cs.forwardings.find address = none) :
    Succeeds (gotTcpipForward s pkt wantreplypos origWantreply address) fun s' =>
      ForwardInv s' s'.globreqs := by
  unfold gotTcpipForward
  rcases sshRportfwdAlloc_cases (a := address) (c := some s.ctx) h.core.indexes.rportfwds with
    ⟨-, heq⟩ | ⟨hfind, rtree, heq, hrindex⟩
  · rw [heq]
    refine manufactureFailure_inv (h.others rfl rfl rfl ?_ (Nat.le_succ _) ?_ ?_)
    · show IsIndex ((s.cl.rportfwds.alloc _).free s.cl.rportfwds.next).cell _ _ _
      rw [Heap.cell_alloc_free]
      exact h.core.indexes.rportfwds
    · intro r w _ hw
      exact Heap.cell_alloc_free ▸ hw
    · intro r w hw _
      show ((s.cl.rportfwds.alloc _).free s.cl.rportfwds.next).cell r = some w
      rw [Heap.cell_alloc_free]
      exact hw
  · obtain ⟨hq, hfwd⟩ := hsettled hfind
    rw [heq]
    dsimp only
    let rpf := s.cl.rportfwds.next
    let a := s.cs.forwardings.heap.next
    let s1 : Sharing := { s with cl := { s.cl with
      rportfwds := s.cl.rportfwds.alloc ⟨address, some s.ctx⟩, rportfwdTree := rtree } }
    obtain ⟨ftree, hadd, hfindex⟩ := shareAddForwarding_new
      (s := s1.sendPacketFromDownstream .globalRequest (pkt.set wantreplypos 1))
      h.core.indexes.forwardings hfwd
    rw [hadd]
    dsimp only
    let v : ShareForwarding := ⟨address, false, none⟩
    let s2 : Sharing := sshSharingQueueGlobalRequest
      ((s1.sendPacketFromDownstream .globalRequest (pkt.set wantreplypos 1)).setForwardings
        { s.cs.forwardings with heap := s.cs.forwardings.heap.alloc v, tree := ftree })
      ⟨.tcpipForward, origWantreply, address⟩
    have htail : s2.cs.forwardings.globreqTail = none := h.core.tail
    show Succeeds (queueGlobreq s2 ⟨.tcpipForward, origWantreply, a⟩ >>= _) _
    rw [queueGlobreq_eq htail, ok_bind]
    have hv : (s.cs.forwardings.heap.alloc v).cell a = some v := by
      rw [Heap.cell_alloc, update_self]
    have hderef : deref (s.cs.forwardings.heap.alloc v) (some a) = .ok (a, v) := deref_eq hv
    show Succeeds (deref (s.cs.forwardings.heap.alloc v) (some a) >>= _) _
    rw [hderef, ok_bind]
    let w : ShareForwarding := { v with rpf := some rpf }
    have hcell : ((s.cs.forwardings.heap.alloc v).set a w).cell =
        update s.cs.forwardings.heap.cell a (some w) := by
      rw [Heap.cell_set hv, Heap.cell_alloc, update_idem]
    refine succeeds_ok.mpr ⟨⟨h.core.us, ⟨?_, hrindex⟩, ?_, h.core.tail, ?_⟩, ?_, ?_⟩
    · show IsIndex ((s.cs.forwardings.heap.alloc v).set a w).cell _ _ _
      rw [Heap.cell_set hv]
      exact hfindex.update_same hv rfl Iff.rfl
    · intro b x hb
      have hb : ((s.cs.forwardings.heap.alloc v).set a w).cell b = some x := hb
      rw [hcell] at hb
      by_cases hba : b = a
      · rw [hba, update_self] at hb
        cases hb
        refine ⟨rpf, rfl, Nat.lt_succ_self _, ?_⟩
        intro y hy
        have hy : update s.cl.rportfwds.cell rpf (some ⟨address, some s.ctx⟩) rpf = some y := hy
        rw [update_self] at hy
        cases hy
        exact ⟨rfl, rfl⟩
      · rw [update_of_ne hba] at hb
        obtain ⟨r, hr, hlt, hy⟩ := h.core.rpf b x hb
        refine ⟨r, hr, Nat.lt_succ_of_lt hlt, ?_⟩
        intro y hcelly
        have hcelly : update s.cl.rportfwds.cell rpf (some ⟨address, some s.ctx⟩) r = some y := hcelly
        rw [update_of_ne (Nat.ne_of_lt hlt)] at hcelly
        exact hy y hcelly
    · have hall : ∀ b x, s.cs.forwardings.heap.cell b = some x → x.active = true := by
        rcases h.core.outstanding with ⟨-, -, hall⟩ | ⟨r, -, -, -, hne, -⟩
        · exact hall
        · rw [hq] at hne
          cases hne
      refine Or.inr ⟨⟨.tcpipForward, origWantreply, address⟩, s.cs.forwardings.globreqs.next,
        ⟨.tcpipForward, origWantreply, a⟩, w, ?_, rfl, ?_, rfl, rfl, ?_, rfl, ?_, ?_, ?_⟩
      · show s.globreqs ++ [_] = _
        rw [hq]
        rfl
      · show (s.cs.forwardings.globreqs.alloc _).cell _ = _
        rw [Heap.cell_alloc, update_self]
      · show ((s.cs.forwardings.heap.alloc v).set a w).cell a = _
        rw [hcell, update_self]
      · exact ⟨fun hw => (nomatch hw), fun hw => (nomatch hw)⟩
      · intro _
        refine ⟨rpf, ⟨address, some s.ctx⟩, rfl, ?_, rfl⟩
        show (s.cl.rportfwds.alloc _).cell rpf = _
        rw [Heap.cell_alloc, update_self]
      · intro b x hb hba
        have hb : ((s.cs.forwardings.heap.alloc v).set a w).cell b = some x := hb
        rw [hcell, update_of_ne hba] at hb
        exact hall b x hb
    · intro hclosed
      exact absurd (hsock.symm.trans hclosed) (by simp)
    · intro hfreed'
      exact absurd (hfreed.symm.trans hfreed') (by simp)

/-- A `cancel-tcpip-forward` is refused here, or it is the request that is outstanding afterwards. -/
theorem gotCancelTcpipForward_inv (h : ForwardInv s s.globreqs) (hsock : s.cs.sock = true)
    (hfreed : s.freed = false)
    (hsettled : ∀ a v, s.cs.forwardings.find address = some a →
      s.cs.forwardings.heap.cell a = some v → s.globreqs = [] ∧ RpfLive s v) :
    Succeeds (gotCancelTcpipForward s pkt wantreplypos origWantreply address) fun s' =>
      ForwardInv s' s'.globreqs := by
  unfold gotCancelTcpipForward
  cases hfind : s.cs.forwardings.find address with
  | none => exact manufactureFailure_inv h
  | some a =>
    dsimp only
    obtain ⟨v, hv, -, haddress⟩ := h.core.indexes.forwardings.find_some hfind
    obtain ⟨hq, r, w, hr, hw, -⟩ := hsettled a v hfind hv
    rw [deref_eq hv, ok_bind, hr]
    refine (sshRportfwdRemove_spec h.core.indexes hw).bind ?_
    rintro s1 ⟨honly1, -, hcs1, hindexes1, hrportfwds1⟩
    obtain ⟨es, heap, tree, rs, rt, hs1⟩ := honly1
    have hq1 : s1.globreqs = [] := by rw [hs1]; exact hq
    have hctx1 : s1.ctx = s.ctx := by rw [hs1]
    have hfreed1 : s1.freed = false := by rw [hs1]; exact hfreed
    let s2 : Sharing := sshSharingQueueGlobalRequest
      (s1.sendPacketFromDownstream .globalRequest (pkt.set wantreplypos 1))
      ⟨.cancelTcpipForward, origWantreply, address⟩
    have htail : s2.cs.forwardings.globreqTail = none := by
      show s1.cs.forwardings.globreqTail = none
      rw [hcs1]
      exact h.core.tail
    have hall : ∀ b x, s1.cs.forwardings.heap.cell b = some x → x.active = true := by
      rw [hcs1]
      rcases h.core.outstanding with ⟨-, -, hall⟩ | ⟨r, -, -, -, hne, -⟩
      · exact hall
      · rw [hq] at hne
        cases hne
    have hv1 : s1.cs.forwardings.heap.cell a = some v := by rw [hcs1]; exact hv
    show Succeeds (queueGlobreq s2 ⟨.cancelTcpipForward, origWantreply, a⟩) _
    rw [queueGlobreq_eq htail]
    refine succeeds_ok.mpr ⟨⟨?_, ⟨hindexes1.forwardings, hindexes1.rportfwds⟩, ?_, htail, ?_⟩, ?_, ?_⟩
    · show UsIndex s1.cs.channels
      rw [hcs1]
      exact h.core.us
    · intro b x hb
      have hb : s1.cs.forwardings.heap.cell b = some x := hb
      rw [hcs1] at hb
      obtain ⟨p, hp, hlt, hy⟩ := h.core.rpf b x hb
      show ∃ p, x.rpf = some p ∧ p < s1.cl.rportfwds.next ∧
        ∀ y, s1.cl.rportfwds.cell p = some y → y.address = x.address ∧ y.shareCtx = some s1.ctx
      rw [hrportfwds1, hctx1, Heap.cell_free]
      refine ⟨p, hp, hlt, ?_⟩
      intro y hcelly
      by_cases hpr : p = r
      · rw [hpr, update_self] at hcelly
        cases hcelly
      · rw [update_of_ne hpr] at hcelly
        exact hy y hcelly
    · refine Or.inr ⟨⟨.cancelTcpipForward, origWantreply, address⟩, s1.cs.forwardings.globreqs.next,
        ⟨.cancelTcpipForward, origWantreply, a⟩, v, ?_, rfl, ?_, rfl, rfl, hv1, haddress, ?_, ?_, ?_⟩
      · show s1.globreqs ++ [_] = _
        rw [hq1]
        rfl
      · show (s1.cs.forwardings.globreqs.alloc _).cell _ = _
        rw [Heap.cell_alloc, update_self]
      · exact ⟨fun _ => rfl, fun _ => hall a v hv1⟩
      · exact fun hne => (nomatch hne)
      · exact fun b x hb _ => hall b x hb
    · intro hclosed
      have hclosed : s1.cs.sock = false := hclosed
      rw [hcs1, hsock] at hclosed
      cases hclosed
    · intro hfreed'
      exact absurd (hfreed1.symm.trans hfreed') (by simp)

/-- A request is handled, or the packet is too short. -/
theorem gotGlobalRequest_inv (h : ForwardInv s s.globreqs) (hsock : s.cs.sock = true)
    (hfreed : s.freed = false) (hsettled : RequestSettled s pkt) :
    Succeeds (gotGlobalRequest s pkt) fun r =>
      ForwardInv r.1 r.1.globreqs ∧ (r.2.isSome → r.1 = s) := by
  unfold RequestSettled requestOf at hsettled
  obtain ⟨htcpip, hcancel⟩ := hsettled
  unfold gotGlobalRequest
  dsimp only at htcpip hcancel ⊢
  split
  · next hname =>
    rw [if_pos hname] at htcpip
    split
    · exact succeeds_ok.mpr ⟨h, fun _ => rfl⟩
    · next address haddress =>
      rw [haddress] at htcpip
      refine (gotTcpipForward_inv h hsock hfreed (htcpip address rfl)).bind ?_
      exact fun s' hs' => succeeds_ok.mpr ⟨hs', fun hsome => (nomatch hsome)⟩
  · next hname =>
    rw [if_neg hname] at hcancel
    split
    · next hname' =>
      rw [if_pos hname'] at hcancel
      split
      · exact succeeds_ok.mpr ⟨h, fun _ => rfl⟩
      · next address haddress =>
        rw [haddress] at hcancel
        refine (gotCancelTcpipForward_inv h hsock hfreed fun a v => hcancel address a v rfl).bind ?_
        exact fun s' hs' => succeeds_ok.mpr ⟨hs', fun hsome => (nomatch hsome)⟩
    · refine (manufactureFailure_inv h).bind ?_
      exact fun s' hs' => succeeds_ok.mpr ⟨hs', fun hsome => (nomatch hsome)⟩

end Requests

/-! ## The other steps -/

section Others

variable {s : Sharing} {type : Msg} {pkt : List UInt8}

theorem SameForwardings.sendRemove {s' : Sharing} {id : UInt32} (h : SameForwardings s s') :
    SameForwardings s (shareRemoveHalfchannel (s'.sendPacketFromDownstream type pkt) id) :=
  h.trans ⟨rfl, rfl, rfl, rfl, rfl, rfl, rfl⟩

theorem gotChannelOpenConfirmation_same :
    Ensures (gotChannelOpenConfirmation s pkt) fun r => SameForwardings s r.1 := by
  unfold gotChannelOpenConfirmation
  dsimp only
  split
  · exact ensures_ok.mpr OnlyEffects.refl.same
  · split
    · have halloc : OnlyChannels s (sshAllocSharingChannel s).2 := ⟨_, _, _, rfl⟩
      exact ensures_ok.mpr (SameForwardings.sendRemove (halloc.trans shareAddChannel_only).same)
    · split
      · exact ensures_ok.mpr OnlyEffects.refl.same
      · refine ensures_deref.bind ?_
        rintro ⟨b, xc⟩ -
        dsimp only
        split
        · exact ensures_ok.mpr shareAddChannel_only.same
        · refine shareXchannelConfirmation_only.bind ?_
          intro s' honly
          refine ensures_ok.mpr (shareAddChannel_only.same.trans (honly.same.trans ?_))
          exact ⟨rfl, rfl, rfl, rfl, rfl, rfl, rfl⟩

theorem gotChannelOpenFailure_same :
    Ensures (gotChannelOpenFailure s pkt) fun r => SameForwardings s r.1 := by
  unfold gotChannelOpenFailure
  dsimp only
  split
  · exact ensures_ok.mpr OnlyEffects.refl.same
  · split
    · exact ensures_ok.mpr ⟨rfl, rfl, rfl, rfl, rfl, rfl, rfl⟩
    · split
      · exact ensures_ok.mpr OnlyEffects.refl.same
      · refine ensures_deref.bind ?_
        rintro ⟨b, xc⟩ -
        exact shareXchannelFailure_only.bind fun s' honly => ensures_ok.mpr honly.same

theorem handlePacket_same {env : Env} (htype : type ≠ .globalRequest) :
    Ensures (handlePacket env s type pkt) fun r => SameForwardings s r.1 := by
  unfold handlePacket
  split
  · exact absurd rfl htype
  · exact gotChannelOpen_only.mono fun _ h => h.same
  · exact gotChannelOpenConfirmation_same
  · exact gotChannelOpenFailure_same
  all_goals first
    | exact gotChannelMessage_only.mono fun _ h => h.same
    | exact ensures_ok.mpr OnlyEffects.refl.same

theorem gotChannelOpenFromServer_same :
    Ensures (gotChannelOpenFromServer s pkt) (SameForwardings s) := by
  unfold gotChannelOpenFromServer
  dsimp only
  split
  · exact ensures_error.mpr trivial
  · have hadd : ∀ id, SameForwardings s (shareAddHalfchannel s id) := by
      intro id
      unfold shareAddHalfchannel
      split
      · exact OnlyEffects.refl.same
      · exact ⟨rfl, rfl, rfl, rfl, rfl, rfl, rfl⟩
    exact sendPacketToDownstream_only.mono fun s' honly => (hadd _).trans honly.same

theorem shareSetupX11Channel_same {x : X11Channel} :
    Ensures (shareSetupX11Channel s x) (SameForwardings s) := by
  unfold shareSetupX11Channel
  split
  · exact ensures_error.mpr trivial
  · dsimp only
    have hadd : OnlyXchannels s (shareAddXchannel s x.upstreamId x.serverId
      (x.clientAdjustedWindow + UInt32.ofNat x.greeting.length)).2 := shareAddXchannel_only
    revert hadd
    rcases shareAddXchannel s x.upstreamId x.serverId _ with ⟨xc, s1⟩
    intro hadd
    dsimp only at hadd ⊢
    refine ensures_deref.bind ?_
    rintro ⟨b, chan⟩ -
    refine ensures_deref.bind ?_
    rintro ⟨a, xc⟩ -
    refine sendPacketToDownstream_only.bind ?_
    intro s2 honly
    have hset : SameForwardings s1 (setXchannel s1 a { xc with
        msgs := [(.channelData, putUint32 0 ++ putString (x.greeting ++ x.initialData))] }) :=
      ⟨rfl, rfl, rfl, rfl, rfl, rfl, rfl⟩
    have hsame : SameForwardings s s2 := hadd.same.trans (hset.trans honly.same)
    dsimp only
    split
    · exact ensures_ok.mpr hsame
    · exact ensures_error.mpr trivial
    · exact ensures_ok.mpr (hsame.trans ⟨rfl, rfl, rfl, rfl, rfl, rfl, rfl⟩)

/-- What the invariant about the forwardings needs of the channels -/
theorem ForwardInv.channels {q : List GlobalRequest} (h : ForwardInv s q) :
    ChannelIndexes False s.cs.channels :=
  ⟨h.core.us, fun ho => nomatch ho⟩

/-- When the channel was the last thing that was waited for, `cs` is cleaned up. -/
theorem updateChannel_inv {a : ℕ} {chan : ShareChannel} (h : ForwardInv s s.globreqs)
    (hfreed : s.freed = false) (ha : s.cs.channels.heap.cell a = some chan) :
    Ensures (updateChannel s a type pkt) fun s' => ForwardInv s' s'.globreqs := by
  -- One more time, after this much was done
  have hagain : ∀ s1, SameForwardings s s1 → UsIndex s1.cs.channels →
      Ensures (if ¬ s1.cs.sock then shareTryCleanup s1 else .ok s1) fun s' =>
        ForwardInv s' s'.globreqs := by
    intro s1 hsame hus
    have hinv : ForwardInv s1 s1.globreqs := hsame.globreqs ▸ h.congr hsame hus
    split
    · next hsock =>
      refine (hinv.again (by simpa using hsock) (hsame.freed.trans hfreed)).ensures.mono ?_
      rintro s2 ⟨hs2, hq⟩
      rw [hq]
      exact hs2
    · exact ensures_ok.mpr hinv
  have hgood : Ensures (updateChannel s a type pkt) fun s' =>
      Good False s.cs.channels s'.cs.channels :=
    updateChannel_good h.channels ha fun ho => nomatch ho
  unfold updateChannel at hgood ⊢
  rw [deref_eq ha, ok_bind] at hgood ⊢
  dsimp only at hgood ⊢
  have hset : ∀ id, chan.state = .unacknowledged →
      UsIndex (shareChannelSetServerId s a chan id).cs.channels := fun id hstate =>
    (shareChannelSetServerId_good h.channels ha hstate fun ho => nomatch ho).indexes.us
  have hremove : UsIndex (shareRemoveChannel
      (sshDeleteSharingChannel s chan.upstreamId) a chan).cs.channels :=
    (shareRemoveChannel_good (s := sshDeleteSharingChannel s chan.upstreamId) h.channels ha
      fun ho => nomatch ho).indexes.us
  have hremoved : SameForwardings s
      (shareRemoveChannel (sshDeleteSharingChannel s chan.upstreamId) a chan) :=
    (OnlyChannels.trans ⟨_, _, _, rfl⟩ shareRemoveChannel_only).same
  cases type with
  | channelOpenConfirmation =>
    dsimp only
    split
    · next hcond => exact hagain _ shareChannelSetServerId_only.same (hset _ hcond.1)
    · exact ensures_ok.mpr h
  | channelOpenFailure =>
    refine ensures_ok.mpr ?_
    rw [hremoved.globreqs]
    exact h.congr hremoved hremove
  | channelClose =>
    dsimp only
    split
    · exact hagain _ hremoved hremove
    · refine ensures_ok.mpr (h.congr ⟨rfl, rfl, rfl, rfl, rfl, rfl, rfl⟩ ?_)
      exact h.core.us.set (w := { chan with state := .rcvdClose }) ha rfl
  | _ => exact ensures_ok.mpr h

theorem gotChannelMessageFromServer_inv (h : ForwardInv s s.globreqs) (hfreed : s.freed = false) :
    Ensures (gotChannelMessageFromServer s type pkt) fun s' => ForwardInv s' s'.globreqs := by
  unfold gotChannelMessageFromServer
  dsimp only
  split
  · next a hfind =>
    refine deref_bind ?_
    intro chan hchan
    dsimp only
    split
    · exact ensures_error.mpr trivial
    · refine sendPacketToDownstream_only.bind ?_
      intro s1 honly
      have hinv : ForwardInv s1 s1.globreqs :=
        honly.same.globreqs ▸ h.congr honly.same (honly.channels_eq ▸ h.core.us)
      exact updateChannel_inv hinv (honly.same.freed.trans hfreed) (honly.channels_eq ▸ hchan)
  · split
    · next a _ =>
      refine ensures_deref.bind ?_
      rintro ⟨b, xc⟩ -
      dsimp only
      split
      · refine shareDeadXchannelRespond_only.mono ?_
        intro s' honly
        have hset : SameForwardings s (setXchannel s a { xc with msgs := xc.msgs ++ [(type, pkt)] }) :=
          ⟨rfl, rfl, rfl, rfl, rfl, rfl, rfl⟩
        have hsame : SameForwardings s s' := hset.trans honly.same
        rw [hsame.globreqs]
        exact h.congr hsame (honly.channels_eq ▸ h.core.us)
      · exact ensures_ok.mpr (h.congr ⟨rfl, rfl, rfl, rfl, rfl, rfl, rfl⟩ h.core.us)
    · exact ensures_ok.mpr h

end Others

/-! ## Runs -/

section Runs

variable {s : Sharing} {e : ShareEvent}

theorem Quiet.core (h : Quiet s) : QuietCore s s.globreqs := h

theorem serverStep_inv {type : Msg} {pkt : List UInt8} (h : ForwardInv s s.globreqs)
    (hsettled : Settled s (.server type pkt)) :
    Ensures (shareStep s (.server type pkt)) (fun s' => ForwardInv s' s'.globreqs) ∧
      (ForwardEvent (.server type pkt) → ∃ s', shareStep s (.server type pkt) = .ok s') := by
  -- A reply
  have hreply : ∀ success : Bool, s.globreqs ≠ [] →
      Succeeds (gotReplyFromServer s success pkt >>= fun s' =>
        .ok { s' with globreqs := s'.globreqs.tail }) fun s' => ForwardInv s' s'.globreqs := by
    intro success hne
    refine (gotReplyFromServer_inv h hne).bind ?_
    rintro s' ⟨hinv, hq⟩
    refine succeeds_ok.mpr ?_
    show ForwardInv _ s'.globreqs.tail
    rw [hq]
    obtain ⟨hus, hindexes, hrpf, htail, houtstanding⟩ := hinv.core
    exact ⟨⟨hus, ⟨hindexes.forwardings, hindexes.rportfwds⟩, hrpf, htail, houtstanding⟩, hinv.closed,
      hinv.freed⟩
  simp only [shareStep]
  unfold shareGotPktFromServer
  by_cases hfreed : s.freed = true
  · rw [if_pos hfreed]
    refine ⟨ensures_error.mpr trivial, ?_⟩
    intro htype
    exact absurd (h.mirrors.freed hfreed) (hsettled htype)
  · rw [if_neg hfreed]
    have hfreed : s.freed = false := by simpa using hfreed
    -- Any other message
    have hmessage : ∀ r : Except Fault Sharing, type ≠ .requestSuccess ∧ type ≠ .requestFailure →
        Ensures r (fun s' => ForwardInv s' s'.globreqs) →
        Ensures (r >>= fun s' => .ok (popGlobreq type s')) (fun s' => ForwardInv s' s'.globreqs) ∧
          (ForwardEvent (.server type pkt) →
            ∃ s', (r >>= fun s' => .ok (popGlobreq type s')) = .ok s') := by
      rintro r ⟨hsuccess, hfailure⟩ hr
      refine ⟨hr.bind fun s' hs' => ensures_ok.mpr ?_, ?_⟩
      · unfold popGlobreq
        rw [if_neg (by simp [hsuccess, hfailure])]
        exact hs'
      · rintro (htype | htype)
        · exact absurd htype hsuccess
        · exact absurd htype hfailure
    cases type with
    | requestSuccess =>
      have hs := hreply true (hsettled (Or.inl rfl))
      exact ⟨hs.ensures, fun _ => hs.imp fun _ => And.left⟩
    | requestFailure =>
      have hs := hreply false (hsettled (Or.inr rfl))
      exact ⟨hs.ensures, fun _ => hs.imp fun _ => And.left⟩
    | channelOpen =>
      refine hmessage _ (by simp) ?_
      have hsame : Ensures (gotChannelOpenFromServer s pkt) (SameForwardings s) :=
        gotChannelOpenFromServer_same
      have hgood : Ensures (gotChannelOpenFromServer s pkt) fun s' =>
          Good False s.cs.channels s'.cs.channels := gotChannelOpenFromServer_good h.channels
      intro s' hs'
      rw [(hsame s' hs').globreqs]
      exact h.congr (hsame s' hs') (hgood s' hs').indexes.us
    | globalRequest => exact hmessage _ (by simp) (ensures_error.mpr trivial)
    | disconnect => exact hmessage _ (by simp) (ensures_error.mpr trivial)
    | ignore => exact hmessage _ (by simp) (ensures_error.mpr trivial)
    | debug => exact hmessage _ (by simp) (ensures_error.mpr trivial)
    | other type => exact hmessage _ (by simp) (ensures_error.mpr trivial)
    | _ => exact hmessage _ (by simp) (gotChannelMessageFromServer_inv h hfreed)

/-- What is done after a packet: the downstream may be disconnected. -/
def disconnectFor (r : Sharing × Option Message) : Except Fault Sharing :=
  match r.2 with
  | none => .ok r.1
  | some message => shareDisconnect r.1 message

theorem downstreamStep_inv {env : Env} {type : Msg} {pkt : List UInt8} (h : ForwardInv s s.globreqs)
    (hsettled : Settled s (.downstream env type pkt)) :
    Ensures (shareStep s (.downstream env type pkt)) (fun s' => ForwardInv s' s'.globreqs) ∧
      (ForwardEvent (.downstream env type pkt) →
        ∃ s', shareStep s (.downstream env type pkt) = .ok s') := by
  obtain ⟨hsock, hquiet, hrequest⟩ := hsettled
  have hfreed : s.freed = false := by
    rw [Bool.eq_false_iff]
    intro hfreed
    rw [(h.freed hfreed).1] at hsock
    cases hsock
  simp only [shareStep]
  unfold shareGotPktFromDownstream
  rw [if_neg (by simp [hfreed])]
  -- The downstream is disconnected, for a packet that left the forwardings as they are.
  have hdisconnect : ∀ s1 message, SameForwardings s s1 → UsIndex s1.cs.channels → Quiet s →
      Succeeds (shareDisconnect s1 message) fun s' => ForwardInv s' s'.globreqs := by
    intro s1 message hsame hus hq
    refine (disconnect_inv (h.congr hsame hus).core (hsame.sock.trans hsock)
      (hsame.freed.trans hfreed) ⟨hq.1, ?_⟩).mono ?_
    · rw [hsame.forwardings]
      exact fun a v ha hv => (hq.2 a v ha hv).congr hsame.rportfwds
    · rintro s2 ⟨hinv, hglobreqs⟩
      rw [hglobreqs, hsame.globreqs]
      exact hinv
  by_cases htype : type = .disconnect
  · rw [if_pos htype]
    have hs := beginCleanup_inv h.core hsock hfreed (hquiet (by rw [htype]; exact trivial))
    have hs : Succeeds (shareBeginCleanup s) fun s' => ForwardInv s' s'.globreqs :=
      hs.mono fun s' hs' => hs'.2 ▸ hs'.1
    exact ⟨hs.ensures, fun _ => hs.imp fun _ => And.left⟩
  · rw [if_neg htype]
    by_cases hglobal : type = .globalRequest
    · -- A request is handled, or the downstream is disconnected for it.
      have hs : Succeeds (handlePacket env s type pkt >>= disconnectFor) fun s' =>
          ForwardInv s' s'.globreqs := by
        have herr : Ensures (handlePacket env s type pkt) fun r =>
            r.2.isSome ↔ Disconnects env s type pkt := handlePacket_err htype
        rw [hglobal] at herr hquiet ⊢
        refine ((gotGlobalRequest_inv h hsock hfreed (hrequest hglobal)).and_ensures herr).bind ?_
        rintro ⟨s1, err⟩ ⟨⟨hinv, hsame⟩, hiff⟩
        cases err with
        | none => exact succeeds_ok.mpr hinv
        | some message =>
          have hs1 : s1 = s := hsame rfl
          rw [hs1]
          exact hdisconnect s message OnlyEffects.refl.same h.core.us (hquiet (hiff.mp rfl))
      exact ⟨hs.ensures, fun _ => hs.imp fun _ => And.left⟩
    · refine ⟨?_, ?_⟩
      · have hsame : Ensures (handlePacket env s type pkt) fun r => SameForwardings s r.1 :=
          handlePacket_same hglobal
        have hgood : Ensures (handlePacket env s type pkt) fun r =>
            Good False s.cs.channels r.1.cs.channels := handlePacket_good h.channels
        have herr : Ensures (handlePacket env s type pkt) fun r =>
            r.2.isSome ↔ Disconnects env s type pkt := handlePacket_err htype
        refine Ensures.bind (P := fun r => SameForwardings s r.1 ∧ UsIndex r.1.cs.channels ∧
          (r.2.isSome ↔ Disconnects env s type pkt)) ?_ ?_
        · exact fun r hr => ⟨hsame r hr, (hgood r hr).indexes.us, herr r hr⟩
        · rintro ⟨s1, err⟩ ⟨hs1, hus, hiff⟩
          cases err with
          | none =>
            refine ensures_ok.mpr ?_
            show ForwardInv s1 s1.globreqs
            rw [hs1.globreqs]
            exact h.congr hs1 hus
          | some message => exact (hdisconnect s1 message hs1 hus (hquiet (hiff.mp rfl))).ensures
      · rintro (h1 | h1)
        · exact absurd h1 hglobal
        · exact absurd h1 htype

theorem shareStep_inv (h : ForwardInv s s.globreqs) (hsettled : Settled s e) :
    Ensures (shareStep s e) (fun s' => ForwardInv s' s'.globreqs) ∧
      (ForwardEvent e → ∃ s', shareStep s e = .ok s') := by
  cases e with
  | server type pkt => exact serverStep_inv h hsettled
  | downstream env type pkt => exact downstreamStep_inv h hsettled
  | closing =>
    obtain ⟨hsock, hquiet⟩ := hsettled
    have hfreed : s.freed = false := by
      rw [Bool.eq_false_iff]
      intro hfreed
      rw [(h.freed hfreed).1] at hsock
      cases hsock
    simp only [shareStep]
    rw [if_neg (by simp [hfreed])]
    have hs : Succeeds (shareBeginCleanup s) fun s' => ForwardInv s' s'.globreqs :=
      (beginCleanup_inv h.core hsock hfreed hquiet.core).mono fun s' hs' => hs'.2 ▸ hs'.1
    exact ⟨hs.ensures, fun _ => hs.imp fun _ => And.left⟩
  | x11 x =>
    refine ⟨?_, False.elim⟩
    have hsame := shareSetupX11Channel_same (s := setSharectx s x.upstreamId) (x := x)
    have hgood := x11SharingHandover_good h.channels (x := x)
    intro s' hs'
    have hset : SameForwardings s (setSharectx s x.upstreamId) := ⟨rfl, rfl, rfl, rfl, rfl, rfl, rfl⟩
    have hs := hset.trans (hsame s' hs')
    rw [hs.globreqs]
    exact h.congr hs (hgood s' hs').indexes.us
  | otherChannel sharectx =>
    refine ⟨?_, False.elim⟩
    simp only [shareStep]
    split
    · exact ensures_ok.mpr h
    · exact ensures_ok.mpr (h.congr ⟨rfl, rfl, rfl, rfl, rfl, rfl, rfl⟩ h.core.us)
  | deleteOtherChannel localid =>
    refine ⟨?_, False.elim⟩
    simp only [shareStep]
    split
    · exact ensures_ok.mpr h
    · exact ensures_ok.mpr (h.congr ⟨rfl, rfl, rfl, rfl, rfl, rfl, rfl⟩ h.core.us)
  | otherRportfwd address shareCtx =>
    refine ⟨?_, False.elim⟩
    simp only [shareStep]
    split
    · exact ensures_ok.mpr h
    · rcases sshRportfwdAlloc_cases (a := address) (c := shareCtx) h.core.indexes.rportfwds with
        ⟨-, heq⟩ | ⟨-, rtree, heq, hrindex⟩
      · rw [heq]
        refine ensures_ok.mpr (h.others rfl rfl rfl ?_ (Nat.le_succ _) ?_ ?_)
        · show IsIndex ((s.cl.rportfwds.alloc _).free s.cl.rportfwds.next).cell _ _ _
          rw [Heap.cell_alloc_free]
          exact h.core.indexes.rportfwds
        · intro r w _ hw
          exact Heap.cell_alloc_free ▸ hw
        · intro r w hw _
          show ((s.cl.rportfwds.alloc _).free s.cl.rportfwds.next).cell r = some w
          rw [Heap.cell_alloc_free]
          exact hw
      · rw [heq]
        refine ensures_ok.mpr (h.others rfl rfl rfl hrindex (Nat.le_succ _) ?_ ?_)
        · intro r w hlt hw
          have hw : update s.cl.rportfwds.cell s.cl.rportfwds.next _ r = some w := hw
          rwa [update_of_ne (Nat.ne_of_lt hlt)] at hw
        · intro r w hw _
          show update s.cl.rportfwds.cell s.cl.rportfwds.next _ r = some w
          rw [update_of_ne (Heap.ne_next hw)]
          exact hw
  | removeOtherRportfwd rpf =>
    refine ⟨?_, False.elim⟩
    simp only [shareStep]
    cases hcell : s.cl.rportfwds.cell rpf with
    | none => exact ensures_ok.mpr h
    | some v =>
      dsimp only
      split
      · exact ensures_ok.mpr h
      · next hctx =>
        refine (sshRportfwdRemove_spec h.core.indexes hcell).ensures.mono ?_
        rintro s' ⟨⟨es, heap, tree, rs, rt, hs'⟩, -, hcs, hindexes, hrportfwds⟩
        have hq : s'.globreqs = s.globreqs := by rw [hs']
        rw [hq]
        refine h.others hcs (by rw [hs']) (by rw [hs']) hindexes.rportfwds
          (by rw [hrportfwds]; exact Nat.le_refl _) ?_ ?_
        · intro r w _ hw
          rw [hrportfwds, Heap.cell_free] at hw
          by_cases hr : r = rpf
          · rw [hr, update_self] at hw
            cases hw
          · rwa [update_of_ne hr] at hw
        · intro r w hw hwctx
          rw [hrportfwds, Heap.cell_free]
          by_cases hr : r = rpf
          · rw [hr, hcell] at hw
            cases hw
            exact absurd hwctx hctx
          · rw [update_of_ne hr]
            exact hw

theorem reached_inv (h : Reached Settled s) : ForwardInv s s.globreqs := by
  let Inv : Sharing → Prop := fun s => ForwardInv s s.globreqs
  show Inv s
  refine Reach.invariant ?_ ?_ h
  · rintro s rfl
    exact forwardInv_init
  · rintro s s' hs ⟨e, hsettled, hstep⟩
    exact (shareStep_inv hs hsettled).1 s' hstep

/-- While its requests are settled one at a time, the list of a downstream has the requests whose replies
are outstanding; and each request, each reply and each disconnection is handled without a fault. -/
theorem globreqs_mirror (h : Reached Settled s) :
    Mirrors s ∧ ∀ e, Settled s e → ForwardEvent e → ∃ s', shareStep s e = .ok s' := by
  have hinv := reached_inv h
  refine ⟨hinv.mirrors, ?_⟩
  intro e hsettled hevent
  exact (shareStep_inv hinv hsettled).2 hevent

end Runs

/-- A `tcpip-forward` for a port of any host -/
def forwardPacket (port : UInt32) : List UInt8 :=
  putString (ascii "tcpip-forward") ++ putBool true ++ putString [] ++ putUint32 port

/-- The downstream asks for a forwarding. -/
theorem globreqs_mirror_request :
    ∃ s, shareStep .init (.downstream ⟨false, []⟩ .globalRequest (forwardPacket 22)) = .ok s ∧
      Mirrors s := by
  have hsettled : Settled .init (.downstream ⟨false, []⟩ .globalRequest (forwardPacket 22)) :=
    ⟨rfl, fun _ => ⟨fun _ hr => (nomatch hr), fun _ _ hv => (nomatch hv)⟩,
      fun _ => ⟨fun _ _ _ => ⟨rfl, rfl⟩, fun _ _ _ _ hfind => (nomatch hfind)⟩⟩
  exact ⟨_, rfl, (globreqs_mirror (.step (.init rfl)
    ⟨.downstream ⟨false, []⟩ .globalRequest (forwardPacket 22), hsettled, rfl⟩)).1⟩

/-- The downstream asks for two forwardings before the server answers. After the first answer the other
request is still outstanding, but the list is empty. -/
theorem globreqs_lost : ∃ s, Reached (fun _ _ => True) s ∧ s.globreqs ≠ [] ∧ ¬ Mirrors s ∧
    shareStep s (.server .requestSuccess []) = .error .assertion := by
  let request : UInt32 → ShareEvent := fun port =>
    .downstream ⟨false, []⟩ .globalRequest (forwardPacket port)
  obtain ⟨s, hrun, hq, hhead, hstep⟩ : ∃ s,
      shareRun .init [request 22, request 23, .server .requestSuccess []] = .ok s ∧
        s.globreqs = [⟨.tcpipForward, true, ⟨[], 23⟩⟩] ∧ s.cs.forwardings.globreqHead = none ∧
        shareStep s (.server .requestSuccess []) = .error .assertion :=
    ⟨_, rfl, rfl, rfl, rfl⟩
  refine ⟨s, reached_of_run hrun (.init rfl), by simp [hq], ?_, hstep⟩
  rintro ⟨⟨l, hlist, hfor⟩, -⟩
  rw [hhead] at hlist
  rw [hq] at hfor
  cases l with
  | nil => cases hfor
  | cons g l =>
    obtain ⟨a, next, hnone, -⟩ := hlist
    cases hnone

end PuttyNd.Share
