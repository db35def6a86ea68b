import PuttyNd.Lib.Runs
import PuttyNd.Transport.Ssh2Bpp

/-!
# Proofs: delayed compression

A link goes through three phases: before USERAUTH_SUCCESS is sent, while it is on its way, and after it has
arrived. In between the client must send nothing.
-/

namespace PuttyNd.Transport

open Runs

variable {alg : SshCompressionAlg}

namespace Ssh2Bpp

variable {s : Ssh2Bpp}

/-! ## The output of a side -/

/-- Compression is delayed in both directions. -/
structure Fresh (alg : SshCompressionAlg) (s : Ssh2Bpp) : Prop where
  inPending : s.inPending = some alg
  outPending : s.outPending = some alg
  inDecomp : s.inDecomp = none
  outComp : s.outComp = none
  seen : s.seenUserauthSuccess = false

/-- Compression has been switched on in both directions. -/
structure Enabled (alg : SshCompressionAlg) (s : Ssh2Bpp) : Prop where
  inPending : s.inPending = none
  outPending : s.outPending = none
  inDecomp : s.inDecomp = sshCompressorNew alg
  outComp : s.outComp = sshCompressorNew alg

theorem enabled_of_fresh (h : s.Fresh alg) : s.enablePendingCompression.Enabled alg := by
  unfold enablePendingCompression
  simp only [h.inPending, h.outPending]
  exact ⟨rfl, rfl, rfl, rfl⟩

theorem enablePendingCompression_of_enabled (h : s.Enabled alg) : s.enablePendingCompression = s := by
  unfold enablePendingCompression
  simp only [h.inPending, h.outPending]

theorem enablePendingCompression_keeps : s.enablePendingCompression.isServer = s.isServer ∧
    s.enablePendingCompression.outPq = s.outPq ∧
    s.enablePendingCompression.pendingCompression = s.pendingCompression ∧
    s.enablePendingCompression.seenUserauthSuccess = s.seenUserauthSuccess := by
  unfold enablePendingCompression
  simp only
  split
  · split
    · exact ⟨rfl, rfl, rfl, rfl⟩
    · exact ⟨rfl, rfl, rfl, rfl⟩
  · split
    · exact ⟨rfl, rfl, rfl, rfl⟩
    · exact ⟨rfl, rfl, rfl, rfl⟩

/-- The frames of these packets, all of them compressed or none -/
def FramesOf (l : List QueuedPkt) (compressed : Bool) (frames : List Frame) : Prop :=
  ∀ frame ∈ frames, frame.compressed = compressed ∧
    (frame.type = msgIgnore ∨ ∃ pkt ∈ l, pkt.type = frame.type)

theorem FramesOf.append {l : List QueuedPkt} {compressed : Bool} {frames frames' : List Frame}
    (h : FramesOf l compressed frames) (h' : FramesOf l compressed frames') :
    FramesOf l compressed (frames ++ frames') := by
  intro frame hframe
  rcases List.mem_append.mp hframe with hframe | hframe
  · exact h frame hframe
  · exact h' frame hframe

theorem FramesOf.mono {l l' : List QueuedPkt} {compressed : Bool} {frames : List Frame}
    (h : FramesOf l compressed frames) (hsub : ∀ pkt ∈ l, pkt ∈ l') : FramesOf l' compressed frames := by
  intro frame hframe
  obtain ⟨hcompressed, htype⟩ := h frame hframe
  exact ⟨hcompressed, htype.imp_right fun ⟨pkt, hpkt, heq⟩ => ⟨pkt, hsub pkt hpkt, heq⟩⟩

theorem formatPacket_framesOf (pkt : QueuedPkt) {l : List QueuedPkt}
    (hpkt : pkt.type = msgIgnore ∨ pkt ∈ l) : FramesOf l s.outComp.isSome (s.formatPacket pkt) := by
  have htype : pkt.type = msgIgnore ∨ ∃ p ∈ l, p.type = pkt.type := hpkt.imp_right fun h => ⟨pkt, h, rfl⟩
  intro frame hframe
  unfold formatPacket at hframe
  split at hframe
  · rcases List.mem_cons.mp hframe with rfl | hframe
    · exact ⟨rfl, .inl rfl⟩
    · rw [List.mem_singleton.mp hframe]
      exact ⟨rfl, htype⟩
  · rw [List.mem_singleton.mp hframe]
    exact ⟨rfl, htype⟩

/-- What a side sends as long as it does not switch compression on -/
theorem outputLoop_quiet (l : List QueuedPkt) (n : ℤ)
    (hquiet : ∀ pkt ∈ l, pkt.type = msgUserauthSuccess → s.isServer = true → s.enablePendingCompression = s) :
    ∃ outPq pendingCompression frames,
      s.outputLoop n l = ({ s with outPq := outPq, pendingCompression := pendingCompression }, frames) ∧
      FramesOf l s.outComp.isSome frames := by
  induction l generalizing n with
  | nil => exact ⟨[], s.pendingCompression, [], rfl, fun _ h => (nomatch h)⟩
  | cons pkt rest ih =>
    have hframes := formatPacket_framesOf (s := s) pkt (.inr (List.mem_cons_self (l := rest)))
    unfold outputLoop
    simp only
    generalize (if userauthRange pkt.type then n - 1 else n) = m
    split
    · exact ⟨rest, true, s.formatPacket pkt, rfl, hframes⟩
    · have hsame : (if pkt.type = msgUserauthSuccess ∧ s.isServer then s.enablePendingCompression else s) = s := by
        split
        case _ h => exact hquiet pkt List.mem_cons_self h.1 h.2
        · rfl
      rw [hsame]
      obtain ⟨outPq, pendingCompression, frames, heq, hmore⟩ :=
        ih m fun p hp => hquiet p (List.mem_cons_of_mem _ hp)
      rw [heq]
      exact ⟨outPq, pendingCompression, _, rfl,
        hframes.append (hmore.mono fun p hp => List.mem_cons_of_mem _ hp)⟩

theorem handleOutput_quiet (drained : Bool)
    (hquiet : ∀ pkt ∈ s.outPq, pkt.type = msgUserauthSuccess → s.isServer = true →
      s.enablePendingCompression = s) :
    ∃ outPq pendingCompression frames,
      s.handleOutput drained =
        ({ s with outPq := outPq, pendingCompression := pendingCompression }, frames) ∧
      FramesOf s.outPq s.outComp.isSome frames := by
  unfold handleOutput
  simp only
  split
  · exact ⟨s.outPq, s.pendingCompression, [], rfl, fun _ h => (nomatch h)⟩
  · obtain ⟨outPq, pendingCompression, frames, heq, hframes⟩ := outputLoop_quiet s.outPq _ hquiet
    rw [heq]
    refine ⟨outPq, pendingCompression, _, rfl, FramesOf.append ?_ hframes⟩
    split
    · exact formatPacket_framesOf _ (.inl rfl)
    · exact fun _ h => (nomatch h)

/-- The packets in front of the first USERAUTH_SUCCESS -/
def beforeSuccess (l : List QueuedPkt) : List QueuedPkt := l.takeWhile (·.type ≠ msgUserauthSuccess)

theorem beforeSuccess_cons {pkt : QueuedPkt} (h : pkt.type ≠ msgUserauthSuccess) (l : List QueuedPkt) :
    beforeSuccess (pkt :: l) = pkt :: beforeSuccess l := List.takeWhile_cons_of_pos (by simpa using h)

/-- A server has sent USERAUTH_SUCCESS, and switched compression on behind it. -/
structure Switched (alg : SshCompressionAlg) (s : Ssh2Bpp) (l : List QueuedPkt) (r : Ssh2Bpp × List Frame) :
    Prop where
  isServer : r.1.isServer = true
  enabled : r.1.Enabled alg
  frames : ∃ pre post, r.2 = pre ++ ⟨msgUserauthSuccess, false⟩ :: post ∧ FramesOf (beforeSuccess l) false pre ∧
    ∀ frame ∈ post, frame.compressed = (sshCompressorNew alg).isSome

theorem Switched.prepend {l l' : List QueuedPkt} {r : Ssh2Bpp × List Frame} {frames : List Frame}
    (h : Switched alg s l r) (hframes : FramesOf (beforeSuccess l') false frames)
    (hsub : ∀ pkt ∈ beforeSuccess l, pkt ∈ beforeSuccess l') : Switched alg s l' (r.1, frames ++ r.2) := by
  obtain ⟨pre, post, heq, hpre, hpost⟩ := h.frames
  refine ⟨h.isServer, h.enabled, frames ++ pre, post, ?_, hframes.append (hpre.mono hsub), hpost⟩
  show frames ++ r.2 = _
  rw [heq, List.append_assoc]

theorem formatPacket_fresh (h : s.Fresh alg) (pkt : QueuedPkt) :
    s.formatPacket pkt = [⟨pkt.type, false⟩] ∨
      s.formatPacket pkt = [⟨msgIgnore, false⟩, ⟨pkt.type, false⟩] := by
  unfold formatPacket
  rw [h.outComp]
  split
  · exact .inr rfl
  · exact .inl rfl

theorem outputLoop_switched (hserver : s.isServer = true) (hfresh : s.Fresh alg) (l : List QueuedPkt) (n : ℤ)
    (hsuccess : ∃ pkt ∈ l, pkt.type = msgUserauthSuccess) : Switched alg s l (s.outputLoop n l) := by
  induction l generalizing n with
  | nil =>
    obtain ⟨pkt, hpkt, -⟩ := hsuccess
    cases hpkt
  | cons pkt rest ih =>
    have hformat := formatPacket_fresh hfresh pkt
    unfold outputLoop
    simp only
    generalize (if userauthRange pkt.type then n - 1 else n) = m
    rw [if_neg fun h => by rw [hserver] at h; exact absurd h.2.2 Bool.false_ne_true]
    by_cases htype : pkt.type = msgUserauthSuccess
    · rw [if_pos ⟨htype, hserver⟩]
      have henabled := enabled_of_fresh hfresh
      obtain ⟨hkept, -, -, -⟩ := enablePendingCompression_keeps (s := s)
      obtain ⟨outPq, pendingCompression, frames, heq, hframes⟩ := outputLoop_quiet (s := s.enablePendingCompression)
        rest m fun _ _ _ _ => enablePendingCompression_of_enabled henabled
      have hpost : ∀ frame ∈ frames, frame.compressed = (sshCompressorNew alg).isSome := by
        intro frame hframe
        rw [(hframes frame hframe).1, henabled.outComp]
      rw [heq]
      refine ⟨hkept.trans hserver, ⟨henabled.1, henabled.2, henabled.3, henabled.4⟩, ?_⟩
      rw [htype] at hformat
      rcases hformat with hformat | hformat
      · rw [hformat]
        exact ⟨[], frames, rfl, fun _ h => (nomatch h), hpost⟩
      · rw [hformat]
        refine ⟨[⟨msgIgnore, false⟩], frames, rfl, fun frame hframe => ?_, hpost⟩
        rw [List.mem_singleton.mp hframe]
        exact ⟨rfl, .inl rfl⟩
    · rw [if_neg fun h => htype h.1]
      have hrest : ∃ p ∈ rest, p.type = msgUserauthSuccess := by
        obtain ⟨p, hp, hptype⟩ := hsuccess
        rcases List.mem_cons.mp hp with rfl | hp
        · exact absurd hptype htype
        · exact ⟨p, hp, hptype⟩
      refine (ih m hrest).prepend ?_ ?_
      · have hframes := formatPacket_framesOf (s := s) pkt (l := beforeSuccess (pkt :: rest))
          (.inr (by rw [beforeSuccess_cons htype]; exact List.mem_cons_self))
        rw [hfresh.outComp] at hframes
        exact hframes
      · intro p hp
        rw [beforeSuccess_cons htype]
        exact List.mem_cons_of_mem _ hp

theorem handleOutput_switched (hserver : s.isServer = true) (hfresh : s.Fresh alg) (drained : Bool)
    (hsuccess : ∃ pkt ∈ s.outPq, pkt.type = msgUserauthSuccess) :
    s.handleOutput drained = (s, []) ∨ Switched alg s s.outPq (s.handleOutput drained) := by
  unfold handleOutput
  simp only
  split
  · exact .inl rfl
  · refine .inr ((outputLoop_switched hserver hfresh s.outPq _ hsuccess).prepend ?_ fun _ h => h)
    split
    · have hframes := formatPacket_framesOf (s := s) ⟨msgIgnore, false⟩ (l := beforeSuccess s.outPq) (.inl rfl)
      rw [hfresh.outComp] at hframes
      exact hframes
    · exact fun _ h => (nomatch h)

/-- A side that waits for an answer sends nothing. -/
theorem handleOutput_blocked (hblocked : s.pendingCompression = true)
    (hquiet : ∀ pkt ∈ s.outPq, userauthRange pkt.type = false) (drained : Bool) :
    s.handleOutput drained = (s, []) := by
  have hcount : s.outPq.countP (fun pkt => userauthRange pkt.type) = 0 := by
    rw [List.countP_eq_zero]
    intro pkt hpkt
    rw [hquiet pkt hpkt]
    exact Bool.false_ne_true
  unfold handleOutput
  simp only [hcount, hblocked]
  rfl

/-! ## The input of a side -/

theorem userauthRange_success : userauthRange msgUserauthSuccess = true := by decide

/-- Any packet but USERAUTH_SUCCESS leaves compression as it is. -/
theorem handleInput_cases (type : ℕ) (htype : type ≠ msgUserauthSuccess ∨ s.isServer = true) :
    ∃ outPq pendingNewkeys pendingCompression, s.handleInput type =
      { s with
        outPq := outPq, pendingNewkeys := pendingNewkeys, pendingCompression := pendingCompression } ∧
      (outPq = s.outPq ∨ outPq = s.outPq ++ [⟨msgUnimplemented, false⟩]) ∧
      (userauthRange type = false → pendingCompression = s.pendingCompression) := by
  have hnot : ¬ (type = msgUserauthSuccess ∧ (!s.isServer) = true) := by
    intro h
    rcases htype with htype | hserver
    · exact htype h.1
    · rw [hserver] at h
      exact Bool.false_ne_true h.2
  unfold handleInput
  simp only [if_neg hnot]
  split
  · exact ⟨_, s.pendingNewkeys, s.pendingCompression, rfl, .inr rfl, fun _ => rfl⟩
  · split
    · exact ⟨s.outPq, true, s.pendingCompression, rfl, .inl rfl, fun _ => rfl⟩
    · split
      case _ hunblock =>
        refine ⟨s.outPq, s.pendingNewkeys, false, rfl, .inl rfl, fun hrange => ?_⟩
        rw [hrange, Bool.and_false] at hunblock
        cases hunblock
      · exact ⟨s.outPq, s.pendingNewkeys, s.pendingCompression, rfl, .inl rfl, fun _ => rfl⟩

/-- USERAUTH_SUCCESS switches compression on in a client. -/
theorem handleInput_success (hclient : s.isServer = false) :
    ∃ pendingCompression, s.handleInput msgUserauthSuccess = { s.enablePendingCompression with
      seenUserauthSuccess := true, pendingCompression := pendingCompression } := by
  have hnotServer : (!s.isServer) = true := by
    rw [hclient]
    rfl
  unfold handleInput
  rw [if_neg (by decide), if_neg (by decide)]
  simp only [hnotServer, and_self, if_true]
  split
  · exact ⟨false, rfl⟩
  · exact ⟨s.enablePendingCompression.pendingCompression, rfl⟩

/-! ## New keys -/

theorem newOutgoingCrypto_fresh (h : s.Fresh alg) (cbcIgnore : Bool) :
    (s.newOutgoingCrypto alg cbcIgnore).Fresh alg ∧ ∃ cbc outPending outComp,
      s.newOutgoingCrypto alg cbcIgnore =
        { s with cbcIgnoreWorkaround := cbc, outPending := outPending, outComp := outComp } := by
  unfold newOutgoingCrypto
  rw [if_pos (by rw [h.seen]; rfl)]
  exact ⟨⟨h.inPending, rfl, h.inDecomp, rfl, h.seen⟩, _, _, _, rfl⟩

theorem newIncomingCrypto_fresh (h : s.Fresh alg) :
    (s.newIncomingCrypto alg).Fresh alg ∧ ∃ inPending inDecomp,
      s.newIncomingCrypto alg =
        { s with inPending := inPending, inDecomp := inDecomp, pendingNewkeys := false } := by
  unfold newIncomingCrypto
  rw [if_pos (by rw [h.seen]; rfl)]
  exact ⟨⟨rfl, h.outPending, rfl, h.outComp, h.seen⟩, _, _, rfl⟩

end Ssh2Bpp

/-! ## The phases of a link -/

namespace Link

open Ssh2Bpp

variable {l : Link}

/-- Each packet that has arrived was decompressed if and only if it was compressed. -/
def Matched (l : Link) : Prop := ∀ r ∈ l.received, r.2 = r.1.compressed

/-- The client waits for the answer to its last userauth packet. It has sent nothing that has not arrived, it
has no userauth packet to send, and no other answer than USERAUTH_SUCCESS can reach it first. -/
structure ClientWaits (l : Link) : Prop where
  blocked : l.client.pendingCompression = true
  quiet : ∀ pkt ∈ l.client.outPq, userauthRange pkt.type = false
  awaiting : l.awaiting = true
  toServer : l.toServer = []
  toClient : ∀ frame ∈ l.toClient, userauthRange frame.type = false
  first : ∀ pkt ∈ beforeSuccess l.server.outPq, userauthRange pkt.type = false

/-- The client pushes a userauth packet only after the previous one has been answered. The server sends
USERAUTH_SUCCESS while the client waits for it, and sets up no new keys from then on. -/
def Allowed (l : Link) : Event → Prop
  | .push .client pkt => userauthRange pkt.type = true → l.awaiting = false
  | .handleOutput .server _ => l.server.outPending.isSome →
    (∃ pkt ∈ l.server.outPq, pkt.type = msgUserauthSuccess) → l.ClientWaits
  | .newOutgoing .server _ | .newIncoming .server => l.server.outPending.isSome
  | _ => True

instance : Decidable l.ClientWaits :=
  decidable_of_iff (l.client.pendingCompression = true ∧
    (∀ pkt ∈ l.client.outPq, userauthRange pkt.type = false) ∧ l.awaiting = true ∧ l.toServer = [] ∧
    (∀ frame ∈ l.toClient, userauthRange frame.type = false) ∧
    ∀ pkt ∈ beforeSuccess l.server.outPq, userauthRange pkt.type = false)
    ⟨fun h => ⟨h.1, h.2.1, h.2.2.1, h.2.2.2.1, h.2.2.2.2.1, h.2.2.2.2.2⟩,
      fun h => ⟨h.blocked, h.quiet, h.awaiting, h.toServer, h.toClient, h.first⟩⟩

instance : ∀ (l : Link) (e : Event), Decidable (l.Allowed e)
  | l, .push .client pkt =>
    inferInstanceAs (Decidable (userauthRange pkt.type = true → l.awaiting = false))
  | l, .handleOutput .server _ => inferInstanceAs (Decidable (l.server.outPending.isSome →
      (∃ pkt ∈ l.server.outPq, pkt.type = msgUserauthSuccess) → l.ClientWaits))
  | l, .newOutgoing .server _ | l, .newIncoming .server =>
    inferInstanceAs (Decidable (l.server.outPending.isSome = true))
  | _, .push .server _ | _, .handleOutput .client _ | _, .deliver _ | _, .newOutgoing .client _
  | _, .newIncoming .client => isTrue trivial

/-- What is on the way, and what the two ends do about it -/
inductive Phase (alg : SshCompressionAlg) (l : Link) : Prop
  | before (hclient : l.client.Fresh alg) (hserver : l.server.Fresh alg)
    (htoServer : ∀ frame ∈ l.toServer, frame.compressed = false)
    (htoClient : ∀ frame ∈ l.toClient, frame.compressed = false ∧ frame.type ≠ msgUserauthSuccess)
  | during (hclient : l.client.Fresh alg) (hserver : l.server.Enabled alg) (htoServer : l.toServer = [])
    (hblocked : l.client.pendingCompression = true)
    (hquiet : ∀ pkt ∈ l.client.outPq, userauthRange pkt.type = false) (hawaiting : l.awaiting = true)
    (htoClient : ∃ pre post, l.toClient = pre ++ ⟨msgUserauthSuccess, false⟩ :: post ∧
      (∀ frame ∈ pre, frame.compressed = false ∧ userauthRange frame.type = false) ∧
      ∀ frame ∈ post, frame.compressed = (sshCompressorNew alg).isSome)
  | after (hclient : l.client.Enabled alg) (hseen : l.client.seenUserauthSuccess = true)
    (hserver : l.server.Enabled alg)
    (htoServer : ∀ frame ∈ l.toServer, frame.compressed = (sshCompressorNew alg).isSome)
    (htoClient : ∀ frame ∈ l.toClient, frame.compressed = (sshCompressorNew alg).isSome)

structure Inv (alg : SshCompressionAlg) (l : Link) : Prop where
  client : l.client.isServer = false
  server : l.server.isServer = true
  matched : l.Matched
  phase : l.Phase alg

theorem matched_concat (h : l.Matched) {frame : Frame} {decompressed : Bool}
    (heq : decompressed = frame.compressed) :
    ∀ r ∈ l.received ++ [(frame, decompressed)], r.2 = r.1.compressed := by
  intro r hr
  rcases List.mem_append.mp hr with hr | hr
  · exact h r hr
  · rw [List.mem_singleton.mp hr]
    exact heq

/-! ## What a step does in each phase -/

theorem inv_push_client (h : l.Inv alg) {pkt : QueuedPkt} (hallowed : l.Allowed (.push .client pkt)) :
    (step alg l (.push .client pkt)).Inv alg := by
  refine ⟨h.client, h.server, h.matched, ?_⟩
  cases h.phase with
  | before hclient hserver htoServer htoClient =>
    exact .before ⟨hclient.1, hclient.2, hclient.3, hclient.4, hclient.5⟩ hserver htoServer htoClient
  | during hclient hserver htoServer hblocked hquiet hawaiting htoClient =>
    refine .during ⟨hclient.1, hclient.2, hclient.3, hclient.4, hclient.5⟩ hserver htoServer hblocked ?_ ?_
      htoClient
    · intro p hp
      rcases List.mem_append.mp hp with hp | hp
      · exact hquiet p hp
      · rw [List.mem_singleton.mp hp]
        by_contra hrange
        have hnot := hallowed (Bool.eq_true_of_not_eq_false hrange)
        rw [hawaiting] at hnot
        cases hnot
    · show (l.awaiting || _) = true
      rw [hawaiting, Bool.true_or]
  | after hclient hseen hserver htoServer htoClient =>
    exact .after ⟨hclient.1, hclient.2, hclient.3, hclient.4⟩ hseen hserver htoServer htoClient

theorem inv_push_server (h : l.Inv alg) (pkt : QueuedPkt) : (step alg l (.push .server pkt)).Inv alg := by
  refine ⟨h.client, h.server, h.matched, ?_⟩
  cases h.phase with
  | before hclient hserver htoServer htoClient =>
    exact .before hclient ⟨hserver.1, hserver.2, hserver.3, hserver.4, hserver.5⟩ htoServer htoClient
  | during hclient hserver htoServer hblocked hquiet hawaiting htoClient =>
    exact .during hclient ⟨hserver.1, hserver.2, hserver.3, hserver.4⟩ htoServer hblocked hquiet hawaiting
      htoClient
  | after hclient hseen hserver htoServer htoClient =>
    exact .after hclient hseen ⟨hserver.1, hserver.2, hserver.3, hserver.4⟩ htoServer htoClient

theorem inv_handleOutput_client (h : l.Inv alg) (drained : Bool) :
    (step alg l (.handleOutput .client drained)).Inv alg := by
  have hnotServer : ∀ pkt ∈ l.client.outPq, pkt.type = msgUserauthSuccess → l.client.isServer = true →
      l.client.enablePendingCompression = l.client := by
    intro pkt _ _ hserver
    rw [h.client] at hserver
    cases hserver
  cases h.phase with
  | before hclient hserver htoServer htoClient =>
    obtain ⟨outPq, pendingCompression, frames, heq, hframes⟩ := handleOutput_quiet drained hnotServer
    simp only [step, heq]
    refine ⟨h.client, h.server, h.matched,
      .before ⟨hclient.1, hclient.2, hclient.3, hclient.4, hclient.5⟩ hserver ?_ htoClient⟩
    intro frame hframe
    rcases List.mem_append.mp hframe with hframe | hframe
    · exact htoServer frame hframe
    · rw [(hframes frame hframe).1, hclient.outComp]
      rfl
  | during hclient hserver htoServer hblocked hquiet hawaiting htoClient =>
    simp only [step, handleOutput_blocked hblocked hquiet drained, List.append_nil]
    exact h
  | after hclient hseen hserver htoServer htoClient =>
    obtain ⟨outPq, pendingCompression, frames, heq, hframes⟩ := handleOutput_quiet drained hnotServer
    simp only [step, heq]
    refine ⟨h.client, h.server, h.matched,
      .after ⟨hclient.1, hclient.2, hclient.3, hclient.4⟩ hseen hserver ?_ htoClient⟩
    intro frame hframe
    rcases List.mem_append.mp hframe with hframe | hframe
    · exact htoServer frame hframe
    · rw [(hframes frame hframe).1, hclient.outComp]

/-- Here the server may switch compression on. -/
theorem inv_handleOutput_server (h : l.Inv alg) {drained : Bool}
    (hallowed : l.Allowed (.handleOutput .server drained)) :
    (step alg l (.handleOutput .server drained)).Inv alg := by
  have hframed : ∀ {frames : List Frame} {compressed : Bool},
      FramesOf l.server.outPq l.server.outComp.isSome frames →
      (l.server.outComp.isSome = compressed) → ∀ frame ∈ frames, frame.compressed = compressed := by
    intro frames compressed hframes heq frame hframe
    rw [(hframes frame hframe).1, heq]
  cases h.phase with
  | before hclient hserver htoServer htoClient =>
    by_cases hsuccess : ∃ pkt ∈ l.server.outPq, pkt.type = msgUserauthSuccess
    · have hwaits := hallowed (by rw [hserver.outPending]; rfl) hsuccess
      rcases handleOutput_switched h.server hserver drained hsuccess with heq | hswitched
      · simp only [step, heq, List.append_nil]
        exact h
      · obtain ⟨pre, post, heq, hpre, hpost⟩ := hswitched.frames
        have hstep : step alg l (.handleOutput .server drained) =
            { l with
              server := (l.server.handleOutput drained).1
              toClient := l.toClient ++ (l.server.handleOutput drained).2 } := rfl
        rw [hstep, heq]
        refine ⟨h.client, hswitched.isServer, h.matched, .during hclient hswitched.enabled hwaits.toServer
          hwaits.blocked hwaits.quiet hwaits.awaiting ⟨l.toClient ++ pre, post, ?_, ?_, hpost⟩⟩
        · rw [List.append_assoc]
        · intro frame hframe
          rcases List.mem_append.mp hframe with hframe | hframe
          · exact ⟨(htoClient frame hframe).1, hwaits.toClient frame hframe⟩
          · obtain ⟨hcompressed, hignore | ⟨pkt, hpkt, htype⟩⟩ := hpre frame hframe
            · exact ⟨hcompressed, by rw [hignore]; decide⟩
            · exact ⟨hcompressed, htype ▸ hwaits.first pkt hpkt⟩
    · obtain ⟨outPq, pendingCompression, frames, heq, hframes⟩ := handleOutput_quiet drained
        fun pkt hpkt htype _ => absurd ⟨pkt, hpkt, htype⟩ hsuccess
      simp only [step, heq]
      refine ⟨h.client, h.server, h.matched,
        .before hclient ⟨hserver.1, hserver.2, hserver.3, hserver.4, hserver.5⟩ htoServer ?_⟩
      intro frame hframe
      rcases List.mem_append.mp hframe with hframe | hframe
      · exact htoClient frame hframe
      · refine ⟨hframed hframes (by rw [hserver.outComp]; rfl) frame hframe, fun htype => ?_⟩
        obtain ⟨-, hignore | ⟨pkt, hpkt, hpkttype⟩⟩ := hframes frame hframe
        · rw [htype] at hignore
          exact absurd hignore (by decide)
        · exact hsuccess ⟨pkt, hpkt, hpkttype.trans htype⟩
  | during hclient hserver htoServer hblocked hquiet hawaiting htoClient =>
    obtain ⟨outPq, pendingCompression, frames, heq, hframes⟩ := handleOutput_quiet drained
      fun _ _ _ _ => enablePendingCompression_of_enabled hserver
    obtain ⟨pre, post, htoClient', hpre, hpost⟩ := htoClient
    simp only [step, heq]
    refine ⟨h.client, h.server, h.matched, .during hclient ⟨hserver.1, hserver.2, hserver.3, hserver.4⟩ htoServer
      hblocked hquiet hawaiting ⟨pre, post ++ frames, ?_, hpre, ?_⟩⟩
    · show l.toClient ++ frames = _
      rw [htoClient', List.append_assoc]
      rfl
    · intro frame hframe
      rcases List.mem_append.mp hframe with hframe | hframe
      · exact hpost frame hframe
      · exact hframed hframes (by rw [hserver.outComp]) frame hframe
  | after hclient hseen hserver htoServer htoClient =>
    obtain ⟨outPq, pendingCompression, frames, heq, hframes⟩ := handleOutput_quiet drained
      fun _ _ _ _ => enablePendingCompression_of_enabled hserver
    simp only [step, heq]
    refine ⟨h.client, h.server, h.matched,
      .after hclient hseen ⟨hserver.1, hserver.2, hserver.3, hserver.4⟩ htoServer ?_⟩
    intro frame hframe
    rcases List.mem_append.mp hframe with hframe | hframe
    · exact htoClient frame hframe
    · exact hframed hframes (by rw [hserver.outComp]) frame hframe

theorem inv_deliver_server (h : l.Inv alg) : (step alg l (.deliver .server)).Inv alg := by
  unfold step
  simp only
  split
  · exact h
  · split
    · exact h
    case _ frame rest htoServer' =>
      obtain ⟨outPq, pendingNewkeys, pendingCompression, heq, -, -⟩ :=
        handleInput_cases (s := l.server) frame.type (.inr h.server)
      rw [heq]
      cases h.phase with
      | before hclient hserver htoServer htoClient =>
        rw [htoServer'] at htoServer
        refine ⟨h.client, h.server, matched_concat h.matched ?_, .before hclient
          ⟨hserver.1, hserver.2, hserver.3, hserver.4, hserver.5⟩
          (fun f hf => htoServer f (List.mem_cons_of_mem _ hf)) htoClient⟩
        rw [hserver.inDecomp, htoServer frame List.mem_cons_self]
        rfl
      | during hclient hserver htoServer hblocked hquiet hawaiting htoClient =>
        rw [htoServer] at htoServer'
        cases htoServer'
      | after hclient hseen hserver htoServer htoClient =>
        rw [htoServer'] at htoServer
        refine ⟨h.client, h.server, matched_concat h.matched ?_, .after hclient hseen
          ⟨hserver.1, hserver.2, hserver.3, hserver.4⟩
          (fun f hf => htoServer f (List.mem_cons_of_mem _ hf)) htoClient⟩
        rw [hserver.inDecomp, htoServer frame List.mem_cons_self]

/-- Here the client may switch compression on. -/
theorem inv_deliver_client (h : l.Inv alg) : (step alg l (.deliver .client)).Inv alg := by
  unfold step
  simp only
  split
  · exact h
  · split
    · exact h
    case _ frame rest htoClient' =>
      cases h.phase with
      | before hclient hserver htoServer htoClient =>
        rw [htoClient'] at htoClient
        obtain ⟨hcompressed, htype⟩ := htoClient frame List.mem_cons_self
        obtain ⟨outPq, pendingNewkeys, pendingCompression, heq, -, -⟩ :=
          handleInput_cases (s := l.client) frame.type (.inl htype)
        rw [heq]
        refine ⟨h.client, h.server, matched_concat h.matched ?_, .before
          ⟨hclient.1, hclient.2, hclient.3, hclient.4, hclient.5⟩ hserver htoServer
          fun f hf => htoClient f (List.mem_cons_of_mem _ hf)⟩
        rw [hclient.inDecomp, hcompressed]
        rfl
      | during hclient hserver htoServer hblocked hquiet hawaiting htoClient =>
        obtain ⟨pre, post, hsplit, hpre, hpost⟩ := htoClient
        rw [htoClient'] at hsplit
        cases pre with
        | nil =>
          cases hsplit
          obtain ⟨pendingCompression, heq⟩ := handleInput_success h.client
          obtain ⟨hkept, -, -, -⟩ := enablePendingCompression_keeps (s := l.client)
          have henabled := enabled_of_fresh hclient
          rw [heq]
          refine ⟨hkept.trans h.client, h.server, matched_concat h.matched ?_, .after
            ⟨henabled.1, henabled.2, henabled.3, henabled.4⟩ rfl hserver ?_ hpost⟩
          · rw [hclient.inDecomp]
            rfl
          · show ∀ f ∈ l.toServer, _
            rw [htoServer]
            exact fun _ hf => (nomatch hf)
        | cons first pre =>
          cases hsplit
          obtain ⟨hcompressed, hrange⟩ := hpre frame List.mem_cons_self
          have htype : frame.type ≠ msgUserauthSuccess := by
            intro htype
            rw [htype, userauthRange_success] at hrange
            cases hrange
          obtain ⟨outPq, pendingNewkeys, pendingCompression, heq, hqueue, hstill⟩ :=
            handleInput_cases (s := l.client) frame.type (.inl htype)
          rw [heq]
          refine ⟨h.client, h.server, matched_concat h.matched ?_, .during
            ⟨hclient.1, hclient.2, hclient.3, hclient.4, hclient.5⟩ hserver htoServer
            ((hstill hrange).trans hblocked) ?_ ?_
            ⟨pre, post, rfl, fun f hf => hpre f (List.mem_cons_of_mem _ hf), hpost⟩⟩
          · rw [hclient.inDecomp, hcompressed]
            rfl
          · show ∀ pkt ∈ outPq, _
            rcases hqueue with hqueue | hqueue
            · rw [hqueue]
              exact hquiet
            · rw [hqueue]
              intro pkt hpkt
              rcases List.mem_append.mp hpkt with hpkt | hpkt
              · exact hquiet pkt hpkt
              · rw [List.mem_singleton.mp hpkt]
                decide
          · show (l.awaiting && !userauthRange frame.type) = true
            rw [hawaiting, hrange]
            rfl
      | after hclient hseen hserver htoServer htoClient =>
        rw [htoClient'] at htoClient
        have hframe : l.client.inDecomp.isSome = frame.compressed := by
          rw [hclient.inDecomp, htoClient frame List.mem_cons_self]
        have hmatched := matched_concat h.matched hframe
        have hrest : ∀ f ∈ rest, f.compressed = (sshCompressorNew alg).isSome :=
          fun f hf => htoClient f (List.mem_cons_of_mem _ hf)
        by_cases htype : frame.type = msgUserauthSuccess
        · obtain ⟨pendingCompression, heq⟩ := handleInput_success h.client
          rw [htype, heq, enablePendingCompression_of_enabled hclient]
          exact ⟨h.client, h.server, hmatched, .after ⟨hclient.1, hclient.2, hclient.3, hclient.4⟩ rfl hserver
            htoServer hrest⟩
        · obtain ⟨outPq, pendingNewkeys, pendingCompression, heq, -, -⟩ :=
            handleInput_cases (s := l.client) frame.type (.inl htype)
          rw [heq]
          exact ⟨h.client, h.server, hmatched, .after ⟨hclient.1, hclient.2, hclient.3, hclient.4⟩ hseen hserver
            htoServer hrest⟩

theorem inv_newOutgoing_client (h : l.Inv alg) (cbcIgnore : Bool) :
    (step alg l (.newOutgoing .client cbcIgnore)).Inv alg := by
  unfold step
  simp only
  cases h.phase with
  | before hclient hserver htoServer htoClient =>
    obtain ⟨hfresh, cbc, outPending, outComp, heq⟩ := newOutgoingCrypto_fresh hclient cbcIgnore
    rw [heq] at hfresh ⊢
    exact ⟨h.client, h.server, h.matched, .before hfresh hserver htoServer htoClient⟩
  | during hclient hserver htoServer hblocked hquiet hawaiting htoClient =>
    obtain ⟨hfresh, cbc, outPending, outComp, heq⟩ := newOutgoingCrypto_fresh hclient cbcIgnore
    rw [heq] at hfresh ⊢
    exact ⟨h.client, h.server, h.matched,
      .during hfresh hserver htoServer hblocked hquiet hawaiting htoClient⟩
  | after hclient hseen hserver htoServer htoClient =>
    unfold newOutgoingCrypto
    rw [if_neg (by rw [hseen]; exact Bool.false_ne_true)]
    exact ⟨h.client, h.server, h.matched, .after ⟨hclient.inPending, rfl, hclient.inDecomp, rfl⟩ hseen hserver
      htoServer htoClient⟩

theorem inv_newIncoming_client (h : l.Inv alg) : (step alg l (.newIncoming .client)).Inv alg := by
  unfold step
  simp only
  cases h.phase with
  | before hclient hserver htoServer htoClient =>
    obtain ⟨hfresh, inPending, inDecomp, heq⟩ := newIncomingCrypto_fresh hclient
    rw [heq] at hfresh ⊢
    exact ⟨h.client, h.server, h.matched, .before hfresh hserver htoServer htoClient⟩
  | during hclient hserver htoServer hblocked hquiet hawaiting htoClient =>
    obtain ⟨hfresh, inPending, inDecomp, heq⟩ := newIncomingCrypto_fresh hclient
    rw [heq] at hfresh ⊢
    exact ⟨h.client, h.server, h.matched,
      .during hfresh hserver htoServer hblocked hquiet hawaiting htoClient⟩
  | after hclient hseen hserver htoServer htoClient =>
    unfold newIncomingCrypto
    rw [if_neg (by rw [hseen]; exact Bool.false_ne_true)]
    exact ⟨h.client, h.server, h.matched, .after ⟨rfl, hclient.outPending, rfl, hclient.outComp⟩ hseen hserver
      htoServer htoClient⟩

/-- A server sets up new keys only as long as it has not sent USERAUTH_SUCCESS. -/
theorem server_fresh (h : l.Inv alg) (hpending : l.server.outPending.isSome) :
    l.client.Fresh alg ∧ l.server.Fresh alg ∧ (∀ frame ∈ l.toServer, frame.compressed = false) ∧
      ∀ frame ∈ l.toClient, frame.compressed = false ∧ frame.type ≠ msgUserauthSuccess := by
  cases h.phase with
  | before hclient hserver htoServer htoClient => exact ⟨hclient, hserver, htoServer, htoClient⟩
  | during hclient hserver =>
    rw [hserver.outPending] at hpending
    cases hpending
  | after hclient hseen hserver =>
    rw [hserver.outPending] at hpending
    cases hpending

theorem inv_newOutgoing_server (h : l.Inv alg) {cbcIgnore : Bool} (hpending : l.server.outPending.isSome) :
    (step alg l (.newOutgoing .server cbcIgnore)).Inv alg := by
  obtain ⟨hclient, hserver, htoServer, htoClient⟩ := server_fresh h hpending
  obtain ⟨hfresh, cbc, outPending, outComp, heq⟩ := newOutgoingCrypto_fresh hserver cbcIgnore
  unfold step
  simp only
  rw [heq] at hfresh ⊢
  exact ⟨h.client, h.server, h.matched, .before hclient hfresh htoServer htoClient⟩

theorem inv_newIncoming_server (h : l.Inv alg) (hpending : l.server.outPending.isSome) :
    (step alg l (.newIncoming .server)).Inv alg := by
  obtain ⟨hclient, hserver, htoServer, htoClient⟩ := server_fresh h hpending
  obtain ⟨hfresh, inPending, inDecomp, heq⟩ := newIncomingCrypto_fresh hserver
  unfold step
  simp only
  rw [heq] at hfresh ⊢
  exact ⟨h.client, h.server, h.matched, .before hclient hfresh htoServer htoClient⟩

theorem inv_step (h : l.Inv alg) (e : Event) (hallowed : l.Allowed e) : (step alg l e).Inv alg := by
  cases e with
  | push side pkt =>
    cases side with
    | client => exact inv_push_client h hallowed
    | server => exact inv_push_server h pkt
  | handleOutput side drained =>
    cases side with
    | client => exact inv_handleOutput_client h drained
    | server => exact inv_handleOutput_server h hallowed
  | deliver side =>
    cases side with
    | client => exact inv_deliver_client h
    | server => exact inv_deliver_server h
  | newOutgoing side cbcIgnore =>
    cases side with
    | client => exact inv_newOutgoing_client h cbcIgnore
    | server => exact inv_newOutgoing_server h hallowed
  | newIncoming side =>
    cases side with
    | client => exact inv_newIncoming_client h
    | server => exact inv_newIncoming_server h hallowed

/-! ## Runs -/

theorem inv_established (cbcIgnoreClient cbcIgnoreServer : Bool) :
    (established alg cbcIgnoreClient cbcIgnoreServer).Inv alg :=
  ⟨rfl, rfl, fun _ h => (nomatch h),
    .before ⟨rfl, rfl, rfl, rfl, rfl⟩ ⟨rfl, rfl, rfl, rfl, rfl⟩ (fun _ h => (nomatch h)) fun _ h => (nomatch h)⟩

/-- Both ends switch compression on at the same point in the runs in which the client waits for
USERAUTH_SUCCESS when it is sent. -/
theorem compression_matched (alg : SshCompressionAlg) (cbcIgnoreClient cbcIgnoreServer : Bool)
    (events : List Event)
    (hallowed : Meets (step alg) Allowed (established alg cbcIgnoreClient cbcIgnoreServer) events) :
    Always (step alg) Matched (established alg cbcIgnoreClient cbcIgnoreServer) events := by
  have hkept : ∀ (l : Link) e, l.Inv alg → l.Allowed e → (step alg l e).Inv alg :=
    fun l e h he => inv_step h e he
  exact always_of_meets (fun l h => h.matched) hkept (inv_established cbcIgnoreClient cbcIgnoreServer) hallowed

/-- The method "zlib" -/
def zlib : SshCompressionAlg := ⟨ascii "zlib"⟩

/-- A userauth request is granted, while the client has another packet to send. -/
def granted : List Event :=
  [.push .client ⟨msgUserauthRequest, false⟩, .push .client ⟨msgIgnore, false⟩, .handleOutput .client false,
    .deliver .server, .push .server ⟨msgUserauthSuccess, false⟩, .handleOutput .server false,
    .handleOutput .client false, .deliver .client, .handleOutput .client false, .deliver .server]

theorem compression_matched_granted : Meets (step zlib) Allowed (established zlib false false) granted ∧
    Always (step zlib) Matched (established zlib false false) granted := by
  have hallowed : Meets (step zlib) Allowed (established zlib false false) granted := by decide +kernel
  exact ⟨hallowed, compression_matched zlib false false granted hallowed⟩

/-- The client pushes a userauth packet only after the previous one has been answered, and there are no new
keys. -/
def Answered (l : Link) : Event → Prop
  | .push .client pkt => userauthRange pkt.type = true → l.awaiting = false
  | .newOutgoing _ _ | .newIncoming _ => False
  | _ => True

instance : ∀ (l : Link) (e : Event), Decidable (l.Answered e)
  | l, .push .client pkt =>
    inferInstanceAs (Decidable (userauthRange pkt.type = true → l.awaiting = false))
  | _, .push .server _ | _, .handleOutput _ _ | _, .deliver _ => isTrue trivial
  | _, .newOutgoing _ _ | _, .newIncoming _ => isFalse id

/-- The server sends a banner and then USERAUTH_SUCCESS, and in between the client is no longer blocked. -/
def bannered : List Event :=
  [.push .client ⟨msgUserauthRequest, false⟩, .push .client ⟨msgIgnore, false⟩, .handleOutput .client false,
    .push .server ⟨msgUserauthBanner, false⟩, .handleOutput .server false, .deliver .client,
    .handleOutput .client false, .deliver .server, .push .server ⟨msgUserauthSuccess, false⟩,
    .handleOutput .server false, .deliver .server]

/-- The server decompresses a packet that the client has not compressed. -/
theorem banner_unblocks :
    Meets (step zlib) Answered (established zlib false false) bannered ∧
    bannered.count (.push .server ⟨msgUserauthSuccess, false⟩) = 1 ∧
    ¬ Always (step zlib) Matched (established zlib false false) bannered := by
  refine ⟨by decide +kernel, by decide +kernel, fun h => ?_⟩
  have hmatched := h bannered (List.prefix_refl _)
  have hreceived : (⟨msgIgnore, false⟩, true) ∈
      (bannered.foldl (step zlib) (established zlib false false)).received := by
    decide +kernel
  cases hmatched _ hreceived

/-- After USERAUTH_SUCCESS the server sets up new keys. -/
def rekeyed : List Event :=
  granted ++ [.newOutgoing .server false, .push .server ⟨msgIgnore, false⟩, .handleOutput .server false,
    .deliver .client]

/-- A server does not remember that it has sent USERAUTH_SUCCESS, and a client does. -/
theorem rekey_forgets : ¬ Always (step zlib) Matched (established zlib false false) rekeyed := by
  intro h
  have hmatched := h rekeyed (List.prefix_refl _)
  have hreceived : (⟨msgIgnore, false⟩, true) ∈
      (rekeyed.foldl (step zlib) (established zlib false false)).received := by
    decide +kernel
  cases hmatched _ hreceived

end Link

end PuttyNd.Transport
