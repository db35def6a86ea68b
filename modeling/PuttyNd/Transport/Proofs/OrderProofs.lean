import PuttyNd.Lib.Runs
import PuttyNd.Transport.Proofs.FrameProofs

/-!
# Proofs: transcripts and the order of packets

A watcher of the wire knows whether a key exchange is going on, and which KEXINIT packets belong to it. What
the layer has let pass and what it still has in its queues is what it was given.
-/

namespace PuttyNd.Transport

open Runs Psftp

/-! ## The wire -/

/-- What is known from the wire -/
structure Track where
  /-- We have sent a KEXINIT, and no NEWKEYS since. -/
  exchanging : Bool := false
  /-- the KEXINIT payloads sent and received in the last key exchange -/
  ours : Option (List UInt8) := none
  theirs : Option (List UInt8) := none
  /-- The exchange hash of the last key exchange has been started. -/
  hashed : Bool := false
  /-- A NEWKEYS has been received. -/
  newkeys : Bool := false

namespace Track

def next (t : Track) : Wire → Track
  | .sentKexinit payload =>
    { exchanging := true, ours := some payload, newkeys := t.newkeys }
  | .receivedKexinit payload => { t with theirs := some payload }
  | .hashed _ _ => { t with hashed := true }
  | .sentNewkeys => { t with exchanging := false }
  | .receivedNewkeys => { t with newkeys := true }
  | _ => t

/-- A key exchange is a KEXINIT each way, an exchange hash of these two, and NEWKEYS. No packet of the higher
layer is sent in it, and none is passed up before the first NEWKEYS. -/
def Allowed (isServer : Bool) (t : Track) : Wire → Prop
  | .sentKexinit _ => t.exchanging = false
  | .receivedKexinit _ => t.exchanging = true ∧ t.theirs = none
  | .hashed clientKexinit serverKexinit => t.exchanging = true ∧ t.hashed = false ∧
    t.ours = some (if isServer then serverKexinit else clientKexinit) ∧
    t.theirs = some (if isServer then clientKexinit else serverKexinit)
  | .sentNewkeys => t.exchanging = true ∧ t.hashed = true
  | .receivedNewkeys => t.exchanging = false ∧ t.hashed = true
  | .passedOut _ => t.exchanging = false
  | .passedUp _ => t.newkeys = true
  | .sent _ => True

/-- The track of a wire -/
def of (l : List Wire) : Track := l.foldl next {}

theorem of_concat (l : List Wire) (n : Wire) : of (l ++ [n]) = (of l).next n := by
  unfold of
  rw [List.foldl_append]
  rfl

end Track

/-- The packets of the higher layer that have been put on the output queue -/
def outs (l : List Wire) : List PktOut := l.filterMap fun n => match n with
  | .passedOut pkt => some pkt
  | _ => none

theorem outs_append (l l' : List Wire) : outs (l ++ l') = outs l ++ outs l' := List.filterMap_append

theorem outs_map_passedOut (l : List PktOut) : outs (l.map .passedOut) = l := by
  unfold outs
  rw [List.filterMap_map]
  exact List.filterMap_some

theorem ups_map_passedOut (l : List PktOut) : ups (l.map .passedOut) = [] := by
  unfold ups
  rw [List.filterMap_map, List.filterMap_eq_nil_iff]
  intro pkt _
  rfl

/-- Packets that a key exchange lets pass do not change what is known. -/
theorem Track.passes {isServer higherLayerOk : Bool} {l ws : List Wire}
    (hpass : ∀ n ∈ ws, n.Passes higherLayerOk) (hok : higherLayerOk = true → (of l).newkeys = true)
    (h : Meets next (Allowed isServer) {} l) :
    of (l ++ ws) = of l ∧ outs ws = [] ∧ Meets next (Allowed isServer) {} (l ++ ws) := by
  induction ws using List.reverseRecOn with
  | nil =>
    rw [List.append_nil]
    exact ⟨rfl, rfl, h⟩
  | append_singleton ws n ih =>
    obtain ⟨hof, houts, hmeets⟩ := ih fun n hn => hpass n (List.mem_append_left _ hn)
    have hn := hpass n (List.mem_append_right _ (List.mem_singleton_self n))
    rw [← List.append_assoc, of_concat, hof, outs_append, houts, meets_concat]
    cases n with
    | sent pkt => exact ⟨rfl, rfl, hmeets, trivial⟩
    | passedUp pktin =>
      refine ⟨rfl, rfl, hmeets, ?_⟩
      show (of (l ++ ws)).newkeys = true
      rw [hof]
      exact hok hn
    | _ => cases hn

/-! ## The state and the wire -/

namespace Ssh2Transport

variable {w : ℕ} {env : Env w} {s s' : Ssh2Transport w}

/-- What is known from the wire when the coroutine waits -/
def Stage (s : Ssh2Transport w) (t : Track) : Prop :=
  match s.crState with
  | .start => t.exchanging = false
  | .kexinit => t.exchanging = true ∧ t.hashed = false ∧ t.ours = some s.outgoingKexinit ∧ t.theirs = none
  | .confirm _ | .ignored => t.exchanging = true ∧ t.hashed = false ∧ t.ours = some s.outgoingKexinit ∧
    t.theirs = some s.incomingKexinit
  | .kex _ => t.exchanging = true ∧ t.hashed = true
  | .newkeys => t.exchanging = false ∧ t.hashed = true
  | .service | .idle => t.exchanging = false ∧ t.newkeys = true

/-- The packets that the layer was given, those of the higher layer that it may still hold back, and those that
it has passed up already -/
structure Given where
  out : List PktOut
  up : List PktIn
  held : List PktOut
  passed : List PktIn

/-- The wire is in order, and what has passed and what is still in the queues is what the layer was given. -/
structure Ledger (isServer : Bool) (given : Given) (s : Ssh2Transport w) : Prop where
  wire : Meets Track.next (Track.Allowed isServer) {} s.wire
  out : outs s.wire ++ s.pqOutHigher = given.out
  up : ups s.wire ++ upper s.inPq = given.up
  held : s.pqOutHigher = given.held ∨ s.pqOutHigher = []
  passed : given.passed <+: ups s.wire
  newkeys : s.higherLayerOk = true → (Track.of s.wire).newkeys = true
  head : s.outgoingKexinit.head? = none ∨ s.outgoingKexinit.head? = some 20

structure Ordered (isServer : Bool) (given : Given) (s : Ssh2Transport w) : Prop
    extends Ledger isServer given s where
  stage : s.ended = none → s.Stage (Track.of s.wire)

variable {given : Given} {isServer : Bool} {o : Option PktIn}

theorem Ledger.moved {ws : List Wire} (h : s.Ledger isServer given) (hmoved : Moved s s' ws) :
    s'.Ledger isServer given ∧ Track.of s'.wire = Track.of s.wire := by
  obtain ⟨hof, houts, hmeets⟩ := Track.passes hmoved.passes h.newkeys h.wire
  have hwire : s'.wire = s.wire ++ ws := by rw [hmoved.eq]
  have hqueue : s'.pqOutHigher = s.pqOutHigher := by rw [hmoved.eq]
  have hok : s'.higherLayerOk = s.higherLayerOk := by rw [hmoved.eq]
  have hkexinit : s'.outgoingKexinit = s.outgoingKexinit := by rw [hmoved.eq]
  refine ⟨⟨hwire ▸ hmeets, ?_, ?_, hqueue ▸ h.held, ?_, fun hok' => ?_, hkexinit ▸ h.head⟩, hwire ▸ hof⟩
  · rw [hwire, outs_append, houts, List.append_nil, hqueue]
    exact h.out
  · rw [hwire, ups_append, List.append_assoc, ← hmoved.upper]
    exact h.up
  · rw [hwire, ups_append]
    exact h.passed.trans (List.prefix_append _ _)
  · rw [hwire, hof]
    exact h.newkeys (hok ▸ hok')

/-- The connection has ended, and nothing has passed any more. -/
theorem Ledger.ordered (h : s.Ledger isServer given) (hended : s.ended ≠ none) :
    s.Ordered isServer given :=
  ⟨h, fun hlive => absurd hlive hended⟩

theorem Ledger.abort (h : s.Ledger isServer given) : s.abort.Ordered isServer given :=
  ⟨⟨h.wire, h.out, h.up, h.held, h.passed, h.newkeys, h.head⟩, fun hlive => (nomatch hlive)⟩

/-- What the two ledgers read is the same. -/
theorem Ledger.congr (h : s.Ledger isServer given) (hwire : s'.wire = s.wire)
    (hout : s'.pqOutHigher = s.pqOutHigher) (hup : s'.inPq = s.inPq)
    (hok : s'.higherLayerOk = s.higherLayerOk) (hkexinit : s'.outgoingKexinit = s.outgoingKexinit) :
    s'.Ledger isServer given := by
  refine ⟨?_, ?_, ?_, ?_, ?_, ?_, ?_⟩
  · rw [hwire]
    exact h.wire
  · rw [hwire, hout]
    exact h.out
  · rw [hwire, hup]
    exact h.up
  · rw [hout]
    exact h.held
  · rw [hwire]
    exact h.passed
  · rw [hwire, hok]
    exact h.newkeys
  · rw [hkexinit]
    exact h.head

/-- One packet of the layer itself has passed. -/
theorem Ledger.note (h : s.Ledger isServer given) (n : Wire)
    (hallowed : (Track.of s.wire).Allowed isServer n) (houts : outs [n] = []) (hups : ups [n] = [])
    (hnewkeys : (Track.of s.wire).newkeys = true → ((Track.of s.wire).next n).newkeys = true) :
    (s.note n).Ledger isServer given := by
  refine ⟨meets_concat.mpr ⟨h.wire, hallowed⟩, ?_, ?_, h.held, ?_, fun hok => ?_, h.head⟩
  · show outs (s.wire ++ [n]) ++ s.pqOutHigher = _
    rw [outs_append, houts, List.append_nil]
    exact h.out
  · show ups (s.wire ++ [n]) ++ upper s.inPq = _
    rw [ups_append, hups, List.append_nil]
    exact h.up
  · show _ <+: ups (s.wire ++ [n])
    rw [ups_append]
    exact h.passed.trans (List.prefix_append _ _)
  · show (Track.of (s.wire ++ [n])).newkeys = true
    rw [Track.of_concat]
    exact hnewkeys (h.newkeys hok)

/-- The packets of the higher layer may pass outside of a key exchange. -/
theorem Ledger.concatenate (h : s.Ledger isServer given) (hexchanging : (Track.of s.wire).exchanging = false)
    (held : List PktOut) :
    s.concatenate.Ledger isServer { given with held } ∧ Track.of s.concatenate.wire = Track.of s.wire := by
  have hpassed : ∀ l : List PktOut, Track.of (s.wire ++ l.map .passedOut) = Track.of s.wire ∧
      Meets Track.next (Track.Allowed isServer) {} (s.wire ++ l.map .passedOut) := by
    intro l
    induction l using List.reverseRecOn with
    | nil =>
      rw [List.map_nil, List.append_nil]
      exact ⟨rfl, h.wire⟩
    | append_singleton l pkt ih =>
      rw [List.map_append, List.map_singleton, ← List.append_assoc, Track.of_concat, ih.1, meets_concat]
      refine ⟨rfl, ih.2, ?_⟩
      show (Track.of (s.wire ++ l.map .passedOut)).exchanging = false
      rw [ih.1]
      exact hexchanging
  obtain ⟨hof, hmeets⟩ := hpassed s.pqOutHigher
  refine ⟨⟨hmeets, ?_, ?_, .inr rfl, ?_, fun hok => ?_, h.head⟩, hof⟩
  · show outs (s.wire ++ s.pqOutHigher.map .passedOut) ++ [] = _
    rw [outs_append, outs_map_passedOut, List.append_nil]
    exact h.out
  · show ups (s.wire ++ s.pqOutHigher.map .passedOut) ++ _ = _
    rw [ups_append, ups_map_passedOut, List.append_nil]
    exact h.up
  · show _ <+: ups (s.wire ++ s.pqOutHigher.map .passedOut)
    rw [ups_append, ups_map_passedOut, List.append_nil]
    exact h.passed
  · show (Track.of (s.wire ++ s.pqOutHigher.map .passedOut)).newkeys = true
    rw [hof]
    exact h.newkeys hok

theorem Popped.ledger (hpopped : Popped s s' o) (h : s.Ledger isServer given) :
    s'.Ledger isServer given ∧ Track.of s'.wire = Track.of s.wire := by
  obtain ⟨ws, hmoved⟩ := hpopped.moved
  exact h.moved hmoved

/-- What a packet that is popped leaves of the stage -/
theorem Popped.stage (hpopped : Popped s s' o) {t : Track} (h : s.Stage t) : s'.Stage t := by
  obtain ⟨ws, hmoved⟩ := hpopped.moved
  have hout : s'.outgoingKexinit = s.outgoingKexinit := by rw [hmoved.eq]
  have hin : s'.incomingKexinit = s.incomingKexinit := by rw [hmoved.eq]
  unfold Stage
  rw [hpopped.crState, hout, hin]
  exact h

theorem Popped.ordered (hpopped : Popped s s' o) (h : s.Ordered isServer given) :
    s'.Ordered isServer given := by
  obtain ⟨hledger, hof⟩ := hpopped.ledger h.toLedger
  obtain ⟨ws, hmoved⟩ := hpopped.moved
  refine ⟨hledger, fun hlive => ?_⟩
  rw [hof]
  exact hpopped.stage (h.stage (hmoved.live hlive))

/-! ## The coroutine -/

theorem ordered_beginKeyExchange (h : s.Ledger isServer given)
    (hexchanging : (Track.of s.wire).exchanging = false) :
    (beginKeyExchange env s).Ordered isServer given := by
  obtain ⟨kexlists, payload, incoming, heq, -, hhead⟩ := @beginKeyExchange_eq w env s
  have hpayload : payload.head? = some 20 := hhead h.head
  have hnoted := h.note (.sentKexinit (20 :: payload.tail)) hexchanging rfl rfl id
  rw [heq]
  refine ⟨⟨hnoted.wire, hnoted.out, hnoted.up, hnoted.held, hnoted.passed, hnoted.newkeys, .inr hpayload⟩, fun _ => ?_⟩
  show Track.exchanging _ = true ∧ Track.hashed _ = false ∧ Track.ours _ = some payload ∧
    Track.theirs _ = none
  rw [Track.of_concat]
  refine ⟨rfl, rfl, ?_, rfl⟩
  show some (20 :: payload.tail) = some payload
  rw [List.cons_head?_tail hpayload]

/-- What is known once both KEXINIT packets have been exchanged -/
def Negotiating (s : Ssh2Transport w) : Prop :=
  (Track.of s.wire).exchanging = true ∧ (Track.of s.wire).hashed = false ∧
    (Track.of s.wire).ours = some s.outgoingKexinit ∧ (Track.of s.wire).theirs = some s.incomingKexinit

theorem ordered_startKex (h : s.Ledger env.isServer given) (hstage : s.Negotiating) :
    (startKex env s).Ordered env.isServer given := by
  obtain ⟨hexchanging, hhashed, hours, htheirs⟩ := hstage
  have hallowed : (Track.of s.wire).Allowed env.isServer (.hashed (clientKexinit env s) (serverKexinit env s)) := by
    refine ⟨hexchanging, hhashed, ?_, ?_⟩
    · rw [hours]
      unfold clientKexinit serverKexinit
      split
      · rfl
      · rfl
    · rw [htheirs]
      unfold clientKexinit serverKexinit
      split
      · rfl
      · rfl
  have hnoted := h.note _ hallowed rfl rfl id
  refine ⟨hnoted.congr rfl rfl rfl rfl rfl, fun _ => ?_⟩
  show Track.exchanging _ = true ∧ Track.hashed _ = true
  unfold startKex
  simp only [Ssh2Transport.note, Track.of_concat]
  exact ⟨hexchanging, rfl⟩

theorem ordered_askWeak (h : s.Ledger env.isServer given) (hstage : s.Negotiating) (l : List Weak) :
    (askWeak env s l).Ordered env.isServer given := by
  rcases @askWeak_cases w env s l with ⟨dlgret, rest, -, heq⟩ | heq | heq
  · rw [heq]
    exact ⟨h.congr rfl rfl rfl rfl rfl, fun _ => hstage⟩
  · rw [heq]
    exact ⟨h.congr rfl rfl rfl rfl rfl, fun _ => hstage⟩
  · rw [heq]
    exact ordered_startKex h hstage

theorem ordered_receiveKexinit (h : s.Ledger env.isServer given) (pktin : PktIn)
    (hexchanging : (Track.of s.wire).exchanging = true) (hhashed : (Track.of s.wire).hashed = false)
    (hours : (Track.of s.wire).ours = some s.outgoingKexinit) (htheirs : (Track.of s.wire).theirs = none) :
    (receiveKexinit env s pktin).Ordered env.isServer given := by
  have hnoted := h.note (.receivedKexinit (20 :: pktin.data)) ⟨hexchanging, htheirs⟩ rfl rfl id
  rcases @receiveKexinit_cases w env s pktin with
    ⟨incoming, ws, heq, hws⟩ | ⟨agreement, algs, ignorepkt, uncertHostkeys, -, -, heq⟩
  · rw [heq]
    rcases hws with rfl | rfl
    · refine Ledger.ordered (h.congr ?_ rfl rfl rfl rfl) fun hlive => (nomatch hlive)
      exact List.append_nil _
    · exact Ledger.ordered (hnoted.congr rfl rfl rfl rfl rfl) fun hlive => (nomatch hlive)
  · rw [heq]
    refine ordered_askWeak ?_ ?_ _
    · exact hnoted.congr rfl rfl rfl rfl rfl
    · unfold Negotiating
      simp only [Track.of_concat]
      exact ⟨hexchanging, hhashed, hours, rfl⟩

/-- The coroutine of the key exchange waits, or has ended the connection, or is done. -/
theorem ordered_ssh2kexCoroutine (env : Env w) (h : s.Ordered isServer given) (k : CrStateKex)
    (hlive : s.ended = none) (hstate : s.crState = .kex k) :
    (ssh2kexCoroutine env s k).1.Ledger isServer given ∧
    (Track.of (ssh2kexCoroutine env s k).1.wire).exchanging = true ∧
    (Track.of (ssh2kexCoroutine env s k).1.wire).hashed = true ∧
    ((ssh2kexCoroutine env s k).2 = false → (ssh2kexCoroutine env s k).1.Ordered isServer given) := by
  obtain ⟨s1, ws, hmoved, hchecked⟩ := @ssh2kexCoroutine_checked w env s k hlive
  generalize ssh2kexCoroutine env s k = r at hchecked
  obtain ⟨hledger, hof⟩ := h.toLedger.moved hmoved
  have hwire : r.1.wire = s1.wire := by rw [hchecked.eq]
  have hresult : r.1.Ledger isServer given :=
    hledger.congr hwire (by rw [hchecked.eq]) (by rw [hchecked.eq]) (by rw [hchecked.eq]) (by rw [hchecked.eq])
  have hstage := h.stage hlive
  unfold Stage at hstage
  rw [hstate] at hstage
  obtain ⟨hexchanging, hhashed⟩ := hstage
  rw [hwire, hof]
  refine ⟨hresult, hexchanging, hhashed, fun hwaits => ⟨hresult, fun hlive' => ?_⟩⟩
  have hkex := hchecked.result
  rw [hwaits] at hkex
  rcases hkex with hended | ⟨k', hstate'⟩
  · exact absurd hlive' hended
  · unfold Stage
    rw [hstate', hwire, hof]
    exact ⟨hexchanging, hhashed⟩

theorem ordered_sendNewkeys (h : s.Ledger isServer given) (hexchanging : (Track.of s.wire).exchanging = true)
    (hhashed : (Track.of s.wire).hashed = true) : s.sendNewkeys.Ordered isServer given := by
  have hnoted := h.note .sentNewkeys ⟨hexchanging, hhashed⟩ rfl rfl id
  obtain ⟨hpassed, hof⟩ := hnoted.concatenate (by rw [Ssh2Transport.note, Track.of_concat]; rfl) given.held
  refine ⟨hpassed.congr rfl rfl rfl rfl rfl, fun _ => ?_⟩
  show Track.exchanging (Track.of (s.note .sentNewkeys).concatenate.wire) = false ∧
    Track.hashed (Track.of (s.note .sentNewkeys).concatenate.wire) = true
  rw [hof, Ssh2Transport.note, Track.of_concat]
  exact ⟨rfl, hhashed⟩

theorem ordered_receiveNewkeys (h : s.Ledger isServer given) (pktin : PktIn)
    (hexchanging : (Track.of s.wire).exchanging = false) (hhashed : (Track.of s.wire).hashed = true) :
    (receiveNewkeys env s pktin).1.Ordered isServer given := by
  have hnoted := h.note .receivedNewkeys ⟨hexchanging, hhashed⟩ rfl rfl fun _ => rfl
  have hexchanging' : (Track.of (s.wire ++ [.receivedNewkeys])).exchanging = false := by
    rw [Track.of_concat]
    exact hexchanging
  have hnewkeys : (Track.of (s.wire ++ [.receivedNewkeys])).newkeys = true := by
    rw [Track.of_concat]
    rfl
  unfold receiveNewkeys
  split
  · exact h.abort
  · simp only
    split
    · exact ordered_beginKeyExchange (hnoted.congr rfl rfl rfl rfl rfl) hexchanging'
    · split
      · exact ⟨hnoted.congr rfl rfl rfl rfl rfl, fun _ => ⟨hexchanging', hnewkeys⟩⟩
      · split
        · exact ⟨hnoted.congr rfl rfl rfl rfl rfl, fun _ => ⟨hexchanging', hnewkeys⟩⟩
        · have hsent := hnoted.note (.sent ⟨msgServiceRequest,
            putUint32 (UInt32.ofNat env.serviceName.length) ++ env.serviceName⟩) trivial rfl rfl id
          refine ⟨hsent.congr rfl rfl rfl rfl rfl, fun _ => ?_⟩
          show Track.exchanging (Track.of (_ ++ [_])) = false ∧ Track.newkeys (Track.of (_ ++ [_])) = true
          rw [Track.of_concat]
          exact ⟨hexchanging', hnewkeys⟩

theorem ordered_receiveService (h : s.Ledger isServer given) (pktin : PktIn)
    (hexchanging : (Track.of s.wire).exchanging = false) (hnewkeys : (Track.of s.wire).newkeys = true) :
    (receiveService env s pktin).Ordered isServer given := by
  unfold receiveService
  split
  · split
    · exact h.abort
    · split
      · exact h.abort
      · have hsent := h.note (.sent ⟨msgServiceAccept,
          putUint32 (UInt32.ofNat env.serviceName.length) ++ env.serviceName⟩) trivial rfl rfl id
        have hof : Track.of (s.wire ++ [.sent ⟨msgServiceAccept,
            putUint32 (UInt32.ofNat env.serviceName.length) ++ env.serviceName⟩]) = Track.of s.wire :=
          Track.of_concat _ _
        refine ⟨⟨hsent.wire, hsent.out, hsent.up, hsent.held, hsent.passed, fun _ => ?_, hsent.head⟩, fun _ => ?_⟩
        · show (Track.of (_ ++ [_])).newkeys = true
          rw [hof]
          exact hnewkeys
        · show Track.exchanging (Track.of (_ ++ [_])) = false ∧ Track.newkeys (Track.of (_ ++ [_])) = true
          rw [hof]
          exact ⟨hexchanging, hnewkeys⟩
  · split
    · exact h.abort
    · exact ⟨⟨h.wire, h.out, h.up, h.held, h.passed, fun _ => hnewkeys, h.head⟩, fun _ => ⟨hexchanging, hnewkeys⟩⟩

/-- Deciding on a repeat key exchange does not touch the queues. -/
theorem ordered_considerRekey (env : Env w) (h : s.Ledger isServer given)
    (hstage : s.ended = none → s.Stage (Track.of s.wire)) :
    (considerRekey env s).Ordered isServer given ∧
      Track.of (considerRekey env s).wire = Track.of s.wire := by
  obtain ⟨reason, rekeyClass, inStats, outStats, counts, heq⟩ := @considerRekey_eq w env s
  rw [heq]
  exact ⟨⟨h.congr rfl rfl rfl rfl rfl, hstage⟩, rfl⟩

/-- An idle layer holds nothing back. -/
theorem ordered_idle (h : s.Ordered isServer given) (hlive : s.ended = none) (hstate : s.crState = .idle)
    (held : List PktOut) : (idle env s).1.Ordered isServer { given with held } := by
  have hstage := h.stage hlive
  unfold Stage at hstage
  rw [hstate] at hstage
  obtain ⟨hexchanging, hnewkeys⟩ := hstage
  obtain ⟨hpassed, hof⟩ := h.concatenate hexchanging held
  have hidle : ∀ s1 : Ssh2Transport w, Track.of s1.wire = Track.of s.wire → s1.crState = .idle →
      s1.Stage (Track.of s1.wire) := by
    intro s1 hof1 hstate1
    unfold Stage
    rw [hstate1, hof1]
    exact ⟨hexchanging, hnewkeys⟩
  unfold idle
  split
  case _ pktin s1 heq =>
    have hpopped := popped_of_eq heq
    obtain ⟨hledger, hof1⟩ := hpopped.ledger hpassed
    split
    · exact hledger.abort
    · simp only
      have hfront : { s1 with inPq := pktin :: s1.inPq, rekeyClass := .server }.Ledger isServer
          { given with held } := by
        refine ⟨hledger.wire, hledger.out, ?_, hledger.held, hledger.passed, hledger.newkeys, hledger.head⟩
        show ups s1.wire ++ upper (pktin :: s1.inPq) = _
        rw [upper_cons_of_lt (hpopped.type pktin rfl)]
        exact hledger.up
      obtain ⟨hdecided, hof2⟩ := ordered_considerRekey env hfront fun _ =>
        hidle { s1 with inPq := pktin :: s1.inPq, rekeyClass := .server } (hof1.trans hof)
          (hpopped.crState.trans hstate)
      split
      · exact hdecided
      · refine ordered_beginKeyExchange hdecided.toLedger ?_
        rw [hof2]
        show (Track.of s1.wire).exchanging = false
        rw [hof1, hof]
        exact hexchanging
  case _ s1 heq =>
    have hpopped := popped_of_eq heq
    obtain ⟨hledger, hof1⟩ := hpopped.ledger hpassed
    have hstage1 := hidle s1 (hof1.trans hof) (hpopped.crState.trans hstate)
    split
    · exact ⟨hledger, fun _ => hstage1⟩
    · simp only
      obtain ⟨hdecided, hof2⟩ := ordered_considerRekey env hledger fun _ => hstage1
      split
      · exact hdecided
      · refine ordered_beginKeyExchange hdecided.toLedger ?_
        rw [hof2, hof1, hof]
        exact hexchanging

theorem ordered_resume (h : s.Ordered env.isServer given) (hlive : s.ended = none) :
    (resume env s).1.Ordered env.isServer given := by
  have hstage := h.stage hlive
  unfold Stage at hstage
  unfold resume
  cases hstate : s.crState with
  | start =>
    rw [hstate] at hstage
    exact ordered_beginKeyExchange (h.congr rfl rfl rfl rfl rfl) hstage
  | kexinit =>
    rw [hstate] at hstage
    obtain ⟨hexchanging, hhashed, hours, htheirs⟩ := hstage
    simp only
    split
    case _ heq => exact (popped_of_eq heq).ordered h
    case _ s1 heq =>
      obtain ⟨hledger, hof⟩ := (popped_of_eq heq).ledger h.toLedger
      obtain ⟨ws, hmoved⟩ := (popped_of_eq heq).moved
      have hkexinit : s1.outgoingKexinit = s.outgoingKexinit := by rw [hmoved.eq]
      exact ordered_receiveKexinit hledger _ (by rw [hof]; exact hexchanging) (by rw [hof]; exact hhashed)
        (by rw [hof, hkexinit]; exact hours) (by rw [hof]; exact htheirs)
  | confirm rest =>
    rw [hstate] at hstage
    simp only
    split
    · exact h
    · split
      · exact h.abort
      · exact ordered_askWeak h.toLedger hstage _
  | ignored =>
    rw [hstate] at hstage
    simp only
    split
    case _ heq => exact (popped_of_eq heq).ordered h
    case _ s1 heq =>
      obtain ⟨hledger, hof⟩ := (popped_of_eq heq).ledger h.toLedger
      obtain ⟨ws, hmoved⟩ := (popped_of_eq heq).moved
      have hout : s1.outgoingKexinit = s.outgoingKexinit := by rw [hmoved.eq]
      have hin : s1.incomingKexinit = s.incomingKexinit := by rw [hmoved.eq]
      refine ordered_startKex hledger ?_
      unfold Negotiating
      rw [hof, hout, hin]
      exact hstage
  | kex k =>
    obtain ⟨hledger, hexchanging, hhashed, hwaits⟩ := ordered_ssh2kexCoroutine env h k hlive hstate
    simp only
    split
    case _ heq =>
      rw [heq] at hwaits
      exact hwaits rfl
    case _ heq =>
      rw [heq] at hledger hexchanging hhashed
      exact ordered_sendNewkeys hledger hexchanging hhashed
  | newkeys =>
    rw [hstate] at hstage
    simp only
    split
    case _ heq => exact (popped_of_eq heq).ordered h
    case _ heq =>
      obtain ⟨hledger, hof⟩ := (popped_of_eq heq).ledger h.toLedger
      exact ordered_receiveNewkeys hledger _ (by rw [hof]; exact hstage.1) (by rw [hof]; exact hstage.2)
  | service =>
    rw [hstate] at hstage
    simp only
    split
    case _ heq => exact (popped_of_eq heq).ordered h
    case _ heq =>
      obtain ⟨hledger, hof⟩ := (popped_of_eq heq).ledger h.toLedger
      exact ordered_receiveService hledger _ (by rw [hof]; exact hstage.1) (by rw [hof]; exact hstage.2)
  | idle => exact ordered_idle h hlive hstate given.held

theorem ordered_runCoroutine (n : ℕ) (h : s.Ordered env.isServer given) :
    (runCoroutine env n s).Ordered env.isServer given := by
  induction n generalizing s with
  | zero => exact h
  | succ n ih =>
    unfold runCoroutine
    split
    · exact h
    case isFalse hended =>
      have hresume := ordered_resume h (Option.not_isSome_iff_eq_none.mp hended)
      split
      case _ heq =>
        rw [heq] at hresume
        exact hresume
      case _ heq =>
        rw [heq] at hresume
        exact ih hresume

theorem ordered_filterQueue (h : s.Ordered isServer given) : s.filterQueue.Ordered isServer given := by
  obtain ⟨ws, hmoved, hstate, -⟩ := @filterQueue_moved w s
  obtain ⟨hledger, hof⟩ := h.moved hmoved
  refine ⟨hledger, fun hlive => ?_⟩
  have hout : s.filterQueue.outgoingKexinit = s.outgoingKexinit := by rw [hmoved.eq]
  have hin : s.filterQueue.incomingKexinit = s.incomingKexinit := by rw [hmoved.eq]
  have hstage := h.stage (hmoved.live hlive)
  unfold Stage at hstage ⊢
  rw [hstate, hof, hout, hin]
  exact hstage

theorem ordered_processQueue (h : s.Ordered env.isServer given) :
    (s.processQueue env).Ordered env.isServer given := by
  unfold processQueue
  simp only
  split
  · exact ordered_filterQueue h
  · exact ordered_runCoroutine _ (ordered_filterQueue h)

/-! ## Delivery -/

/-- The packets up to the first one that the transport layer has to read itself -/
def leading (l : List PktIn) : List PktIn :=
  l.takeWhile fun pktin => 50 ≤ pktin.type ∨ pktin.type = msgDebug ∨ pktin.type = msgIgnore

theorem ups_filterFrom (hok : s.higherLayerOk = true) (l : List PktIn) :
    ups s.wire ++ upper (leading l) = ups (s.filterFrom l).wire := by
  induction l generalizing s with
  | nil => exact List.append_nil _
  | cons pktin rest ih =>
    unfold filterFrom leading
    by_cases hdisc : pktin.type = msgDisconnect
    · rw [if_pos hdisc, List.takeWhile_cons_of_neg (by rw [hdisc]; decide)]
      exact List.append_nil _
    · rw [if_neg hdisc]
      by_cases hskip : pktin.type = msgDebug ∨ pktin.type = msgIgnore
      · have hlt : pktin.type < 50 := by
          rcases hskip with h | h <;> rw [h] <;> decide
        rw [if_pos hskip, List.takeWhile_cons_of_pos (by simp [hskip]), upper_cons_of_lt hlt]
        exact ih hok
      · rw [if_neg hskip]
        by_cases hup : 50 ≤ pktin.type
        · rw [if_pos hup, if_pos hok, List.takeWhile_cons_of_pos (by simp [hup]), upper_cons_of_le hup,
            ← @ih (s.note (.passedUp pktin)) hok]
          show _ = ups (s.wire ++ [.passedUp pktin]) ++ _
          rw [ups_append, List.append_assoc]
          rfl
        · rw [if_neg hup, List.takeWhile_cons_of_neg (by simp [hup, hskip])]
          exact List.append_nil _

/-- A call passes up what it finds in front of the queue. -/
theorem ups_processQueue (h : s.Ordered env.isServer given) (hok : s.higherLayerOk = true) :
    ups s.wire ++ upper (leading s.inPq) <+: ups (s.processQueue env).wire := by
  rw [ups_filterFrom hok]
  have hfilter := ordered_filterQueue h
  unfold processQueue
  simp only
  split
  · exact List.prefix_refl _
  · have hpassed : s.filterQueue.Ordered env.isServer { given with passed := ups s.filterQueue.wire } :=
      ⟨⟨hfilter.wire, hfilter.out, hfilter.up, hfilter.held, List.prefix_refl _, hfilter.newkeys,
        hfilter.head⟩, hfilter.stage⟩
    exact (ordered_runCoroutine _ hpassed).passed

/-- A call in an idle layer passes on all that the higher layer has sent. -/
theorem pqOutHigher_processQueue (h : s.Ordered env.isServer given) (hidle : s.crState = .idle)
    (hlive : (s.processQueue env).ended = none) : (s.processQueue env).pqOutHigher = [] := by
  obtain ⟨ws, -, hstate, -⟩ := @filterQueue_moved w s
  have hfilter := ordered_filterQueue h
  unfold processQueue at hlive ⊢
  simp only at hlive ⊢
  split at hlive
  case _ hended => exact absurd hlive (Option.isSome_iff_ne_none.mp hended)
  case _ hended =>
    rw [if_neg hended]
    have hresume : (resume env s.filterQueue).1.Ordered env.isServer { given with held := [] } := by
      unfold resume
      rw [hstate, hidle]
      exact ordered_idle hfilter (Option.not_isSome_iff_eq_none.mp hended) (hstate.trans hidle) []
    have hrun : (runCoroutine env (s.filterQueue.rounds + 1) s.filterQueue).Ordered env.isServer
        { given with held := [] } := by
      unfold runCoroutine
      rw [if_neg hended]
      split
      case _ heq =>
        rw [heq] at hresume
        exact hresume
      case _ heq =>
        rw [heq] at hresume
        exact ordered_runCoroutine _ hresume
    exact hrun.held.elim id id

/-! ## Runs -/

/-- The packets that an event brings -/
def Event.outgoing : Event w → List PktOut
  | .higher pkt => [pkt]
  | _ => []

def Event.arriving : Event w → List PktIn
  | .incoming pktin => [pktin]
  | _ => []

/-- The events that come before the connection has ended -/
def liveEvents (env : Env w) (s : Ssh2Transport w) : List (Event w) → List (Event w)
  | [] => []
  | e :: events => if s.ended.isSome then [] else e :: liveEvents env (step env s e) events

theorem ordered_reconfigure (h : s.Ordered isServer given) (conf : Conf) (shortened inadvisable : Bool) :
    (s.reconfigure conf shortened inadvisable).Ordered isServer given := by
  have hadjust : ∀ old, (s.setMaxDataSize.adjustStats old).1.Ordered isServer given := by
    intro old
    unfold adjustStats
    split
    · split
      · exact ⟨h.congr rfl rfl rfl rfl rfl, h.stage⟩
      · exact ⟨h.congr rfl rfl rfl rfl rfl, h.stage⟩
    · exact ⟨h.congr rfl rfl rfl rfl rfl, h.stage⟩
  have h1 := hadjust s.maxDataSize
  unfold reconfigure
  simp only
  split
  · exact ⟨h1.congr rfl rfl rfl rfl rfl, h1.stage⟩
  · split
    · exact ⟨h1.congr rfl rfl rfl rfl rfl, h1.stage⟩
    · split
      · exact ⟨h1.congr rfl rfl rfl rfl rfl, h1.stage⟩
      · exact ⟨h1.congr rfl rfl rfl rfl rfl, h1.stage⟩

/-- A step adds its packets to those that the layer was given. -/
theorem ordered_step {out : List PktOut} {up : List PktIn}
    (h : s.Ordered env.isServer ⟨out, up, s.pqOutHigher, []⟩) (hlive : s.ended = none) (e : Event w) :
    (step env s e).Ordered env.isServer
      ⟨out ++ e.outgoing, up ++ upper e.arriving, (step env s e).pqOutHigher, []⟩ := by
  have hkept : ∀ s' : Ssh2Transport w, s'.Ordered env.isServer ⟨out, up, s.pqOutHigher, []⟩ →
      s'.Ordered env.isServer ⟨out ++ [], up ++ [], s'.pqOutHigher, []⟩ := by
    intro s' h'
    rw [List.append_nil, List.append_nil]
    exact ⟨⟨h'.wire, h'.out, h'.up, .inl rfl, h'.passed, h'.newkeys, h'.head⟩, h'.stage⟩
  unfold step
  rw [if_neg (by rw [hlive]; exact Bool.false_ne_true)]
  cases e with
  | incoming pktin =>
    refine ⟨⟨h.wire, ?_, ?_, .inl rfl, h.passed, h.newkeys, h.head⟩, h.stage⟩
    · show _ = out ++ []
      rw [List.append_nil]
      exact h.out
    · show ups s.wire ++ upper (s.inPq ++ [pktin]) = up ++ upper [pktin]
      rw [upper_append, ← List.append_assoc, h.up]
  | higher pkt =>
    refine ⟨⟨h.wire, ?_, ?_, .inl rfl, h.passed, h.newkeys, h.head⟩, h.stage⟩
    · show outs s.wire ++ (s.pqOutHigher ++ [pkt]) = out ++ [pkt]
      rw [← List.append_assoc, h.out]
    · show _ = up ++ []
      rw [List.append_nil]
      exact h.up
  | consumed d size =>
    refine hkept _ ?_
    cases d with
    | «in» => exact ⟨h.congr rfl rfl rfl rfl rfl, h.stage⟩
    | out => exact ⟨h.congr rfl rfl rfl rfl rfl, h.stage⟩
  | processQueue => exact hkept _ (ordered_processQueue h)
  | dialog ret =>
    refine hkept _ (ordered_processQueue ?_)
    exact ⟨h.congr rfl rfl rfl rfl rfl, h.stage⟩
  | specialCmd code =>
    refine hkept _ ?_
    cases code with
    | rekey =>
      simp only [specialCmd]
      split
      · exact h
      · exact ⟨h.congr rfl rfl rfl rfl rfl, h.stage⟩
    | xcert arg =>
      simp only [specialCmd]
      split
      · exact h
      · exact ⟨h.congr rfl rfl rfl rfl rfl, h.stage⟩
    | other => exact h
  | reconfigure conf shortened inadvisable =>
    exact hkept _ (ordered_reconfigure h conf shortened inadvisable)
  | timer gssUpdate =>
    refine hkept _ ?_
    simp only [timer]
    split
    · exact h
    · split
      · exact ⟨h.congr rfl rfl rfl rfl rfl, h.stage⟩
      · exact ⟨h.congr rfl rfl rfl rfl rfl, h.stage⟩
  | notifyAuthDone => exact hkept _ ⟨h.congr rfl rfl rfl rfl rfl, h.stage⟩

theorem foldl_step_of_ended (hended : s.ended.isSome) (events : List (Event w)) :
    events.foldl (step env) s = s := by
  induction events with
  | nil => rfl
  | cons e events ih =>
    rw [List.foldl_cons]
    have hstep : step env s e = s := if_pos hended
    rw [hstep]
    exact ih

theorem ordered_run {out : List PktOut} {up : List PktIn}
    (h : s.Ordered env.isServer ⟨out, up, s.pqOutHigher, []⟩) (events : List (Event w)) :
    (events.foldl (step env) s).Ordered env.isServer
      ⟨out ++ (liveEvents env s events).flatMap Event.outgoing,
        up ++ upper ((liveEvents env s events).flatMap Event.arriving),
        (events.foldl (step env) s).pqOutHigher, []⟩ := by
  induction events generalizing s out up with
  | nil =>
    show s.Ordered env.isServer ⟨out ++ [], up ++ [], s.pqOutHigher, []⟩
    rw [List.append_nil, List.append_nil]
    exact h
  | cons e events ih =>
    unfold liveEvents
    by_cases hended : s.ended.isSome
    · rw [if_pos hended, foldl_step_of_ended hended]
      show s.Ordered env.isServer ⟨out ++ [], up ++ [], s.pqOutHigher, []⟩
      rw [List.append_nil, List.append_nil]
      exact h
    · rw [if_neg hended, List.flatMap_cons, List.flatMap_cons, upper_append, ← List.append_assoc,
        ← List.append_assoc]
      exact ih (ordered_step h (Option.not_isSome_iff_eq_none.mp hended) e)

end Ssh2Transport

end PuttyNd.Transport
