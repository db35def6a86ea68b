import PuttyNd.Lib.Runs
import PuttyNd.Ssh2.Proofs.StepProofs

/-!
# Proofs: what is sent before and after EOF and CLOSE
-/

namespace PuttyNd.Ssh2

open Psftp CInt Outcome Runs

variable {s s' : Conn} {c : Ssh2Channel} {trace t : List Trace} {e : Event}

/-- The messages that were sent -/
def sentMsgs (trace : List Trace) : List Msg :=
  trace.filterMap fun
    | .sent m => some m
    | _ => none

/-- Data and EOF -/
def Msg.isStream : Msg → Prop
  | .data _ => True
  | .extendedData _ => True
  | .eof => True
  | _ => False

/-- Nothing is sent after CLOSE, and neither data nor EOF after EOF. -/
def InOrder (trace : List Trace) : Prop :=
  (sentMsgs trace).Pairwise fun m m' => m ≠ .close ∧ (m = .eof → ¬ m'.isStream)

/-- Both sides have sent CLOSE, the channel was not opened at all, or a downstream deleted it. -/
def Gone (trace : List Trace) : Prop :=
  .sent .close ∈ trace ∧ .got .close ∈ trace ∨ .got .openFailure ∈ trace ∨ .deleted ∈ trace

/-- What the flags of a channel say, also while a message is handled -/
structure Closing (trace : List Trace) (c : Ssh2Channel) : Prop where
  sentClose : c.sentClose = true → c.sentEof = true ∧ c.chanreqs = []
  rcvdClose : c.rcvdClose = true → c.rcvdEof = true ∧ c.sentEof = true ∧ c.halfopen = false
  pendingEof : c.pendingEof = true → c.sentEof = false
  zombie : ∀ chan, c.chan = some chan → chan.vt = .zombie → c.pendingEof = false
  halfopen : c.halfopen = true → c.sentEof = false ∧ c.rcvdEof = false
  eof : .sent .eof ∈ trace → c.sentEof = true
  close : .sent .close ∈ trace ↔ c.sentClose = true
  got : c.rcvdClose = true → .got .close ∈ trace

structure CloseInv (s : Conn) : Prop where
  inOrder : InOrder s.trace
  closing : ∀ c, s.channel = some c → Closing s.trace c
  gone : s.channel = none → Gone s.trace

/-- A channel that is still there after CLOSE waits for replies. -/
def Waiting (s : Conn) : Prop :=
  ∀ c, s.channel = some c → c.rcvdClose = true →
    c.chanreqs ≠ [] ∧ s.cfg.bugSendsLateRequestReply = true

/-! ## Messages -/

theorem mem_sentMsgs {m : Msg} : m ∈ sentMsgs trace ↔ .sent m ∈ trace := by
  unfold sentMsgs
  rw [List.mem_filterMap]
  constructor
  · rintro ⟨x, hx, heq⟩
    cases x with
    | sent m' =>
      cases heq
      exact hx
    | _ => cases heq
  · intro h
    exact ⟨_, h, rfl⟩

theorem sentMsgs_append : sentMsgs (trace ++ t) = sentMsgs trace ++ sentMsgs t :=
  List.filterMap_append

/-- What is not sent leaves the order alone. -/
theorem InOrder.note (h : InOrder trace) (ht : sentMsgs t = []) : InOrder (trace ++ t) := by
  unfold InOrder
  rw [sentMsgs_append, ht, List.append_nil]
  exact h

theorem InOrder.send (h : InOrder trace) {m : Msg} (hclose : .sent .close ∉ trace)
    (heof : m.isStream → .sent .eof ∉ trace) : InOrder (trace ++ [.sent m]) := by
  unfold InOrder
  rw [sentMsgs_append]
  refine List.pairwise_append.mpr ⟨h, List.pairwise_singleton _ _, ?_⟩
  intro m' hm' m'' hm''
  cases List.mem_singleton.mp hm''
  refine ⟨?_, ?_⟩
  · rintro rfl
    exact hclose (mem_sentMsgs.mp hm')
  · rintro rfl hstream
    exact heof hstream (mem_sentMsgs.mp hm')

theorem Closing.not_close (h : Closing trace c) (hclose : c.sentClose = false) :
    .sent .close ∉ trace := by
  intro hmem
  rw [h.close.mp hmem] at hclose
  cases hclose

theorem Closing.not_eof (h : Closing trace c) (heof : c.sentEof = false) : .sent .eof ∉ trace := by
  intro hmem
  rw [h.eof hmem] at heof
  cases heof

theorem Closing.sentClose_eq_false (h : Closing trace c) (heof : c.sentEof = false) :
    c.sentClose = false := by
  cases hclose : c.sentClose with
  | false => rfl
  | true =>
    rw [(h.sentClose hclose).1] at heof
    cases heof

/-- A note that is neither EOF nor CLOSE -/
def Trace.isPlain : Trace → Prop
  | .sent .eof => False
  | .sent .close => False
  | _ => True

theorem Closing.note (h : Closing trace c) (ht : ∀ x ∈ t, x.isPlain) : Closing (trace ++ t) c := by
  refine ⟨h.sentClose, h.rcvdClose, h.pendingEof, h.zombie, h.halfopen, ?_, ?_, ?_⟩
  · intro hmem
    rcases List.mem_append.mp hmem with hmem | hmem
    · exact h.eof hmem
    · cases ht _ hmem
  · rw [← h.close, List.mem_append]
    refine or_iff_left ?_
    intro hmem
    cases ht _ hmem
  · intro hclose
    exact List.mem_append_left _ (h.got hclose)

theorem Gone.note (h : Gone trace) : Gone (trace ++ t) := by
  rcases h with ⟨hsent, hgot⟩ | hfailure | hdeleted
  · exact Or.inl ⟨List.mem_append_left _ hsent, List.mem_append_left _ hgot⟩
  · exact Or.inr (Or.inl (List.mem_append_left _ hfailure))
  · exact Or.inr (Or.inr (List.mem_append_left _ hdeleted))

/-- Something is noted that is not sent. -/
theorem CloseInv.note (h : CloseInv s) {x : Trace} (hx : sentMsgs [x] = []) : CloseInv (s.note x) := by
  refine ⟨h.inOrder.note hx, ?_, fun hnone => (h.gone hnone).note⟩
  intro c hc
  refine (h.closing c hc).note ?_
  intro y hy
  cases List.mem_singleton.mp hy
  cases x with
  | sent m => cases hx
  | _ => trivial

/-- The channel is replaced. -/
theorem CloseInv.set (h : CloseInv s) {c' : Ssh2Channel} (hc' : Closing s.trace c') :
    CloseInv (s.set c') := by
  refine ⟨h.inOrder, ?_, nofun⟩
  intro c'' hc''
  cases hc''
  exact hc'

/-- A change of a channel that does not touch the flags -/
theorem Closing.congr (h : Closing trace c) {c' : Ssh2Channel} (hsentEof : c'.sentEof = c.sentEof)
    (hsentClose : c'.sentClose = c.sentClose) (hrcvdEof : c'.rcvdEof = c.rcvdEof)
    (hrcvdClose : c'.rcvdClose = c.rcvdClose) (hpendingEof : c'.pendingEof = c.pendingEof)
    (hhalfopen : c'.halfopen = c.halfopen) (hchanreqs : c.chanreqs = [] → c'.chanreqs = [])
    (hchan : ∀ chan', c'.chan = some chan' → chan'.vt = .zombie →
      ∃ chan, c.chan = some chan ∧ chan.vt = .zombie) : Closing trace c' := by
  refine ⟨?_, ?_, ?_, ?_, ?_, ?_, ?_, ?_⟩
  · rw [hsentClose, hsentEof]
    intro hclose
    exact ⟨(h.sentClose hclose).1, hchanreqs (h.sentClose hclose).2⟩
  · rw [hrcvdClose, hrcvdEof, hsentEof, hhalfopen]
    exact h.rcvdClose
  · rw [hpendingEof, hsentEof]
    exact h.pendingEof
  · intro chan' hchan' hvt
    obtain ⟨chan, hchan, hvt⟩ := hchan chan' hchan' hvt
    rw [hpendingEof]
    exact h.zombie chan hchan hvt
  · rw [hhalfopen, hsentEof, hrcvdEof]
    exact h.halfopen
  · rw [hsentEof]
    exact h.eof
  · rw [hsentClose]
    exact h.close
  · rw [hrcvdClose]
    exact h.got

/-! ## Sending EOF and CLOSE -/

theorem sendClose_closing (h : CloseInv s) (hc : s.channel = some c) (hhalfopen : c.halfopen = false)
    (hreqs : c.chanreqs = []) (hclose : c.sentClose = false) (hpending : c.pendingEof = false) :
    CloseInv (sendClose s c) := by
  have hold := h.closing c hc
  have hnone := hold.not_close hclose
  refine ⟨h.inOrder.send hnone nofun, ?_, nofun⟩
  intro c' hc'
  cases hc'
  refine ⟨fun _ => ⟨rfl, hreqs⟩, ?_, ?_, fun _ _ _ => hpending, ?_, fun _ => rfl, ?_, ?_⟩
  · intro hrcvd
    exact ⟨(hold.rcvdClose hrcvd).1, rfl, hhalfopen⟩
  · intro hpending'
    rw [show c.pendingEof = true from hpending'] at hpending
    cases hpending
  · intro hhalfopen'
    rw [show c.halfopen = true from hhalfopen'] at hhalfopen
    cases hhalfopen
  · exact ⟨fun _ => rfl, fun _ => List.mem_append_right _ (List.mem_singleton.mpr rfl)⟩
  · intro hrcvd
    exact List.mem_append_left _ (hold.got hrcvd)

/-- A channel that does not want to send EOF any more has no EOF pending. -/
theorem Closing.pendingEof_eq_false (h : Closing trace c) {chan : Channel} (hchan : c.chan = some chan)
    (hwant : chanWantClose chan c.sentEof c.rcvdEof = true) : c.pendingEof = false := by
  unfold chanWantClose at hwant
  split at hwant
  · next hvt => exact h.zombie chan hchan hvt
  · rw [Bool.and_eq_true] at hwant
    cases hpending : c.pendingEof with
    | false => rfl
    | true =>
      have heof := h.pendingEof hpending
      rw [hwant.1] at heof
      cases heof

/-- After CLOSE was received, CLOSE is sent unless there are requests to wait for. -/
theorem Closing.wantClose (h : Closing trace c) {chan : Channel} (hrcvd : c.rcvdClose = true) :
    chanWantClose chan c.sentEof c.rcvdEof = true := by
  obtain ⟨hrcvdEof, hsentEof, -⟩ := h.rcvdClose hrcvd
  unfold chanWantClose
  split
  · rfl
  · rw [hsentEof, hrcvdEof]
    rfl

/-- If the channel is still there after CLOSE was received, there are requests to wait for. -/
def Asking (s : Conn) : Prop := ∀ c, s.channel = some c → c.rcvdClose = true → c.chanreqs ≠ []

theorem checkClose_closing (h : CloseInv s) :
    Ensures (ssh2ChannelCheckClose s) fun s' => CloseInv s' ∧ Asking s' := by
  unfold ssh2ChannelCheckClose
  refine Conn.ensures_get.bind ?_
  intro c hc
  have hold := h.closing c hc
  split
  · next hhalfopen =>
    refine ensures_ok.mpr ⟨h, ?_⟩
    intro c' hc' hrcvd
    cases hc.symm.trans hc'
    have hopen := (hold.rcvdClose hrcvd).2.2
    rw [hhalfopen] at hopen
    cases hopen
  · next hhalfopen =>
    rw [Bool.not_eq_true] at hhalfopen
    refine Ssh2Channel.ensures_getChan.bind ?_
    intro chan hchan
    dsimp only
    generalize hs1 : (if chanWantClose chan c.sentEof c.rcvdEof = true ∧ c.chanreqs = [] ∧
      ¬ c.sentClose = true then sendClose s c else s) = s1
    have hsend : CloseInv s1 ∧ ∀ c1, s1.channel = some c1 →
        c1.rcvdClose = true → c1.chanreqs = [] → c1.sentClose = true := by
      rw [← hs1]
      split
      · next hwant =>
        refine ⟨sendClose_closing h hc hhalfopen hwant.2.1 (Bool.not_eq_true _ ▸ hwant.2.2)
          (hold.pendingEof_eq_false hchan hwant.1), ?_⟩
        intro c1 hc1 _ _
        cases hc1
        rfl
      · next hwant =>
        refine ⟨h, ?_⟩
        intro c1 hc1 hrcvd hreqs
        cases hc.symm.trans hc1
        by_contra hclose
        exact hwant ⟨hold.wantClose hrcvd, hreqs, hclose⟩
    obtain ⟨h1, hsent⟩ := hsend
    refine Conn.ensures_get.bind ?_
    intro c1 hc1
    split
    · next hboth =>
      split
      · exact ensures_error.mpr trivial
      · refine destroy_eq.mono ?_
        rintro s' ⟨rfl, -⟩
        refine ⟨⟨h1.inOrder, fun _ hc => (nomatch hc), fun _ => Or.inl ⟨?_, ?_⟩⟩, fun _ hc => (nomatch hc)⟩
        · exact (h1.closing c1 hc1).close.mpr hboth.1
        · exact (h1.closing c1 hc1).got hboth.2
    · next hboth =>
      refine ensures_ok.mpr ⟨h1, ?_⟩
      intro c1' hc1' hrcvd hreqs
      cases hc1.symm.trans hc1'
      exact hboth ⟨hsent c1 hc1 hrcvd hreqs, hrcvd⟩

theorem sendEof_closing (h : CloseInv s) (hc : s.channel = some c) (hhalfopen : c.halfopen = false)
    (heof : c.sentEof = false) : CloseInv (sendEof s c) := by
  have hold := h.closing c hc
  have hclose := hold.sentClose_eq_false heof
  refine ⟨h.inOrder.send (hold.not_close hclose) fun _ => hold.not_eof heof, ?_, nofun⟩
  intro c' hc'
  cases hc'
  refine ⟨?_, ?_, nofun, fun _ _ _ => rfl, ?_, fun _ => rfl, ?_, ?_⟩
  · intro hclose'
    exact ⟨rfl, (hold.sentClose hclose').2⟩
  · intro hrcvd
    exact ⟨(hold.rcvdClose hrcvd).1, rfl, hhalfopen⟩
  · intro hhalfopen'
    rw [show c.halfopen = true from hhalfopen'] at hhalfopen
    cases hhalfopen
  · show .sent .close ∈ s.trace ++ [.sent .eof] ↔ c.sentClose = true
    rw [← hold.close, List.mem_append]
    exact or_iff_left (by simp)
  · intro hrcvd
    exact List.mem_append_left _ (hold.got hrcvd)

/-- EOF is sent, or will be sent; `pending_eof` may just have been set. -/
theorem tryEof_closing (h : CloseInv s) (heof : ∀ c, s.channel = some c → c.sentEof = false) :
    Ensures (ssh2ChannelTryEof s) CloseInv := by
  unfold ssh2ChannelTryEof
  refine Conn.ensures_get.bind ?_
  intro c hc
  split
  · exact ensures_error.mpr trivial
  · split
    · exact ensures_ok.mpr h
    · next hhalfopen =>
      split
      · exact ensures_ok.mpr h
      · refine Ensures.mono (checkClose_closing ?_) fun s' hs' => hs'.1
        exact sendEof_closing h hc (Bool.not_eq_true _ ▸ hhalfopen) (heof c hc)

/-! ## Sending data -/

theorem nextData_cases (c : Ssh2Channel) : ∃ data outbuffer errbuffer remwindow,
    ((nextData c).1 = .data data ∨ (nextData c).1 = .extendedData data) ∧
      (nextData c).2 = { c with outbuffer := outbuffer, errbuffer := errbuffer, remwindow := remwindow } := by
  unfold nextData
  split
  · exact ⟨_, _, _, _, Or.inr rfl, rfl⟩
  · exact ⟨_, _, _, _, Or.inl rfl, rfl⟩

theorem CloseInv.sendData (h : CloseInv s) (hc : s.channel = some c) (heof : c.sentEof = false) :
    CloseInv ((s.push (nextData c).1).set (nextData c).2) ∧ (nextData c).2.sentEof = false := by
  obtain ⟨data, outbuffer, errbuffer, remwindow, hmsg, hnext⟩ := nextData_cases c
  rw [hnext]
  refine ⟨?_, heof⟩
  have hold := h.closing c hc
  refine ⟨h.inOrder.send (hold.not_close (hold.sentClose_eq_false heof)) fun _ => hold.not_eof heof, ?_,
    nofun⟩
  intro c' hc'
  cases hc'
  have hnoted : Closing (s.trace ++ [.sent (nextData c).1]) c := by
    refine hold.note ?_
    intro x hx
    rw [List.mem_singleton.mp hx]
    rcases hmsg with hmsg | hmsg
    · rw [hmsg]
      trivial
    · rw [hmsg]
      trivial
  exact hnoted.congr rfl rfl rfl rfl rfl rfl id fun chan hchan hvt => ⟨chan, hchan, hvt⟩

/-- EOF was not sent, and still is not. -/
def EofUnsent (s : Conn) : Prop := ∀ c, s.channel = some c → c.sentEof = false

theorem sendLoop_closing {rounds : ℕ} (h : CloseInv s) (heof : EofUnsent s) :
    Ensures (sendLoop rounds s) fun s' => CloseInv s' ∧ EofUnsent s' := by
  induction rounds generalizing s with
  | zero => exact ensures_error.mpr trivial
  | succ rounds ih =>
    unfold sendLoop
    refine Conn.ensures_get.bind ?_
    intro c hc
    split
    · obtain ⟨h', heof'⟩ := h.sendData hc (heof c hc)
      refine ih h' ?_
      intro c' hc'
      cases hc'
      exact heof'
    · exact ensures_ok.mpr ⟨h, heof⟩

theorem trySend_closing (h : CloseInv s) (heof : EofUnsent s) :
    Ensures (ssh2TrySend s) fun r => CloseInv r.2 := by
  unfold ssh2TrySend
  refine Conn.ensures_get.bind ?_
  intro c _
  have hloop : Ensures (if c.halfopen = true then .ok s else sendLoop (c.backlog + 1) s)
      fun s' => CloseInv s' ∧ EofUnsent s' := by
    split
    · exact ensures_ok.mpr ⟨h, heof⟩
    · exact sendLoop_closing h heof
  refine hloop.bind ?_
  rintro s1 ⟨h1, heof1⟩
  refine Conn.ensures_get.bind ?_
  intro c1 _
  have heof : Ensures (if c1.backlog = 0 ∧ c1.pendingEof = true then ssh2ChannelTryEof s1 else .ok s1)
      CloseInv := by
    split
    · exact tryEof_closing h1 heof1
    · exact ensures_ok.mpr h1
  refine heof.bind ?_
  intro s2 hs2
  exact ensures_ok.mpr hs2

theorem checkThrottle_closing (h : CloseInv s) : Ensures (ssh2ChannelCheckThrottle s) CloseInv := by
  unfold ssh2ChannelCheckThrottle
  refine Conn.ensures_get.bind ?_
  intro c hc
  refine Ssh2Channel.ensures_getChan.bind ?_
  intro chan hchan
  refine ensures_ok.mpr (h.set ((h.closing c hc).congr rfl rfl rfl rfl rfl rfl id ?_))
  intro chan' hchan' hvt
  cases hchan'
  exact ⟨chan, hchan, hvt⟩

/-- A change of the buffers and the like -/
theorem CloseInv.update (h : CloseInv s) (hc : s.channel = some c) {c' : Ssh2Channel}
    (hsentEof : c'.sentEof = c.sentEof)
    (hsentClose : c'.sentClose = c.sentClose) (hrcvdEof : c'.rcvdEof = c.rcvdEof)
    (hrcvdClose : c'.rcvdClose = c.rcvdClose) (hpendingEof : c'.pendingEof = c.pendingEof)
    (hhalfopen : c'.halfopen = c.halfopen) (hchanreqs : c.chanreqs = [] → c'.chanreqs = [])
    (hchan : c'.chan = c.chan) : CloseInv (s.set c') := by
  refine h.set ((h.closing c hc).congr hsentEof hsentClose hrcvdEof hrcvdClose hpendingEof hhalfopen
    hchanreqs ?_)
  intro chan hchan' hvt
  exact ⟨chan, hchan ▸ hchan', hvt⟩

theorem trySendAndUnthrottle_closing (h : CloseInv s) :
    Ensures (ssh2TrySendAndUnthrottle s) CloseInv := by
  unfold ssh2TrySendAndUnthrottle
  refine Conn.ensures_get.bind ?_
  intro c hc
  split
  · exact ensures_ok.mpr h
  · next heof =>
    refine (trySend_closing h ?_).bind ?_
    · intro c' hc'
      cases hc.symm.trans hc'
      exact Bool.not_eq_true _ ▸ heof
    · rintro ⟨bufsize, s1⟩ hs1
      dsimp only
      split
      · refine Conn.ensures_get.bind ?_
        intro c1 hc1
        exact checkThrottle_closing (CloseInv.update hs1 hc1 rfl rfl rfl rfl rfl rfl id rfl)
      · exact ensures_ok.mpr hs1

theorem write_closing {isStderr : Bool} {data : List UInt8} (h : CloseInv s) :
    Ensures (ssh2channelWrite s isStderr data) CloseInv := by
  unfold ssh2channelWrite
  refine Conn.ensures_get.bind ?_
  intro c hc
  split
  · exact ensures_error.mpr trivial
  · next heof =>
    have hwrote : CloseInv (s.note (.wrote isStderr data)) := h.note rfl
    have hbuffered : ∀ c', c' = (if isStderr = true then { c with errbuffer := c.errbuffer.add data }
        else { c with outbuffer := c.outbuffer.add data }) →
        CloseInv ((s.note (.wrote isStderr data)).set c') ∧ c'.sentEof = false := by
      rintro c' rfl
      split
      · exact ⟨hwrote.update hc rfl rfl rfl rfl rfl rfl id rfl, Bool.not_eq_true _ ▸ heof⟩
      · exact ⟨hwrote.update hc rfl rfl rfl rfl rfl rfl id rfl, Bool.not_eq_true _ ▸ heof⟩
    obtain ⟨hset, heof'⟩ := hbuffered _ rfl
    refine (trySend_closing hset ?_).bind ?_
    · intro c' hc'
      cases hc'
      exact heof'
    · rintro ⟨bufsize, s1⟩ hs1
      exact ensures_ok.mpr hs1

/-- EOF is to be sent on a channel that is not a zombie. -/
theorem writeEof_closing (h : CloseInv s)
    (hchan : ∀ c chan, s.channel = some c → c.chan = some chan → chan.vt ≠ .zombie) :
    Ensures (ssh2channelWriteEof s) CloseInv := by
  unfold ssh2channelWriteEof
  refine Conn.ensures_get.bind ?_
  intro c hc
  split
  · exact ensures_ok.mpr h
  · next heof =>
    rw [Bool.not_eq_true] at heof
    have hold := h.closing c hc
    refine tryEof_closing (h.set ?_) ?_
    · exact ⟨hold.sentClose, hold.rcvdClose, fun _ => heof, fun chan hchan' hvt =>
        absurd hvt (hchan c chan hc hchan'), hold.halfopen, hold.eof, hold.close, hold.got⟩
    · intro c' hc'
      cases hc'
      exact heof

theorem initiateClose_closing (h : CloseInv s) : Ensures (ssh2channelInitiateClose s) CloseInv := by
  have hclosed : ∀ c, s.channel = some c → ∀ chan, CloseInv (s.set
      { c with chan := chan, pendingEof := false }) := by
    intro c hc chan
    have hold := h.closing c hc
    exact h.set ⟨hold.sentClose, hold.rcvdClose, nofun, fun _ _ _ => rfl, hold.halfopen, hold.eof,
      hold.close, hold.got⟩
  unfold ssh2channelInitiateClose ssh2ChannelCloseLocal
  rw [bind_assoc]
  refine Conn.ensures_get.bind ?_
  intro c hc
  split
  · rw [pure_bind, Conn.get_eq hc, ok_bind]
    exact (checkClose_closing (hclosed c hc c.chan)).mono fun s' hs' => hs'.1
  · rw [bind_assoc]
    refine Ssh2Channel.ensures_getChan.bind ?_
    intro chan _
    exact (checkClose_closing (hclosed c hc (some zombiechanNew))).mono fun s' hs' => hs'.1

/-! ## Receiving EOF and CLOSE -/

theorem Outgoing.mem_trace (h : Outgoing s s') {x : Trace} (hx : x ∈ s.trace) : x ∈ s'.trace := by
  obtain ⟨t, ht, -⟩ := h.trace
  rw [ht]
  exact List.mem_append_left _ hx

/-- EOF can be sent at once. -/
theorem closeOutgoing_eq (hc : s.channel = some c) (hhalfopen : c.halfopen = false)
    (heof : c.sentEof = false) : closeOutgoing s = (do
      let s ← ssh2ChannelCheckClose (sendEof s { c with outbuffer := .empty, errbuffer := .empty })
      ssh2ChannelCheckThrottle s) := by
  unfold closeOutgoing ssh2channelWriteEof ssh2ChannelTryEof
  rw [Conn.get_eq hc, ok_bind, if_neg (by rw [heof]; exact nofun), Conn.get_set, ok_bind,
    if_neg (by rw [heof]; exact nofun), Conn.get_set, ok_bind, if_neg (by simp),
    if_neg (by rw [hhalfopen]; exact nofun), if_neg (by simp [Bufchain.empty, Bufchain.size])]
  rfl

theorem closeOutgoing_closing (h : CloseInv s) (hhalfopen : ∀ c, s.channel = some c → c.halfopen = false) :
    Ensures (closeOutgoing s) fun s' =>
      CloseInv s' ∧ ∀ c', s'.channel = some c' → c'.sentEof = true := by
  cases hchannel : s.channel with
  | none =>
    unfold closeOutgoing Conn.get
    simp only [hchannel]
    exact ensures_error.mpr trivial
  | some c =>
    by_cases heof : c.sentEof = true
    · unfold closeOutgoing
      rw [Conn.get_eq hchannel, ok_bind, if_pos heof]
      refine ensures_ok.mpr ⟨h, ?_⟩
      intro c' hc'
      cases hchannel.symm.trans hc'
      exact heof
    · rw [Bool.not_eq_true] at heof
      rw [closeOutgoing_eq hchannel (hhalfopen c hchannel) heof]
      have hempty := @CloseInv.update _ _ h hchannel { c with outbuffer := .empty, errbuffer := .empty }
        rfl rfl rfl rfl rfl rfl id rfl
      have hsent : CloseInv (sendEof s { c with outbuffer := .empty, errbuffer := .empty }) := by
        have hsent' := sendEof_closing hempty rfl (hhalfopen c hchannel) heof
        exact hsent'
      refine Ensures.bind (fun s1 hs1 => And.intro (checkClose_closing hsent s1 hs1)
        (checkClose_outgoing s1 hs1)) ?_
      rintro s1 ⟨⟨h1, -⟩, hout1⟩ s2 hs2
      have h2 := checkThrottle_closing h1 s2 hs2
      have hout2 := checkThrottle_outgoing s2 hs2
      refine ⟨h2, ?_⟩
      intro c2 hc2
      refine (h2.closing c2 hc2).eof (hout2.mem_trace (hout1.mem_trace ?_))
      exact List.mem_append_right _ (List.mem_singleton.mpr rfl)

/-- The rest of CLOSE, once the requests are abandoned, if they are -/
theorem closeRest_closing (h : CloseInv s) (hwaiting : Waiting s) (hgot : .got .close ∈ s.trace)
    (hc : s.channel = some c) (hhalfopen : c.halfopen = false) (hrcvd : c.rcvdEof = true)
    (hreqs : c.chanreqs = [] ∨ s.cfg.bugSendsLateRequestReply = true) :
    Ensures (do
      let s ← closeOutgoing s
      let c ← s.get
      if c.rcvdClose = true then return s
      else ssh2ChannelCheckClose (s.set { c with rcvdClose := true })) fun s' =>
        CloseInv s' ∧ Waiting s' ∧ ∀ c, s'.channel = some c → c.rcvdClose = true := by
  have hopen : ∀ c, s.channel = some c → c.halfopen = false := by
    intro c' hc'
    cases hc.symm.trans hc'
    exact hhalfopen
  refine Ensures.bind (fun s1 hs1 => And.intro (closeOutgoing_closing h hopen s1 hs1)
    (closeOutgoing_outgoing s1 hs1)) ?_
  rintro s1 ⟨⟨h1, heof1⟩, hout1⟩
  have hcfg1 : s1.cfg = s.cfg := by rw [hout1.rest]
  refine Conn.ensures_get.bind ?_
  intro c1 hc1
  obtain ⟨c', hc', heq, -⟩ := hout1.channel c1 hc1
  cases hc.symm.trans hc'
  have hrcvd1 : c1.rcvdClose = c.rcvdClose := by rw [heq]; rfl
  have hreqs1 : c1.chanreqs = c.chanreqs := by rw [heq]; rfl
  split
  · next hclose =>
    refine ensures_ok.mpr ⟨h1, ?_, ?_⟩
    · intro c2 hc2 _
      cases hc1.symm.trans hc2
      rw [hreqs1, hcfg1]
      exact hwaiting c hc (hrcvd1 ▸ hclose)
    · intro c2 hc2
      cases hc1.symm.trans hc2
      exact hclose
  · have hold := h1.closing c1 hc1
    have hset : CloseInv (s1.set { c1 with rcvdClose := true }) := by
      refine h1.set ⟨hold.sentClose, fun _ => ⟨?_, heof1 c1 hc1, ?_⟩, hold.pendingEof, hold.zombie,
        hold.halfopen, hold.eof, hold.close, fun _ => hout1.mem_trace hgot⟩
      · show c1.rcvdEof = true
        rw [heq]
        exact hrcvd
      · show c1.halfopen = false
        rw [heq]
        exact hhalfopen
    intro s2 hs2
    obtain ⟨h2, hasking⟩ := checkClose_closing hset s2 hs2
    have hout2 := checkClose_outgoing s2 hs2
    have hframe : ∀ c2, s2.channel = some c2 → c2.rcvdClose = true ∧ c2.chanreqs = c.chanreqs := by
      intro c2 hc2
      obtain ⟨c', hc', heq', -⟩ := hout2.channel c2 hc2
      cases hc'
      rw [heq']
      exact ⟨rfl, hreqs1⟩
    refine ⟨h2, ?_, fun c2 hc2 => (hframe c2 hc2).1⟩
    intro c2 hc2 hrcvd2
    have hne := hasking c2 hc2 hrcvd2
    refine ⟨hne, ?_⟩
    have hcfg2 : s2.cfg = s.cfg := by
      rw [hout2.rest]
      exact hcfg1
    rw [hcfg2]
    rcases hreqs with hnil | hbug
    · rw [(hframe c2 hc2).2, hnil] at hne
      exact absurd rfl hne
    · exact hbug

/-- The rest of CLOSE, when EOF was received before -/
theorem receiveCloseRest_closing (h : CloseInv s) (hwaiting : Waiting s) (hgot : .got .close ∈ s.trace)
    (hopen : ∀ c, s.channel = some c → c.halfopen = false ∧ c.rcvdEof = true) :
    Ensures (receiveCloseRest s) fun s' => CloseInv s' ∧ Waiting s' ∧
      ∀ c, s'.channel = some c → c.rcvdClose = true := by
  unfold receiveCloseRest
  refine Conn.ensures_get.bind ?_
  intro c hc
  obtain ⟨hhalfopen, hrcvd⟩ := hopen c hc
  split
  · next hbug =>
    rw [ok_bind]
    exact closeRest_closing h hwaiting hgot hc hhalfopen hrcvd (Or.inr hbug)
  · next hbug =>
    refine (abandonRequests_eq hc rfl).bind ?_
    rintro s1 ⟨-, remlocwin, state, rfl⟩
    have hold := h.closing c hc
    have hnoted : sentMsgs (c.chanreqs.map fun h => Trace.handled h none) = [] := by
      unfold sentMsgs
      rw [List.filterMap_map]
      exact List.filterMap_eq_nil_iff.mpr fun _ _ => rfl
    refine closeRest_closing ?_ ?_ (List.mem_append_left _ hgot) rfl hhalfopen hrcvd (Or.inl rfl)
    · refine ⟨h.inOrder.note hnoted, ?_, nofun⟩
      intro c' hc'
      cases hc'
      refine (hold.note ?_).congr rfl rfl rfl rfl rfl rfl (fun _ => rfl) fun chan hchan hvt =>
        ⟨chan, hchan, hvt⟩
      intro x hx
      obtain ⟨handler, -, rfl⟩ := List.mem_map.mp hx
      trivial
    · intro c' hc' hclose
      cases hc'
      exact absurd (hwaiting c hc hclose).2 hbug

/-! ## Between the steps -/

/-- What belongs to a channel: its `Channel`, or the downstream that it was handed over to -/
structure Attached (isMainchan : Bool) (calling : Option Rest) (c : Ssh2Channel) : Prop where
  shared : c.chan = none ↔ c.sharectx.isSome = true
  sharedIdle : c.sharectx.isSome = true →
    isMainchan = false ∧ c.chanreqs = [] ∧ (calling = none ∨ calling = some .data)
  fixed : ∀ chan, c.chan = some chan → chan.initialFixedWindowSize ≠ 0 →
    isMainchan = false ∧ c.chanreqs = []
  main : ∀ chan, c.chan = some chan → chan.vt = .mainchan → isMainchan = true

variable {isMainchan : Bool} {calling : Option Rest}

theorem Attached.congr (h : Attached isMainchan calling c) {c' : Ssh2Channel} (hchan : c'.chan = c.chan)
    (hshare : c'.sharectx = c.sharectx) (hreqs : c.chanreqs = [] → c'.chanreqs = []) :
    Attached isMainchan calling c' := by
  refine ⟨?_, ?_, ?_, ?_⟩
  · rw [hchan, hshare]
    exact h.shared
  · rw [hshare]
    intro hshared
    obtain ⟨hmain, hnil, hcalling⟩ := h.sharedIdle hshared
    exact ⟨hmain, hreqs hnil, hcalling⟩
  · rw [hchan]
    intro chan hchan' hfixed
    exact ⟨(h.fixed chan hchan' hfixed).1, hreqs (h.fixed chan hchan' hfixed).2⟩
  · rw [hchan]
    exact h.main

/-- A channel whose window is not fixed may send channel requests. -/
theorem Attached.request (h : Attached isMainchan calling c) {chan : Channel}
    (hchan : c.chan = some chan) (hfixed : chan.initialFixedWindowSize = 0) {c' : Ssh2Channel}
    (hchan' : c'.chan = c.chan) (hshare : c'.sharectx = c.sharectx) :
    Attached isMainchan calling c' := by
  refine ⟨?_, ?_, ?_, ?_⟩
  · rw [hchan', hshare]
    exact h.shared
  · rw [hshare]
    intro hshared
    rw [h.shared.mpr hshared] at hchan
    cases hchan
  · rw [hchan']
    intro chan' hchan'' hne
    cases hchan.symm.trans hchan''
    exact absurd hfixed hne
  · rw [hchan']
    exact h.main

/-- What holds when no message is being handled, apart from a method of the `Channel` that runs -/
structure Settled (s : Conn) : Prop where
  waiting : Waiting s
  close : s.calling = some .close → .got .close ∈ s.trace ∧ ∀ c, s.channel = some c →
    c.halfopen = false ∧ c.rcvdEof = true ∧ c.rcvdClose = false
  got : .got .close ∈ s.trace → s.calling = some .close ∨ ∀ c, s.channel = some c → c.rcvdClose = true
  alive : s.calling ≠ none → ∃ c, s.channel = some c
  attached : ∀ c, s.channel = some c → Attached s.isMainchan s.calling c

theorem Outgoing.got (h : Outgoing s s') {m : ServerMsg} (hm : .got m ∈ s'.trace) : .got m ∈ s.trace := by
  obtain ⟨t, ht, houtgoing⟩ := h.trace
  rw [ht] at hm
  rcases List.mem_append.mp hm with hm | hm
  · exact hm
  · cases houtgoing _ hm

theorem Outgoing.attached (hout : Outgoing s s') (h : ∀ c, s.channel = some c →
      Attached s.isMainchan s.calling c) :
    ∀ c, s'.channel = some c → Attached s'.isMainchan s'.calling c := by
  have hmain : s'.isMainchan = s.isMainchan := by rw [hout.rest]
  have hcalling : s'.calling = s.calling := hout.calling
  intro c' hc'
  obtain ⟨c, hc, heq, hchan⟩ := hout.channel c' hc'
  have hold := h c hc
  have hshare : c'.sharectx = c.sharectx := by rw [heq]; rfl
  have hreqs : c'.chanreqs = c.chanreqs := by rw [heq]; rfl
  refine ⟨?_, ?_, ?_, ?_⟩
  · rw [hshare, ← hold.shared]
    constructor
    · intro hnone
      cases hchan₀ : c.chan with
      | none => rfl
      | some chan =>
        obtain ⟨chan', hchan', -⟩ := hchan.to_some hchan₀
        rw [hnone] at hchan'
        cases hchan'
    · intro hnone
      cases hchan₀ : c'.chan with
      | none => rfl
      | some chan' =>
        obtain ⟨chan, hchan', -⟩ := hchan.of_some hchan₀
        rw [hnone] at hchan'
        cases hchan'
  · rw [hshare, hreqs, hmain, hcalling]
    exact hold.sharedIdle
  · intro chan' hchan' hfixed
    obtain ⟨chan, hchan₀, -, hsame⟩ := hchan.of_some hchan'
    rw [hreqs, hmain]
    exact hold.fixed chan hchan₀ (hsame ▸ hfixed)
  · intro chan' hchan' hvt
    obtain ⟨chan, hchan₀, hsame, -⟩ := hchan.of_some hchan'
    rw [hmain]
    exact hold.main chan hchan₀ (hsame ▸ hvt)

theorem Settled.outgoing (h : Settled s) (hout : Outgoing s s') : Settled s' := by
  have hcfg : s'.cfg = s.cfg := by rw [hout.rest]
  have hcalling : s'.calling = s.calling := hout.calling
  refine ⟨?_, ?_, ?_, ?_, hout.attached h.attached⟩
  · intro c' hc' hrcvd
    obtain ⟨c, hc, heq, -⟩ := hout.channel c' hc'
    rw [heq] at hrcvd ⊢
    rw [hcfg]
    exact h.waiting c hc hrcvd
  · intro hclose
    obtain ⟨hgot, hall⟩ := h.close (hcalling ▸ hclose)
    refine ⟨hout.mem_trace hgot, ?_⟩
    intro c' hc'
    obtain ⟨c, hc, heq, -⟩ := hout.channel c' hc'
    rw [heq]
    exact hall c hc
  · intro hgot
    rw [hcalling]
    rcases h.got (hout.got hgot) with hclose | hrcvd
    · exact Or.inl hclose
    · refine Or.inr ?_
      intro c' hc'
      obtain ⟨c, hc, heq, -⟩ := hout.channel c' hc'
      rw [heq]
      exact hrcvd c hc
  · intro hrunning
    obtain ⟨c, hc⟩ := h.alive (hcalling ▸ hrunning)
    cases hchannel : s'.channel with
    | some c' => exact ⟨c', rfl⟩
    | none =>
      rcases hout.freed hchannel with hnone | ⟨c', hc', hrcvd, hreqs⟩
      · rw [hnone] at hc
        cases hc
      · exact absurd hreqs (h.waiting c' hc' hrcvd).1

/-- Something is noted that is not CLOSE from the server. -/
theorem Settled.note (h : Settled s) {x : Trace} (hx : x ≠ .got .close) : Settled (s.note x) := by
  refine ⟨h.waiting, fun hclose => ⟨List.mem_append_left _ (h.close hclose).1, (h.close hclose).2⟩, ?_,
    h.alive, h.attached⟩
  intro hgot
  refine h.got ?_
  rcases List.mem_append.mp hgot with hgot | hgot
  · exact hgot
  · exact absurd (List.mem_singleton.mp hgot).symm hx

/-- The channel changes, but what is received does not. -/
theorem Settled.set (h : Settled s) (hc : s.channel = some c) {c' : Ssh2Channel}
    (hrcvdClose : c'.rcvdClose = c.rcvdClose) (hrcvdEof : c.rcvdEof = true → c'.rcvdEof = true)
    (hhalfopen : c.halfopen = false → c'.halfopen = false) (hreqs : c.chanreqs ≠ [] → c'.chanreqs ≠ [])
    (hattached : Attached s.isMainchan s.calling c → Attached s.isMainchan s.calling c') :
    Settled (s.set c') := by
  refine ⟨?_, ?_, ?_, fun _ => ⟨c', rfl⟩, ?_⟩
  rotate_right
  · intro c'' hc''
    cases hc''
    exact hattached (h.attached c hc)
  · intro c'' hc'' hrcvd
    cases hc''
    obtain ⟨hne, hbug⟩ := h.waiting c hc (hrcvdClose ▸ hrcvd)
    exact ⟨hreqs hne, hbug⟩
  · intro hclose
    obtain ⟨hgot, hall⟩ := h.close hclose
    refine ⟨hgot, ?_⟩
    intro c'' hc''
    cases hc''
    obtain ⟨hopen, heof, hrcvd⟩ := hall c hc
    exact ⟨hhalfopen hopen, hrcvdEof heof, hrcvdClose.trans hrcvd⟩
  · intro hgot
    rcases h.got hgot with hclose | hrcvd
    · exact Or.inl hclose
    · refine Or.inr ?_
      intro c'' hc''
      cases hc''
      exact hrcvdClose.trans (hrcvd c hc)

/-- A method other than the one for CLOSE is called. -/
theorem Settled.call (h : Settled s) (hcalling : s.calling = none) {rest : Rest} (hrest : rest ≠ .close)
    (hc : s.channel = some c) {chan : Channel} (hchan : c.chan = some chan) :
    Settled { s with calling := some rest } := by
  refine ⟨h.waiting, fun hclose => absurd (Option.some.inj hclose) hrest, ?_, fun _ => ⟨c, hc⟩, ?_⟩
  · intro hgot
    refine Or.inr ((h.got hgot).resolve_left ?_)
    rw [hcalling]
    exact nofun
  · intro c' hc'
    cases hc.symm.trans hc'
    have hold := h.attached c hc
    refine ⟨hold.shared, ?_, hold.fixed, hold.main⟩
    intro hshared
    rw [hold.shared.mpr hshared] at hchan
    cases hchan

/-- A method returns, other than the one for CLOSE. -/
theorem Settled.return (h : Settled s) (hcalling : s.calling ≠ some .close) :
    Settled { s with calling := none } := by
  refine ⟨h.waiting, nofun, fun hgot => Or.inr ((h.got hgot).resolve_left hcalling), nofun, ?_⟩
  intro c hc
  have hold := h.attached c hc
  refine ⟨hold.shared, ?_, hold.fixed, hold.main⟩
  intro hshared
  obtain ⟨hmain, hreqs, -⟩ := hold.sharedIdle hshared
  exact ⟨hmain, hreqs, Or.inl rfl⟩

/-- What may be sent after EOF -/
theorem InOrder.append (h : InOrder trace) (hclose : .sent .close ∉ trace)
    (ht : ∀ m, .sent m ∈ t → m ≠ .close ∧ ¬ m.isStream) : InOrder (trace ++ t) := by
  unfold InOrder
  rw [sentMsgs_append]
  refine List.pairwise_append.mpr ⟨h, List.pairwise_of_forall_mem_list ?_, ?_⟩
  · intro m hm m' hm'
    exact ⟨(ht m (mem_sentMsgs.mp hm)).1, fun _ => (ht m' (mem_sentMsgs.mp hm')).2⟩
  · intro m hm m' hm'
    refine ⟨?_, fun _ => (ht m' (mem_sentMsgs.mp hm')).2⟩
    rintro rfl
    exact hclose (mem_sentMsgs.mp hm)

theorem Windowing.closing (hwin : Windowing s s') (h : CloseInv s) : CloseInv s' := by
  rcases hwin.changes with rfl | ⟨c, c', t, hc, hc', heq, ht, hall, -, -, hclose, -⟩
  · exact h
  · have hold := h.closing c hc
    refine ⟨?_, ?_, fun hnone => nomatch hc'.symm.trans hnone⟩
    · rw [ht]
      refine h.inOrder.append (hold.not_close hclose) ?_
      intro m hm
      have hwindowing := hall _ hm
      cases m with
      | windowAdjust size => exact ⟨nofun, id⟩
      | request type wantReply => exact ⟨nofun, id⟩
      | _ => cases hwindowing
    · intro c'' hc''
      cases hc'.symm.trans hc''
      have hnoted : Closing s'.trace c := by
        rw [ht]
        refine hold.note ?_
        intro x hx
        have hwindowing := hall x hx
        cases x with
        | sent m =>
          cases m with
          | windowAdjust size => trivial
          | request type wantReply => trivial
          | _ => cases hwindowing
        | _ => trivial
      have hnot : ¬ c.sentClose = true := by
        rw [hclose]
        exact nofun
      rw [heq]
      exact ⟨fun hclose' => absurd hclose' hnot, hnoted.rcvdClose, hnoted.pendingEof, hnoted.zombie,
        hnoted.halfopen, hnoted.eof, hnoted.close, hnoted.got⟩

theorem Windowing.settled (hwin : Windowing s s') (h : Settled s) : Settled s' := by
  rcases hwin.changes with rfl | ⟨c, c', t, hc, hc', heq, ht, hall, hreqs, heof, -, chan, hchan, hfixed⟩
  · exact h
  · have hcfg : s'.cfg = s.cfg := by rw [hwin.rest]
    have hmain : s'.isMainchan = s.isMainchan := by rw [hwin.rest]
    have hcalling : s'.calling = s.calling := hwin.calling
    have hrcvd : c'.rcvdClose = c.rcvdClose := by rw [heq]; rfl
    have hattached : Attached s.isMainchan s.calling c' :=
      (h.attached c hc).request hchan hfixed (by rw [heq]; rfl) (by rw [heq]; rfl)
    refine ⟨?_, ?_, ?_, fun _ => ⟨c', hc'⟩, ?_⟩
    rotate_right
    · intro c'' hc''
      cases hc'.symm.trans hc''
      rw [hmain, hcalling]
      exact hattached
    · intro c'' hc'' hclose
      cases hc'.symm.trans hc''
      obtain ⟨hne, hbug⟩ := h.waiting c hc (hrcvd ▸ hclose)
      rw [hreqs, hcfg]
      exact ⟨fun hnil => hne (List.append_eq_nil_iff.mp hnil).1, hbug⟩
    · intro hclose
      have hclosed := ((h.close (hcalling ▸ hclose)).2 c hc).2.1
      rw [heof] at hclosed
      cases hclosed
    · intro hgot
      have hold : .got .close ∈ s.trace := by
        rw [ht] at hgot
        rcases List.mem_append.mp hgot with hgot | hgot
        · exact hgot
        · cases hall _ hgot
      rw [hcalling]
      rcases h.got hold with hclose | hclose
      · exact Or.inl hclose
      · refine Or.inr ?_
        intro c'' hc''
        cases hc'.symm.trans hc''
        exact hrcvd.trans (hclose c hc)

/-- What holds between the steps -/
structure CloseSound (s : Conn) : Prop where
  inv : CloseInv s
  settled : Settled s

theorem CloseSound.of_outgoing (h : Settled s) {r : Except Fault Conn} (hinv : Ensures r CloseInv)
    (hout : Ensures r (Outgoing s)) : Ensures r CloseSound :=
  fun s' hs' => ⟨hinv s' hs', h.outgoing (hout s' hs')⟩

theorem setWindow_closing {newwin : ℤ} (h : CloseSound s) :
    Ensures (ssh2SetWindow s newwin) CloseSound :=
  setWindow_windowing.mono fun _ hs' => ⟨hs'.closing h.inv, hs'.settled h.settled⟩

theorem throttleConn_closing {adjust : ℤ} (h : CloseSound s) :
    Ensures (sshThrottleConn s adjust) CloseSound := by
  refine throttleConn_eq.mono ?_
  rintro s' ⟨frozen, rfl⟩
  exact ⟨⟨h.inv.inOrder, h.inv.closing, h.inv.gone⟩,
    ⟨h.settled.waiting, h.settled.close, h.settled.got, h.settled.alive,
      h.settled.attached⟩⟩

/-- A change of the window or of what is throttled -/
theorem CloseSound.update (h : CloseSound s) (hc : s.channel = some c) {c' : Ssh2Channel}
    (hsentEof : c'.sentEof = c.sentEof)
    (hsentClose : c'.sentClose = c.sentClose) (hrcvdEof : c'.rcvdEof = c.rcvdEof)
    (hrcvdClose : c'.rcvdClose = c.rcvdClose) (hpendingEof : c'.pendingEof = c.pendingEof)
    (hhalfopen : c'.halfopen = c.halfopen) (hchanreqs : c'.chanreqs = c.chanreqs)
    (hchan : c'.chan = c.chan) (hshare : c'.sharectx = c.sharectx) : CloseSound (s.set c') :=
  ⟨h.inv.update hc hsentEof hsentClose hrcvdEof hrcvdClose hpendingEof hhalfopen
    (fun hnil => hchanreqs.trans hnil) hchan,
    h.settled.set hc hrcvdClose (fun heof => hrcvdEof.trans heof) (fun hopen => hhalfopen.trans hopen)
      (fun hne => hchanreqs ▸ hne) fun hold => hold.congr hchan hshare fun hnil => hchanreqs.trans hnil⟩

theorem unthrottle_closing {bufsize : ℕ} (h : CloseSound s) :
    Ensures (ssh2channelUnthrottle s bufsize) CloseSound := by
  unfold ssh2channelUnthrottle
  refine Conn.ensures_get.bind ?_
  intro c hc
  dsimp only
  generalize (if s.cfg.sshIsSimple = true then 0 else c.locmaxwin) = buflimit
  have hset : Ensures (if (bufsize : ℤ) < buflimit then ssh2SetWindow s (buflimit - bufsize) else .ok s)
      CloseSound := by
    split
    · exact setWindow_closing h
    · exact ensures_ok.mpr h
  refine hset.bind ?_
  intro s1 h1
  refine Conn.ensures_get.bind ?_
  intro c1 hc1
  split
  · exact throttleConn_closing (h1.update hc1 rfl rfl rfl rfl rfl rfl rfl rfl rfl)
  · exact ensures_ok.mpr h1

theorem receiveDataRest_closing {bufsize : ℕ} (h : CloseSound s) :
    Ensures (receiveDataRest s bufsize) CloseSound := by
  unfold receiveDataRest
  refine Conn.ensures_get.bind ?_
  intro c hc
  split
  · exact ensures_ok.mpr h
  · have hgrown : CloseSound (s.set (growWindow c)) := by
      unfold growWindow
      split
      · exact h.update hc rfl rfl rfl rfl rfl rfl rfl rfl rfl
      · exact h.update hc rfl rfl rfl rfl rfl rfl rfl rfl rfl
    dsimp only
    generalize toInt32 (bufsize : ℤ) = size
    have hset : Ensures (if size < (growWindow c).locmaxwin then
        ssh2SetWindow (s.set (growWindow c)) (toInt32 ((growWindow c).locmaxwin - size))
        else .ok (s.set (growWindow c))) CloseSound := by
      split
      · exact setWindow_closing hgrown
      · exact ensures_ok.mpr hgrown
    refine hset.bind ?_
    intro s1 h1
    unfold throttleIfFull
    refine Conn.ensures_get.bind ?_
    intro c1 hc1
    split
    · exact throttleConn_closing (h1.update hc1 rfl rfl rfl rfl rfl rfl rfl rfl rfl)
    · exact ensures_ok.mpr h1

/-- A request was answered. -/
theorem responseRest_closing (h : CloseSound s) (hcalling : s.calling = none) :
    Ensures (responseRest s) CloseSound := by
  unfold responseRest
  refine Conn.ensures_get.bind ?_
  intro c hc
  have hold := h.inv.closing c hc
  have hset : CloseInv (s.set { c with chanreqs := c.chanreqs.tail }) := by
    refine h.inv.update hc rfl rfl rfl rfl rfl rfl ?_ rfl
    intro hnil
    show c.chanreqs.tail = []
    rw [hnil]
    rfl
  intro s' hs'
  obtain ⟨h', hasking⟩ := checkClose_closing hset s' hs'
  have hout := checkClose_outgoing s' hs'
  have hcfg : s'.cfg = s.cfg := by rw [hout.rest]; rfl
  have hrcvd : ∀ c', s'.channel = some c' → c'.rcvdClose = c.rcvdClose := by
    intro c' hc'
    obtain ⟨c1, hc1, heq, -⟩ := hout.channel c' hc'
    cases hc1
    rw [heq]
    rfl
  have hcalling' : s'.calling = none := hout.calling.trans hcalling
  refine ⟨h', ?_, ?_, ?_, fun hrunning => absurd hcalling' hrunning, hout.attached ?_⟩
  rotate_right
  · intro c' hc'
    cases hc'
    refine (h.settled.attached c hc).congr rfl rfl ?_
    intro hnil
    show c.chanreqs.tail = []
    rw [hnil]
    rfl
  · intro c' hc' hclose
    rw [hcfg]
    exact ⟨hasking c' hc' hclose, (h.settled.waiting c hc (hrcvd c' hc' ▸ hclose)).2⟩
  · intro hclose
    rw [hcalling'] at hclose
    cases hclose
  · intro hgot
    refine Or.inr ?_
    intro c' hc'
    rw [hrcvd c' hc']
    refine ((h.settled.got (hout.got hgot)).resolve_left ?_) c hc
    rw [hcalling]
    exact nofun

theorem openConfirmationRest_closing (h : CloseSound s) :
    Ensures (openConfirmationRest s) CloseSound := by
  refine CloseSound.of_outgoing h.settled ?_ openConfirmationRest_outgoing
  unfold openConfirmationRest
  refine (checkClose_closing h.inv).bind ?_
  rintro s1 ⟨h1, -⟩
  refine Conn.ensures_get.bind ?_
  intro c hc
  split
  · next hpending =>
    refine tryEof_closing h1 ?_
    intro c' hc'
    cases hc.symm.trans hc'
    exact (h1.closing c hc).pendingEof hpending
  · exact ensures_ok.mpr h1

/-! ## Steps -/

theorem callMethod_closing {rest : Rest} (h : CloseSound s) (hcalling : s.calling = none)
    (hrest : rest ≠ .close) : Ensures (callMethod s rest) CloseSound := by
  unfold callMethod
  refine Conn.ensures_get.bind ?_
  intro c hc
  refine Ssh2Channel.ensures_getChan.bind ?_
  intro chan hchan
  exact ensures_ok.mpr ⟨⟨h.inv.inOrder, h.inv.closing, h.inv.gone⟩,
    h.settled.call hcalling hrest hc hchan⟩

theorem receiveResponse_closing {success : Bool} (h : CloseSound s) (hcalling : s.calling = none) :
    Ensures (receiveResponse s success) CloseSound := by
  unfold receiveResponse
  refine Conn.ensures_get.bind ?_
  intro c hc
  split
  · exact ensures_ok.mpr ⟨⟨h.inv.inOrder, h.inv.closing, h.inv.gone⟩,
      ⟨h.settled.waiting, h.settled.close, h.settled.got, h.settled.alive,
      h.settled.attached⟩⟩
  · next handler rest hreqs =>
    have hnoted : ∀ x, CloseSound (s.note (.handled handler x)) := fun x =>
      ⟨h.inv.note rfl, h.settled.note nofun⟩
    unfold handleResponse
    cases handler with
    | winadj size =>
      refine responseRest_closing ?_ hcalling
      exact (hnoted _).update hc rfl rfl rfl rfl rfl rfl rfl rfl rfl
    | response =>
      refine Ssh2Channel.ensures_getChan.bind ?_
      intro chan _
      split
      · exact callMethod_closing (hnoted _) hcalling nofun
      · exact ensures_error.mpr trivial

theorem receiveCloseRest_attached (h : ∀ c, s.channel = some c → Attached s.isMainchan s.calling c) :
    Ensures (receiveCloseRest s) fun s' =>
      ∀ c, s'.channel = some c → Attached s'.isMainchan s'.calling c := by
  unfold receiveCloseRest
  refine Conn.ensures_get.bind ?_
  intro c hc
  have habandon : Ensures (if s.cfg.bugSendsLateRequestReply = true then .ok s
      else abandonRequests c.chanreqs s) fun s1 =>
        ∀ c, s1.channel = some c → Attached s1.isMainchan s1.calling c := by
    split
    · exact ensures_ok.mpr h
    · refine (abandonRequests_eq hc rfl).mono ?_
      rintro s1 ⟨-, remlocwin, state, rfl⟩ c' hc'
      cases hc'
      exact (h c hc).congr rfl rfl fun _ => rfl
  refine habandon.bind ?_
  intro s1 h1
  refine closeOutgoing_outgoing.bind ?_
  intro s2 hout
  have h2 := hout.attached h1
  refine Conn.ensures_get.bind ?_
  intro c2 hc2
  split
  · exact ensures_ok.mpr h2
  · refine checkClose_outgoing.mono ?_
    intro s3 hout'
    refine hout'.attached ?_
    intro c' hc'
    cases hc'
    exact (h2 c2 hc2).congr rfl rfl id

/-- CLOSE is received. -/
theorem receiveClose_closing (h : CloseSound s) (hcalling : s.calling = none)
    (hopen : ∀ c, s.channel = some c → c.halfopen = false) :
    Ensures (receiveClose (s.note (.got .close))) CloseSound := by
  have hnoted : CloseInv (s.note (.got .close)) := h.inv.note rfl
  unfold receiveClose
  refine Conn.ensures_get.bind ?_
  intro c hc
  have hold := hnoted.closing c hc
  split
  · next heof =>
    have hrest : ∀ c, (s.note (.got .close)).channel = some c → c.halfopen = false ∧ c.rcvdEof = true := by
      intro c' hc'
      cases hc.symm.trans hc'
      exact ⟨hopen c hc, heof⟩
    have hmem : .got .close ∈ (s.note (.got .close)).trace :=
      List.mem_append_right _ (List.mem_singleton.mpr rfl)
    intro s' hs'
    obtain ⟨h', hwaiting, hrcvd⟩ := receiveCloseRest_closing hnoted h.settled.waiting hmem hrest s' hs'
    have hcalling' : s'.calling = none := (receiveCloseRest_calling s' hs').trans hcalling
    refine ⟨h', hwaiting, ?_, fun _ => Or.inr hrcvd, fun hrunning => absurd hcalling' hrunning,
      receiveCloseRest_attached (s := s.note (.got .close)) h.settled.attached s' hs'⟩
    intro hclose
    rw [hcalling'] at hclose
    cases hclose
  · next heof =>
    rw [Bool.not_eq_true] at heof
    have hrcvd : c.rcvdClose = false := by
      cases hrcvd : c.rcvdClose with
      | false => rfl
      | true =>
        rw [(hold.rcvdClose hrcvd).1] at heof
        cases heof
    have hnot : ¬ c.rcvdClose = true := by
      rw [hrcvd]
      exact nofun
    refine callMethod_eq.mono ?_
    rintro s' ⟨⟨c', chan, hc', hchan⟩, rfl⟩
    refine ⟨⟨hnoted.inOrder, ?_, nofun⟩, ?_, ?_, fun _ => Or.inl rfl, fun _ => ⟨_, rfl⟩, ?_⟩
    rotate_right
    · intro c'' hc''
      cases hc'
      cases hc''
      have hold' := h.settled.attached c hc
      refine ⟨hold'.shared, ?_, hold'.fixed, hold'.main⟩
      intro hshared
      rw [show c.chan = none from hold'.shared.mpr hshared] at hchan
      cases hchan
    · intro c' hc'
      cases hc'
      refine ⟨hold.sentClose, fun hclose => absurd hclose hnot, hold.pendingEof, hold.zombie, ?_, hold.eof,
        hold.close, hold.got⟩
      intro hhalfopen
      have hclosed := hopen c hc
      rw [show c.halfopen = true from hhalfopen] at hclosed
      cases hclosed
    · intro c' hc' hclose
      cases hc'
      exact absurd hclose hnot
    · intro _
      refine ⟨List.mem_append_right _ (List.mem_singleton.mpr rfl), ?_⟩
      intro c' hc'
      cases hc'
      exact ⟨hopen c hc, rfl, hrcvd⟩

theorem receive_closing {m : ServerMsg} (h : CloseSound s) (hcalling : s.calling = none)
    (hc : s.channel = some c) (hhalfopen : c.halfopen = m.expectHalfopen) :
    Ensures (receive (s.note (.got m)) m) CloseSound := by
  have hgot : m ≠ .close → CloseSound (s.note (.got m)) := by
    intro hm
    exact ⟨h.inv.note rfl, h.settled.note fun heq => hm (Trace.got.inj heq)⟩
  have hold := h.inv.closing c hc
  cases m with
  | openConfirmation remoteid remwindow remmaxpkt =>
    have hgot := hgot nofun
    show Ensures (openConfirmation _ remoteid remwindow remmaxpkt) _
    unfold openConfirmation
    rw [Conn.get_note, Conn.get_eq hc, ok_bind]
    dsimp only
    generalize (if remmaxpkt > _ then _ else remmaxpkt) = maxpkt
    have hopened : CloseSound ((s.note (.got (.openConfirmation remoteid remwindow remmaxpkt))).note
        (.opened remwindow maxpkt)) := ⟨hgot.inv.note rfl, hgot.settled.note nofun⟩
    have hnew := hopened.inv.closing c hc
    refine callMethod_closing ⟨hopened.inv.set ?_, hopened.settled.set hc rfl id (fun _ => rfl) id
      fun hold => hold.congr rfl rfl id⟩ hcalling nofun
    obtain ⟨hsentEof, hrcvdEof⟩ := hold.halfopen hhalfopen
    exact ⟨hnew.sentClose, fun hclose => ⟨(hnew.rcvdClose hclose).1, (hnew.rcvdClose hclose).2.1, rfl⟩,
      hnew.pendingEof, hnew.zombie, nofun, hnew.eof, hnew.close, hnew.got⟩
  | openFailure =>
    show Ensures (openFailure _) _
    unfold openFailure
    refine Conn.ensures_get.bind ?_
    intro c' _
    refine Ssh2Channel.ensures_getChan.bind ?_
    intro chan _
    have hgot := hgot nofun
    have hnone : CloseInv { s.note (.got .openFailure) with channel := none } :=
      ⟨hgot.inv.inOrder, fun _ hc => (nomatch hc), fun _ => Or.inr (Or.inl
        (List.mem_append_right _ (List.mem_singleton.mpr rfl)))⟩
    refine ensures_ok.mpr ⟨hnone, fun _ hc => (nomatch hc), fun hclose => ?_,
      fun _ => Or.inr fun _ hc => (nomatch hc), fun hrunning => absurd hcalling hrunning,
      fun _ hc => (nomatch hc)⟩
    rw [show s.calling = some .close from hclose] at hcalling
    cases hcalling
  | data extType data =>
    show Ensures (receiveData _ data) _
    unfold receiveData
    refine Conn.ensures_get.bind ?_
    intro c' hc'
    exact callMethod_closing ((hgot nofun).update hc' rfl rfl rfl rfl rfl rfl rfl rfl rfl) hcalling nofun
  | windowAdjust size =>
    show Ensures (receiveWindowAdjust _ size) _
    unfold receiveWindowAdjust
    refine Conn.ensures_get.bind ?_
    intro c' hc'
    split
    · exact ensures_ok.mpr (hgot nofun)
    · have hset := @CloseSound.update _ _ (hgot nofun) hc' { c' with remwindow := c'.remwindow + size }
        rfl rfl rfl rfl rfl rfl rfl rfl rfl
      exact CloseSound.of_outgoing hset.settled (trySendAndUnthrottle_closing hset.inv)
        trySendAndUnthrottle_outgoing
  | request wantReply success =>
    have hgot := hgot nofun
    show Ensures (receiveRequest _ wantReply success) _
    unfold receiveRequest
    refine Conn.ensures_get.bind ?_
    intro c' hc'
    refine Ssh2Channel.ensures_getChan.bind ?_
    intro chan _
    split
    · next hreply =>
      refine ensures_ok.mpr ?_
      have hnew := hgot.inv.closing c' hc'
      have hclose := hnew.not_close (Bool.not_eq_true _ ▸ hreply.2)
      have hmsg : ∀ m, m = (if success = true ∧ chan.vt = .mainchan then Msg.success else .failure) →
          CloseSound ((s.note (.got (.request wantReply success))).push m) := by
        intro m hm
        have hplain : Trace.isPlain (.sent m) ∧ ¬ m.isStream := by
          rw [hm]
          split
          · exact ⟨trivial, id⟩
          · exact ⟨trivial, id⟩
        refine ⟨⟨hgot.inv.inOrder.send hclose fun hstream => absurd hstream hplain.2, ?_, ?_⟩,
          hgot.settled.note nofun⟩
        · intro c'' hc''
          refine (hgot.inv.closing c'' hc'').note ?_
          intro x hx
          rw [List.mem_singleton.mp hx]
          exact hplain.1
        · exact fun hnone => (hgot.inv.gone hnone).note
      exact hmsg _ rfl
    · exact ensures_ok.mpr hgot
  | success => exact receiveResponse_closing (hgot nofun) hcalling
  | failure => exact receiveResponse_closing (hgot nofun) hcalling
  | eof =>
    have hgot := hgot nofun
    show Ensures (receiveEof _) _
    unfold receiveEof
    rw [Conn.get_note, Conn.get_eq hc, ok_bind]
    split
    · exact ensures_ok.mpr hgot
    · have hnew := hgot.inv.closing c hc
      refine callMethod_closing ⟨hgot.inv.set ?_, hgot.settled.set hc rfl (fun _ => rfl) id id
        fun hold => hold.congr rfl rfl id⟩ hcalling nofun
      refine ⟨hnew.sentClose, fun hclose => ⟨rfl, (hnew.rcvdClose hclose).2⟩, hnew.pendingEof, hnew.zombie,
        ?_, hnew.eof, hnew.close, hnew.got⟩
      intro hhalfopen'
      rw [show c.halfopen = true from hhalfopen'] at hhalfopen
      cases hhalfopen
  | close =>
    refine receiveClose_closing h hcalling ?_
    intro c' hc'
    cases hc.symm.trans hc'
    exact hhalfopen

theorem methodReturns_closing {rest : Rest} {bufsize : ℕ} (h : CloseSound s)
    (hcalling : s.calling = some rest) : Ensures (methodReturns s rest bufsize) CloseSound := by
  have hreturned : rest ≠ .close → CloseSound { s with calling := none } := by
    intro hrest
    refine ⟨⟨h.inv.inOrder, h.inv.closing, h.inv.gone⟩, h.settled.return ?_⟩
    rw [hcalling]
    exact fun heq => hrest (Option.some.inj heq)
  unfold methodReturns
  cases rest with
  | openConfirmation => exact openConfirmationRest_closing (hreturned nofun)
  | data => exact receiveDataRest_closing (hreturned nofun)
  | response => exact responseRest_closing (hreturned nofun) rfl
  | eof =>
    have h' := hreturned nofun
    exact CloseSound.of_outgoing h'.settled ((checkClose_closing h'.inv).mono fun s' hs' => hs'.1)
      checkClose_outgoing
  | close =>
    obtain ⟨hgot, hopen⟩ := h.settled.close hcalling
    have hinv : CloseInv { s with calling := none } := ⟨h.inv.inOrder, h.inv.closing, h.inv.gone⟩
    intro s' hs'
    obtain ⟨h', hwaiting, hrcvd⟩ := receiveCloseRest_closing hinv h.settled.waiting hgot
      (fun c hc => ⟨(hopen c hc).1, (hopen c hc).2.1⟩) s' hs'
    have hcalling' : s'.calling = none := receiveCloseRest_calling s' hs'
    have hreturned : ∀ c, s.channel = some c → Attached s.isMainchan none c := by
      intro c hc
      have hold := h.settled.attached c hc
      refine ⟨hold.shared, ?_, hold.fixed, hold.main⟩
      intro hshared
      obtain ⟨hmain, hreqs, -⟩ := hold.sharedIdle hshared
      exact ⟨hmain, hreqs, Or.inl rfl⟩
    refine ⟨h', hwaiting, ?_, fun _ => Or.inr hrcvd, fun hrunning => absurd hcalling' hrunning,
      receiveCloseRest_attached (s := { s with calling := none }) hreturned s' hs'⟩
    intro hclose
    rw [hcalling'] at hclose
    cases hclose

theorem chanreq_closing {type : String} {handler : Option Handler} (h : CloseSound s)
    (hfree : ∀ c, s.channel = some c → ∃ chan, c.chan = some chan ∧ chan.initialFixedWindowSize = 0) :
    Ensures (ssh2ChanreqInit s type handler) CloseSound := by
  refine chanreqInit_eq.mono ?_
  rintro s' ⟨c, hc, hsent, hrcvd, rfl⟩
  have hold := h.inv.closing c hc
  have hclose := hold.not_close hsent
  have hpushed : ∀ wantReply, CloseSound (s.push (.request type wantReply)) := by
    intro wantReply
    refine ⟨⟨h.inv.inOrder.send hclose fun hstream => absurd hstream id, ?_, ?_⟩, h.settled.note nofun⟩
    · intro c' hc'
      refine (h.inv.closing c' hc').note ?_
      intro x hx
      rw [List.mem_singleton.mp hx]
      trivial
    · exact fun hnone => (h.inv.gone hnone).note
  cases handler with
  | none => exact hpushed false
  | some handler =>
    have hnoted : CloseSound ((s.push (.request type true)).note (.asked handler)) :=
      ⟨(hpushed true).inv.note rfl, (hpushed true).settled.note nofun⟩
    have hnew := hnoted.inv.closing c hc
    have hnot : ¬ c.sentClose = true := by
      rw [hsent]
      exact nofun
    obtain ⟨chan, hchan, hfixed⟩ := hfree c hc
    refine ⟨hnoted.inv.set ?_, hnoted.settled.set hc rfl id id ?_ fun hold =>
      hold.request hchan hfixed rfl rfl⟩
    · exact ⟨fun hclose => absurd hclose hnot, hnew.rcvdClose, hnew.pendingEof, hnew.zombie,
        hnew.halfopen, hnew.eof, hnew.close, hnew.got⟩
    · intro _ hnil
      exact absurd hnil (List.append_ne_nil_of_right_ne_nil _ (List.cons_ne_nil _ _))

/-- EOF is written only to a channel that is not a zombie. -/
theorem Event.Calls.writeEof (h : e.Calls s .writeEof) (hc : s.channel = some c) {chan : Channel}
    (hchan : c.chan = some chan) : chan.vt ≠ .zombie := by
  have hne : ∀ {chan' : Channel}, s.chan = some chan' → chan.vt ≠ .zombie := by
    intro chan' hchan'
    obtain ⟨c', hc', hchan'', hvt⟩ := Conn.chan_eq_some.mp hchan'
    cases hc.symm.trans hc'
    cases hchan.symm.trans hchan''
    exact hvt
  cases h with
  | call hchan' _ => exact hne hchan'
  | terminalSize hchan' _ _ => exact hne hchan'
  | specialCmd hchan' _ _ => exact hne hchan'

/-- Channel requests are sent by the main channel. -/
theorem Event.Calls.chanreq {type : String} {wantReply : Bool} (h : e.Calls s (.chanreq type wantReply))
    (hattached : ∀ c, s.channel = some c → Attached s.isMainchan s.calling c)
    (hc : s.channel = some c) : s.isMainchan = true ∧
      ∃ chan, c.chan = some chan ∧ chan.vt ≠ .zombie ∧ chan.initialFixedWindowSize = 0 := by
  have hfree : ∀ {chan : Channel}, s.chan = some chan → s.isMainchan = true →
      ∃ chan, c.chan = some chan ∧ chan.vt ≠ .zombie ∧ chan.initialFixedWindowSize = 0 := by
    intro chan hchan hmain
    obtain ⟨c', hc', hchan', hvt⟩ := Conn.chan_eq_some.mp hchan
    cases hc.symm.trans hc'
    refine ⟨chan, hchan', hvt, ?_⟩
    by_contra hfixed
    have hnot := ((hattached c hc).fixed chan hchan' hfixed).1
    rw [hmain] at hnot
    cases hnot
  cases h with
  | @call k chan hchan hcan =>
    obtain ⟨c', hc', hchan', hvt⟩ := Conn.chan_eq_some.mp hchan
    cases hc.symm.trans hc'
    have hmain := (hattached c hc).main chan hchan' (of_decide_eq_true hcan)
    exact ⟨hmain, hfree hchan hmain⟩
  | terminalSize hchan hmain _ => exact ⟨hmain, hfree hchan hmain⟩
  | specialCmd hchan hmain _ => exact ⟨hmain, hfree hchan hmain⟩

theorem callStep_closing {k : Call} (h : CloseSound s) (hcalls : e.Calls s k) :
    Ensures (callStep s k) CloseSound := by
  cases k with
  | write isStderr data => exact .of_outgoing h.settled (write_closing h.inv) write_outgoing
  | writeEof =>
    refine .of_outgoing h.settled (writeEof_closing h.inv ?_) writeEof_outgoing
    intro c chan hc hchan
    exact hcalls.writeEof hc hchan
  | chanreq type wantReply =>
    refine chanreq_closing h ?_
    intro c hc
    obtain ⟨-, chan, hchan, -, hfixed⟩ := hcalls.chanreq h.settled.attached hc
    exact ⟨chan, hchan, hfixed⟩

theorem step_closing (h : CloseSound s) : Ensures (step s e) CloseSound := by
  apply step_rule (R := fun r => Ensures r CloseSound)
  case hsame => exact ensures_ok.mpr h
  case haborted =>
    exact ensures_ok.mpr ⟨⟨h.inv.inOrder, h.inv.closing, h.inv.gone⟩,
      ⟨h.settled.waiting, h.settled.close, h.settled.got, h.settled.alive,
      h.settled.attached⟩⟩
  case hserver =>
    intro m c _ hcalling hc _ hhalfopen
    exact receive_closing h hcalling hc hhalfopen
  case hreturns =>
    intro bufsize rest _ hcalling
    exact methodReturns_closing h hcalling
  case hcall =>
    intro k hcalls
    exact callStep_closing h hcalls
  case hclose =>
    intro chan _ hchan _ s' hs'
    obtain ⟨c, chan', hc, hchan', hout⟩ := initiateClose_outgoing s' hs'
    refine ⟨initiateClose_closing h.inv s' hs', Settled.outgoing ?_ hout⟩
    refine h.settled.set hc rfl id id id fun hold => ?_
    rcases hchan' with rfl | rfl
    · exact hold.congr rfl rfl id
    · obtain ⟨c', hc', hchan', -⟩ := Conn.chan_eq_some.mp hchan
      cases hc.symm.trans hc'
      refine ⟨?_, hold.sharedIdle, ?_, ?_⟩
      · rw [← hold.shared, hchan']
        exact ⟨nofun, nofun⟩
      · intro chan'' hchan'' hfixed
        cases hchan''
        exact absurd rfl hfixed
      · intro chan'' hchan'' hvt
        cases hchan''
        cases hvt
  case hunthrottle =>
    intro bufsize c _ _ _
    exact unthrottle_closing h
  case hoverride =>
    intro c chan _ hc hchan _ _ _
    have hold := h.inv.closing c hc
    have hattached := h.settled.attached c hc
    unfold ssh2channelWindowOverrideRemoved
    refine Conn.ensures_get.bind ?_
    intro c' hc'
    refine Ssh2Channel.ensures_getChan.bind ?_
    intro chan' _
    split
    · exact ensures_error.mpr trivial
    · refine setWindow_closing ⟨h.inv.set (hold.congr rfl rfl rfl rfl rfl rfl id ?_), ?_⟩
      · intro chan'' hchan'' hvt
        cases hchan''
        exact ⟨chan, hchan, hvt⟩
      · refine h.settled.set hc rfl id id id fun _ => ⟨?_, hattached.sharedIdle, ?_, ?_⟩
        · rw [← hattached.shared, hchan]
          exact ⟨nofun, nofun⟩
        · intro chan'' hchan'' hfixed
          cases hchan''
          exact absurd rfl hfixed
        · intro chan'' hchan'' hvt
          cases hchan''
          exact hattached.main chan hchan hvt
  case hhandover =>
    intro shareCs c chan _ hc hchan _ hfixed hcalling
    have hold := h.inv.closing c hc
    have hidle := (h.settled.attached c hc).fixed chan hchan hfixed
    unfold ssh2channelX11SharingHandover
    rw [Conn.get_eq hc, ok_bind]
    refine ensures_ok.mpr ⟨h.inv.set (hold.congr rfl rfl rfl rfl rfl rfl id nofun), ?_⟩
    exact h.settled.set hc rfl id id id fun _ => ⟨⟨fun _ => rfl, fun _ => rfl⟩, fun _ =>
      ⟨hidle.1, hidle.2, Or.inr hcalling⟩, nofun, nofun⟩
  case hdelete =>
    intro c _ hc _ hcalling
    refine destroy_eq.mono ?_
    rintro s' ⟨rfl, -⟩
    have hinv : CloseInv (s.note .deleted) := h.inv.note rfl
    refine ⟨⟨hinv.inOrder, fun _ hc => (nomatch hc), fun _ => Or.inr (Or.inr
      (List.mem_append_right _ (List.mem_singleton.mpr rfl)))⟩, fun _ hc => (nomatch hc), fun hclose => ?_,
      fun _ => Or.inr fun _ hc => (nomatch hc), fun hrunning => absurd hcalling hrunning,
      fun _ hc => (nomatch hc)⟩
    rw [show s.calling = some .close from hclose] at hcalling
    cases hcalling
  case hthrottle =>
    intro throttled _
    have h' : CloseSound { s with allChannelsThrottled := throttled } :=
      ⟨⟨h.inv.inOrder, h.inv.closing, h.inv.gone⟩,
        ⟨h.settled.waiting, h.settled.close, h.settled.got, h.settled.alive,
      h.settled.attached⟩⟩
    refine ⟨ensures_ok.mpr h', ?_⟩
    intro c _ _
    exact .of_outgoing h'.settled (checkThrottle_closing h'.inv) checkThrottle_outgoing
  case hdangling =>
    intro _
    exact ensures_error.mpr trivial

theorem Begins.closing {s : Conn} (h : Begins s) : CloseSound s := by
  cases h with
  | «open» hvt hfixed =>
    refine ⟨⟨List.Pairwise.nil, ?_, nofun⟩, ?_, nofun, nofun, nofun, ?_⟩
    · intro c hc
      cases hc
      exact ⟨nofun, nofun, nofun, fun _ _ _ => rfl, fun _ => ⟨rfl, rfl⟩, nofun, ⟨nofun, nofun⟩, nofun⟩
    · intro c hc hclose
      cases hc
      cases hclose
    · intro c hc
      cases hc
      refine ⟨⟨nofun, nofun⟩, nofun, ?_, ?_⟩
      · intro chan hchan hne
        cases hchan
        exact absurd hfixed hne
      · intro chan hchan hvt'
        cases hchan
        exact decide_eq_true hvt'
  | opened hvt hfixed =>
    refine ⟨⟨List.Pairwise.nil, ?_, nofun⟩, ?_, nofun, ?_, nofun, ?_⟩
    · intro c hc
      cases hc
      refine ⟨nofun, nofun, nofun, fun _ _ _ => rfl, nofun, ?_, ⟨?_, nofun⟩, nofun⟩
      · intro hmem
        cases List.mem_singleton.mp hmem
      · intro hmem
        cases List.mem_singleton.mp hmem
    · intro c hc hclose
      cases hc
      cases hclose
    · intro hmem
      cases List.mem_singleton.mp hmem
    · intro c hc
      cases hc
      refine ⟨⟨nofun, nofun⟩, nofun, fun _ _ _ => ⟨rfl, rfl⟩, ?_⟩
      intro chan hchan hvt'
      cases hchan
      rw [hvt] at hvt'
      cases hvt'

theorem run_closing {events : List Event} (h : CloseSound s) : Ensures (run s events) CloseSound :=
  Ensures.foldlM (fun _ _ _ h => step_closing h) h

end PuttyNd.Ssh2
