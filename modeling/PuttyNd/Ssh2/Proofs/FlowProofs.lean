import PuttyNd.Ssh2.Proofs.ConnectionProofs
import Mathlib.Algebra.BigOperators.Group.List.Basic
import Mathlib.Algebra.GroupWithZero.Nat

/-!
# Proofs: outgoing data and the remote window

What was written is what was sent and what is still in the buffers, as long as EOF was not sent. Nearly all steps leave
the data alone; the others are those that send some, or learn of a window.
-/

namespace PuttyNd.Ssh2

open Psftp CInt Outcome Runs

/-! ## The data in a trace -/

/-- What is written to one of the two streams of a channel -/
def Trace.written (isStderr : Bool) : Trace → List UInt8
  | .wrote isStderr' data => if isStderr' = isStderr then data else []
  | _ => []

/-- What is sent of a stream -/
def Trace.carried (isStderr : Bool) : Trace → List UInt8
  | .sent (.data data) => if isStderr then [] else data
  | .sent (.extendedData data) => if isStderr then data else []
  | _ => []

/-- By how much the server lets us send more -/
def Trace.granted : Trace → ℕ
  | .opened remwindow _ => remwindow.toNat
  | .got (.windowAdjust size) => size.toNat
  | _ => 0

def written (isStderr : Bool) (trace : List Trace) : List UInt8 := trace.flatMap (Trace.written isStderr)

def carried (isStderr : Bool) (trace : List Trace) : List UInt8 := trace.flatMap (Trace.carried isStderr)

def granted (trace : List Trace) : ℕ := (trace.map Trace.granted).sum

/-- How much was sent of both streams -/
def carriedSize (trace : List Trace) : ℕ := (carried false trace).length + (carried true trace).length

/-- A packet holds no more data than the server allows when the channel is opened. -/
def Sized (trace : List Trace) : Prop :=
  ∀ data, .sent (.data data) ∈ trace ∨ .sent (.extendedData data) ∈ trace →
    ∃ remwindow remmaxpkt, .opened remwindow remmaxpkt ∈ trace ∧ data.length ≤ remmaxpkt.toNat

/-- Since the channel was opened, nothing was written, and the window was not made larger. -/
def Fresh (trace : List Trace) : Prop :=
  ∃ before remwindow remmaxpkt after, trace = before ++ .opened remwindow remmaxpkt :: after ∧
    ∀ x ∈ after, x.written false = [] ∧ x.written true = [] ∧ x.granted = 0

def Ssh2Channel.buffer (c : Ssh2Channel) (isStderr : Bool) : Bufchain :=
  if isStderr then c.errbuffer else c.outbuffer

/-- Nothing waits that could be sent. -/
def Drained (c : Ssh2Channel) : Prop := c.remwindow = 0 ∨ c.backlog = 0

/-- What holds of a channel -/
structure Flow (trace : List Trace) (c : Ssh2Channel) : Prop where
  stream : c.sentEof = false → ∀ b, carried b trace ++ (c.buffer b).contents = written b trace
  window : carriedSize trace + c.remwindow.toNat ≤ granted trace
  limit : c.halfopen = false → ∃ remwindow remmaxpkt, .opened remwindow remmaxpkt ∈ trace ∧
    c.remmaxpkt.toNat ≤ remmaxpkt.toNat

structure FlowInv (s : Conn) : Prop where
  stream : ∀ b, carried b s.trace <+: written b s.trace
  window : carriedSize s.trace ≤ granted s.trace
  sized : Sized s.trace
  eof : .sent .eof ∈ s.trace → .got .close ∈ s.trace ∨ ∀ b, carried b s.trace = written b s.trace
  channel : ∀ c, s.channel = some c → Flow s.trace c

/-- Data waits only where there is no window for it, or where it was written before the channel was opened. -/
def Prompt (s : Conn) : Prop :=
  ∀ c, s.channel = some c → c.halfopen = false → c.sentEof = false → Drained c ∨ Fresh s.trace

variable {s s' s'' : Conn} {c c' : Ssh2Channel} {trace t : List Trace} {e : Event} {b : Bool}

theorem written_append : written b (trace ++ t) = written b trace ++ written b t := List.flatMap_append

theorem carried_append : carried b (trace ++ t) = carried b trace ++ carried b t := List.flatMap_append

theorem granted_append : granted (trace ++ t) = granted trace + granted t := by
  unfold granted
  rw [List.map_append, List.sum_append]

/-! ## Steps that leave the data alone -/

/-- A note that says nothing of data and EOF -/
def Trace.isQuiet : Trace → Prop
  | .sent (.data _) => False
  | .sent (.extendedData _) => False
  | .sent .eof => False
  | .wrote _ _ => False
  | _ => True

/-- It says nothing of windows either. -/
def Trace.isNeutral (x : Trace) : Prop := x.isQuiet ∧ x.granted = 0

/-- A note of anything but data that is sent -/
def Trace.isUnsent : Trace → Prop
  | .sent (.data _) => False
  | .sent (.extendedData _) => False
  | _ => True

theorem Trace.isQuiet.unsent {x : Trace} (h : x.isQuiet) : x.isUnsent := by
  unfold isUnsent
  split
  · exact h.elim
  · exact h.elim
  · trivial

theorem Trace.isQuiet.written {x : Trace} (h : x.isQuiet) (b : Bool) : x.written b = [] := by
  unfold Trace.written
  split
  · exact h.elim
  · rfl

theorem written_quiet (ht : ∀ x ∈ t, x.isQuiet) : written b (trace ++ t) = written b trace := by
  have hnil : written b t = [] := List.flatMap_eq_nil_iff.mpr fun x hx => (ht x hx).written b
  rw [written_append, hnil, List.append_nil]

theorem carried_unsent (ht : ∀ x ∈ t, x.isUnsent) : carried b (trace ++ t) = carried b trace := by
  have hnil : carried b t = [] := by
    refine List.flatMap_eq_nil_iff.mpr fun x hx => ?_
    unfold Trace.carried
    split
    · exact (ht _ hx).elim
    · exact (ht _ hx).elim
    · rfl
  rw [carried_append, hnil, List.append_nil]

theorem carriedSize_unsent (ht : ∀ x ∈ t, x.isUnsent) : carriedSize (trace ++ t) = carriedSize trace := by
  unfold carriedSize
  rw [carried_unsent ht, carried_unsent ht]

/-- The data of the channel stays the same, and its EOF is not unsent. -/
structure SameData (c c' : Ssh2Channel) : Prop where
  sentEof : c'.sentEof = false → c.sentEof = false
  outbuffer : c'.outbuffer = c.outbuffer
  errbuffer : c'.errbuffer = c.errbuffer
  remwindow : c'.remwindow = c.remwindow
  remmaxpkt : c'.remmaxpkt = c.remmaxpkt
  halfopen : c'.halfopen = c.halfopen

theorem SameData.refl : SameData c c := ⟨id, rfl, rfl, rfl, rfl, rfl⟩

theorem SameData.trans {c'' : Ssh2Channel} (h : SameData c c') (h' : SameData c' c'') : SameData c c'' :=
  ⟨fun heof => h.sentEof (h'.sentEof heof), h'.outbuffer.trans h.outbuffer, h'.errbuffer.trans h.errbuffer,
    h'.remwindow.trans h.remwindow, h'.remmaxpkt.trans h.remmaxpkt, h'.halfopen.trans h.halfopen⟩

structure Neutral (s s' : Conn) : Prop where
  trace : ∃ t, s'.trace = s.trace ++ t ∧ ∀ x ∈ t, x.isNeutral
  channel : ∀ c', s'.channel = some c' → ∃ c, s.channel = some c ∧ SameData c c'

namespace Neutral

theorem refl : Neutral s s :=
  ⟨⟨[], (List.append_nil _).symm, fun _ h => (nomatch h)⟩, fun c hc => ⟨c, hc, .refl⟩⟩

theorem trans (h : Neutral s s') (h' : Neutral s' s'') : Neutral s s'' := by
  obtain ⟨t, ht, hneutral⟩ := h.trace
  obtain ⟨t', ht', hneutral'⟩ := h'.trace
  refine ⟨⟨t ++ t', by rw [ht', ht, List.append_assoc], fun x hx => ?_⟩, fun c'' hc'' => ?_⟩
  · rcases List.mem_append.mp hx with hx | hx
    · exact hneutral x hx
    · exact hneutral' x hx
  · obtain ⟨c', hc', hsame'⟩ := h'.channel c'' hc''
    obtain ⟨c, hc, hsame⟩ := h.channel c' hc'
    exact ⟨c, hc, hsame.trans hsame'⟩

/-- Only what is not part of the channel changes. -/
theorem of_eq (htrace : s'.trace = s.trace) (hchannel : s'.channel = s.channel) : Neutral s s' :=
  ⟨⟨[], htrace.trans (List.append_nil _).symm, fun _ h => (nomatch h)⟩, fun c hc => ⟨c, hchannel ▸ hc, .refl⟩⟩

theorem set (hc : s.channel = some c) (h : SameData c c') : Neutral s (s.set c') :=
  ⟨⟨[], (List.append_nil _).symm, fun _ h => (nomatch h)⟩, fun _ hc' => ⟨c, hc, Option.some.inj hc' ▸ h⟩⟩

/-- What comes after the channel has changed -/
theorem after_set (hc : s.channel = some c) (h : Neutral (s.set c') s') (hsame : SameData c c') : Neutral s s' :=
  (set hc hsame).trans h

theorem note {x : Trace} (hx : x.isNeutral) : Neutral s (s.note x) :=
  ⟨⟨[x], rfl, fun _ hy => List.mem_singleton.mp hy ▸ hx⟩, fun c hc => ⟨c, hc, .refl⟩⟩

/-- The channel is freed. -/
theorem free (htrace : s'.trace = s.trace) (hchannel : s'.channel = none) : Neutral s s' :=
  ⟨⟨[], htrace.trans (List.append_nil _).symm, fun _ h => (nomatch h)⟩, fun c hc => by
    rw [hchannel] at hc
    exact (nomatch hc)⟩

end Neutral

/-- No data is sent, and the window grows by no more than the server lets us send. -/
theorem Flow.unsent (h : Flow trace c) (ht : ∀ x ∈ t, x.isUnsent)
    (hstream : c'.sentEof = false → ∀ b, carried b trace ++ (c'.buffer b).contents = written b (trace ++ t))
    (hwindow : c'.remwindow.toNat ≤ c.remwindow.toNat + granted t) (hmax : c'.remmaxpkt = c.remmaxpkt)
    (hhalfopen : c'.halfopen = c.halfopen) : Flow (trace ++ t) c' := by
  refine ⟨fun heof b => ?_, ?_, fun hopen => ?_⟩
  · rw [carried_unsent ht]
    exact hstream heof b
  · have hbound := h.window
    rw [carriedSize_unsent ht, granted_append]
    omega
  · obtain ⟨remwindow, remmaxpkt, hmem, hle⟩ := h.limit (hhalfopen ▸ hopen)
    exact ⟨remwindow, remmaxpkt, List.mem_append_left _ hmem, hmax ▸ hle⟩

theorem Flow.quiet (h : Flow trace c) (ht : ∀ x ∈ t, x.isQuiet) (hsame : SameData c c') :
    Flow (trace ++ t) c' := by
  refine h.unsent (fun x hx => (ht x hx).unsent) (fun heof b => ?_) ?_ hsame.remmaxpkt hsame.halfopen
  · have hbuffer : c'.buffer b = c.buffer b := by
      rw [Ssh2Channel.buffer, hsame.outbuffer, hsame.errbuffer]
      rfl
    rw [written_quiet ht, hbuffer]
    exact h.stream (hsame.sentEof heof) b
  · rw [hsame.remwindow]
    exact Nat.le_add_right _ _

/-- No data is sent. -/
theorem FlowInv.unsent (h : FlowInv s) (htrace : s'.trace = s.trace ++ t) (ht : ∀ x ∈ t, x.isUnsent)
    (heof : .sent .eof ∈ s.trace ++ t → .got .close ∈ s.trace ∨ ∀ b, carried b s.trace = written b (s.trace ++ t))
    (hchannel : ∀ c', s'.channel = some c' → Flow s'.trace c') : FlowInv s' := by
  have hsent : ∀ x, x ∈ s.trace ++ t → ¬ x.isUnsent → x ∈ s.trace := fun x hx hnot =>
    (List.mem_append.mp hx).resolve_right fun hx => hnot (ht x hx)
  refine ⟨fun b => ?_, ?_, fun data hdata => ?_, fun hmem => ?_, hchannel⟩
  · rw [htrace, carried_unsent ht, written_append]
    exact (h.stream b).trans (List.prefix_append _ _)
  · rw [htrace, carriedSize_unsent ht, granted_append]
    exact h.window.trans (Nat.le_add_right _ _)
  · rw [htrace] at hdata ⊢
    obtain ⟨remwindow, remmaxpkt, hopened, hle⟩ := h.sized data (hdata.imp (hsent _ · id) (hsent _ · id))
    exact ⟨remwindow, remmaxpkt, List.mem_append_left _ hopened, hle⟩
  · rw [htrace] at hmem ⊢
    refine (heof hmem).imp (List.mem_append_left _) fun hall b => ?_
    rw [carried_unsent ht]
    exact hall b

/-- Nothing of data and EOF is noted. -/
theorem FlowInv.quiet (h : FlowInv s) (htrace : s'.trace = s.trace ++ t) (ht : ∀ x ∈ t, x.isQuiet)
    (hchannel : ∀ c', s'.channel = some c' → Flow s'.trace c') : FlowInv s' := by
  refine h.unsent htrace (fun x hx => (ht x hx).unsent) (fun heof => ?_) hchannel
  rcases List.mem_append.mp heof with heof | heof
  · refine (h.eof heof).imp_right fun hall b => ?_
    rw [written_quiet ht]
    exact hall b
  · exact (ht _ heof).elim

theorem FlowInv.neutral (h : FlowInv s) (hs : Neutral s s') : FlowInv s' := by
  obtain ⟨t, ht, hneutral⟩ := hs.trace
  refine h.quiet ht (fun x hx => (hneutral x hx).1) fun c' hc' => ?_
  obtain ⟨c, hc, hdata⟩ := hs.channel c' hc'
  rw [ht]
  exact (h.channel c hc).quiet (fun x hx => (hneutral x hx).1) hdata

theorem Prompt.neutral (h : Prompt s) (hs : Neutral s s') : Prompt s' := by
  intro c' hc' hopen heof
  obtain ⟨c, hc, hsame⟩ := hs.channel c' hc'
  obtain ⟨t, ht, hneutral⟩ := hs.trace
  rcases h c hc (hsame.halfopen ▸ hopen) (hsame.sentEof heof) with hdrained | hfresh
  · left
    unfold Drained Ssh2Channel.backlog at hdrained ⊢
    rw [hsame.remwindow, hsame.outbuffer, hsame.errbuffer]
    exact hdrained
  · right
    obtain ⟨before, remwindow, remmaxpkt, after, heq, hafter⟩ := hfresh
    refine ⟨before, remwindow, remmaxpkt, after ++ t, ?_, fun x hx => ?_⟩
    · rw [ht, heq, List.append_assoc]
      rfl
    · rcases List.mem_append.mp hx with hx | hx
      · exact hafter x hx
      · have hx' := hneutral x hx
        exact ⟨hx'.1.written false, hx'.1.written true, hx'.2⟩

/-! ## Windows that are set, and connections that are throttled -/

/-- What is kept when a window is set and the connection is throttled -/
structure WindowRule (P : Conn → Prop) : Prop where
  window : ∀ {s s'}, P s → Windowing s s' → P s'
  grow : ∀ {s c}, P s → s.channel = some c → P (s.set (growWindow c))
  throttling : ∀ {s c throttlingConn}, P s → s.channel = some c → P (s.set { c with throttlingConn })
  throttle : ∀ {s adjust}, P s → Ensures (sshThrottleConn s adjust) P

namespace WindowRule

variable {P : Conn → Prop} {bufsize : ℕ}

theorem setWindow (hP : WindowRule P) (h : P s) {p : Prop} [Decidable p] {newwin : ℤ} :
    Ensures (if p then ssh2SetWindow s newwin else .ok s) P := by
  split
  · exact setWindow_windowing.mono fun s' hs' => hP.window h hs'
  · exact ensures_ok.mpr h

theorem unthrottle (hP : WindowRule P) (h : P s) : Ensures (ssh2channelUnthrottle s bufsize) P := by
  unfold ssh2channelUnthrottle
  refine Conn.ensures_get.bind ?_
  intro c _
  dsimp only
  generalize (if s.cfg.sshIsSimple = true then 0 else c.locmaxwin) = buflimit
  refine (hP.setWindow h).bind ?_
  intro s1 h1
  refine Conn.ensures_get.bind ?_
  intro c1 hc1
  split
  · exact hP.throttle (hP.throttling h1 hc1)
  · exact ensures_ok.mpr h1

theorem receiveDataRest (hP : WindowRule P) (h : P s) : Ensures (receiveDataRest s bufsize) P := by
  unfold Ssh2.receiveDataRest
  refine Conn.ensures_get.bind ?_
  intro c hc
  split
  · exact ensures_ok.mpr h
  · refine (hP.setWindow (hP.grow h hc)).bind ?_
    intro s1 h1
    unfold throttleIfFull
    refine Conn.ensures_get.bind ?_
    intro c1 hc1
    split
    · exact hP.throttle (hP.throttling h1 hc1)
    · exact ensures_ok.mpr h1

theorem overrideRemoved (hP : WindowRule P) (h : P s) : Ensures (ssh2channelWindowOverrideRemoved s) P := by
  unfold ssh2channelWindowOverrideRemoved
  refine Conn.ensures_get.bind ?_
  intro c _
  refine Ssh2Channel.ensures_getChan.bind ?_
  intro chan _
  split
  · exact ensures_error.mpr trivial
  · exact setWindow_windowing.mono fun s' hs' => hP.window h hs'

end WindowRule

/-! ## Which steps do -/

theorem Windowing.neutral (h : Windowing s s') : Neutral s s' := by
  rcases h.changes with rfl | ⟨c, c', t, hc, hc', heq, ht, hwindowing, -⟩
  · exact .refl
  · refine ⟨⟨t, ht, fun x hx => ?_⟩, fun c'' hc'' => ?_⟩
    · have hx' := hwindowing x hx
      unfold Trace.isWindowing at hx'
      split at hx'
      · trivial
      · trivial
      · trivial
      · cases hx'
    · cases hc'.symm.trans hc''
      rw [heq]
      exact ⟨c, hc, id, rfl, rfl, rfl, rfl, rfl⟩

theorem throttleConn_neutral {adjust : ℤ} : Ensures (sshThrottleConn s adjust) (Neutral s) := by
  refine throttleConn_eq.mono ?_
  rintro s' ⟨frozen, rfl⟩
  exact .of_eq rfl rfl

theorem callMethod_neutral {rest : Rest} : Ensures (callMethod s rest) (Neutral s) := by
  refine callMethod_eq.mono ?_
  rintro s' ⟨-, rfl⟩
  exact .of_eq rfl rfl

theorem checkClose_neutral : Ensures (ssh2ChannelCheckClose s) (Neutral s) := by
  unfold ssh2ChannelCheckClose
  refine Conn.ensures_get.bind ?_
  intro c hc
  split
  · exact ensures_ok.mpr .refl
  · refine Ssh2Channel.ensures_getChan.bind ?_
    intro chan _
    have hsend : Neutral s (if chanWantClose chan c.sentEof c.rcvdEof = true ∧ c.chanreqs = [] ∧
        ¬ c.sentClose = true then sendClose s c else s) := by
      split
      · exact (Neutral.note (x := .sent .close) ⟨trivial, rfl⟩).trans (.set hc ⟨nofun, rfl, rfl, rfl, rfl, rfl⟩)
      · exact .refl
    refine Conn.ensures_get.bind ?_
    intro c1 _
    split
    · split
      · exact ensures_error.mpr trivial
      · refine destroy_eq.mono ?_
        rintro s' ⟨rfl, -⟩
        exact hsend.trans (.free rfl rfl)
    · exact ensures_ok.mpr hsend

theorem checkThrottle_neutral : Ensures (ssh2ChannelCheckThrottle s) (Neutral s) := by
  unfold ssh2ChannelCheckThrottle
  refine Conn.ensures_get.bind ?_
  intro c hc
  refine Ssh2Channel.ensures_getChan.bind ?_
  intro chan _
  exact ensures_ok.mpr (.set hc ⟨id, rfl, rfl, rfl, rfl, rfl⟩)

theorem chanreqInit_neutral {type : String} {handler : Option Handler} :
    Ensures (ssh2ChanreqInit s type handler) (Neutral s) := by
  refine chanreqInit_eq.mono ?_
  rintro s' ⟨c, hc, -, -, rfl⟩
  cases handler with
  | none => exact .note ⟨trivial, rfl⟩
  | some handler =>
    have hpushed : Neutral s (s.push (.request type true)) := .note ⟨trivial, rfl⟩
    exact (hpushed.trans (.note (x := .asked handler) ⟨trivial, rfl⟩)).trans (.set hc ⟨id, rfl, rfl, rfl, rfl, rfl⟩)

theorem responseRest_neutral : Ensures (responseRest s) (Neutral s) := by
  unfold responseRest
  refine Conn.ensures_get.bind ?_
  intro c hc
  exact checkClose_neutral.mono fun s' hs' => Neutral.after_set hc hs' ⟨id, rfl, rfl, rfl, rfl, rfl⟩

theorem initiateClose_neutral : Ensures (ssh2channelInitiateClose s) (Neutral s) := by
  unfold ssh2channelInitiateClose ssh2ChannelCloseLocal
  rw [bind_assoc]
  refine Conn.ensures_get.bind ?_
  intro c hc
  split
  · rw [pure_bind, Conn.get_eq hc, ok_bind]
    exact checkClose_neutral.mono fun s' hs' => Neutral.after_set hc hs' ⟨id, rfl, rfl, rfl, rfl, rfl⟩
  · rw [bind_assoc]
    refine Ssh2Channel.ensures_getChan.bind ?_
    intro chan _
    have hclosed := checkClose_neutral (s := s.set { c with chan := some zombiechanNew, pendingEof := false })
    exact fun s' hs' => Neutral.after_set hc (hclosed s' hs') ⟨id, rfl, rfl, rfl, rfl, rfl⟩

theorem growWindow_same : SameData c (growWindow c) := by
  unfold growWindow
  split
  · exact ⟨id, rfl, rfl, rfl, rfl, rfl⟩
  · exact .refl

theorem neutral_windowRule : WindowRule (Neutral s) where
  window h hwin := h.trans hwin.neutral
  grow h hc := h.trans (.set hc growWindow_same)
  throttling h hc := h.trans (.set hc ⟨id, rfl, rfl, rfl, rfl, rfl⟩)
  throttle h := throttleConn_neutral.mono fun _ h' => h.trans h'

theorem receiveResponse_neutral {success : Bool} : Ensures (receiveResponse s success) (Neutral s) := by
  unfold receiveResponse
  refine Conn.ensures_get.bind ?_
  intro c hc
  split
  · exact ensures_ok.mpr (.of_eq rfl rfl)
  · next handler rest _ =>
    unfold handleResponse
    have hnoted : Neutral s (s.note (.handled handler (some success))) := .note ⟨trivial, rfl⟩
    cases handler with
    | winadj size =>
      exact responseRest_neutral.mono fun s' hs' =>
        hnoted.trans (.after_set hc hs' ⟨id, rfl, rfl, rfl, rfl, rfl⟩)
    | response =>
      refine Ssh2Channel.ensures_getChan.bind ?_
      intro chan _
      split
      · exact callMethod_neutral.mono fun s' hs' => hnoted.trans hs'
      · exact ensures_error.mpr trivial

theorem abandonRequests_neutral {hs : List Handler} : Ensures (abandonRequests hs s) (Neutral s) := by
  induction hs generalizing s with
  | nil => exact ensures_ok.mpr .refl
  | cons handler hs ih =>
    unfold abandonRequests
    refine Conn.ensures_get.bind ?_
    intro c hc
    cases handler with
    | winadj size =>
      have hnoted : Neutral s (s.note (.handled (.winadj size) none)) := .note ⟨trivial, rfl⟩
      exact ih.mono fun s' hs' => hnoted.trans (.after_set hc hs' ⟨id, rfl, rfl, rfl, rfl, rfl⟩)
    | response => exact ensures_error.mpr trivial

/-! ## Sending -/

/-- What holds of the data between the steps -/
structure FlowSound (s : Conn) : Prop where
  inv : FlowInv s
  prompt : Prompt s

theorem FlowSound.neutral (h : FlowSound s) (hs : Neutral s s') : FlowSound s' :=
  ⟨h.inv.neutral hs, h.prompt.neutral hs⟩

theorem FlowSound.ensures {r : Except Fault Conn} (h : FlowSound s) (hr : Ensures r (Neutral s)) :
    Ensures r FlowSound :=
  hr.mono fun _ hs' => h.neutral hs'

/-- A packet with data of one of the streams -/
def Msg.ofStream (isStderr : Bool) (data : List UInt8) : Msg := if isStderr then .extendedData data else .data data

theorem carried_ofStream {isStderr : Bool} {data : List UInt8} :
    carried b [.sent (Msg.ofStream isStderr data)] = if b = isStderr then data else [] := by
  cases b <;> cases isStderr <;> simp [carried, Msg.ofStream, Trace.carried]

theorem written_ofStream {isStderr : Bool} {data : List UInt8} :
    written b [.sent (Msg.ofStream isStderr data)] = [] := by
  cases isStderr <;> rfl

theorem granted_ofStream {isStderr : Bool} {data : List UInt8} :
    granted [.sent (Msg.ofStream isStderr data)] = 0 := by
  cases isStderr <;> rfl

theorem ofStream_data {isStderr : Bool} {data data' : List UInt8}
    (h : Msg.data data' = .ofStream isStderr data ∨ Msg.extendedData data' = .ofStream isStderr data) :
    data' = data := by
  unfold Msg.ofStream at h
  split at h
  · exact h.elim nofun Msg.extendedData.inj
  · exact h.elim Msg.data.inj nofun

theorem ofStream_ne_eof {isStderr : Bool} {data : List UInt8} : Msg.ofStream isStderr data ≠ .eof := by
  unfold Msg.ofStream
  split
  · exact nofun
  · exact nofun

/-- Part of the data at the front of a buffer is taken out. -/
theorem contents_take {ch : Bufchain} {n m : ℕ} :
    ch.contents = (ch.front.take n).take m ++ (ch.consume ((ch.front.take n).take m).length).contents := by
  have hprefix : (ch.front.take n).take m <+: ch.contents :=
    (List.take_prefix _ _).trans ((List.take_prefix _ _).trans Bufchain.front_prefix)
  rw [Bufchain.contents_consume]
  exact (List.prefix_append_drop hprefix)

/-- A packet fits into the window, which becomes smaller by as much. -/
theorem remwindow_sub {remwindow : UInt32} {n : ℕ} (h : n ≤ remwindow.toNat) :
    (remwindow - UInt32.ofNat n).toNat + n = remwindow.toNat := by
  have hn : (UInt32.ofNat n).toNat = n := UInt32.toNat_ofNat_of_lt' (h.trans_lt remwindow.toNat_lt)
  have hle : UInt32.ofNat n ≤ remwindow := UInt32.le_iff_toNat_le.mpr (hn.trans_le h)
  rw [UInt32.toNat_sub_of_le _ _ hle, hn]
  omega

/-- What is sent in a round is taken out of one of the buffers. -/
theorem nextData_round (c : Ssh2Channel) : ∃ isStderr data, (nextData c).1 = .ofStream isStderr data ∧
    (∀ b, (c.buffer b).contents = (if b = isStderr then data else []) ++ ((nextData c).2.buffer b).contents) ∧
    data.length ≤ c.remmaxpkt.toNat ∧ (nextData c).2.remwindow.toNat + data.length = c.remwindow.toNat ∧
    (nextData c).2.remmaxpkt = c.remmaxpkt ∧ (nextData c).2.halfopen = c.halfopen ∧
    (nextData c).2.sentEof = c.sentEof := by
  have hlength : ∀ data : List UInt8, ((data.take c.remwindow.toNat).take c.remmaxpkt.toNat).length ≤
      c.remmaxpkt.toNat ∧ ((data.take c.remwindow.toNat).take c.remmaxpkt.toNat).length ≤ c.remwindow.toNat := by
    intro data
    rw [List.length_take, List.length_take]
    omega
  unfold nextData
  split
  · refine ⟨true, _, rfl, ?_, (hlength _).1, remwindow_sub (hlength _).2, rfl, rfl, rfl⟩
    intro b
    cases b with
    | false => rfl
    | true => exact contents_take
  · refine ⟨false, _, rfl, ?_, (hlength _).1, remwindow_sub (hlength _).2, rfl, rfl, rfl⟩
    intro b
    cases b with
    | false => exact contents_take
    | true => rfl

/-- A round of the loop that sends data -/
theorem FlowInv.sendData (h : FlowInv s) (hc : s.channel = some c) (heof : c.sentEof = false)
    (hhalfopen : c.halfopen = false) (hnot : .sent .eof ∉ s.trace) :
    FlowInv ((s.push (nextData c).1).set (nextData c).2) := by
  obtain ⟨isStderr, data, hmsg, hbuffer, hmax, hwindow, hsameMax, hsameHalf, -⟩ := nextData_round c
  have hold := h.channel c hc
  obtain ⟨remwindow, remmaxpkt, hopened, hle⟩ := hold.limit hhalfopen
  have htrace : ((s.push (nextData c).1).set (nextData c).2).trace = s.trace ++ [.sent (.ofStream isStderr data)] := by
    rw [← hmsg]
    rfl
  have hstream : ∀ b, carried b (s.trace ++ [.sent (.ofStream isStderr data)]) ++
      ((nextData c).2.buffer b).contents = written b s.trace := by
    intro b
    rw [carried_append, carried_ofStream, List.append_assoc, ← hbuffer b]
    exact hold.stream heof b
  have hsize : carriedSize (s.trace ++ [.sent (.ofStream isStderr data)]) = carriedSize s.trace + data.length := by
    unfold carriedSize
    rw [carried_append, carried_append, carried_ofStream, carried_ofStream, List.length_append, List.length_append]
    cases isStderr
    · simp
      omega
    · simp
      omega
  have hwritten : ∀ b, written b (s.trace ++ [.sent (.ofStream isStderr data)]) = written b s.trace := by
    intro b
    rw [written_append, written_ofStream, List.append_nil]
  have hgranted : granted (s.trace ++ [.sent (.ofStream isStderr data)]) = granted s.trace := by
    rw [granted_append, granted_ofStream, Nat.add_zero]
  have hbound := hold.window
  refine ⟨fun b => ?_, ?_, fun data' hdata => ?_, fun heof' => ?_, fun c' hc' => ?_⟩
  · rw [htrace, hwritten, ← hstream b]
    exact List.prefix_append _ _
  · rw [htrace, hsize, hgranted]
    omega
  · rw [htrace] at hdata ⊢
    refine Exists.imp (fun _ => Exists.imp fun _ => And.imp_left (List.mem_append_left _)) ?_
    rw [List.mem_append, List.mem_append, List.mem_singleton, List.mem_singleton, Trace.sent.injEq,
      Trace.sent.injEq, or_or_or_comm] at hdata
    rcases hdata with hdata | hdata
    · exact h.sized data' hdata
    · rw [ofStream_data hdata]
      exact ⟨remwindow, remmaxpkt, hopened, hmax.trans hle⟩
  · rw [htrace] at heof'
    rcases List.mem_append.mp heof' with heof' | heof'
    · exact absurd heof' hnot
    · exact absurd (Trace.sent.inj (List.mem_singleton.mp heof')).symm ofStream_ne_eof
  · cases hc'
    rw [htrace]
    refine ⟨fun _ b => ?_, ?_, fun _ => ⟨remwindow, remmaxpkt, List.mem_append_left _ hopened, hsameMax ▸ hle⟩⟩
    · rw [hstream, hwritten]
    · rw [hsize, hgranted]
      omega

theorem sendLoop_flow {rounds : ℕ} (h : FlowInv s) (hnot : .sent .eof ∉ s.trace)
    (hopen : ∀ c, s.channel = some c → c.sentEof = false ∧ c.halfopen = false) :
    Ensures (sendLoop rounds s) fun s' => FlowInv s' ∧
      ∀ c, s'.channel = some c → c.sentEof = false ∧ Drained c := by
  induction rounds generalizing s with
  | zero => exact ensures_error.mpr trivial
  | succ rounds ih =>
    unfold sendLoop
    refine Conn.ensures_get.bind ?_
    intro c hc
    obtain ⟨heof, hhalfopen⟩ := hopen c hc
    obtain ⟨isStderr, data, hmsg, -, -, -, -, hsameHalf, hsameEof⟩ := nextData_round c
    split
    · refine ih (h.sendData hc heof hhalfopen hnot) ?_ ?_
      · intro hmem
        rcases List.mem_append.mp hmem with hmem | hmem
        · exact hnot hmem
        · rw [hmsg] at hmem
          exact ofStream_ne_eof (Trace.sent.inj (List.mem_singleton.mp hmem)).symm
      · intro c' hc'
        cases hc'
        exact ⟨hsameEof.trans heof, hsameHalf.trans hhalfopen⟩
    · next hmore =>
      refine ensures_ok.mpr ⟨h, fun c' hc' => ?_⟩
      cases hc.symm.trans hc'
      refine ⟨heof, ?_⟩
      unfold Drained Ssh2Channel.backlog
      by_cases hwindow : c.remwindow = 0
      · exact .inl hwindow
      · have hpos : c.remwindow > 0 := UInt32.pos_iff_ne_zero.mpr hwindow
        right
        by_contra hne
        exact hmore ⟨hpos, by omega⟩

/-- EOF is sent, after all data or after CLOSE was received. -/
theorem sendEof_flow (h : FlowInv s) (hc : s.channel = some c)
    (hall : .got .close ∈ s.trace ∨ ∀ b, carried b s.trace = written b s.trace)
    (hwindow : c'.remwindow = c.remwindow) (hmax : c'.remmaxpkt = c.remmaxpkt)
    (hhalfopen : c'.halfopen = c.halfopen) : FlowSound (sendEof s c') := by
  have hunsent : ∀ x ∈ [Trace.sent .eof], x.isUnsent := List.forall_mem_singleton.mpr trivial
  have hwritten : ∀ b, written b (s.trace ++ [.sent .eof]) = written b s.trace := fun b =>
    written_append.trans (List.append_nil _)
  refine ⟨h.unsent (t := [.sent .eof]) rfl hunsent (fun _ => ?_) fun c'' hc'' => ?_, fun c'' hc'' _ heof => ?_⟩
  · exact hall.imp_right fun hall b => (hall b).trans (hwritten b).symm
  · cases hc''
    exact (h.channel c hc).unsent hunsent nofun (Nat.le_of_eq (congrArg UInt32.toNat hwindow)) hmax hhalfopen
  · cases hc''
    cases heof

theorem tryEof_flow (h : FlowSound s) (heof : EofUnsent s) : Ensures (ssh2ChannelTryEof s) FlowSound := by
  unfold ssh2ChannelTryEof
  refine Conn.ensures_get.bind ?_
  intro c hc
  split
  · exact ensures_error.mpr trivial
  · split
    · exact ensures_ok.mpr h
    · split
      · exact ensures_ok.mpr h
      · next hsizes =>
        have hempty : ∀ b, (c.buffer b).contents = [] := by
          intro b
          rw [Bufchain.contents_eq_nil]
          unfold Ssh2Channel.buffer
          split <;> omega
        have hsent : FlowSound (sendEof s c) := by
          refine sendEof_flow h.inv hc (.inr fun b => ?_) rfl rfl rfl
          rw [← (h.inv.channel c hc).stream (heof c hc) b, hempty b, List.append_nil]
        exact hsent.ensures checkClose_neutral

/-- Data is sent as far as possible, from a channel whose EOF was not sent. -/
theorem trySend_flow (h : FlowInv s) (hclose : CloseInv s) (heof : EofUnsent s) :
    Ensures (ssh2TrySend s) fun r => FlowSound r.2 := by
  unfold ssh2TrySend
  refine Conn.ensures_get.bind ?_
  intro c hc
  have hloop : Ensures (if c.halfopen = true then .ok s else sendLoop (c.backlog + 1) s)
      fun s' => FlowSound s' ∧ EofUnsent s' := by
    split
    · next hhalfopen =>
      refine ensures_ok.mpr ⟨⟨h, fun c' hc' hopen => ?_⟩, heof⟩
      cases hc.symm.trans hc'
      exact absurd (hhalfopen.symm.trans hopen) nofun
    · next hhalfopen =>
      have hopen : ∀ c, s.channel = some c → c.sentEof = false ∧ c.halfopen = false := by
        intro c' hc'
        cases hc.symm.trans hc'
        exact ⟨heof c hc, Bool.not_eq_true _ ▸ hhalfopen⟩
      refine (sendLoop_flow h ((hclose.closing c hc).not_eof (heof c hc)) hopen).mono ?_
      rintro s1 ⟨h1, hsent⟩
      exact ⟨⟨h1, fun c1 hc1 _ _ => .inl (hsent c1 hc1).2⟩, fun c1 hc1 => (hsent c1 hc1).1⟩
  refine hloop.bind ?_
  rintro s1 ⟨h1, heof1⟩
  refine Conn.ensures_get.bind ?_
  intro c1 _
  have htry : Ensures (if c1.backlog = 0 ∧ c1.pendingEof = true then ssh2ChannelTryEof s1 else .ok s1)
      FlowSound := by
    split
    · exact tryEof_flow h1 heof1
    · exact ensures_ok.mpr h1
  refine htry.bind ?_
  intro s2 h2
  exact ensures_ok.mpr h2

theorem trySendAndUnthrottle_flow (h : FlowInv s) (hclose : CloseInv s) :
    Ensures (ssh2TrySendAndUnthrottle s) FlowSound := by
  unfold ssh2TrySendAndUnthrottle
  refine Conn.ensures_get.bind ?_
  intro c hc
  split
  · next heof =>
    refine ensures_ok.mpr ⟨h, fun c' hc' _ heof' => ?_⟩
    cases hc.symm.trans hc'
    exact absurd (heof.symm.trans heof') nofun
  · next heof =>
    have hunsent : EofUnsent s := by
      intro c' hc'
      cases hc.symm.trans hc'
      exact Bool.not_eq_true _ ▸ heof
    refine (trySend_flow h hclose hunsent).bind ?_
    rintro ⟨bufsize, s1⟩ h1
    dsimp only
    split
    · refine Conn.ensures_get.bind ?_
      intro c1 hc1
      exact FlowSound.ensures h1 (checkThrottle_neutral.mono fun s2 h2 =>
        .after_set hc1 h2 ⟨id, rfl, rfl, rfl, rfl, rfl⟩)
    · exact ensures_ok.mpr h1

/-! ## Calls from the `Channel` -/

/-- Data is put into a buffer. -/
theorem FlowInv.write (h : FlowInv s) (hc : s.channel = some c) (heof : c.sentEof = false)
    (hnot : .sent .eof ∉ s.trace) {isStderr : Bool} {data : List UInt8}
    (hbuffer : ∀ b, (c'.buffer b).contents = (c.buffer b).contents ++ written b [.wrote isStderr data])
    (hwindow : c'.remwindow = c.remwindow) (hmax : c'.remmaxpkt = c.remmaxpkt)
    (hhalfopen : c'.halfopen = c.halfopen) : FlowInv ((s.note (.wrote isStderr data)).set c') := by
  have hunsent : ∀ x ∈ [Trace.wrote isStderr data], x.isUnsent := List.forall_mem_singleton.mpr trivial
  refine h.unsent (t := [.wrote isStderr data]) rfl hunsent (fun heof' => ?_) fun c'' hc'' => ?_
  · rcases List.mem_append.mp heof' with heof' | heof'
    · exact absurd heof' hnot
    · cases List.mem_singleton.mp heof'
  · cases hc''
    refine (h.channel c hc).unsent hunsent (fun _ b => ?_) (Nat.le_of_eq (congrArg UInt32.toNat hwindow)) hmax hhalfopen
    rw [hbuffer, ← List.append_assoc, (h.channel c hc).stream heof b, written_append]

theorem write_flow {isStderr : Bool} {data : List UInt8} (h : FlowInv s) (hclose : CloseInv s) :
    Ensures (ssh2channelWrite s isStderr data) FlowSound := by
  unfold ssh2channelWrite
  refine Conn.ensures_get.bind ?_
  intro c hc
  split
  · exact ensures_error.mpr trivial
  · next heof =>
    rw [Bool.not_eq_true] at heof
    have hnot := (hclose.closing c hc).not_eof heof
    have hwrote : CloseInv (s.note (.wrote isStderr data)) := hclose.note rfl
    have hbuffered : ∀ c', c' = (if isStderr = true then { c with errbuffer := c.errbuffer.add data }
        else { c with outbuffer := c.outbuffer.add data }) →
        FlowInv ((s.note (.wrote isStderr data)).set c') ∧ CloseInv ((s.note (.wrote isStderr data)).set c') ∧
          c'.sentEof = false := by
      rintro c' rfl
      cases isStderr with
      | false =>
        refine ⟨h.write hc heof hnot (fun b => ?_) rfl rfl rfl, hwrote.update hc rfl rfl rfl rfl rfl rfl id rfl, heof⟩
        cases b with
        | false => exact Bufchain.contents_add.trans (congrArg _ (List.append_nil data).symm)
        | true => exact (List.append_nil _).symm
      | true =>
        refine ⟨h.write hc heof hnot (fun b => ?_) rfl rfl rfl, hwrote.update hc rfl rfl rfl rfl rfl rfl id rfl, heof⟩
        cases b with
        | false => exact (List.append_nil _).symm
        | true => exact Bufchain.contents_add.trans (congrArg _ (List.append_nil data).symm)
    obtain ⟨hflow, hset, heof'⟩ := hbuffered _ rfl
    refine (trySend_flow hflow hset ?_).bind ?_
    · intro c' hc'
      cases hc'
      exact heof'
    · rintro ⟨bufsize, s1⟩ h1
      exact ensures_ok.mpr h1

theorem writeEof_flow (h : FlowSound s) : Ensures (ssh2channelWriteEof s) FlowSound := by
  unfold ssh2channelWriteEof
  refine Conn.ensures_get.bind ?_
  intro c hc
  split
  · exact ensures_ok.mpr h
  · next heof =>
    have hset : Neutral s (s.set { c with pendingEof := true }) := .set hc ⟨id, rfl, rfl, rfl, rfl, rfl⟩
    refine tryEof_flow (h.neutral hset) ?_
    intro c' hc'
    cases hc'
    exact Bool.not_eq_true _ ▸ heof

theorem callStep_flow {k : Call} (h : FlowSound s) (hclose : CloseInv s) : Ensures (callStep s k) FlowSound := by
  cases k with
  | write isStderr data => exact write_flow h.inv hclose
  | writeEof => exact writeEof_flow h
  | chanreq type wantReply => exact h.ensures chanreqInit_neutral

/-! ## Messages -/

theorem closeOutgoing_flow (h : FlowInv s) (hgot : .got .close ∈ s.trace)
    (hopen : ∀ c, s.channel = some c → c.halfopen = false) : Ensures (closeOutgoing s) FlowSound := by
  cases hchannel : s.channel with
  | none =>
    unfold closeOutgoing Conn.get
    simp only [hchannel]
    exact ensures_error.mpr trivial
  | some c =>
    by_cases heof : c.sentEof = true
    · unfold closeOutgoing
      rw [Conn.get_eq hchannel, ok_bind, if_pos heof]
      refine ensures_ok.mpr ⟨h, fun c' hc' _ heof' => ?_⟩
      cases hchannel.symm.trans hc'
      exact absurd (heof.symm.trans heof') nofun
    · rw [Bool.not_eq_true] at heof
      rw [closeOutgoing_eq hchannel (hopen c hchannel) heof]
      have hsent : FlowSound (sendEof s { c with outbuffer := .empty, errbuffer := .empty }) :=
        sendEof_flow h hchannel (.inl hgot) rfl rfl rfl
      refine (hsent.ensures checkClose_neutral).bind ?_
      intro s1 h1
      exact h1.ensures checkThrottle_neutral

theorem receiveCloseRest_flow (h : FlowInv s) (hgot : .got .close ∈ s.trace)
    (hopen : ∀ c, s.channel = some c → c.halfopen = false) : Ensures (receiveCloseRest s) FlowSound := by
  unfold receiveCloseRest
  refine Conn.ensures_get.bind ?_
  intro c hc
  have habandon : Ensures (if s.cfg.bugSendsLateRequestReply = true then .ok s
      else abandonRequests c.chanreqs s) (Neutral s) := by
    split
    · exact ensures_ok.mpr .refl
    · exact abandonRequests_neutral
  refine habandon.bind ?_
  intro s1 h1
  have hgot1 : .got .close ∈ s1.trace := by
    obtain ⟨t, ht, -⟩ := h1.trace
    rw [ht]
    exact List.mem_append_left _ hgot
  refine (closeOutgoing_flow (h.neutral h1) hgot1 fun c1 hc1 => ?_).bind ?_
  · obtain ⟨c0, hc0, hsame⟩ := h1.channel c1 hc1
    exact hsame.halfopen.trans (hopen c0 hc0)
  · intro s2 h2
    refine Conn.ensures_get.bind ?_
    intro c2 hc2
    split
    · exact ensures_ok.mpr h2
    · exact h2.ensures (checkClose_neutral.mono fun s3 h3 => .after_set hc2 h3 ⟨id, rfl, rfl, rfl, rfl, rfl⟩)

theorem openConfirmationRest_flow (h : FlowSound s) (hclose : CloseInv s) :
    Ensures (openConfirmationRest s) FlowSound := by
  unfold openConfirmationRest
  refine Ensures.bind (fun s1 hs1 => And.intro (checkClose_neutral s1 hs1) (checkClose_closing hclose s1 hs1)) ?_
  rintro s1 ⟨h1, hclose1, -⟩
  refine Conn.ensures_get.bind ?_
  intro c hc
  split
  · next hpending =>
    refine tryEof_flow (h.neutral h1) fun c' hc' => ?_
    cases hc.symm.trans hc'
    exact (hclose1.closing c hc).pendingEof hpending
  · exact ensures_ok.mpr (h.neutral h1)

/-- The channel is opened, and nothing is sent yet. -/
theorem openConfirmation_flow {remoteid remwindow remmaxpkt : UInt32} (h : FlowSound s) :
    Ensures (openConfirmation s remoteid remwindow remmaxpkt) FlowSound := by
  unfold openConfirmation
  refine Conn.ensures_get.bind ?_
  intro c hc
  dsimp only
  generalize (if remmaxpkt > _ then _ else remmaxpkt) = maxpkt
  have hquiet : ∀ x ∈ [Trace.opened remwindow maxpkt], x.isQuiet := List.forall_mem_singleton.mpr trivial
  have hunsent : ∀ x ∈ [Trace.opened remwindow maxpkt], x.isUnsent := List.forall_mem_singleton.mpr trivial
  have hopened : .opened remwindow maxpkt ∈ s.trace ++ [Trace.opened remwindow maxpkt] :=
    List.mem_append_right _ (List.mem_singleton.mpr rfl)
  have hold := h.inv.channel c hc
  refine FlowSound.ensures ⟨h.inv.quiet (t := [.opened remwindow maxpkt]) rfl hquiet ?_, ?_⟩ callMethod_neutral
  · intro c' hc'
    cases hc'
    refine ⟨fun heof b => ?_, ?_, fun _ => ⟨remwindow, maxpkt, hopened, Nat.le_refl _⟩⟩
    · show carried b (s.trace ++ _) ++ _ = written b (s.trace ++ _)
      rw [carried_unsent hunsent, written_quiet hquiet]
      exact hold.stream heof b
    · show carriedSize (s.trace ++ _) + remwindow.toNat ≤ granted (s.trace ++ _)
      rw [carriedSize_unsent hunsent, granted_append]
      exact Nat.add_le_add_right h.inv.window _
  · intro c' hc' _ _
    exact .inr ⟨s.trace, remwindow, maxpkt, [], rfl, fun _ hx => (nomatch hx)⟩

/-- The window is made larger, by no more than the server says. -/
theorem receiveWindowAdjust_flow {size : UInt32} (h : FlowSound s) (hclose : CloseInv s) :
    Ensures (receiveWindowAdjust (s.note (.got (.windowAdjust size))) size) FlowSound := by
  have hquiet : ∀ x ∈ [Trace.got (.windowAdjust size)], x.isQuiet := List.forall_mem_singleton.mpr trivial
  unfold receiveWindowAdjust
  refine Conn.ensures_get.bind ?_
  intro c hc
  have hold := h.inv.channel c hc
  split
  · next heof =>
    refine ensures_ok.mpr ⟨h.inv.quiet (t := [.got (.windowAdjust size)]) rfl hquiet ?_, ?_⟩
    · intro c' hc'
      exact (h.inv.channel c' hc').quiet hquiet .refl
    · intro c' hc' _ heof'
      cases hc.symm.trans hc'
      exact absurd (heof.symm.trans heof') nofun
  · have hnoted : CloseInv (s.note (.got (.windowAdjust size))) := hclose.note rfl
    refine trySendAndUnthrottle_flow ?_ (hnoted.update hc rfl rfl rfl rfl rfl rfl id rfl)
    refine h.inv.quiet (t := [.got (.windowAdjust size)]) rfl hquiet ?_
    intro c' hc'
    cases hc'
    refine hold.unsent (fun x hx => (hquiet x hx).unsent) (fun heof b => ?_) ?_ rfl rfl
    · rw [written_quiet hquiet]
      exact hold.stream heof b
    · show (c.remwindow + size).toNat ≤ c.remwindow.toNat + size.toNat
      rw [UInt32.toNat_add]
      exact Nat.mod_le _ _

theorem receive_flow {m : ServerMsg} (h : FlowSound s) (hclose : CloseSound s) (hc : s.channel = some c)
    (hhalfopen : c.halfopen = m.expectHalfopen) : Ensures (receive (s.note (.got m)) m) FlowSound := by
  have hgot : Trace.isNeutral (.got m) → Neutral s (s.note (.got m)) := .note
  cases m with
  | openConfirmation remoteid remwindow remmaxpkt => exact openConfirmation_flow (h.neutral (hgot ⟨trivial, rfl⟩))
  | openFailure =>
    have hgot := hgot ⟨trivial, rfl⟩
    show Ensures (openFailure _) _
    unfold openFailure
    refine Conn.ensures_get.bind ?_
    intro c' _
    refine Ssh2Channel.ensures_getChan.bind ?_
    intro chan _
    exact ensures_ok.mpr (h.neutral (hgot.trans (.free rfl rfl)))
  | data extType data =>
    have hgot := hgot ⟨trivial, rfl⟩
    show Ensures (receiveData _ data) _
    unfold receiveData
    refine Conn.ensures_get.bind ?_
    intro c' hc'
    exact h.ensures (callMethod_neutral.mono fun s1 h1 =>
      hgot.trans (.after_set hc' h1 ⟨id, rfl, rfl, rfl, rfl, rfl⟩))
  | windowAdjust size => exact receiveWindowAdjust_flow h hclose.inv
  | request wantReply success =>
    have hgot := hgot ⟨trivial, rfl⟩
    show Ensures (receiveRequest _ wantReply success) _
    unfold receiveRequest
    refine Conn.ensures_get.bind ?_
    intro c' _
    refine Ssh2Channel.ensures_getChan.bind ?_
    intro chan _
    split
    · refine ensures_ok.mpr (h.neutral (hgot.trans (.note ?_)))
      split
      · exact ⟨trivial, rfl⟩
      · exact ⟨trivial, rfl⟩
    · exact ensures_ok.mpr (h.neutral hgot)
  | success =>
    have hgot := hgot ⟨trivial, rfl⟩
    exact h.ensures (receiveResponse_neutral.mono fun s1 h1 => hgot.trans h1)
  | failure =>
    have hgot := hgot ⟨trivial, rfl⟩
    exact h.ensures (receiveResponse_neutral.mono fun s1 h1 => hgot.trans h1)
  | eof =>
    have hgot := hgot ⟨trivial, rfl⟩
    show Ensures (receiveEof _) _
    unfold receiveEof
    refine Conn.ensures_get.bind ?_
    intro c' hc'
    split
    · exact ensures_ok.mpr (h.neutral hgot)
    · exact h.ensures (callMethod_neutral.mono fun s1 h1 =>
        hgot.trans (.after_set hc' h1 ⟨id, rfl, rfl, rfl, rfl, rfl⟩))
  | close =>
    have hgot := hgot ⟨trivial, rfl⟩
    show Ensures (receiveClose _) _
    unfold receiveClose
    refine Conn.ensures_get.bind ?_
    intro c' hc'
    split
    · have hmem : .got .close ∈ (s.note (.got .close)).trace :=
        List.mem_append_right _ (List.mem_singleton.mpr rfl)
      refine receiveCloseRest_flow (h.inv.neutral hgot) hmem fun c'' hc'' => ?_
      cases hc.symm.trans hc''
      exact hhalfopen
    · exact h.ensures (callMethod_neutral.mono fun s1 h1 =>
        hgot.trans (.after_set hc' h1 ⟨id, rfl, rfl, rfl, rfl, rfl⟩))

theorem methodReturns_flow {rest : Rest} {bufsize : ℕ} (h : FlowSound s) (hclose : CloseSound s)
    (hcalling : s.calling = some rest) : Ensures (methodReturns s rest bufsize) FlowSound := by
  have hreturned : FlowSound { s with calling := none } := h.neutral (.of_eq rfl rfl)
  have hinv : CloseInv { s with calling := none } := ⟨hclose.inv.inOrder, hclose.inv.closing, hclose.inv.gone⟩
  unfold methodReturns
  cases rest with
  | openConfirmation => exact openConfirmationRest_flow hreturned hinv
  | data => exact hreturned.ensures (neutral_windowRule.receiveDataRest .refl)
  | response => exact hreturned.ensures responseRest_neutral
  | eof => exact hreturned.ensures checkClose_neutral
  | close =>
    obtain ⟨hgot, hopen⟩ := hclose.settled.close hcalling
    exact receiveCloseRest_flow hreturned.inv hgot fun c hc => (hopen c hc).1

theorem step_flow (h : FlowSound s) (hclose : CloseSound s) : Ensures (step s e) FlowSound := by
  apply step_rule (R := fun r => Ensures r FlowSound)
  case hsame => exact ensures_ok.mpr h
  case haborted => exact ensures_ok.mpr (h.neutral (.of_eq rfl rfl))
  case hserver =>
    intro m c _ _ hc _ hhalfopen
    exact receive_flow h hclose hc hhalfopen
  case hreturns =>
    intro bufsize rest _ hcalling
    exact methodReturns_flow h hclose hcalling
  case hcall =>
    intro k _
    exact callStep_flow h hclose.inv
  case hclose =>
    intro chan _ _ _
    exact h.ensures initiateClose_neutral
  case hunthrottle =>
    intro bufsize c _ _ _
    exact h.ensures (neutral_windowRule.unthrottle .refl)
  case hoverride =>
    intro c chan _ hc _ _ _ _
    exact h.ensures (neutral_windowRule.overrideRemoved (.set hc ⟨id, rfl, rfl, rfl, rfl, rfl⟩))
  case hhandover =>
    intro shareCs c chan _ hc _ _ _ _
    unfold ssh2channelX11SharingHandover
    rw [Conn.get_eq hc, ok_bind]
    exact ensures_ok.mpr (h.neutral (.set hc ⟨id, rfl, rfl, rfl, rfl, rfl⟩))
  case hdelete =>
    intro c _ _ _ _
    have hnoted : Neutral s (s.note .deleted) := .note ⟨trivial, rfl⟩
    refine destroy_eq.mono ?_
    rintro s' ⟨rfl, -⟩
    exact h.neutral (hnoted.trans (.free rfl rfl))
  case hthrottle =>
    intro throttled _
    have hset : Neutral s { s with allChannelsThrottled := throttled } := .of_eq rfl rfl
    refine ⟨ensures_ok.mpr (h.neutral hset), ?_⟩
    intro c _ _
    exact (h.neutral hset).ensures checkThrottle_neutral
  case hdangling =>
    intro _
    exact ensures_error.mpr trivial

theorem Begins.flow {s : Conn} (h : Begins s) : FlowSound s := by
  cases h with
  | «open» hvt hfixed =>
    refine ⟨⟨fun b => List.prefix_refl _, Nat.le_refl _, ?_, nofun, ?_⟩, ?_⟩
    · rintro data (hdata | hdata)
      · cases hdata
      · cases hdata
    · intro c hc
      cases hc
      refine ⟨fun _ b => ?_, Nat.le_refl _, nofun⟩
      cases b with
      | false => rfl
      | true => rfl
    · intro c hc hopen
      cases hc
      cases hopen
  | opened hvt hfixed =>
    refine ⟨⟨fun b => List.prefix_refl _, Nat.zero_le _, ?_, ?_, ?_⟩, ?_⟩
    · rintro data (hdata | hdata)
      · cases List.mem_singleton.mp hdata
      · cases List.mem_singleton.mp hdata
    · intro hmem
      cases List.mem_singleton.mp hmem
    · intro c hc
      cases hc
      refine ⟨fun _ b => ?_, ?_, fun _ => ⟨_, _, List.mem_singleton.mpr rfl, Nat.le_refl _⟩⟩
      · cases b with
        | false => rfl
        | true => rfl
      · exact Nat.le_of_eq (Nat.zero_add _)
    · intro c hc _ _
      cases hc
      exact .inl (.inr rfl)

end PuttyNd.Ssh2
