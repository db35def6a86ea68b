import PuttyNd.Ssh2.Messages
import PuttyNd.Ssh2.Proofs.FrameProofs

/-!
# Proofs: sending data comes to an end

A round of the loop sends some of the data, unless the server has said that a packet may hold none.
-/

namespace PuttyNd.Ssh2

open Psftp Outcome

variable {α β : Type} {s s' s'' : Conn} {c : Ssh2Channel}

/-! ## Ends and data -/

/-- A function that does not loop for ever, and what holds if it returns. -/
def Halts (r : Except Fault α) (P : α → Prop) : Prop := r ≠ .error .endlessLoop ∧ Ensures r P

theorem Halts.bind {r : Except Fault α} {f : α → Except Fault β} {P : α → Prop} {Q : β → Prop}
    (h : Halts r P) (hf : ∀ a, P a → Halts (f a) Q) : Halts (r >>= f) Q := by
  obtain ⟨hne, hP⟩ := h
  cases r with
  | error e =>
    have he : e ≠ .endlessLoop := fun heq => hne (congrArg _ heq)
    exact ⟨fun heq => he (Except.error.inj heq), fun b hb => (nomatch hb)⟩
  | ok a => exact hf a (hP a rfl)

theorem halts_ok {a : α} {P : α → Prop} (h : P a) : Halts (.ok a) P := ⟨nofun, ensures_ok.mpr h⟩

theorem halts_error {f : Fault} {P : α → Prop} (h : f ≠ .endlessLoop) : Halts (.error f) P :=
  ⟨fun heq => h (Except.error.inj heq), ensures_error.mpr trivial⟩

theorem halts_get : Halts s.get fun c => s.channel = some c := by
  refine ⟨?_, Conn.ensures_get⟩
  unfold Conn.get
  split <;> nofun

theorem halts_getChan : Halts c.getChan fun _ => True := by
  unfold Ssh2Channel.getChan
  split
  · exact halts_error nofun
  · exact halts_ok trivial

/-- A packet with data has at least one byte of it. -/
def CarriesData : Trace → Prop
  | .sent (.data data) => data ≠ []
  | .sent (.extendedData data) => data ≠ []
  | _ => True

/-- What was done from `s` to `s'`, as far as it was sent -/
def Sends (s s' : Conn) : Prop := ∃ l, s'.trace = s.trace ++ l ∧ ∀ t ∈ l, CarriesData t

theorem Sends.refl : Sends s s := ⟨[], (List.append_nil _).symm, fun _ h => (nomatch h)⟩

theorem Sends.of_eq (h : s'.trace = s.trace) : Sends s s' :=
  ⟨[], h.trans (List.append_nil _).symm, fun _ h => (nomatch h)⟩

theorem Sends.trans (h : Sends s s') (h' : Sends s' s'') : Sends s s'' := by
  obtain ⟨l, hl, hall⟩ := h
  obtain ⟨l', hl', hall'⟩ := h'
  refine ⟨l ++ l', by rw [hl', hl, List.append_assoc], fun t ht => ?_⟩
  rcases List.mem_append.mp ht with ht | ht
  · exact hall t ht
  · exact hall' t ht

theorem Sends.push {m : Msg} (h : CarriesData (.sent m)) (c : Ssh2Channel) : Sends s ((s.push m).set c) :=
  ⟨[.sent m], rfl, fun t ht => by rw [List.mem_singleton.mp ht]; exact h⟩

/-! ## EOF and CLOSE -/

theorem halts_destroy : Halts (ssh2ChannelDestroy s) (Sends s) := by
  unfold ssh2ChannelDestroy
  refine halts_get.bind fun c hc => ?_
  by_cases hreqs : c.chanreqs ≠ []
  · rw [if_pos hreqs]
    exact halts_error nofun
  · rw [if_neg hreqs]
    have hlocal : Halts (ssh2ChannelCloseLocal s) (Sends s) := by
      unfold ssh2ChannelCloseLocal
      refine halts_get.bind fun c _ => ?_
      by_cases hshare : c.sharectx.isSome = true
      · rw [if_pos hshare]
        exact halts_ok .refl
      · rw [if_neg hshare]
        exact halts_getChan.bind fun _ _ => halts_ok (.of_eq rfl)
    exact hlocal.bind fun s' hs' => halts_ok (hs'.trans (.of_eq rfl))

theorem halts_checkClose : Halts (ssh2ChannelCheckClose s) (Sends s) := by
  unfold ssh2ChannelCheckClose
  refine halts_get.bind fun c _ => ?_
  by_cases hhalf : c.halfopen = true
  · rw [if_pos hhalf]
    exact halts_ok .refl
  · rw [if_neg hhalf]
    refine halts_getChan.bind fun chan _ => ?_
    dsimp only
    have hsend : Sends s (if chanWantClose chan c.sentEof c.rcvdEof = true ∧ c.chanreqs = [] ∧
        ¬ c.sentClose = true then sendClose s c else s) := by
      split
      · exact Sends.push (m := .close) trivial _
      · exact .refl
    refine halts_get.bind fun c1 _ => ?_
    by_cases hboth : c1.sentClose = true ∧ c1.rcvdClose = true
    · rw [if_pos hboth]
      by_cases hreqs : c1.chanreqs ≠ []
      · rw [if_pos hreqs]
        exact halts_error nofun
      · rw [if_neg hreqs]
        exact ⟨halts_destroy.1, halts_destroy.2.mono fun s' hs' => hsend.trans hs'⟩
    · rw [if_neg hboth]
      exact halts_ok hsend

theorem halts_tryEof : Halts (ssh2ChannelTryEof s) (Sends s) := by
  unfold ssh2ChannelTryEof
  refine halts_get.bind fun c _ => ?_
  split
  · exact halts_error nofun
  · split
    · exact halts_ok .refl
    · split
      · exact halts_ok .refl
      · have heof : Sends s (sendEof s c) := Sends.push (m := .eof) trivial _
        exact ⟨halts_checkClose.1, halts_checkClose.2.mono fun s' hs' => heof.trans hs'⟩

/-! ## The loop -/

/-- There is data to send and a window for it, but no packet may hold any. -/
def Stuck (c : Ssh2Channel) : Prop := 0 < c.remwindow ∧ 0 < c.backlog ∧ c.remmaxpkt = 0

instance (c : Ssh2Channel) : Decidable (Stuck c) :=
  inferInstanceAs (Decidable (0 < c.remwindow ∧ 0 < c.backlog ∧ c.remmaxpkt = 0))

theorem consume_zero (ch : Bufchain) : (ch.consume 0).size = ch.size := by
  rw [Bufchain.size_eq, Bufchain.contents_consume, List.drop_zero, ← Bufchain.size_eq]

/-- Nothing is sent, and nothing changes. -/
theorem nextData_stuck (h : Stuck c) : Stuck (nextData c).2 := by
  obtain ⟨hwindow, hbacklog, hmax⟩ := h
  have hnone : ∀ data : List UInt8, (data.take c.remwindow.toNat).take c.remmaxpkt.toNat = [] := fun data => by
    rw [hmax]
    exact List.take_zero
  unfold nextData Stuck Ssh2Channel.backlog
  split
  · simp only [hnone, List.length_nil, consume_zero]
    exact ⟨by simpa using hwindow, hbacklog, hmax⟩
  · simp only [hnone, List.length_nil, consume_zero]
    exact ⟨by simpa using hwindow, hbacklog, hmax⟩

theorem sendLoop_stuck (hc : s.channel = some c) (h : Stuck c) (rounds : ℕ) :
    sendLoop rounds s = .error .endlessLoop := by
  induction rounds generalizing s c with
  | zero => rfl
  | succ rounds ih =>
    have hmore : c.remwindow > 0 ∧ (c.outbuffer.size > 0 ∨ c.errbuffer.size > 0) := by
      have hbacklog : 0 < c.outbuffer.size + c.errbuffer.size := h.2.1
      exact ⟨h.1, by omega⟩
    rw [sendLoop, Conn.get_eq hc, ok_bind, if_pos hmore]
    exact ih rfl (nextData_stuck h)

/-- Some of the data in a buffer is sent. -/
theorem front_sent {ch : Bufchain} {n m : ℕ} (hsize : 0 < ch.size) (hn : n ≠ 0) (hm : m ≠ 0) :
    (ch.front.take n).take m ≠ [] ∧ (ch.consume ((ch.front.take n).take m).length).size < ch.size := by
  have hfront : ch.front ≠ [] := Bufchain.front_ne_nil fun hnil => by
    rw [Bufchain.contents_eq_nil] at hnil
    omega
  have hpos := List.length_pos_of_ne_nil hfront
  have hlen : 0 < ((ch.front.take n).take m).length := by
    rw [List.length_take, List.length_take]
    omega
  refine ⟨List.ne_nil_of_length_pos hlen, ?_⟩
  rw [Bufchain.size_eq, Bufchain.contents_consume, List.length_drop, ← Bufchain.size_eq]
  omega

/-- A round sends some of the data. -/
theorem nextData_progress (hwindow : 0 < c.remwindow) (hbacklog : 0 < c.backlog) (hmax : c.remmaxpkt ≠ 0) :
    CarriesData (.sent (nextData c).1) ∧ (nextData c).2.backlog < c.backlog ∧
      (nextData c).2.remmaxpkt = c.remmaxpkt := by
  have hn : c.remwindow.toNat ≠ 0 := by
    have h := UInt32.lt_iff_toNat_lt.mp hwindow
    exact Nat.ne_of_gt h
  have hm : c.remmaxpkt.toNat ≠ 0 := fun h => hmax (UInt32.toNat_inj.mp h)
  unfold nextData Ssh2Channel.backlog at *
  by_cases herr : c.errbuffer.size > 0
  · rw [if_pos herr]
    obtain ⟨hdata, hless⟩ := front_sent herr hn hm
    refine ⟨hdata, ?_, rfl⟩
    dsimp only
    omega
  · rw [if_neg herr]
    have hdata : c.outbuffer.size > 0 := by omega
    obtain ⟨hdata, hless⟩ := front_sent hdata hn hm
    refine ⟨hdata, ?_, rfl⟩
    dsimp only
    omega

theorem sendLoop_spec {rounds : ℕ} (hc : s.channel = some c) (h : ¬ Stuck c) (hrounds : c.backlog < rounds) :
    Halts (sendLoop rounds s) (Sends s) := by
  induction rounds generalizing s c with
  | zero => exact absurd hrounds (Nat.not_lt_zero _)
  | succ rounds ih =>
    rw [sendLoop, Conn.get_eq hc, ok_bind]
    by_cases hmore : c.remwindow > 0 ∧ (c.outbuffer.size > 0 ∨ c.errbuffer.size > 0)
    · have hbacklog : 0 < c.backlog := by
        unfold Ssh2Channel.backlog
        omega
      have hmax : c.remmaxpkt ≠ 0 := fun hmax => h ⟨hmore.1, hbacklog, hmax⟩
      obtain ⟨hdata, hless, hsame⟩ := nextData_progress hmore.1 hbacklog hmax
      rw [if_pos hmore]
      have hrest := ih (s := (s.push (nextData c).1).set (nextData c).2) rfl
        (fun hstuck => hmax (hsame ▸ hstuck.2.2)) (by omega)
      exact ⟨hrest.1, hrest.2.mono fun s' hs' => (Sends.push hdata _).trans hs'⟩
    · rw [if_neg hmore]
      exact halts_ok .refl

/-! ## `ssh2_try_send` -/

theorem trySend_stuck (hc : s.channel = some c) (hopen : c.halfopen = false) (h : Stuck c) :
    ssh2TrySend s = .error .endlessLoop := by
  unfold ssh2TrySend
  rw [Conn.get_eq hc, ok_bind, if_neg (by rw [hopen]; exact Bool.false_ne_true), sendLoop_stuck hc h]
  rfl

theorem trySend_spec (hc : s.channel = some c) (h : ¬ (c.halfopen = false ∧ Stuck c)) :
    Halts (ssh2TrySend s) (fun r => Sends s r.2) := by
  unfold ssh2TrySend
  rw [Conn.get_eq hc, ok_bind]
  have hloop : Halts (if c.halfopen = true then .ok s else sendLoop (c.backlog + 1) s) (Sends s) := by
    by_cases hhalf : c.halfopen = true
    · rw [if_pos hhalf]
      exact halts_ok .refl
    · rw [if_neg hhalf]
      have hstuck : ¬ Stuck c := fun hstuck => h ⟨Bool.eq_false_iff.mpr hhalf, hstuck⟩
      exact sendLoop_spec hc hstuck (Nat.lt_succ_self _)
  refine hloop.bind fun s1 hs1 => halts_get.bind fun c1 _ => ?_
  have heof : Halts (if c1.backlog = 0 ∧ c1.pendingEof = true then ssh2ChannelTryEof s1 else .ok s1)
      (Sends s1) := by
    split
    · exact halts_tryEof
    · exact halts_ok .refl
  exact heof.bind fun s2 hs2 => halts_ok (hs1.trans hs2)

/-- Sending comes to an end, and no packet is empty, exactly if the channel is not stuck. If it is, no number of
rounds is enough. -/
theorem trySend_halts_iff (hc : s.channel = some c) :
    (Halts (ssh2TrySend s) (fun r => Sends s r.2) ↔ ¬ (c.halfopen = false ∧ Stuck c)) ∧
      (Stuck c → ∀ rounds, sendLoop rounds s = .error .endlessLoop) := by
  refine ⟨⟨?_, trySend_spec hc⟩, sendLoop_stuck hc⟩
  rintro ⟨hends, -⟩ ⟨hopen, hstuck⟩
  exact hends (trySend_stuck hc hopen hstuck)

/-- A channel that the server opens with a window of one byte, and one byte to send -/
def opened (pktsize : UInt32) : Conn :=
  connOpened ⟨false, false, false, false, 0x4000⟩ false 0 256 ⟨.forwarding, 0, true⟩ 0 1 pktsize

def openedChannel (pktsize : UInt32) : Ssh2Channel :=
  let c := channelOpened ⟨false, false, false, false, 0x4000⟩ 256 ⟨.forwarding, 0, true⟩ 0 1 pktsize
  { c with outbuffer := c.outbuffer.add [97] }

/-- The byte is sent if packets may hold one. -/
theorem trySend_halts_iff_one : Halts (ssh2TrySend ((opened 1).set (openedChannel 1)))
    (fun r => Sends ((opened 1).set (openedChannel 1)) r.2) := by
  refine (trySend_halts_iff (c := openedChannel 1) rfl).1.mpr ?_
  rintro ⟨-, -, -, hmax⟩
  exact absurd hmax (by decide)

/-- If packets may hold no byte, sending it does not come to an end. -/
theorem trySend_endless : run (opened 0) [.call (.write false [97])] = .error .endlessLoop ∧
    ¬ ∃ rounds s', sendLoop rounds ((opened 0).set (openedChannel 0)) = .ok s' := by
  refine ⟨rfl, ?_⟩
  rintro ⟨rounds, s', hsent⟩
  have hstuck : Stuck (openedChannel 0) := by
    refine ⟨?_, ?_, rfl⟩
    · decide
    · decide
  rw [sendLoop_stuck rfl hstuck] at hsent
  exact nomatch hsent

end PuttyNd.Ssh2
