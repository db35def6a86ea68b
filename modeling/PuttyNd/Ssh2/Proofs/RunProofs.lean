import PuttyNd.Ssh2.Proofs.LedgerProofs

/-!
# Proofs: a connection with all its channels

Each step is one of one channel, and what holds of a channel does not depend on what the channels share.
-/

namespace PuttyNd.Ssh2

open Psftp CInt Outcome Runs

theorem Begins.maxwin {s : Conn} (h : Begins s) : ∀ c, s.channel = some c → 0 ≤ c.locmaxwin := by
  have hinitial : ∀ {cfg : Config}, 0 ≤ initialWindow cfg := Int.le_of_lt initialWindow_pos
  intro c hc
  cases h with
  | «open» hvt hfixed =>
    cases hc
    exact hinitial
  | @opened cfg throttled count localid chan remoteid winsize pktsize hvt hfixed =>
    cases hc
    show 0 ≤ if chan.initialFixedWindowSize ≠ 0 then toInt32 chan.initialFixedWindowSize.toNat
      else initialWindow cfg
    split
    · rw [toInt32_of_fits (by omega) (by omega)]
      omega
    · exact hinitial

namespace Connection

variable {s s' : Connection} {v : View} {i : ℕ}

/-- What holds of one channel of a connection, whatever happens to the others -/
structure ViewSound (s : Connection) (v : View) : Prop where
  closing : CloseSound (s.conn v)
  maxwin : ∀ c, v.channel = some c → 0 ≤ c.locmaxwin
  flow : FlowSound (s.conn v)
  ledger : Ledger (s.conn v)

structure Sound (s : Connection) : Prop where
  frozen : s.logicallyFrozen = true ↔ s.connThrottleCount ≠ 0
  views : ∀ v ∈ s.views, ViewSound s v

/-- What holds of a channel does not depend on what the channels share. -/
theorem ViewSound.congr (h : ViewSound s v) (hcfg : s'.cfg = s.cfg) (haborted : s'.aborted = false → s.aborted = false) :
    ViewSound s' v := by
  obtain ⟨⟨⟨hinOrder, hclosing, hgone⟩, ⟨hwaiting, hclose, hgot, halive, hattached⟩⟩, hmaxwin,
    ⟨⟨hstream, hwindow, hsized, heof, hchannel⟩, hprompt⟩, ⟨hqueued, hdone, hresults, habandoned, hresponding⟩⟩ := h
  refine ⟨⟨⟨hinOrder, hclosing, hgone⟩, ⟨?_, hclose, hgot, halive, hattached⟩⟩, hmaxwin,
    ⟨⟨hstream, hwindow, hsized, heof, hchannel⟩, hprompt⟩, ⟨hqueued, hdone, ?_, ?_, hresponding⟩⟩
  · intro c hc hrcvd
    have hkept := hwaiting c hc hrcvd
    refine ⟨hkept.1, ?_⟩
    show s'.cfg.bugSendsLateRequestReply = true
    rw [hcfg]
    exact hkept.2
  · obtain ⟨answered, n, heq, hprefix, hall⟩ := hresults
    exact ⟨answered, n, heq, hprefix, fun hnot => hall (haborted hnot)⟩
  · intro hnull
    obtain ⟨hnone, hgot, hbug⟩ := habandoned hnull
    refine ⟨hnone, hgot, ?_⟩
    show s'.cfg.bugSendsLateRequestReply = false
    rw [hcfg]
    exact hbug

theorem stepChannel_sound {e : Ssh2.Event} (h : Sound s) : Ensures (s.stepChannel i e) Sound := by
  unfold stepChannel
  split
  · exact ensures_ok.mpr h
  · next v hv =>
    have hview := h.views v (List.mem_of_getElem? hv)
    have hinv : Ssh2.CountInv (s.conn v) := ⟨h.frozen, hview.maxwin⟩
    intro s' hs'
    obtain ⟨s1, hs1, hput⟩ := bind_eq_ok.mp hs'
    cases hput
    have hthrottles := step_throttles hview.closing hinv s1 hs1
    have hinv1 := hthrottles.inv hinv
    have hcfg : (s.put i s1).cfg = s.cfg := hthrottles.cfg
    have haborted : (s.put i s1).aborted = false → s.aborted = false := by
      intro hnot
      by_contra hs
      unfold Ssh2.step at hs1
      rw [if_pos (show (s.conn v).aborted = true from Bool.eq_true_of_not_eq_false hs)] at hs1
      cases hs1
      exact hs hnot
    refine ⟨hinv1.frozen, fun v' hv' => ?_⟩
    rcases List.mem_or_eq_of_mem_set hv' with hold | rfl
    · exact (h.views v' hold).congr hcfg haborted
    · exact ⟨step_closing hview.closing s1 hs1, hinv1.maxwin, step_flow hview.flow hview.closing s1 hs1,
        step_ledger hview.ledger hview.closing s1 hs1⟩

theorem add_sound {begins : Conn} (h : Sound s) (hcfg : begins.cfg = s.cfg) (haborted : begins.aborted = false)
    (hbegins : Begins begins) : Sound (s.add begins) := by
  refine ⟨h.frozen, fun v hv => ?_⟩
  rcases List.mem_append.mp hv with hold | hnew
  · exact (h.views v hold).congr rfl id
  · cases List.mem_singleton.mp hnew
    have hbegun : ViewSound ⟨begins.cfg, begins.allChannelsThrottled, begins.connThrottleCount,
        begins.logicallyFrozen, begins.aborted, []⟩ begins.view := ⟨hbegins.closing, hbegins.maxwin, hbegins.flow,
      hbegins.ledger⟩
    exact hbegun.congr hcfg.symm fun _ => haborted

theorem step_sound {e : Event} (h : Sound s) : Ensures (s.step e) Sound := by
  unfold step
  split
  · next localid chan =>
    split
    · next hchan => exact ensures_ok.mpr (add_sound h rfl rfl (.open hchan.1 hchan.2))
    · exact ensures_ok.mpr h
  · next localid chan remoteid winsize pktsize =>
    split
    · next hchan => exact ensures_ok.mpr (add_sound h rfl rfl (.opened hchan.1 hchan.2))
    · exact ensures_ok.mpr h
  · exact ensures_ok.mpr h
  · next i m =>
    split
    · exact ensures_ok.mpr h
    · exact stepChannel_sound h
  · exact stepChannel_sound h
  · next throttled =>
    refine Ensures.foldlM ?_ ⟨h.frozen, fun v hv => (h.views v hv).congr rfl id⟩
    intro s' i _ h'
    exact stepChannel_sound h'

theorem empty_sound {cfg : Config} : Sound (empty cfg) :=
  ⟨⟨fun hfrozen => absurd hfrozen Bool.false_ne_true, fun hne => absurd rfl hne⟩, fun _ hv =>
    absurd hv List.not_mem_nil⟩

theorem run_sound {cfg : Config} {events : List Event} : Ensures (run (empty cfg) events) Sound :=
  Ensures.foldlM (fun _ _ _ h => step_sound h) empty_sound

/-- In every run, what is sent on a channel is a prefix of what was written to it, on each of the two streams, and
never more than the server allows, in all and in each packet. EOF is sent once all is sent, or after the server has
closed the channel. Unless EOF was sent, the rest waits in the buffers, and only where there is no window for it, or
where all of it was written before the channel was opened. -/
theorem run_flow {cfg : Config} {events : List Event} : Ensures (run (empty cfg) events) fun s =>
    ∀ v ∈ s.views, (∀ b, carried b v.trace <+: written b v.trace) ∧ carriedSize v.trace ≤ granted v.trace ∧
      Sized v.trace ∧
      (.sent .eof ∈ v.trace → .got .close ∈ v.trace ∨ ∀ b, carried b v.trace = written b v.trace) ∧
      ∀ c, v.channel = some c → c.sentEof = false →
        (∀ b, carried b v.trace ++ (c.buffer b).contents = written b v.trace) ∧
          (c.halfopen = false → c.remwindow = 0 ∨ c.backlog = 0 ∨ Fresh v.trace) := by
  refine run_sound.mono fun s h v hv => ?_
  obtain ⟨-, -, ⟨hinv, hprompt⟩, -⟩ := h.views v hv
  refine ⟨hinv.stream, hinv.window, hinv.sized, hinv.eof, fun c hc heof => ?_⟩
  exact ⟨(hinv.channel c hc).stream heof, fun hopen => or_assoc.mp (hprompt c hc hopen heof)⟩

theorem count_le_one {l : List Msg} {m : Msg} {R : Msg → Msg → Prop} (h : l.Pairwise R) (hm : ¬ R m m) :
    l.count m ≤ 1 := by
  by_contra hcount
  have htwice : (List.replicate 2 m).Sublist l := List.replicate_sublist_iff.mpr (by omega)
  have hpair := h.sublist htwice
  rw [List.replicate_succ, List.pairwise_cons] at hpair
  exact hm (hpair.1 m (List.mem_singleton.mpr rfl))

/-- In every run, no data is sent on a channel after EOF, and nothing after CLOSE. A channel is freed only if both
sides have sent CLOSE, it was not opened, or a downstream deleted it. While it is there, both have not sent CLOSE, and
after CLOSE was received and handled it waits for replies that the server sends late. -/
theorem run_closes {cfg : Config} {events : List Event} : Ensures (run (empty cfg) events) fun s =>
    ∀ v ∈ s.views, InOrder v.trace ∧ (sentMsgs v.trace).count .eof ≤ 1 ∧ (sentMsgs v.trace).count .close ≤ 1 ∧
      (v.channel = none → Gone v.trace) ∧
      ∀ c, v.channel = some c → v.calling ≠ some .close → .got .close ∈ v.trace →
        .sent .close ∉ v.trace ∧ c.chanreqs ≠ [] ∧ s.cfg.bugSendsLateRequestReply = true := by
  refine run_sound.mono fun s h v hv => ?_
  obtain ⟨⟨hinv, hsettled⟩, -, -, -⟩ := h.views v hv
  refine ⟨hinv.inOrder, count_le_one hinv.inOrder ?_, count_le_one hinv.inOrder ?_, hinv.gone, ?_⟩
  · rintro ⟨-, hstream⟩
    exact hstream rfl trivial
  · rintro ⟨hne, -⟩
    exact hne rfl
  · intro c hc hcalling hgot
    have hrcvd := (hsettled.got hgot).resolve_left hcalling c hc
    obtain ⟨hreqs, hbug⟩ := hsettled.waiting c hc hrcvd
    have hclosing := hinv.closing c hc
    exact ⟨fun hsent => hreqs (hclosing.sentClose (hclosing.close.mp hsent)).2, hreqs, hbug⟩

/-- The server lets us send three bytes, then two more. -/
def smallWindow : List Event := [
  .open 256 ⟨.forwarding, 0, true⟩,
  .channel 0 (.call (.write false [1, 2])),
  .channel 0 (.server (.openConfirmation 7 3 2)),
  .channel 0 (.returns 0),
  .channel 0 (.call (.write false [3, 4])),
  .channel 0 (.call .writeEof),
  .channel 0 (.server (.windowAdjust 2)),
  .channel 0 (.server .eof),
  .channel 0 (.returns 0),
  .channel 0 (.server .close)]

/-- The data is sent in packets of two bytes, as far as the window allows; the channel is freed at the end. -/
example : (run (empty ⟨false, false, false, false, 0x4000⟩) smallWindow).map
    (fun s => s.views.map fun v => (sentMsgs v.trace, v.channel.isNone)) =
      .ok [([.data [1, 2], .data [3], .data [4], .eof, .close], true)] := by
  rfl

end Connection

end PuttyNd.Ssh2
