import PuttyNd.Lib.Runs
import PuttyNd.Ssh2.Messages
import PuttyNd.Ssh2.Proofs.ThrottleProofs

/-!
# Proofs: the count of the channels that throttle a connection
-/

namespace PuttyNd.Ssh2

open Psftp CInt Outcome Runs

/-- The channel exists, and throttles the connection. -/
def View.throttles (v : View) : Bool :=
  match v.channel with
  | none => false
  | some c => c.throttlingConn

namespace Connection

variable {s s' : Connection} {v : View} {i : ℕ} {F : Prop}

/-- What holds of one channel of a connection -/
structure ViewInv (s : Connection) (v : View) : Prop where
  closing : CloseSound (s.conn v)
  maxwin : ∀ c, v.channel = some c → 0 ≤ c.locmaxwin
  active : HeldActive (s.conn v)

/-- The count is exact, and what throttles the connection is there to stop it. -/
structure CountInv (s : Connection) : Prop where
  count : s.connThrottleCount = s.views.countP View.throttles
  frozen : s.logicallyFrozen = true ↔ s.connThrottleCount ≠ 0
  views : ∀ v ∈ s.views, ViewInv s v

theorem held_conn : held (s.conn v) = if v.throttles then 1 else 0 := by
  unfold held View.throttles conn
  cases v.channel with
  | none => rfl
  | some c => rfl

theorem held_view {s : Conn} : held s = if s.view.throttles then 1 else 0 := by
  unfold held View.throttles Conn.view
  cases s.channel with
  | none => rfl
  | some c => rfl

/-- The count of the channels that throttle the connection, when one of them has changed -/
theorem countP_set_throttles {l : List View} {v v' : View} (hv : l[i]? = some v) :
    ((l.set i v').countP View.throttles : ℤ) =
      l.countP View.throttles - (if v.throttles then 1 else 0) + (if v'.throttles then 1 else 0) := by
  obtain ⟨hlt, rfl⟩ := List.getElem?_eq_some_iff.mp hv
  rw [List.countP_set hlt]
  have hle := List.boole_getElem_le_countP (p := View.throttles) hlt
  push_cast [Nat.cast_sub hle]
  rfl

/-- What holds of a channel does not depend on what the channels share. -/
theorem ViewInv.congr (h : ViewInv s v) (hcfg : s'.cfg = s.cfg) : ViewInv s' v := by
  obtain ⟨⟨⟨hinOrder, hclosing, hgone⟩, ⟨hwaiting, hclose, hgot, halive, hattached⟩⟩, hmaxwin, hactive⟩ := h
  refine ⟨⟨⟨hinOrder, hclosing, hgone⟩, ⟨?_, hclose, hgot, halive, hattached⟩⟩, hmaxwin, hactive⟩
  intro c hc hrcvd
  have hkept := hwaiting c hc hrcvd
  refine ⟨hkept.1, ?_⟩
  show s'.cfg.bugSendsLateRequestReply = true
  rw [hcfg]
  exact hkept.2

/-- A channel that throttles the connection does not lose its `Channel`. -/
def Keeps (s : Connection) (v : View) (e : Ssh2.Event) : Prop :=
  ∀ c, v.channel = some c → c.throttlingConn = true → ¬ Loses (s.conn v) e

theorem stepChannel_count {e : Ssh2.Event} (h : CountInv s)
    (hkeeps : ∀ v, s.views[i]? = some v → s.Keeps v e) :
    Ensures (s.stepChannel i e) CountInv := by
  unfold stepChannel
  split
  · exact ensures_ok.mpr h
  · next v hv =>
    obtain ⟨hlt, hget⟩ := List.getElem?_eq_some_iff.mp hv
    have hmem : v ∈ s.views := List.mem_of_getElem? hv
    have hview := h.views v hmem
    have hinv : Ssh2.CountInv (s.conn v) := ⟨h.frozen, hview.maxwin⟩
    intro s' hs'
    cases hstep : Ssh2.step (s.conn v) e with
    | error f =>
      rw [hstep] at hs'
      cases hs'
    | ok c' =>
      rw [hstep] at hs'
      cases hs'
      have hthrottles := step_throttles hview.closing hinv c' hstep
      have hkept := hkeeps v hv
      have hinv' := hthrottles.inv hinv
      have hcfg : (s.put i c').cfg = s.cfg := hthrottles.cfg
      refine ⟨?_, hinv'.frozen, ?_⟩
      · show c'.connThrottleCount = ((s.views.set i c'.view).countP View.throttles : ℤ)
        rw [countP_set_throttles hv, ← held_conn (s := s), ← held_view, ← h.count]
        rcases hthrottles.count hinv with hsame | ⟨hsame, hzero, hlost⟩
        · have hconn : (s.conn v).connThrottleCount = s.connThrottleCount := rfl
          omega
        · rw [hzero, hsame]
          have hnone : held (s.conn v) = 0 := by
            unfold held
            split
            · rfl
            · next c hc =>
              split
              · next hflag => exact absurd (hlost ⟨c, hc, hflag⟩) (hkept c hc hflag)
              · rfl
          rw [hnone, Int.sub_zero, Int.add_zero]
          rfl
      · intro v' hv'
        rcases List.mem_or_eq_of_mem_set hv' with hold | rfl
        · exact (h.views v' hold).congr hcfg
        · exact ⟨step_closing hview.closing c' hstep, hinv'.maxwin, hthrottles.active hinv hview.active hkept⟩

/-- A channel is added. -/
theorem add_count {begins : Conn} (h : CountInv s) (hcfg : begins.cfg = s.cfg) (hbegins : Begins begins) :
    CountInv (s.add begins) := by
  obtain ⟨c, hc, hflag, hmaxwin⟩ : ∃ c, begins.channel = some c ∧ c.throttlingConn = false ∧
      0 ≤ c.locmaxwin := by
    cases hbegins with
    | «open» hvt hfixed => exact ⟨_, rfl, rfl, Int.le_of_lt initialWindow_pos⟩
    | @opened cfg throttled count localid chan remoteid winsize pktsize hvt hfixed =>
      refine ⟨_, rfl, rfl, ?_⟩
      show 0 ≤ if chan.initialFixedWindowSize ≠ 0 then toInt32 chan.initialFixedWindowSize.toNat
        else initialWindow cfg
      split
      · rw [toInt32_of_fits (by omega) (by omega)]
        omega
      · exact Int.le_of_lt initialWindow_pos
  have hview : begins.view.throttles = false := by
    unfold View.throttles Conn.view
    simp only [hc]
    exact hflag
  refine ⟨?_, h.frozen, ?_⟩
  · show s.connThrottleCount = ((s.views ++ [begins.view]).countP View.throttles : ℤ)
    rw [List.countP_append, List.countP_singleton, hview, h.count]
    simp
  · intro v hv
    rcases List.mem_append.mp hv with hold | hnew
    · exact (h.views v hold).congr rfl
    · cases List.mem_singleton.mp hnew
      obtain ⟨⟨hinOrder, hclosing, hgone⟩, ⟨hwaiting, hclose, hgot, halive, hattached⟩⟩ := hbegins.closing
      refine ⟨⟨⟨hinOrder, hclosing, hgone⟩, ⟨?_, hclose, hgot, halive, hattached⟩⟩, ?_, ?_⟩
      · intro c' hc' hrcvd
        have hkept := hwaiting c' hc' hrcvd
        refine ⟨hkept.1, ?_⟩
        show s.cfg.bugSendsLateRequestReply = true
        rw [← hcfg]
        exact hkept.2
      · intro c' hc'
        cases hc.symm.trans hc'
        exact hmaxwin
      · intro c' hc' hflag'
        cases hc.symm.trans hc'
        rw [hflag] at hflag'
        cases hflag'

/-- No channel loses its `Channel` while it throttles the connection. -/
def ThrottleOk (s : Connection) : Event → Prop
  | .channel i e => ∀ v, s.views[i]? = some v → s.Keeps v e
  | _ => True

theorem keeps_throttleAll {throttled : Bool} : s.Keeps v (.throttleAllChannels throttled) := by
  rintro c _ _ ⟨_, _, hlost⟩
  exact hlost

theorem step_count {e : Event} (h : CountInv s) (hok : ThrottleOk s e) : Ensures (s.step e) CountInv := by
  unfold step
  split
  · next localid chan =>
    split
    · next hchan => exact ensures_ok.mpr (add_count h rfl (.open hchan.1 hchan.2))
    · exact ensures_ok.mpr h
  · next localid chan remoteid winsize pktsize =>
    split
    · next hchan => exact ensures_ok.mpr (add_count h rfl (.opened hchan.1 hchan.2))
    · exact ensures_ok.mpr h
  · exact ensures_ok.mpr h
  · next i m =>
    split
    · exact ensures_ok.mpr h
    · exact stepChannel_count h hok
  · exact stepChannel_count h hok
  · next throttled =>
    refine Ensures.foldlM ?_ ⟨h.count, h.frozen, fun v hv => (h.views v hv).congr rfl⟩
    intro s' i _ h'
    exact stepChannel_count h' fun v _ => keeps_throttleAll

theorem empty_count {cfg : Config} : CountInv (empty cfg) :=
  ⟨rfl, ⟨fun hfrozen => absurd hfrozen Bool.false_ne_true, fun hne => absurd rfl hne⟩, fun _ hv =>
    absurd hv List.not_mem_nil⟩

/-- As long as no channel loses its `Channel` while it throttles the connection, the count is the number of
the channels that do. What froze the connection is then a channel that is neither a zombie nor handed
over. -/
theorem run_count {cfg : Config} {events : List Event}
    (hall : AllSteps step ThrottleOk (empty cfg) events) :
    Ensures (run (empty cfg) events) fun s =>
      s.connThrottleCount = s.views.countP View.throttles ∧
      (s.logicallyFrozen = true ↔ ∃ v ∈ s.views, ∃ c, v.channel = some c ∧ c.throttlingConn = true) ∧
      ∀ v ∈ s.views, ∀ c, v.channel = some c → c.throttlingConn = true →
        ∃ chan, c.chan = some chan ∧ chan.vt ≠ .zombie := by
  refine (ensures_run (fun s e h hok => step_count h hok) empty_count hall).mono ?_
  intro s h
  refine ⟨h.count, ?_, ?_⟩
  · rw [h.frozen, h.count, Int.natCast_ne_zero, ← Nat.pos_iff_ne_zero, List.countP_pos_iff]
    constructor
    · rintro ⟨v, hv, hthrottles⟩
      unfold View.throttles at hthrottles
      split at hthrottles
      · cases hthrottles
      · next c hc => exact ⟨v, hv, c, hc, hthrottles⟩
    · rintro ⟨v, hv, c, hc, hflag⟩
      refine ⟨v, hv, ?_⟩
      unfold View.throttles
      simp only [hc]
      exact hflag
  · intro v hv c hc hflag
    exact (h.views v hv).active c hc hflag

/-- A channel fills its buffer and is then closed by the server. -/
def closedWhileFull : List Event := [
  .opened 0 ⟨.forwarding, 0, true⟩ 0 0 0,
  .channel 0 (.server (.data 0 [0])),
  .channel 0 (.returns 16385),
  .channel 0 (.server .close),
  .channel 0 (.returns 0)]

theorem run_count_small : ∃ s,
    run (empty ⟨false, false, false, false, 0x4000⟩) (closedWhileFull.take 3) = .ok s ∧
      s.connThrottleCount = s.views.countP View.throttles ∧
      (s.logicallyFrozen = true ↔ ∃ v ∈ s.views, ∃ c, v.channel = some c ∧ c.throttlingConn = true) ∧
      ∀ v ∈ s.views, ∀ c, v.channel = some c → c.throttlingConn = true →
        ∃ chan, c.chan = some chan ∧ chan.vt ≠ .zombie := by
  have hall : AllSteps step ThrottleOk (empty ⟨false, false, false, false, 0x4000⟩)
      (closedWhileFull.take 3) := by
    refine ⟨trivial, ?_, ?_, trivial⟩
    · intro v hv c hc hflag
      cases hv
      cases hc
      cases hflag
    · intro v hv c hc hflag
      cases hv
      cases hc
      cases hflag
  exact ⟨_, rfl, run_count hall _ rfl⟩

/-- The connection stays frozen, although it has no channel any more. -/
theorem closedWhileFull_frozen : ∃ s,
    run (empty ⟨false, false, false, false, 0x4000⟩) closedWhileFull = .ok s ∧
      s.connThrottleCount = 1 ∧ s.logicallyFrozen = true ∧
        s.views.all (fun v => v.channel.isNone) = true :=
  ⟨_, rfl, rfl, rfl, rfl⟩

end Connection

end PuttyNd.Ssh2
