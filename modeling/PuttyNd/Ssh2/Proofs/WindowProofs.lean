import PuttyNd.Lib.Runs
import PuttyNd.Ssh2.Proofs.StepProofs
import Mathlib.Algebra.BigOperators.Group.List.Basic
import Mathlib.Algebra.Order.Group.Int

/-!
# Proofs: the local window

`locwindow` is the window that the server may use once it has seen everything that was sent to it.
`remlocwin` leaves out what it has not acknowledged yet.
-/

namespace PuttyNd.Ssh2

open Psftp CInt Outcome Runs

/-- By how much the local window changes -/
def windowDelta : Trace → ℤ
  | .sent (.windowAdjust size) => size.toNat
  | .got (.data _ data) => -data.length
  | _ => 0

def windowSum (trace : List Trace) : ℤ := (trace.map windowDelta).sum

/-- What is added to `remlocwin` when the request is answered -/
def Handler.size : Handler → ℤ
  | .winadj size => size.toNat
  | .response => 0

def winadjTotal (chanreqs : List Handler) : ℤ := (chanreqs.map Handler.size).sum

/-- A `winadj` request is outstanding. -/
def Ssh2Channel.HasWinadj (c : Ssh2Channel) : Prop := ∃ size, Handler.winadj size ∈ c.chanreqs

/-- The accounting of the local window of a channel that began with the window `initial` -/
structure Accounts (initial : ℤ) (trace : List Trace) (c : Ssh2Channel) : Prop where
  window : c.locwindow = initial + windowSum trace
  remote : c.remlocwin = c.locwindow - winadjTotal c.chanreqs
  positive : ∀ size, Handler.winadj size ∈ c.chanreqs → 0 < size.toNat
  low : -2 ^ 31 ≤ c.remlocwin
  high : c.locwindow < 2 ^ 31
  maxwin : 0 < c.locmaxwin ∧ c.locmaxwin < 2 ^ 31

/-- The window of the channel, if it was not freed, is accounted for. -/
def WindowInv (initial : ℤ) (s : Conn) : Prop := ∀ c, s.channel = some c → Accounts initial s.trace c

/-! ## The condition -/

/-- `ssh2_set_window` takes its WINDOW_ADJUST as acknowledged at once. -/
def Pretends (cfg : Config) (c : Ssh2Channel) (newwin : ℤ) : Prop :=
  c.rcvdEof = false ∧ c.sentClose = false ∧
    (∀ chan, c.chan = some chan → chan.initialFixedWindowSize = 0) ∧
    (limitWindow cfg newwin).tdiv 2 ≥ c.locwindow ∧
    ¬ (limitWindow cfg newwin = c.locmaxwin ∧ ¬ cfg.bugChokesOnWinadj = true)

/-- The two kinds of adjustment do not overlap. -/
def NoOverlap (cfg : Config) (c : Ssh2Channel) (newwin : ℤ) : Prop :=
  Pretends cfg c newwin → ¬ c.HasWinadj

/-- No WINDOW_ADJUST of `sshfwd_unthrottle` is taken as acknowledged while a `winadj` is outstanding. -/
def UnthrottleOk (s : Conn) (c : Ssh2Channel) (bufsize : ℕ) : Prop :=
  let buflimit := if s.cfg.sshIsSimple then 0 else c.locmaxwin
  bufsize < buflimit → NoOverlap s.cfg c (buflimit - bufsize)

/-- When are the windows accounted for: no WINDOW_ADJUST is taken as acknowledged while a `winadj` is
outstanding, and there is not so much data that the numbers do not fit. -/
def WindowOk (s : Conn) (e : Event) : Prop :=
  ∀ c, s.channel = some c →
    match e with
    | .server (.data _ data) =>
      s.calling = none → c.sharectx = none → c.halfopen = false → -2 ^ 31 ≤ c.remlocwin - data.length
    | .returns bufsize =>
      s.calling = some .data → c.sharectx = none →
        let bufsize := if s.chan.isSome then bufsize else 0
        bufsize < 2 ^ 31 ∧ (bufsize < (growWindow c).locmaxwin →
          NoOverlap s.cfg (growWindow c) ((growWindow c).locmaxwin - bufsize))
    | .unthrottle bufsize => s.calling = none → UnthrottleOk s c bufsize
    | .stdoutUnthrottle bufsize => s.calling = none → UnthrottleOk s c bufsize
    | .windowOverrideRemoved =>
      ∀ chan, c.chan = some chan → chan.initialFixedWindowSize ≠ 0 → s.calling = some .data →
        NoOverlap s.cfg { c with chan := some { chan with initialFixedWindowSize := 0 } }
          (initialWindow s.cfg)
    | _ => True

/-! ## The steps -/

section Window

variable {initial : ℤ} {s s' : Conn} {c : Ssh2Channel} {trace t : List Trace} {newwin : ℤ}

theorem windowSum_append : windowSum (trace ++ t) = windowSum trace + windowSum t := by
  unfold windowSum
  rw [List.map_append, List.sum_append]

theorem windowSum_concat {x : Trace} : windowSum (trace ++ [x]) = windowSum trace + windowDelta x := by
  rw [windowSum_append]
  simp [windowSum]

theorem windowDelta_outgoing {x : Trace} (h : x.isOutgoing) : windowDelta x = 0 := by
  unfold Trace.isOutgoing at h
  split at h
  · rfl
  · rfl
  · rfl
  · rfl
  · rfl
  · rfl
  · cases h

theorem WindowInv.outgoing (h : WindowInv initial s) (hout : Outgoing s s') : WindowInv initial s' := by
  intro c' hc'
  obtain ⟨c, hc, heq, -⟩ := hout.channel c' hc'
  obtain ⟨t, ht, houtgoing⟩ := hout.trace
  have hsum : windowSum s'.trace = windowSum s.trace := by
    rw [ht, windowSum_append]
    have hzero : windowSum t = 0 := by
      unfold windowSum
      refine List.sum_eq_zero ?_
      intro z hz
      obtain ⟨x, hx, rfl⟩ := List.mem_map.mp hz
      exact windowDelta_outgoing (houtgoing x hx)
    rw [hzero, Int.add_zero]
  have hold := h c hc
  rw [heq]
  exact ⟨hsum ▸ hold.window, hold.remote, hold.positive, hold.low, hold.high, hold.maxwin⟩

/-- What does not change a window is noted. -/
theorem Accounts.note (h : Accounts initial trace c) {x : Trace} (hx : windowDelta x = 0) :
    Accounts initial (trace ++ [x]) c :=
  ⟨by rw [windowSum_concat, hx, Int.add_zero]; exact h.window, h.remote, h.positive, h.low, h.high,
    h.maxwin⟩

theorem winadjTotal_append {l l' : List Handler} :
    winadjTotal (l ++ l') = winadjTotal l + winadjTotal l' := by
  unfold winadjTotal
  rw [List.map_append, List.sum_append]

theorem winadjTotal_cons {h : Handler} {l : List Handler} :
    winadjTotal (h :: l) = h.size + winadjTotal l := by
  unfold winadjTotal
  rw [List.map_cons, List.sum_cons]

theorem Handler.size_nonneg {h : Handler} : 0 ≤ h.size := by
  cases h with
  | winadj size => exact Int.natCast_nonneg _
  | response => exact Int.le_refl _

theorem winadjTotal_nonneg {l : List Handler} : 0 ≤ winadjTotal l := by
  induction l with
  | nil => exact Int.le_refl _
  | cons h l ih =>
    rw [winadjTotal_cons]
    exact Int.add_nonneg Handler.size_nonneg ih

theorem winadjTotal_eq_zero (h : ¬ c.HasWinadj) : winadjTotal c.chanreqs = 0 := by
  unfold winadjTotal
  refine List.sum_eq_zero ?_
  intro z hz
  obtain ⟨x, hx, rfl⟩ := List.mem_map.mp hz
  cases x with
  | winadj size => exact absurd ⟨size, hx⟩ h
  | response => rfl

theorem limitWindow_bounds {cfg : Config} (hpos : 0 < newwin) (hlt : newwin < 2 ^ 31) :
    0 < limitWindow cfg newwin ∧ limitWindow cfg newwin < 2 ^ 31 := by
  unfold limitWindow
  split
  · exact ⟨by decide, by decide⟩
  · exact ⟨hpos, hlt⟩

/-- The window is enlarged, by a size that fits. -/
theorem enlarge_size (h : Accounts initial trace c) (hlt : newwin < 2 ^ 31) (hpos : 0 < newwin)
    (hlarge : newwin.tdiv 2 ≥ c.locwindow) :
    ((UInt32.ofInt (newwin - c.locwindow)).toNat : ℤ) = newwin - c.locwindow ∧
      c.locwindow < newwin := by
  have hlow := h.low
  have hremote := h.remote
  have hnonneg := winadjTotal_nonneg (l := c.chanreqs)
  rw [Int.tdiv_eq_ediv_of_nonneg (Int.le_of_lt hpos)] at hlarge
  refine ⟨?_, by omega⟩
  unfold UInt32.ofInt
  rw [UInt32.toNat_ofNat']
  omega

theorem enlargeWindow_inv (h : WindowInv initial s) (hc : s.channel = some c) (hlt : newwin < 2 ^ 31)
    (hpos : 0 < newwin) (hlarge : newwin.tdiv 2 ≥ c.locwindow)
    (hpretend : ¬ (newwin = c.locmaxwin ∧ ¬ s.cfg.bugChokesOnWinadj = true) → ¬ c.HasWinadj) :
    Ensures (enlargeWindow s c newwin) (WindowInv initial) := by
  have hold := h c hc
  obtain ⟨hsize, hgrows⟩ := enlarge_size hold hlt hpos hlarge
  have hlow := hold.low
  have hremote := hold.remote
  have hwindow := hold.window
  unfold enlargeWindow
  dsimp only
  split
  · refine askForAck_eq.bind ?_
    rintro s1 ⟨c1, state, hc1, rfl⟩
    cases hc.symm.trans hc1
    refine ensures_ok.mpr ?_
    rintro c' hc'
    cases hc'
    refine ⟨?_, ?_, ?_, hlow, hlt, hold.maxwin⟩
    · show newwin = initial + windowSum (s.trace ++ [_] ++ [_] ++ [_])
      rw [windowSum_concat, windowSum_concat, windowSum_concat]
      simp only [windowDelta, hsize]
      omega
    · show c.remlocwin = newwin - winadjTotal (c.chanreqs ++ [_])
      rw [winadjTotal_append, winadjTotal_cons]
      simp only [Handler.size, hsize, winadjTotal, List.map_nil, List.sum_nil] at hremote ⊢
      omega
    · intro size hmem
      rcases List.mem_append.mp hmem with hmem | hmem
      · exact hold.positive size hmem
      · cases List.mem_singleton.mp hmem
        omega
  · next hnot =>
    have hnone := winadjTotal_eq_zero (hpretend hnot)
    refine ensures_ok.mpr ?_
    rintro c' hc'
    cases hc'
    refine ⟨?_, ?_, hold.positive, ?_, hlt, hold.maxwin⟩
    · show newwin = initial + windowSum (s.trace ++ [_])
      rw [windowSum_concat]
      simp only [windowDelta, hsize]
      omega
    · show newwin = newwin - winadjTotal c.chanreqs
      omega
    · show -2 ^ 31 ≤ newwin
      omega

theorem setWindow_inv (h : WindowInv initial s) (hpos : 0 < newwin) (hlt : newwin < 2 ^ 31)
    (hok : ∀ c, s.channel = some c → NoOverlap s.cfg c newwin) :
    Ensures (ssh2SetWindow s newwin) (WindowInv initial) := by
  unfold ssh2SetWindow
  refine Conn.ensures_get.bind ?_
  intro c hc
  split
  · exact ensures_ok.mpr h
  · next hopen =>
    refine Ssh2Channel.ensures_getChan.bind ?_
    intro chan hchan
    split
    · exact ensures_ok.mpr h
    · next hfixed =>
      split
      · next hlarge =>
        obtain ⟨hpos', hlt'⟩ := @limitWindow_bounds _ s.cfg hpos hlt
        refine enlargeWindow_inv h hc hlt' hpos' hlarge ?_
        intro hnot
        refine hok c hc ⟨?_, ?_, ?_, hlarge, hnot⟩
        · simpa using fun hr => hopen (Or.inl hr)
        · simpa using fun hr => hopen (Or.inr hr)
        · intro chan' hchan'
          cases hchan.symm.trans hchan'
          simpa using hfixed
      · exact ensures_ok.mpr h

theorem throttleConn_window {adjust : ℤ} (h : WindowInv initial s) :
    Ensures (sshThrottleConn s adjust) (WindowInv initial) := by
  refine throttleConn_eq.mono ?_
  rintro s' ⟨frozen, rfl⟩
  exact h

/-- A change of the channel that does not touch the windows -/
theorem WindowInv.set (h : WindowInv initial s) {c' : Ssh2Channel} (hc : s.channel = some c)
    (hlocwindow : c'.locwindow = c.locwindow) (hremlocwin : c'.remlocwin = c.remlocwin)
    (hlocmaxwin : c'.locmaxwin = c.locmaxwin) (hchanreqs : c'.chanreqs = c.chanreqs) :
    WindowInv initial (s.set c') := by
  intro c'' hc''
  cases hc''
  have hold := h c hc
  refine ⟨hlocwindow ▸ hold.window, ?_, ?_, hremlocwin ▸ hold.low, hlocwindow ▸ hold.high,
    hlocmaxwin ▸ hold.maxwin⟩
  · rw [hremlocwin, hlocwindow, hchanreqs]
    exact hold.remote
  · rw [hchanreqs]
    exact hold.positive

theorem WindowInv.note (h : WindowInv initial s) {x : Trace} (hx : windowDelta x = 0) :
    WindowInv initial (s.note x) := fun c hc => (h c hc).note hx

theorem unthrottle_inv {bufsize : ℕ} (h : WindowInv initial s)
    (hok : ∀ c, s.channel = some c → UnthrottleOk s c bufsize) :
    Ensures (ssh2channelUnthrottle s bufsize) (WindowInv initial) := by
  unfold ssh2channelUnthrottle
  refine Conn.ensures_get.bind ?_
  intro c hc
  have hok := hok c hc
  unfold UnthrottleOk at hok
  have hmaxwin := (h c hc).maxwin
  have hlimit : (if s.cfg.sshIsSimple = true then 0 else c.locmaxwin) < 2 ^ 31 := by
    split
    · omega
    · omega
  dsimp only at hok ⊢
  generalize (if s.cfg.sshIsSimple = true then 0 else c.locmaxwin) = buflimit at hok hlimit ⊢
  have hset : Ensures (if (bufsize : ℤ) < buflimit then ssh2SetWindow s (buflimit - bufsize) else .ok s)
      (WindowInv initial) := by
    split
    · next hlt =>
      refine setWindow_inv h (by omega) (by omega) ?_
      intro c' hc'
      cases hc.symm.trans hc'
      exact hok hlt
    · exact ensures_ok.mpr h
  refine hset.bind ?_
  intro s1 h1
  refine Conn.ensures_get.bind ?_
  intro c1 hc1
  split
  · exact throttleConn_window (h1.set hc1 rfl rfl rfl rfl)
  · exact ensures_ok.mpr h1

theorem receiveData_inv {data : List UInt8} {extType : UInt32} (h : WindowInv initial s)
    (hok : ∀ c, s.channel = some c → -2 ^ 31 ≤ c.remlocwin - data.length) :
    Ensures (receiveData (s.note (.got (.data extType data))) data) (WindowInv initial) := by
  unfold receiveData
  refine Conn.ensures_get.bind ?_
  intro c hc
  refine callMethod_eq.mono ?_
  rintro s' ⟨-, rfl⟩
  intro c' hc'
  cases hc'
  have hold := h c hc
  have hfits := hok c hc
  have hremote := hold.remote
  have hhigh := hold.high
  have hwindow := hold.window
  have hnonneg := winadjTotal_nonneg (l := c.chanreqs)
  have hloc : toInt32 (c.locwindow - data.length) = c.locwindow - data.length :=
    toInt32_of_fits (by omega) (by omega)
  have hrem : toInt32 (c.remlocwin - data.length) = c.remlocwin - data.length :=
    toInt32_of_fits hfits (by omega)
  refine ⟨?_, ?_, hold.positive, ?_, ?_, hold.maxwin⟩
  · show toInt32 (c.locwindow - data.length) = initial + windowSum (s.trace ++ [_])
    rw [hloc, windowSum_concat]
    simp only [windowDelta]
    omega
  · show toInt32 (c.remlocwin - data.length) =
      toInt32 (c.locwindow - data.length) - winadjTotal c.chanreqs
    rw [hloc, hrem]
    omega
  · show -2 ^ 31 ≤ toInt32 (c.remlocwin - data.length)
    rw [hrem]
    exact hfits
  · show toInt32 (c.locwindow - data.length) < 2 ^ 31
    rw [hloc]
    omega

theorem growWindow_accounts (h : Accounts initial trace c) : Accounts initial trace (growWindow c) := by
  have hmaxwin := h.maxwin
  unfold growWindow
  split
  · next hgrow =>
    refine ⟨h.window, h.remote, h.positive, h.low, h.high, ?_⟩
    show 0 < c.locmaxwin + ourV2Winsize ∧ c.locmaxwin + ourV2Winsize < 2 ^ 31
    have hsize : ourV2Winsize = 16384 := rfl
    omega
  · exact h

theorem throttleIfFull_window {bufsize : ℤ} (h : WindowInv initial s) :
    Ensures (throttleIfFull s bufsize) (WindowInv initial) := by
  unfold throttleIfFull
  refine Conn.ensures_get.bind ?_
  intro c hc
  split
  · exact throttleConn_window (h.set hc rfl rfl rfl rfl)
  · exact ensures_ok.mpr h

theorem receiveDataRest_inv {bufsize : ℕ} (h : WindowInv initial s) (hfits : bufsize < 2 ^ 31)
    (hok : ∀ c, s.channel = some c → c.sharectx = none → (bufsize : ℤ) < (growWindow c).locmaxwin →
      NoOverlap s.cfg (growWindow c) ((growWindow c).locmaxwin - bufsize)) :
    Ensures (receiveDataRest s bufsize) (WindowInv initial) := by
  unfold receiveDataRest
  refine Conn.ensures_get.bind ?_
  intro c hc
  split
  · exact ensures_ok.mpr h
  · next hshare =>
    have hint : toInt32 (bufsize : ℤ) = bufsize := toInt32_of_fits (by omega) (by omega)
    have hgrown : WindowInv initial (s.set (growWindow c)) := by
      intro c' hc'
      cases hc'
      exact growWindow_accounts (h c hc)
    have hmaxwin := (growWindow_accounts (h c hc)).maxwin
    dsimp only
    rw [hint]
    have hset : Ensures (if (bufsize : ℤ) < (growWindow c).locmaxwin then
        ssh2SetWindow (s.set (growWindow c)) (toInt32 ((growWindow c).locmaxwin - bufsize))
        else .ok (s.set (growWindow c))) (WindowInv initial) := by
      split
      · next hlt =>
        rw [toInt32_of_fits (by omega) (by omega)]
        refine setWindow_inv hgrown (by omega) (by omega) ?_
        intro c' hc'
        cases hc'
        exact hok c hc (by simpa using hshare) hlt
      · exact ensures_ok.mpr hgrown
    refine hset.bind ?_
    intro s1 h1
    exact throttleIfFull_window h1

/-- A `winadj` is answered. -/
theorem winadjResponse_accounts {size : UInt32} {rest : List Handler}
    (h : Accounts initial trace c) (hreqs : c.chanreqs = .winadj size :: rest) :
    Accounts initial trace { winadjResponse c size with chanreqs := rest } := by
  have hremote := h.remote
  have hlow := h.low
  have hhigh := h.high
  have hnonneg := winadjTotal_nonneg (l := rest)
  rw [hreqs, winadjTotal_cons] at hremote
  have hsize : (Handler.winadj size).size = size.toNat := rfl
  have hrem : toInt32 (c.remlocwin + size.toNat) = c.remlocwin + size.toNat :=
    toInt32_of_fits (by omega) (by omega)
  refine ⟨h.window, ?_, ?_, ?_, h.high, h.maxwin⟩
  · show toInt32 (c.remlocwin + size.toNat) = c.locwindow - winadjTotal rest
    omega
  · intro size' hmem
    refine h.positive size' ?_
    rw [hreqs]
    exact List.mem_cons_of_mem _ hmem
  · show -2 ^ 31 ≤ toInt32 (c.remlocwin + size.toNat)
    omega

theorem responseRest_inv (h : ∀ c, s.channel = some c →
    Accounts initial s.trace { c with chanreqs := c.chanreqs.tail }) :
    Ensures (responseRest s) (WindowInv initial) := by
  unfold responseRest
  refine Conn.ensures_get.bind ?_
  intro c hc
  refine checkClose_outgoing.mono ?_
  intro s' hs'
  refine WindowInv.outgoing ?_ hs'
  intro c' hc'
  cases hc'
  exact h c hc

theorem WindowInv.free (h : s'.channel = none) : WindowInv initial s' := by
  intro c hc
  rw [h] at hc
  cases hc

theorem abandonRequests_inv {hs : List Handler} (h : WindowInv initial s)
    (hreqs : ∀ c, s.channel = some c → c.chanreqs = hs) :
    Ensures (abandonRequests hs s) (WindowInv initial) := by
  induction hs generalizing s with
  | nil => exact ensures_ok.mpr h
  | cons handler hs ih =>
    unfold abandonRequests
    refine Conn.ensures_get.bind ?_
    intro c hc
    cases handler with
    | winadj size =>
      refine ih ?_ ?_
      · intro c' hc'
        cases hc'
        exact (winadjResponse_accounts (h c hc) (hreqs c hc)).note rfl
      · intro c' hc'
        cases hc'
        rfl
    | response => exact ensures_error.mpr trivial

theorem receiveCloseRest_inv (h : WindowInv initial s) :
    Ensures (receiveCloseRest s) (WindowInv initial) := by
  unfold receiveCloseRest
  refine Conn.ensures_get.bind ?_
  intro c hc
  have habandon : Ensures (if s.cfg.bugSendsLateRequestReply = true then .ok s
      else abandonRequests c.chanreqs s) (WindowInv initial) := by
    split
    · exact ensures_ok.mpr h
    · refine abandonRequests_inv h ?_
      intro c' hc'
      cases hc.symm.trans hc'
      rfl
  refine habandon.bind ?_
  intro s1 h1
  refine closeOutgoing_outgoing.bind ?_
  intro s2 h2
  have h2 := h1.outgoing h2
  refine Conn.ensures_get.bind ?_
  intro c2 hc2
  split
  · exact ensures_ok.mpr h2
  · refine checkClose_outgoing.mono ?_
    intro s3 h3
    refine WindowInv.outgoing ?_ h3
    exact h2.set hc2 rfl rfl rfl rfl

theorem methodReturns_inv {rest : Rest} {bufsize : ℕ} (h : WindowInv initial s)
    (hresponding : Responding s) (hcalling : s.calling = some rest)
    (hok : rest = .data → ∀ c, s.channel = some c → c.sharectx = none →
      bufsize < 2 ^ 31 ∧ ((bufsize : ℤ) < (growWindow c).locmaxwin →
        NoOverlap s.cfg (growWindow c) ((growWindow c).locmaxwin - bufsize))) :
    Ensures (methodReturns s rest bufsize) (WindowInv initial) := by
  have hnone : WindowInv initial { s with calling := none } := h
  unfold methodReturns
  cases rest with
  | openConfirmation => exact openConfirmationRest_outgoing.mono fun s' hs' => hnone.outgoing hs'
  | data =>
    have hok := hok rfl
    by_cases hshare : ∃ c, s.channel = some c ∧ c.sharectx = none
    · obtain ⟨c, hc, hsharectx⟩ := hshare
      refine receiveDataRest_inv hnone (hok c hc hsharectx).1 ?_
      intro c' hc' hshare'
      exact (hok c' hc' hshare').2
    · dsimp only
      unfold receiveDataRest
      refine Conn.ensures_get.bind ?_
      intro c hc
      rw [if_pos]
      · exact ensures_ok.mpr hnone
      · have hne : c.sharectx ≠ none := fun hnone => hshare ⟨c, hc, hnone⟩
        exact Option.isSome_iff_ne_none.mpr hne
  | response =>
    refine responseRest_inv ?_
    intro c hc
    obtain ⟨rest, hrest⟩ := hresponding hcalling c hc
    have hold := h c hc
    have hremote := hold.remote
    rw [hrest, winadjTotal_cons] at hremote
    refine ⟨hold.window, ?_, ?_, hold.low, hold.high, hold.maxwin⟩
    · show c.remlocwin = c.locwindow - winadjTotal c.chanreqs.tail
      rw [hremote, hrest]
      show c.locwindow - (0 + winadjTotal rest) = c.locwindow - winadjTotal rest
      rw [Int.zero_add]
    · intro size hmem
      exact hold.positive size (List.mem_of_mem_tail hmem)
  | eof => exact checkClose_outgoing.mono fun s' hs' => hnone.outgoing hs'
  | close => exact receiveCloseRest_inv hnone

theorem receiveResponse_inv {success : Bool} (h : WindowInv initial s) :
    Ensures (receiveResponse s success) (WindowInv initial) := by
  unfold receiveResponse
  refine Conn.ensures_get.bind ?_
  intro c hc
  split
  · exact ensures_ok.mpr h
  · next handler rest hreqs =>
    unfold handleResponse
    cases handler with
    | winadj size =>
      refine responseRest_inv ?_
      intro c' hc'
      cases hc'
      have htail : (winadjResponse c size).chanreqs.tail = rest := by
        show c.chanreqs.tail = rest
        rw [hreqs]
        rfl
      rw [htail]
      exact (winadjResponse_accounts (h c hc) hreqs).note rfl
    | response =>
      refine Ssh2Channel.ensures_getChan.bind ?_
      intro chan _
      split
      · refine callMethod_eq.mono ?_
        rintro s' ⟨-, rfl⟩
        exact h.note rfl
      · exact ensures_error.mpr trivial

/-- A message is handled that has nothing to do with the window. -/
theorem receive_inv {m : ServerMsg} (h : WindowInv initial s)
    (hok : ∀ extType data, m = .data extType data → ∀ c, s.channel = some c →
      -2 ^ 31 ≤ c.remlocwin - data.length) :
    Ensures (receive (s.note (.got m)) m) (WindowInv initial) := by
  have hgot : (∀ extType data, m ≠ .data extType data) → WindowInv initial (s.note (.got m)) := by
    intro hm
    refine h.note ?_
    cases m with
    | data extType data => exact absurd rfl (hm extType data)
    | _ => rfl
  have hcalled : ∀ {s1 : Conn} {rest : Rest}, WindowInv initial s1 →
      Ensures (callMethod s1 rest) (WindowInv initial) := by
    intro s1 rest h1
    refine callMethod_eq.mono ?_
    rintro s' ⟨-, rfl⟩
    exact h1
  cases m with
  | openConfirmation remoteid remwindow remmaxpkt =>
    show Ensures (openConfirmation _ remoteid remwindow remmaxpkt) _
    unfold openConfirmation
    refine Conn.ensures_get.bind ?_
    intro c hc
    refine hcalled ?_
    exact WindowInv.set (c := c) ((hgot nofun).note rfl) hc rfl rfl rfl rfl
  | openFailure =>
    show Ensures (openFailure _) _
    unfold openFailure
    refine Conn.ensures_get.bind ?_
    intro c _
    refine Ssh2Channel.ensures_getChan.bind ?_
    intro chan _
    exact ensures_ok.mpr (.free rfl)
  | data extType data => exact receiveData_inv h (hok extType data rfl)
  | windowAdjust size =>
    show Ensures (receiveWindowAdjust _ size) _
    unfold receiveWindowAdjust
    refine Conn.ensures_get.bind ?_
    intro c hc
    split
    · exact ensures_ok.mpr (hgot nofun)
    · refine trySendAndUnthrottle_outgoing.mono ?_
      intro s' hs'
      refine WindowInv.outgoing ?_ hs'
      exact (hgot nofun).set hc rfl rfl rfl rfl
  | request wantReply success =>
    show Ensures (receiveRequest _ wantReply success) _
    unfold receiveRequest
    refine Conn.ensures_get.bind ?_
    intro c _
    refine Ssh2Channel.ensures_getChan.bind ?_
    intro chan _
    split
    · refine ensures_ok.mpr ((hgot nofun).note ?_)
      split
      · rfl
      · rfl
    · exact ensures_ok.mpr (hgot nofun)
  | success => exact receiveResponse_inv (hgot nofun)
  | failure => exact receiveResponse_inv (hgot nofun)
  | eof =>
    show Ensures (receiveEof _) _
    unfold receiveEof
    refine Conn.ensures_get.bind ?_
    intro c hc
    split
    · exact ensures_ok.mpr (hgot nofun)
    · exact hcalled ((hgot nofun).set hc rfl rfl rfl rfl)
  | close =>
    show Ensures (receiveClose _) _
    unfold receiveClose
    refine Conn.ensures_get.bind ?_
    intro c hc
    split
    · exact receiveCloseRest_inv (hgot nofun)
    · exact hcalled ((hgot nofun).set hc rfl rfl rfl rfl)

theorem callStep_inv {k : Call} (h : WindowInv initial s) :
    Ensures (callStep s k) (WindowInv initial) := by
  cases k with
  | write isStderr data => exact write_outgoing.mono fun s' hs' => h.outgoing hs'
  | writeEof => exact writeEof_outgoing.mono fun s' hs' => h.outgoing hs'
  | chanreq type wantReply =>
    refine chanreqInit_eq.mono ?_
    rintro s' ⟨c, hc, -, -, rfl⟩
    cases wantReply with
    | false => exact h.note rfl
    | true =>
      intro c' hc'
      cases hc'
      have hold := ((h c hc).note (x := .sent (.request type true)) rfl).note (x := .asked .response) rfl
      refine ⟨hold.window, ?_, ?_, hold.low, hold.high, hold.maxwin⟩
      · show c.remlocwin = c.locwindow - winadjTotal (c.chanreqs ++ [.response])
        rw [winadjTotal_append]
        show c.remlocwin = c.locwindow - (winadjTotal c.chanreqs + 0)
        rw [Int.add_zero]
        exact hold.remote
      · intro size hmem
        rcases List.mem_append.mp hmem with hmem | hmem
        · exact hold.positive size hmem
        · cases List.mem_singleton.mp hmem

theorem step_window {e : Event} (h : WindowInv initial s ∧ Responding s) (hok : WindowOk s e) :
    Ensures (step s e) (WindowInv initial) := by
  obtain ⟨h, hresponding⟩ := h
  apply step_rule (R := fun r => Ensures r (WindowInv initial))
  case hsame => exact ensures_ok.mpr h
  case haborted => exact ensures_ok.mpr h
  case hserver =>
    rintro m c rfl hcalling hc hshare hhalf
    refine receive_inv h ?_
    rintro extType data rfl c' hc'
    cases hc.symm.trans hc'
    exact hok c hc hcalling hshare hhalf
  case hreturns =>
    rintro bufsize rest rfl hcalling
    refine methodReturns_inv h hresponding hcalling ?_
    rintro rfl c hc hshare
    exact hok c hc hcalling hshare
  case hcall =>
    intro k _
    exact callStep_inv h
  case hclose =>
    intro chan _ _ _
    refine initiateClose_outgoing.mono ?_
    rintro s' ⟨c, chan', hc, -, hout⟩
    refine WindowInv.outgoing ?_ hout
    exact h.set hc rfl rfl rfl rfl
  case hunthrottle =>
    intro bufsize c he hc hcalling
    refine unthrottle_inv h ?_
    intro c' hc'
    rcases he with rfl | rfl
    · exact hok c' hc' hcalling
    · exact hok c' hc' hcalling
  case hoverride =>
    rintro c chan rfl hc hchan hvt hfixed hcalling
    have hset := @WindowInv.set _ _ _ h { c with chan := some { chan with initialFixedWindowSize := 0 } } hc rfl
      rfl rfl rfl
    unfold ssh2channelWindowOverrideRemoved
    rw [Conn.get_set, ok_bind, Ssh2Channel.getChan_eq rfl, ok_bind, if_neg (by simp)]
    refine setWindow_inv hset ?_ ?_ ?_
    · show 0 < initialWindow s.cfg
      unfold initialWindow
      split
      · decide
      · decide
    · show initialWindow s.cfg < 2 ^ 31
      unfold initialWindow
      split
      · decide
      · decide
    · intro c' hc'
      cases hc'
      exact hok c hc chan hchan hfixed hcalling
  case hhandover =>
    intro shareCs c chan _ hc _ _ _ _
    unfold ssh2channelX11SharingHandover
    rw [Conn.get_eq hc, ok_bind]
    exact ensures_ok.mpr (h.set hc rfl rfl rfl rfl)
  case hdelete =>
    intro c _ _ _ _
    refine destroy_eq.mono ?_
    rintro s' ⟨rfl, -⟩
    exact .free rfl
  case hthrottle =>
    intro throttled _
    refine ⟨ensures_ok.mpr h, ?_⟩
    intro c _ _
    exact checkThrottle_outgoing.mono fun s' hs' =>
      WindowInv.outgoing (s := { s with allChannelsThrottled := throttled }) h hs'
  case hdangling =>
    intro _
    exact ensures_error.mpr trivial

end Window

/-! ## Runs -/

theorem Begins.calling {s : Conn} (h : Begins s) : s.calling = none := by
  cases h with
  | «open» hvt hfixed => rfl
  | opened hvt hfixed => rfl

theorem initialWindow_bounds {cfg : Config} : 0 < initialWindow cfg ∧ initialWindow cfg < 2 ^ 31 := by
  unfold initialWindow
  split
  · exact ⟨by decide, by decide⟩
  · exact ⟨by decide, by decide⟩

theorem Begins.window {s : Conn} {c : Ssh2Channel} (h : Begins s) (hc : s.channel = some c) :
    WindowInv c.locwindow s := by
  cases h with
  | @«open» cfg =>
    cases hc
    intro c' hc'
    cases hc'
    have hbounds := @initialWindow_bounds cfg
    refine ⟨(Int.add_zero _).symm, (Int.sub_zero _).symm, nofun, ?_, hbounds.2, hbounds⟩
    show -2 ^ 31 ≤ initialWindow cfg
    omega
  | @opened cfg throttled count localid chan remoteid winsize pktsize hvt hfixed =>
    cases hc
    intro c' hc'
    cases hc'
    have hwindow : ∀ window, window = (if chan.initialFixedWindowSize ≠ 0 then
        toInt32 chan.initialFixedWindowSize.toNat else initialWindow cfg) →
        0 < window ∧ window < 2 ^ 31 := by
      rintro window rfl
      split
      · next hne =>
        have hpos : chan.initialFixedWindowSize.toNat ≠ 0 := fun hzero =>
          hne (UInt32.toNat_inj.mp hzero)
        rw [toInt32_of_fits (by omega) (by omega)]
        omega
      · exact initialWindow_bounds
    have hbounds := hwindow _ rfl
    refine ⟨(Int.add_zero _).symm, (Int.sub_zero _).symm, nofun, ?_, hbounds.2, hbounds⟩
    exact Int.le_trans (by decide) (Int.le_of_lt hbounds.1)

/-- As long as no WINDOW_ADJUST is taken as acknowledged while a `winadj` is outstanding, `locwindow` is the
initial window, with what we added to it and without the data that we received; `remlocwin` is never larger,
and is the same when no `winadj` is outstanding. -/
theorem run_window {s₀ : Conn} {c₀ : Ssh2Channel} {events : List Event} (hbegins : Begins s₀)
    (hc₀ : s₀.channel = some c₀) (hall : AllSteps step WindowOk s₀ events) :
    Ensures (run s₀ events) fun s => ∀ c, s.channel = some c →
      c.locwindow = c₀.locwindow + windowSum s.trace ∧
      c.remlocwin ≤ c.locwindow ∧ (¬ c.HasWinadj → c.remlocwin = c.locwindow) := by
  have hrun : Ensures (run s₀ events) fun s => WindowInv c₀.locwindow s ∧ Responding s := by
    refine ensures_run ?_ ⟨hbegins.window hc₀, .of_none hbegins.calling⟩ hall
    intro s e h hok s' hs'
    exact ⟨step_window h hok s' hs', step_responding h.2 s' hs'⟩
  refine hrun.mono ?_
  rintro s ⟨hinv, -⟩ c hc
  obtain ⟨hwindow, hremote, -, -, -, -⟩ := hinv c hc
  have hnonneg := winadjTotal_nonneg (l := c.chanreqs)
  refine ⟨hwindow, by omega, ?_⟩
  intro hnone
  rw [hremote, winadjTotal_eq_zero hnone, Int.sub_zero]

/-- A connection with a forwarding that the server opens -/
def forwardingConn : Conn :=
  connOpened ⟨false, false, false, false, 0x4000⟩ false 0 0 ⟨.forwarding, 0, true⟩ 0 0 0

theorem forwardingConn_begins : Begins forwardingConn := .opened rfl (by decide)

theorem run_window_small : Ensures (run forwardingConn [.server (.data 0 [1, 2, 3]), .returns 0])
    fun s => ∀ c, s.channel = some c →
      c.locwindow = 16384 + windowSum s.trace ∧
      c.remlocwin ≤ c.locwindow ∧ (¬ c.HasWinadj → c.remlocwin = c.locwindow) := by
  refine run_window forwardingConn_begins rfl ⟨?_, ?_, trivial⟩
  · intro c hc _ _ _
    cases hc
    decide
  · intro c hc _ _
    cases hc
    refine ⟨by decide, fun _ _ hmem => ?_⟩
    obtain ⟨size, hmem⟩ := hmem
    exact absurd hmem List.not_mem_nil

/-- Data uses up half of the window, and then more than half of it, while a byte is still buffered. -/
def lateAckEvents (data data' : List UInt8) : List Event :=
  [.server (.data 0 data), .returns 0, .server (.data 0 data'), .returns 1, .server .failure]

/-- The reply to the `winadj` is added to a window that was taken as acknowledged since. -/
theorem run_lateAck {data data' : List UInt8} (h : data.length = 8192) (h' : data'.length = 8193) :
    ∃ s c, run forwardingConn (lateAckEvents data data') = .ok s ∧ s.channel = some c ∧
      ¬ c.HasWinadj ∧ c.locwindow < c.remlocwin := by
  have hsize : (UInt32.ofInt 8192).toNat = 8192 := by decide +kernel
  have hdata : ∀ id data, (ServerMsg.data id data).expectHalfopen = false := fun _ _ => rfl
  have hsuccess : ServerMsg.failure.expectHalfopen = false := rfl
  simp only [run, lateAckEvents, forwardingConn, connOpened, connOpen, channelOpened, ssh2ChannelInit,
    initialWindow, ourV2Winsize, step, serverStep, hdata, hsuccess, receive, receiveData,
    callMethod, methodReturns, receiveDataRest, growWindow, ssh2SetWindow, limitWindow, enlargeWindow,
    askForAck, ssh2ChanreqInit, throttleIfFull, pretendAck, receiveResponse, handleResponse, responseRest,
    winadjResponse, ssh2ChannelCheckClose, chanWantClose, Ssh2Channel.getChan, Ssh2Channel.HasWinadj,
    Conn.get, Conn.set, Conn.note, Conn.chan, Conn.push, toInt32, hsize, h, h',
    bind, Except.bind, pure, Except.pure, Except.ok.injEq, Option.some.injEq, Option.isSome_none,
    Option.isSome_some, List.foldlM_cons, List.foldlM_nil, List.cons_append, List.nil_append,
    List.tail_cons, List.not_mem_nil, Bool.false_eq_true, Bool.and_self, ↓reduceIte, reduceCtorEq,
    decide_false, ne_eq, not_true_eq_false, not_false_eq_true, not_exists, and_self, and_true,
    false_and, or_self, or_false, implies_true, exists_and_left, exists_eq_left', gt_iff_lt, ge_iff_le,
    UInt32.not_lt_zero, lt_self_iff_false, Std.le_refl, sub_zero, zero_lt_one, zero_le_one,
    Left.neg_nonpos_iff, Nat.cast_zero, Nat.cast_one, Nat.cast_ofNat, Nat.reducePow, Nat.reduceEqDiff,
    OfNat.ofNat_eq_ofNat, Int.zero_bmod, Int.reduceSub, Int.reduceAdd, Int.reduceNeg, Int.reduceBmod,
    Int.reduceLE, Int.reduceLT, Int.reduceTDiv]

/-- `remlocwin` is larger than `locwindow`, although no `winadj` is outstanding. -/
theorem lateAck_overestimates : ∃ s c,
    run forwardingConn (lateAckEvents (.replicate 8192 0) (.replicate 8193 0)) = .ok s ∧
      s.channel = some c ∧ ¬ c.HasWinadj ∧ c.locwindow < c.remlocwin :=
  run_lateAck List.length_replicate List.length_replicate

end PuttyNd.Ssh2
