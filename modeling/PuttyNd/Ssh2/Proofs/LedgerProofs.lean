import PuttyNd.Ssh2.Proofs.FlowProofs

/-!
# Proofs: channel requests and their replies

Handlers are called in the order in which their requests were sent, each with the reply that comes next, or with NULL
when the channel is closed.
-/

namespace PuttyNd.Ssh2

open Psftp CInt Outcome Runs

/-! ## Requests in a trace -/

/-- The handlers that were called -/
def handledBy (trace : List Trace) : List Handler :=
  trace.filterMap fun
    | .handled h _ => some h
    | _ => none

/-- What they were called with -/
def results (trace : List Trace) : List (Option Bool) :=
  trace.filterMap fun
    | .handled _ reply => some reply
    | _ => none

/-- The replies that the server has sent -/
def gotAnswers (trace : List Trace) : List Bool :=
  trace.filterMap fun
    | .got .success => some true
    | .got .failure => some false
    | _ => none

/-- The requests whose handlers were not called yet; while the method for a response runs, its handler was. -/
def outstanding (calling : Option Rest) (c : Ssh2Channel) : List Handler :=
  if calling = some .response then c.chanreqs.tail else c.chanreqs

/-- What is known of the requests of a channel -/
structure Ledger (s : Conn) : Prop where
  waiting : ∀ c, s.channel = some c → asked s.trace = handledBy s.trace ++ outstanding s.calling c
  gone : s.channel = none → asked s.trace = handledBy s.trace ∨ .got .openFailure ∈ s.trace
  results : ∃ answered n, results s.trace = answered.map some ++ List.replicate n none ∧
    answered <+: gotAnswers s.trace ∧ (s.aborted = false → answered = gotAnswers s.trace)
  abandoned : none ∈ Ssh2.results s.trace →
    s.channel = none ∧ .got .close ∈ s.trace ∧ s.cfg.bugSendsLateRequestReply = false
  responding : Responding s

variable {s s' : Conn} {c c' : Ssh2Channel} {trace t : List Trace} {e : Event}

theorem asked_append : asked (trace ++ t) = asked trace ++ asked t := List.filterMap_append

theorem handledBy_append : handledBy (trace ++ t) = handledBy trace ++ handledBy t := List.filterMap_append

theorem results_append : results (trace ++ t) = results trace ++ results t := List.filterMap_append

theorem gotAnswers_append : gotAnswers (trace ++ t) = gotAnswers trace ++ gotAnswers t := List.filterMap_append

/-- A note that says nothing of requests -/
def Trace.isIdle : Trace → Prop
  | .asked _ => False
  | .handled _ _ => False
  | .got .success => False
  | .got .failure => False
  | _ => True

theorem Trace.isOutgoing.idle {x : Trace} (h : x.isOutgoing) : x.isIdle := by
  cases x with
  | got m => exact h.elim
  | asked handler => exact h.elim
  | handled handler reply => exact h.elim
  | _ => trivial

/-- A note that says at most that a request was sent -/
def Trace.isAsking : Trace → Prop
  | .asked _ => True
  | x => x.isIdle

theorem Trace.isIdle.asking {x : Trace} (h : x.isIdle) : x.isAsking := by
  unfold isAsking
  split
  · trivial
  · exact h

theorem asking_eq (trace : List Trace) (ht : ∀ x ∈ t, x.isAsking) : handledBy (trace ++ t) = handledBy trace ∧
    results (trace ++ t) = results trace ∧ gotAnswers (trace ++ t) = gotAnswers trace := by
  have hnil : handledBy t = [] ∧ results t = [] ∧ gotAnswers t = [] := by
    refine ⟨?_, ?_, ?_⟩
    · refine List.filterMap_eq_nil_iff.mpr fun x hx => ?_
      split
      · exact (ht _ hx).elim
      · rfl
    · refine List.filterMap_eq_nil_iff.mpr fun x hx => ?_
      split
      · exact (ht _ hx).elim
      · rfl
    · refine List.filterMap_eq_nil_iff.mpr fun x hx => ?_
      split
      · exact (ht _ hx).elim
      · exact (ht _ hx).elim
      · rfl
  obtain ⟨hhandled, hresults, hgot⟩ := hnil
  rw [handledBy_append, results_append, gotAnswers_append, hhandled, hresults, hgot]
  exact ⟨List.append_nil _, List.append_nil _, List.append_nil _⟩

theorem asked_idle (trace : List Trace) (ht : ∀ x ∈ t, x.isIdle) : asked (trace ++ t) = asked trace := by
  have hnil : asked t = [] := by
    refine List.filterMap_eq_nil_iff.mpr fun x hx => ?_
    split
    · exact (ht _ hx).elim
    · rfl
  rw [asked_append, hnil, List.append_nil]

/-! ## What leaves the requests alone -/

/-- The requests stay the same; a channel is freed only if there are none. -/
structure Idle (s s' : Conn) : Prop where
  trace : ∃ t, s'.trace = s.trace ++ t ∧ ∀ x ∈ t, x.isIdle
  cfg : s'.cfg = s.cfg
  aborted : s'.aborted = s.aborted
  calling : s'.calling = s.calling
  channel : ∀ c', s'.channel = some c' → ∃ c, s.channel = some c ∧ c'.chanreqs = c.chanreqs
  freed : s'.channel = none → s.channel = none ∨ ∃ c, s.channel = some c ∧ c.chanreqs = []

theorem Ledger.idle (h : Ledger s) (hs : Idle s s') : Ledger s' := by
  obtain ⟨⟨t, ht, hidle⟩, hcfg, haborted, hcalling, hchannel, hfreed⟩ := hs
  have hasked := asked_idle s.trace hidle
  obtain ⟨hhandled, hresults, hgot⟩ := asking_eq s.trace fun x hx => (hidle x hx).asking
  rw [← ht] at hasked hhandled hresults hgot
  have hkept : ∀ {x}, x ∈ s.trace → x ∈ s'.trace := by
    intro x hx
    rw [ht]
    exact List.mem_append_left _ hx
  refine ⟨fun c' hc' => ?_, fun hnone => ?_, ?_, fun hnull => ?_, fun hrunning c' hc' => ?_⟩
  · obtain ⟨c, hc, hreqs⟩ := hchannel c' hc'
    rw [hasked, hhandled, hcalling, outstanding, hreqs]
    exact h.waiting c hc
  · rw [hasked, hhandled]
    rcases hfreed hnone with hnone' | ⟨c, hc, hreqs⟩
    · exact (h.gone hnone').imp id hkept
    · have hwaiting := h.waiting c hc
      have hnil : outstanding s.calling c = [] := by
        rw [outstanding, hreqs]
        exact ite_self _
      rw [hnil, List.append_nil] at hwaiting
      exact .inl hwaiting
  · rw [hresults, hgot, haborted]
    exact h.results
  · rw [hresults] at hnull
    obtain ⟨hnone, hclose, hbug⟩ := h.abandoned hnull
    refine ⟨?_, hkept hclose, hcfg ▸ hbug⟩
    cases hchannel' : s'.channel with
    | none => rfl
    | some c' =>
      obtain ⟨c, hc, -⟩ := hchannel c' hchannel'
      cases hnone.symm.trans hc
  · obtain ⟨c, hc, hreqs⟩ := hchannel c' hc'
    rw [hreqs]
    exact h.responding (hcalling ▸ hrunning) c hc

theorem Ledger.ensures {r : Except Fault Conn} (h : Ledger s) (hr : Ensures r (Idle s)) : Ensures r Ledger :=
  hr.mono fun _ hs' => h.idle hs'

theorem Idle.trans {s'' : Conn} (h : Idle s s') (h' : Idle s' s'') : Idle s s'' := by
  obtain ⟨t, ht, hidle⟩ := h.trace
  obtain ⟨t', ht', hidle'⟩ := h'.trace
  refine ⟨⟨t ++ t', by rw [ht', ht, List.append_assoc], fun x hx => ?_⟩, h'.cfg.trans h.cfg,
    h'.aborted.trans h.aborted, h'.calling.trans h.calling, fun c'' hc'' => ?_, fun hnone => ?_⟩
  · rcases List.mem_append.mp hx with hx | hx
    · exact hidle x hx
    · exact hidle' x hx
  · obtain ⟨c', hc', hreqs'⟩ := h'.channel c'' hc''
    obtain ⟨c, hc, hreqs⟩ := h.channel c' hc'
    exact ⟨c, hc, hreqs'.trans hreqs⟩
  · rcases h'.freed hnone with hnone | ⟨c', hc', hnil⟩
    · exact h.freed hnone
    · obtain ⟨c, hc, hreqs⟩ := h.channel c' hc'
      exact .inr ⟨c, hc, hreqs.symm.trans hnil⟩

theorem Outgoing.idle (h : Outgoing s s') : Idle s s' := by
  obtain ⟨t, ht, houtgoing⟩ := h.trace
  refine ⟨⟨t, ht, fun x hx => (houtgoing x hx).idle⟩, ?_, ?_, h.calling, fun c' hc' => ?_, fun hnone => ?_⟩
  · rw [h.rest]
  · rw [h.rest]
  · obtain ⟨c, hc, heq, -⟩ := h.channel c' hc'
    refine ⟨c, hc, ?_⟩
    rw [heq]
    rfl
  · rcases h.freed hnone with hnone | ⟨c, hc, -, hreqs⟩
    · exact .inl hnone
    · exact .inr ⟨c, hc, hreqs⟩

theorem Idle.set (hc : s.channel = some c) (hreqs : c'.chanreqs = c.chanreqs) : Idle s (s.set c') :=
  ⟨⟨[], (List.append_nil _).symm, fun _ hx => (nomatch hx)⟩, rfl, rfl, rfl,
    fun _ hc' => ⟨c, hc, Option.some.inj hc' ▸ hreqs⟩, nofun⟩

theorem Idle.note {x : Trace} (hx : x.isIdle) : Idle s (s.note x) :=
  ⟨⟨[x], rfl, fun _ hy => List.mem_singleton.mp hy ▸ hx⟩, rfl, rfl, rfl, fun c hc => ⟨c, hc, rfl⟩, .inl⟩

theorem Idle.free (hc : s.channel = some c) (hreqs : c.chanreqs = []) : Idle s { s with channel := none } :=
  ⟨⟨[], (List.append_nil _).symm, fun _ hx => (nomatch hx)⟩, rfl, rfl, rfl, fun _ hc => (nomatch hc),
    fun _ => .inr ⟨c, hc, hreqs⟩⟩

/-- Only what is not part of the channel changes. -/
theorem Idle.of_eq (htrace : s'.trace = s.trace) (hchannel : s'.channel = s.channel) (hcfg : s'.cfg = s.cfg)
    (haborted : s'.aborted = s.aborted) (hcalling : s'.calling = s.calling) : Idle s s' :=
  ⟨⟨[], htrace.trans (List.append_nil _).symm, fun _ hx => (nomatch hx)⟩, hcfg, haborted, hcalling,
    fun c hc => ⟨c, hchannel ▸ hc, rfl⟩, fun hnone => .inl (hchannel ▸ hnone)⟩

theorem throttleConn_ledger {adjust : ℤ} (h : Ledger s) : Ensures (sshThrottleConn s adjust) Ledger := by
  refine throttleConn_eq.mono ?_
  rintro s' ⟨frozen, rfl⟩
  exact h.idle (.of_eq rfl rfl rfl rfl rfl)

/-- A method other than the one for a response is called, or returns. -/
theorem Ledger.call (h : Ledger s) (hcalling : s.calling ≠ some .response) {calling : Option Rest}
    (hrest : calling ≠ some .response) : Ledger { s with calling := calling } := by
  refine ⟨fun c hc => ?_, h.gone, h.results, h.abandoned, fun hrunning => absurd hrunning hrest⟩
  have hwaiting := h.waiting c hc
  unfold outstanding at hwaiting ⊢
  rw [if_neg hcalling] at hwaiting
  rw [if_neg hrest]
  exact hwaiting

theorem callMethod_ledger {rest : Rest} (h : Ledger s) (hcalling : s.calling = none) (hrest : rest ≠ .response) :
    Ensures (callMethod s rest) Ledger := by
  refine callMethod_eq.mono ?_
  rintro s' ⟨-, rfl⟩
  refine h.call ?_ fun heq => hrest (Option.some.inj heq)
  rw [hcalling]
  exact nofun

/-- The channel is freed because it was not opened. -/
theorem Ledger.fail (h : Ledger s) (hgot : .got .openFailure ∈ s.trace) (hcalling : s.calling = none) :
    Ledger { s with channel := none } :=
  ⟨fun _ hc => (nomatch hc), fun _ => .inr hgot, h.results, fun hnull => ⟨rfl, (h.abandoned hnull).2⟩,
    .of_none hcalling⟩

/-! ## Requests that are sent -/

/-- Requests are sent, and their handlers are put at the end of the queue. -/
theorem Ledger.ask (h : Ledger s) (hc : s.channel = some c) (hc' : s'.channel = some c')
    (hreqs : c'.chanreqs = c.chanreqs ++ asked t) (htrace : s'.trace = s.trace ++ t)
    (ht : ∀ x ∈ t, x.isAsking) (haborted : s'.aborted = s.aborted) (hcalling : s'.calling = s.calling) :
    Ledger s' := by
  obtain ⟨hhandled, hresults, hgot⟩ := asking_eq s.trace ht
  rw [← htrace] at hhandled hresults hgot
  have hwaiting := h.waiting c hc
  refine ⟨fun c'' hc'' => ?_, fun hnone => ?_, ?_, fun hnull => ?_, fun hrunning c'' hc'' => ?_⟩
  · cases hc'.symm.trans hc''
    have hqueue : outstanding s'.calling c' = outstanding s.calling c ++ asked t := by
      rw [hcalling]
      unfold outstanding
      split
      · next hrunning =>
        obtain ⟨rest, hrest⟩ := h.responding hrunning c hc
        rw [hreqs, hrest]
        rfl
      · exact hreqs
    rw [hqueue, hhandled, htrace, asked_append, hwaiting, List.append_assoc]
  · cases hc'.symm.trans hnone
  · rw [hresults, hgot, haborted]
    exact h.results
  · rw [hresults] at hnull
    cases hc.symm.trans (h.abandoned hnull).1
  · cases hc'.symm.trans hc''
    obtain ⟨rest, hrest⟩ := h.responding (hcalling ▸ hrunning) c hc
    exact ⟨rest ++ asked t, by rw [hreqs, hrest]; rfl⟩

theorem Windowing.ledger (hwin : Windowing s s') (h : Ledger s) : Ledger s' := by
  rcases hwin.changes with rfl | ⟨c, c', t, hc, hc', -, htrace, ht, hreqs, -⟩
  · exact h
  · refine h.ask hc hc' hreqs htrace (fun x hx => ?_) ?_ ?_
    · have hx' := ht x hx
      unfold Trace.isWindowing at hx'
      split at hx'
      · trivial
      · trivial
      · trivial
      · cases hx'
    · rw [hwin.rest]
    · rw [hwin.rest]

theorem chanreqInit_ledger {type : String} {handler : Option Handler} (h : Ledger s) :
    Ensures (ssh2ChanreqInit s type handler) Ledger := by
  refine chanreqInit_eq.mono ?_
  rintro s' ⟨c, hc, -, -, rfl⟩
  cases handler with
  | none => exact h.idle (.note trivial)
  | some handler =>
    refine h.ask (t := [.sent (.request type true), .asked handler]) hc rfl rfl ?_ ?_ rfl rfl
    · show s.trace ++ [_] ++ [_] = _
      rw [List.append_assoc]
      rfl
    · intro x hx
      rcases List.mem_cons.mp hx with rfl | hx
      · trivial
      · rw [List.mem_singleton.mp hx]
        trivial

theorem ledger_windowRule : WindowRule Ledger where
  window h hwin := hwin.ledger h
  grow {_ c} h hc := h.idle (.set hc (by
    unfold growWindow
    split
    · rfl
    · rfl))
  throttling h hc := h.idle (.set hc rfl)
  throttle h := throttleConn_ledger h

/-! ## Replies -/

/-- The request at the front of the queue is done with. -/
theorem responseRest_ledger (h : ∀ c, s.channel = some c → Ledger (s.set { c with chanreqs := c.chanreqs.tail })) :
    Ensures (responseRest s) Ledger := by
  unfold responseRest
  refine Conn.ensures_get.bind ?_
  intro c hc
  exact (h c hc).ensures (checkClose_outgoing.mono fun s' hs' => hs'.idle)

/-- The method for a response returns. -/
theorem responseRest_called (h : Ledger s) (hcalling : s.calling = some .response) :
    Ensures (responseRest { s with calling := none }) Ledger := by
  refine responseRest_ledger fun c hc => ?_
  have hwaiting := h.waiting c hc
  rw [outstanding, if_pos hcalling] at hwaiting
  refine ⟨fun c' hc' => ?_, nofun, h.results, fun hnull => ?_, nofun⟩
  · cases hc'
    exact hwaiting
  · cases hc.symm.trans (h.abandoned hnull).1

/-- A reply and the handler that is called with it -/
theorem Ledger.answer (h : Ledger s) (hcalling : s.calling = none) (haborted : s.aborted = false)
    (hc : s.channel = some c) {handler : Handler} {rest : List Handler} (hreqs : c.chanreqs = handler :: rest)
    {m : ServerMsg} {success : Bool} (hm : gotAnswers [.got m] = [success])
    (htrace : s'.trace = s.trace ++ [.got m, .handled handler (some success)]) (hc' : s'.channel = some c')
    (hqueue : outstanding s'.calling c' = rest) (hresponding : Responding s') : Ledger s' := by
  have hwaiting := h.waiting c hc
  have hfront : outstanding s.calling c = handler :: rest := by
    rw [outstanding, hcalling, if_neg nofun, hreqs]
  have hplain : ∀ x, asked [.got m, x] = asked [x] ∧ handledBy [.got m, x] = handledBy [x] ∧
      Ssh2.results [.got m, x] = Ssh2.results [x] := fun x => ⟨rfl, rfl, rfl⟩
  have hgot : gotAnswers [.got m, .handled handler (some success)] = [success] := by
    change gotAnswers ([.got m] ++ [.handled handler (some success)]) = [success]
    rw [gotAnswers_append, hm]
    rfl
  have hnotnull : none ∉ Ssh2.results s.trace := by
    intro hnull
    cases hc.symm.trans (h.abandoned hnull).1
  obtain ⟨answered, n, hresults, -, hall⟩ := h.results
  have hn : n = 0 := by
    by_contra hne
    refine hnotnull ?_
    rw [hresults]
    exact List.mem_append_right _ (List.mem_replicate.mpr ⟨hne, rfl⟩)
  rw [hn, List.replicate_zero, List.append_nil] at hresults
  refine ⟨fun c'' hc'' => ?_, fun hnone => ?_, ⟨answered ++ [success], 0, ?_, ?_, fun _ => ?_⟩, fun hnull => ?_,
    hresponding⟩
  · cases hc'.symm.trans hc''
    rw [hqueue, htrace, asked_append, handledBy_append, (hplain _).1, (hplain _).2.1, hwaiting, hfront,
      List.append_assoc, List.append_assoc]
    exact congrArg _ (List.append_nil _)
  · cases hc'.symm.trans hnone
  · rw [htrace, results_append, (hplain _).2.2, hresults, List.map_append, List.append_assoc]
    rfl
  · rw [htrace, gotAnswers_append, hgot, hall haborted]
  · rw [htrace, gotAnswers_append, hgot, hall haborted]
  · rw [htrace, results_append, (hplain _).2.2] at hnull
    rcases List.mem_append.mp hnull with hnull | hnull
    · exact absurd hnull hnotnull
    · cases List.mem_singleton.mp hnull

/-- A reply to no request -/
theorem Ledger.unexpected (h : Ledger s) (hc : s.channel = some c) {m : ServerMsg} :
    Ledger { s.note (.got m) with aborted := true } := by
  have hasked : asked (s.trace ++ [.got m]) = asked s.trace := asked_append.trans (List.append_nil _)
  have hhandled : handledBy (s.trace ++ [.got m]) = handledBy s.trace := handledBy_append.trans (List.append_nil _)
  have hresults : Ssh2.results (s.trace ++ [.got m]) = Ssh2.results s.trace :=
    results_append.trans (List.append_nil _)
  refine ⟨fun c' hc' => ?_, fun hnone => ?_, ?_, fun hnull => ?_, h.responding⟩
  · show asked (s.trace ++ [.got m]) = handledBy (s.trace ++ [.got m]) ++ outstanding s.calling c'
    rw [hasked, hhandled]
    exact h.waiting c' hc'
  · cases hc.symm.trans hnone
  · obtain ⟨answered, n, heq, hprefix, -⟩ := h.results
    refine ⟨answered, n, hresults.trans heq, ?_, nofun⟩
    show answered <+: gotAnswers (s.trace ++ [.got m])
    rw [gotAnswers_append]
    exact hprefix.trans (List.prefix_append _ _)
  · cases hc.symm.trans (h.abandoned (hresults ▸ hnull)).1

theorem receiveResponse_ledger {m : ServerMsg} {success : Bool} (h : Ledger s) (hcalling : s.calling = none)
    (haborted : s.aborted = false) (hm : gotAnswers [.got m] = [success]) :
    Ensures (receiveResponse (s.note (.got m)) success) Ledger := by
  unfold receiveResponse
  refine Conn.ensures_get.bind ?_
  intro c hc
  split
  · exact ensures_ok.mpr (h.unexpected hc)
  · next handler rest hreqs =>
    unfold handleResponse
    cases handler with
    | winadj size =>
      refine responseRest_ledger fun c' hc' => ?_
      cases hc'
      refine h.answer hcalling haborted hc hreqs hm ?_ rfl ?_ (.of_none hcalling)
      · show s.trace ++ [_] ++ [_] = _
        rw [List.append_assoc]
        rfl
      · show outstanding s.calling _ = rest
        rw [outstanding, hcalling, if_neg nofun]
        show c.chanreqs.tail = rest
        rw [hreqs]
        rfl
    | response =>
      refine Ssh2Channel.ensures_getChan.bind ?_
      intro chan _
      split
      · refine callMethod_eq.mono ?_
        rintro s' ⟨-, rfl⟩
        refine h.answer hcalling haborted hc hreqs hm ?_ hc ?_ ?_
        · show s.trace ++ [_] ++ [_] = _
          rw [List.append_assoc]
          rfl
        · show outstanding (some .response) c = rest
          rw [outstanding, if_pos rfl, hreqs]
          rfl
        · intro _ c' hc'
          cases hc.symm.trans hc'
          exact ⟨rest, hreqs⟩
      · exact ensures_error.mpr trivial

/-! ## Closing -/

/-- The requests that are outstanding when the channel is closed are abandoned, and the channel is freed. -/
theorem Ledger.abandon (h : Ledger s) (hcalling : s.calling = none) (hc : s.channel = some c)
    (hgot : .got .close ∈ s.trace) (hbug : s.cfg.bugSendsLateRequestReply = false)
    (htrace : s'.trace = s.trace ++ c.chanreqs.map (fun handler => .handled handler none) ++ t)
    (ht : ∀ x ∈ t, x.isIdle) (hnone : s'.channel = none) (hcfg : s'.cfg = s.cfg)
    (haborted : s'.aborted = s.aborted) (hcalling' : s'.calling = none) : Ledger s' := by
  have hwaiting := h.waiting c hc
  have hnull : ∀ {α : Type} {f : Trace → Option α} {g : Handler → α} (l : List Handler),
      (∀ handler, f (.handled handler none) = some (g handler)) →
        (l.map fun handler => Trace.handled handler none).filterMap f = l.map g := by
    intro α f g l hf
    rw [List.filterMap_map, ← List.filterMap_eq_map]
    exact congrArg (List.filterMap · l) (funext hf)
  have hignored : ∀ {α : Type} {f : Trace → Option α} (l : List Handler),
      (∀ handler, f (.handled handler none) = none) →
        (l.map fun handler => Trace.handled handler none).filterMap f = [] := by
    intro α f l hf
    rw [List.filterMap_map]
    exact List.filterMap_eq_nil_iff.mpr fun handler _ => hf handler
  have hasked : asked s'.trace = asked s.trace := by
    rw [htrace, asked_idle _ ht, asked_append, asked, asked, hignored _ fun _ => rfl, List.append_nil]
  obtain ⟨hhandled, hresults, hanswers⟩ := asking_eq
    (s.trace ++ c.chanreqs.map (fun handler => .handled handler none)) fun x hx => (ht x hx).asking
  rw [← htrace] at hhandled hresults hanswers
  have hhandled' : handledBy s'.trace = handledBy s.trace ++ c.chanreqs := by
    rw [hhandled, handledBy_append]
    refine congrArg _ ((hnull (g := id) _ fun _ => rfl).trans ?_)
    exact List.map_id _
  have hresults' : Ssh2.results s'.trace = Ssh2.results s.trace ++ List.replicate c.chanreqs.length none := by
    rw [hresults, results_append]
    refine congrArg _ ((hnull (g := fun _ => none) _ fun _ => rfl).trans ?_)
    exact List.map_const'
  have hanswers' : gotAnswers s'.trace = gotAnswers s.trace := by
    rw [hanswers, gotAnswers_append, gotAnswers, gotAnswers, hignored _ fun _ => rfl, List.append_nil]
  have hkept : .got .close ∈ s'.trace := by
    rw [htrace]
    exact List.mem_append_left _ (List.mem_append_left _ hgot)
  refine ⟨fun c' hc' => ?_, fun _ => .inl ?_, ?_, fun _ => ⟨hnone, hkept, hcfg ▸ hbug⟩, .of_none hcalling'⟩
  · cases hnone.symm.trans hc'
  · rw [hasked, hhandled', hwaiting, outstanding, hcalling, if_neg nofun]
  · obtain ⟨answered, n, heq, hprefix, hall⟩ := h.results
    refine ⟨answered, n + c.chanreqs.length, ?_, hanswers' ▸ hprefix, fun hnot => ?_⟩
    · rw [hresults', heq, List.append_assoc, List.replicate_append_replicate]
    · rw [hanswers']
      exact hall (haborted ▸ hnot)

/-- The end of CLOSE, once the requests are abandoned, if they are -/
theorem closeRest_idle : Ensures (do
      let s ← closeOutgoing s
      let c ← s.get
      if c.rcvdClose = true then return s
      else ssh2ChannelCheckClose (s.set { c with rcvdClose := true })) (Idle s) := by
  refine closeOutgoing_outgoing.bind ?_
  intro s1 h1
  refine Conn.ensures_get.bind ?_
  intro c1 hc1
  split
  · exact ensures_ok.mpr h1.idle
  · refine checkClose_outgoing.mono fun s2 h2 => ?_
    exact h1.idle.trans (Idle.trans (.set hc1 (by exact rfl)) h2.idle)

theorem receiveCloseRest_ledger (h : Ledger s) (hcalling : s.calling = none) (hinv : CloseInv s)
    (hwaiting : Waiting s) (hgot : .got .close ∈ s.trace)
    (hopen : ∀ c, s.channel = some c → c.halfopen = false ∧ c.rcvdEof = true) :
    Ensures (receiveCloseRest s) Ledger := by
  have hclosed := receiveCloseRest_closing hinv hwaiting hgot hopen
  unfold receiveCloseRest at hclosed ⊢
  cases hchannel : s.channel with
  | none =>
    unfold Conn.get
    simp only [hchannel]
    exact ensures_error.mpr trivial
  | some c =>
    rw [Conn.get_eq hchannel, ok_bind] at hclosed ⊢
    by_cases hbug : s.cfg.bugSendsLateRequestReply = true
    · rw [if_pos hbug, ok_bind]
      exact h.ensures closeRest_idle
    · rw [if_neg hbug] at hclosed ⊢
      rw [Bool.not_eq_true] at hbug
      intro s' hs'
      obtain ⟨s1, hs1, hrest⟩ := bind_eq_ok.mp hs'
      obtain ⟨-, remlocwin, state, rfl⟩ := abandonRequests_eq hchannel rfl s1 hs1
      have hidle := closeRest_idle s' hrest
      obtain ⟨t, ht, htidle⟩ := hidle.trace
      have hcfg : s'.cfg = s.cfg := hidle.cfg
      have hnone : s'.channel = none := by
        obtain ⟨-, hwaiting', hrcvd⟩ := hclosed s' hs'
        cases hchannel' : s'.channel with
        | none => rfl
        | some c' =>
          have hlate := (hwaiting' c' hchannel' (hrcvd c' hchannel')).2
          rw [hcfg, hbug] at hlate
          cases hlate
      exact h.abandon hcalling hchannel hgot hbug ht htidle hnone hcfg hidle.aborted
        (hidle.calling.trans hcalling)

/-! ## Steps -/

theorem receive_ledger {m : ServerMsg} (h : Ledger s) (hclose : CloseSound s) (hcalling : s.calling = none)
    (haborted : s.aborted = false) (hc : s.channel = some c) (hhalfopen : c.halfopen = m.expectHalfopen) :
    Ensures (receive (s.note (.got m)) m) Ledger := by
  have hgot : Trace.isIdle (.got m) → Ledger (s.note (.got m)) := fun hm => h.idle (.note hm)
  cases m with
  | openConfirmation remoteid remwindow remmaxpkt =>
    have hgot := hgot trivial
    show Ensures (openConfirmation _ remoteid remwindow remmaxpkt) _
    unfold openConfirmation
    refine Conn.ensures_get.bind ?_
    intro c' hc'
    dsimp only
    generalize (if remmaxpkt > _ then _ else remmaxpkt) = maxpkt
    have hopened := hgot.idle (.note (x := .opened remwindow maxpkt) trivial)
    exact callMethod_ledger (hopened.idle (.set hc' (by exact rfl))) hcalling nofun
  | openFailure =>
    have hgot := hgot trivial
    show Ensures (openFailure _) _
    unfold openFailure
    refine Conn.ensures_get.bind ?_
    intro c' hc'
    refine Ssh2Channel.ensures_getChan.bind ?_
    intro chan _
    have hmem : .got .openFailure ∈ (s.note (.got .openFailure)).trace :=
      List.mem_append_right _ (List.mem_singleton.mpr rfl)
    exact ensures_ok.mpr (hgot.fail hmem hcalling)
  | data extType data =>
    show Ensures (receiveData _ data) _
    unfold receiveData
    refine Conn.ensures_get.bind ?_
    intro c' hc'
    exact callMethod_ledger ((hgot trivial).idle (.set hc' (by exact rfl))) hcalling nofun
  | windowAdjust size =>
    have hgot := hgot trivial
    show Ensures (receiveWindowAdjust _ size) _
    unfold receiveWindowAdjust
    refine Conn.ensures_get.bind ?_
    intro c' hc'
    split
    · exact ensures_ok.mpr hgot
    · have hset : Idle (s.note (.got _)) (.set _ { c' with remwindow := c'.remwindow + size }) := .set hc' rfl
      have hset := hgot.idle hset
      exact hset.ensures (trySendAndUnthrottle_outgoing.mono fun s1 h1 => h1.idle)
  | request wantReply success =>
    have hgot := hgot trivial
    show Ensures (receiveRequest _ wantReply success) _
    unfold receiveRequest
    refine Conn.ensures_get.bind ?_
    intro c' _
    refine Ssh2Channel.ensures_getChan.bind ?_
    intro chan _
    split
    · exact ensures_ok.mpr (hgot.idle (.note trivial))
    · exact ensures_ok.mpr hgot
  | success => exact receiveResponse_ledger h hcalling haborted rfl
  | failure => exact receiveResponse_ledger h hcalling haborted rfl
  | eof =>
    have hgot := hgot trivial
    show Ensures (receiveEof _) _
    unfold receiveEof
    refine Conn.ensures_get.bind ?_
    intro c' hc'
    split
    · exact ensures_ok.mpr hgot
    · exact callMethod_ledger (hgot.idle (.set hc' (by exact rfl))) hcalling nofun
  | close =>
    have hgot := hgot trivial
    have hmem : .got .close ∈ (s.note (.got .close)).trace :=
      List.mem_append_right _ (List.mem_singleton.mpr rfl)
    show Ensures (receiveClose _) _
    unfold receiveClose
    rw [Conn.get_note, Conn.get_eq hc, ok_bind]
    split
    · next heof =>
      refine receiveCloseRest_ledger hgot hcalling (hclose.inv.note rfl) hclose.settled.waiting hmem ?_
      intro c' hc'
      cases hc.symm.trans hc'
      exact ⟨hhalfopen, heof⟩
    · exact callMethod_ledger (hgot.idle (.set (s := s.note _) hc (by exact rfl))) hcalling nofun

theorem methodReturns_ledger {rest : Rest} {bufsize : ℕ} (h : Ledger s) (hclose : CloseSound s)
    (hcalling : s.calling = some rest) : Ensures (methodReturns s rest bufsize) Ledger := by
  have hreturned : rest ≠ .response → Ledger { s with calling := none } := by
    intro hrest
    refine h.call ?_ nofun
    rw [hcalling]
    exact fun heq => hrest (Option.some.inj heq)
  unfold methodReturns
  cases rest with
  | openConfirmation =>
    exact (hreturned nofun).ensures (openConfirmationRest_outgoing.mono fun s1 h1 => h1.idle)
  | data => exact ledger_windowRule.receiveDataRest (hreturned nofun)
  | response => exact responseRest_called h hcalling
  | eof => exact (hreturned nofun).ensures (checkClose_outgoing.mono fun s1 h1 => h1.idle)
  | close =>
    obtain ⟨hgot, hopen⟩ := hclose.settled.close hcalling
    have hinv : CloseInv { s with calling := none } := ⟨hclose.inv.inOrder, hclose.inv.closing, hclose.inv.gone⟩
    exact receiveCloseRest_ledger (hreturned nofun) rfl hinv hclose.settled.waiting hgot
      fun c hc => ⟨(hopen c hc).1, (hopen c hc).2.1⟩

theorem callStep_ledger {k : Call} (h : Ledger s) : Ensures (callStep s k) Ledger := by
  cases k with
  | write isStderr data => exact h.ensures (write_outgoing.mono fun s1 h1 => h1.idle)
  | writeEof => exact h.ensures (writeEof_outgoing.mono fun s1 h1 => h1.idle)
  | chanreq type wantReply => exact chanreqInit_ledger h

theorem step_ledger (h : Ledger s) (hclose : CloseSound s) : Ensures (step s e) Ledger := by
  by_cases haborted : s.aborted = true
  · unfold step
    rw [if_pos haborted]
    exact ensures_ok.mpr h
  rw [Bool.not_eq_true] at haborted
  apply step_rule (R := fun r => Ensures r Ledger)
  case hsame => exact ensures_ok.mpr h
  case haborted =>
    obtain ⟨answered, n, heq, hprefix, -⟩ := h.results
    exact ensures_ok.mpr ⟨h.waiting, h.gone, ⟨answered, n, heq, hprefix, nofun⟩, h.abandoned, h.responding⟩
  case hserver =>
    intro m c _ hcalling hc _ hhalfopen
    exact receive_ledger h hclose hcalling haborted hc hhalfopen
  case hreturns =>
    intro bufsize rest _ hcalling
    exact methodReturns_ledger h hclose hcalling
  case hcall =>
    intro k _
    exact callStep_ledger h
  case hclose =>
    intro chan _ _ _
    refine initiateClose_outgoing.mono ?_
    rintro s' ⟨c, chan', hc, -, hout⟩
    exact h.idle (Idle.trans (.set hc (by exact rfl)) hout.idle)
  case hunthrottle =>
    intro bufsize c _ _ _
    exact ledger_windowRule.unthrottle h
  case hoverride =>
    intro c chan _ hc _ _ _ _
    have hset : Ledger (s.set { c with chan := some { chan with initialFixedWindowSize := 0 } }) :=
      h.idle (.set hc rfl)
    exact ledger_windowRule.overrideRemoved hset
  case hhandover =>
    intro shareCs c chan _ hc _ _ _ _
    unfold ssh2channelX11SharingHandover
    rw [Conn.get_eq hc, ok_bind]
    exact ensures_ok.mpr (h.idle (.set hc (by exact rfl)))
  case hdelete =>
    intro c _ hc _ _
    have hnoted : Idle s (s.note .deleted) := .note trivial
    refine destroy_eq.mono ?_
    rintro s' ⟨rfl, c', hc', hreqs⟩
    exact h.idle (hnoted.trans (.free hc' hreqs))
  case hthrottle =>
    intro throttled _
    have hset : Ledger { s with allChannelsThrottled := throttled } := h.idle (.of_eq rfl rfl rfl rfl rfl)
    refine ⟨ensures_ok.mpr hset, ?_⟩
    intro c _ _
    exact hset.ensures (checkThrottle_outgoing.mono fun s1 h1 => h1.idle)
  case hdangling =>
    intro _
    exact ensures_error.mpr trivial

theorem Begins.ledger {s : Conn} (h : Begins s) : Ledger s := by
  cases h with
  | «open» hvt hfixed =>
    refine ⟨fun c hc => ?_, nofun, ⟨[], 0, rfl, List.prefix_refl _, fun _ => rfl⟩, nofun, .of_none rfl⟩
    cases hc
    rfl
  | opened hvt hfixed =>
    refine ⟨fun c hc => ?_, nofun, ⟨[], 0, rfl, List.prefix_refl _, fun _ => rfl⟩, nofun, .of_none rfl⟩
    · cases hc
      rfl

end PuttyNd.Ssh2
