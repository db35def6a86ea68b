import PuttyNd.Transport.Ssh2Transport

/-!
# Proofs: what the parts of the coroutine change

For each function, the fields that it may change, and what is known of the packets that it moves.
-/

namespace PuttyNd.Transport

/-- The packets that are for the higher layer -/
def upper (l : List PktIn) : List PktIn := l.filter fun pktin => 50 ≤ pktin.type

/-- The packets that have been passed up -/
def ups (l : List Wire) : List PktIn := l.filterMap fun n => match n with
  | .passedUp pktin => some pktin
  | _ => none

theorem ups_append (l l' : List Wire) : ups (l ++ l') = ups l ++ ups l' := List.filterMap_append

theorem upper_append (l l' : List PktIn) : upper (l ++ l') = upper l ++ upper l' :=
  List.filter_append _ _

theorem upper_cons_of_le {pktin : PktIn} (h : 50 ≤ pktin.type) (l : List PktIn) :
    upper (pktin :: l) = pktin :: upper l := List.filter_cons_of_pos (by simpa using h)

theorem upper_cons_of_lt {pktin : PktIn} (h : pktin.type < 50) (l : List PktIn) :
    upper (pktin :: l) = upper l := List.filter_cons_of_neg (by simpa using h)

/-- What a key exchange lets pass: packets of its own, and incoming ones for the higher layer if this has
been started -/
def Wire.Passes (higherLayerOk : Bool) : Wire → Prop
  | .sent _ => True
  | .passedUp _ => higherLayerOk = true
  | _ => False

namespace Ssh2Transport

variable {w : ℕ} {env : Env w} {s s' s'' : Ssh2Transport w} {ws ws' : List Wire}

/-! ## The queues -/

/-- Packets have been taken off the incoming queue, and others sent. -/
structure Moved (s s' : Ssh2Transport w) (ws : List Wire) : Prop where
  eq : s' = { s with
    inPq := s'.inPq, wire := s.wire ++ ws, ended := s'.ended, crState := s'.crState }
  upper : upper s.inPq = ups ws ++ upper s'.inPq
  passes : ∀ n ∈ ws, n.Passes s.higherLayerOk
  length : s'.inPq.length ≤ s.inPq.length
  live : s'.ended = none → s.ended = none

namespace Moved

theorem refl : Moved s s [] := ⟨by rw [List.append_nil], rfl, by simp, Nat.le_refl _, id⟩

theorem trans (h : Moved s s' ws) (h' : Moved s' s'' ws') : Moved s s'' (ws ++ ws') := by
  have hok : s'.higherLayerOk = s.higherLayerOk := by rw [h.eq]
  refine ⟨?_, ?_, fun n hn => ?_, Nat.le_trans h'.length h.length, fun he => h.live (h'.live he)⟩
  · rw [h'.eq, h.eq, List.append_assoc]
  · rw [h.upper, h'.upper, ups_append, List.append_assoc]
  · rcases List.mem_append.mp hn with hn | hn
    · exact h.passes n hn
    · exact hok ▸ h'.passes n hn

theorem note_sent (pkt : PktOut) : Moved s (s.note (.sent pkt)) [.sent pkt] :=
  ⟨rfl, rfl, fun n hn => by rw [List.mem_singleton.mp hn]; trivial, Nat.le_refl _, id⟩

end Moved

theorem filterFrom_moved (l : List PktIn) :
    ∃ ws, Moved { s with inPq := l } (s.filterFrom l) ws ∧ (s.filterFrom l).crState = s.crState ∧
      ((s.filterFrom l).ended = none → ∀ pktin ∈ (s.filterFrom l).inPq.head?, pktin.type < 50) := by
  induction l generalizing s with
  | nil => exact ⟨[], .refl, rfl, fun _ pktin hp => (nomatch hp)⟩
  | cons pktin rest ih =>
    unfold filterFrom
    by_cases hdisc : pktin.type = msgDisconnect
    · rw [if_pos hdisc]
      exact ⟨[], ⟨by simp [abort], rfl, by simp, Nat.le_refl _, fun h => (nomatch h)⟩, rfl,
        fun h => (nomatch h)⟩
    · rw [if_neg hdisc]
      by_cases hskip : pktin.type = msgDebug ∨ pktin.type = msgIgnore
      · rw [if_pos hskip]
        obtain ⟨ws, hmoved, hstate, hfront⟩ := @ih s
        have hlt : pktin.type < 50 := by
          rcases hskip with h | h <;> rw [h] <;> decide
        refine ⟨ws, ⟨hmoved.eq, ?_, hmoved.passes, Nat.le_succ_of_le hmoved.length, hmoved.live⟩, hstate,
          hfront⟩
        rw [← hmoved.upper]
        exact upper_cons_of_lt hlt rest
      · rw [if_neg hskip]
        by_cases hup : 50 ≤ pktin.type
        · rw [if_pos hup]
          by_cases hok : s.higherLayerOk = true
          · rw [if_pos hok]
            obtain ⟨ws, hmoved, hstate, hfront⟩ := @ih (s.note (.passedUp pktin))
            refine ⟨.passedUp pktin :: ws, ⟨?_, ?_, ?_, Nat.le_succ_of_le hmoved.length, hmoved.live⟩,
              hstate, hfront⟩
            · rw [hmoved.eq]
              simp [note]
            · show upper (pktin :: rest) = pktin :: ups ws ++ _
              rw [upper_cons_of_le hup, List.cons_append, ← hmoved.upper]
            · intro n hn
              rcases List.mem_cons.mp hn with rfl | hn
              · exact hok
              · exact hmoved.passes n hn
          · rw [if_neg hok]
            exact ⟨[], ⟨by simp [abort], rfl, by simp, Nat.le_refl _, fun h => (nomatch h)⟩, rfl,
              fun h => (nomatch h)⟩
        · rw [if_neg hup]
          refine ⟨[], ⟨by rw [List.append_nil], rfl, by simp, Nat.le_refl _, id⟩, rfl, fun _ p hp => ?_⟩
          cases hp
          exact Nat.lt_of_not_le hup

theorem filterQueue_moved : ∃ ws, Moved s s.filterQueue ws ∧ s.filterQueue.crState = s.crState ∧
    (s.filterQueue.ended = none → ∀ pktin ∈ s.filterQueue.inPq.head?, pktin.type < 50) :=
  filterFrom_moved s.inPq

/-- The result of `ssh2_transport_pop` -/
structure Popped (s s' : Ssh2Transport w) (o : Option PktIn) : Prop where
  moved : ∃ ws, Moved s s' ws
  crState : s'.crState = s.crState
  live : o.isSome → s'.ended = none
  shorter : o.isSome → s'.inPq.length < s.inPq.length
  empty : o = none → s'.ended = none → s'.inPq = []
  type : ∀ pktin ∈ o, pktin.type < 50

theorem popped : Popped s s.pop.2 s.pop.1 := by
  obtain ⟨ws, hmoved, hstate, hfront⟩ := @filterQueue_moved w s
  unfold pop popFront
  generalize s.filterQueue = s1 at hmoved hstate hfront ⊢
  by_cases hended : s1.ended.isSome
  · rw [if_pos hended]
    exact ⟨⟨ws, hmoved⟩, hstate, fun h => (nomatch h), fun h => (nomatch h),
      fun _ h => absurd h (Option.isSome_iff_ne_none.mp hended), fun _ h => (nomatch h)⟩
  · rw [if_neg hended]
    have hlive := Option.not_isSome_iff_eq_none.mp hended
    cases hq : s1.inPq with
    | nil =>
      exact ⟨⟨ws, hmoved⟩, hstate, fun h => (nomatch h), fun h => (nomatch h), fun _ _ => hq,
        fun _ h => (nomatch h)⟩
    | cons pktin rest =>
      have hlt : pktin.type < 50 := hfront hlive pktin (by rw [hq]; rfl)
      have hlength := hmoved.length
      rw [hq, List.length_cons] at hlength
      refine ⟨⟨ws, ?_, ?_, hmoved.passes, by simp only; omega, hmoved.live⟩, hstate, fun _ => hlive,
        fun _ => hlength, fun h => (nomatch h), fun p hp => by cases hp; exact hlt⟩
      · rw [hmoved.eq]
      · rw [hmoved.upper, hq, upper_cons_of_lt hlt]

theorem popped_of_eq {o : Option PktIn} (h : s.pop = (o, s')) : Popped s s' o := by
  have hpopped := @popped w s
  rw [h] at hpopped
  exact hpopped

/-- A key exchange method waits for a packet, or has ended the connection, or is done. -/
theorem runMethod_moved (m : KexMethod) (hlive : s.ended = none) :
    ∃ ws, Moved s (s.runMethod m).1 ws ∧
      (s.runMethod m).2.elim
        ((s.runMethod m).1.ended ≠ none ∨
          (s.runMethod m).1.inPq = [] ∧ ∃ m', (s.runMethod m).1.crState = .kex (.method m'))
        fun _ => (s.runMethod m).1.ended = none ∧ (s.runMethod m).1.crState = s.crState := by
  induction m generalizing s with
  | abort =>
    exact ⟨[], ⟨by simp [runMethod, abort], rfl, by simp, Nat.le_refl _, fun h => (nomatch h)⟩,
      .inl (by simp [runMethod, abort])⟩
  | push pkt next ih =>
    obtain ⟨ws, hmoved, hresult⟩ := @ih (s.note (.sent pkt)) hlive
    exact ⟨_, (Moved.note_sent pkt).trans hmoved, hresult⟩
  | pop next ih =>
    unfold runMethod
    cases hpop : s.pop with
    | mk o s1 =>
      have hpopped := popped_of_eq hpop
      obtain ⟨ws, hmoved⟩ := hpopped.moved
      cases o with
      | none =>
        refine ⟨ws, ⟨?_, hmoved.upper, hmoved.passes, hmoved.length, hmoved.live⟩, ?_⟩
        · rw [hmoved.eq]
        · show s1.ended ≠ none ∨ s1.inPq = [] ∧ _
          by_cases hended : s1.ended = none
          · exact .inr ⟨hpopped.empty rfl hended, _, rfl⟩
          · exact .inl hended
      | some pktin =>
        obtain ⟨ws', hmoved', hresult⟩ := @ih pktin s1 (hpopped.live rfl)
        refine ⟨_, hmoved.trans hmoved', ?_⟩
        rw [← hpopped.crState]
        exact hresult
  | done hkey verified => exact ⟨[], .refl, hlive, rfl⟩

/-! ## The host key -/

/-- The result of checking a host key: it waits for the user, or has ended the connection, or is done. -/
structure Checked (s : Ssh2Transport w) (r : Ssh2Transport w × Bool) : Prop where
  eq : r.1 = { s with
    ended := r.1.ended, crState := r.1.crState, dlgret := r.1.dlgret, keys := r.1.keys
    hostkeyStr := r.1.hostkeyStr, gssKexUsed := r.1.gssKexUsed
    transientHostkeys := r.1.transientHostkeys
    needGssTransientHostkey := r.1.needGssTransientHostkey
    warnedAboutNoGssTransientHostkey := r.1.warnedAboutNoGssTransientHostkey }
  live : r.1.ended = none → s.ended = none
  result : if r.2 then r.1.ended = s.ended else r.1.ended ≠ none ∨ ∃ k, r.1.crState = .kex k

namespace Checked

theorem aborted : Checked s (s.abort, false) :=
  ⟨rfl, fun h => (nomatch h), .inl fun h => (nomatch h)⟩

theorem completed (hkey : Option HostKey) : Checked s (s.completeKex hkey) := ⟨rfl, id, rfl⟩

theorem of_dlgret {r : Ssh2Transport w × Bool} {ret : ℤ} (h : Checked { s with dlgret := ret } r) :
    Checked s r := ⟨h.eq, h.live, h.result⟩

end Checked

theorem acceptHostKey_checked (key : HostKey) : Checked s (s.acceptHostKey key) := ⟨rfl, id, rfl⟩

theorem verifyAnswer_checked (key : HostKey) : Checked s (s.verifyAnswer key) := by
  unfold verifyAnswer
  split
  · exact ⟨rfl, id, .inr ⟨_, rfl⟩⟩
  · split
    · exact .aborted
    · exact acceptHostKey_checked key

theorem gssHostKey_checked (hkey : Option HostKey) : Checked s (s.gssHostKey hkey) := by
  unfold gssHostKey
  split
  · exact ⟨rfl, id, rfl⟩
  · split
    · exact .completed _
    · split
      · exact ⟨rfl, id, rfl⟩
      · exact ⟨rfl, id, rfl⟩

theorem fallbackHostKey_checked (key : HostKey) : Checked s (s.fallbackHostKey key) := by
  unfold fallbackHostKey
  split
  · exact ⟨rfl, id, rfl⟩
  · split
    · exact .completed _
    · exact .aborted

theorem repeatHostKey_checked (key : HostKey) : Checked s (s.repeatHostKey key) := by
  unfold repeatHostKey
  split
  · split
    · exact ⟨rfl, fun h => (nomatch h), .inl fun h => (nomatch h)⟩
    · exact ⟨rfl, id, rfl⟩
  · split
    · exact .aborted
    · exact .completed _

theorem firstHostKey_checked (key : HostKey) : Checked s (firstHostKey env s key) := by
  unfold firstHostKey
  simp only
  split
  · exact ⟨rfl, fun h => (nomatch h), .inl fun h => (nomatch h)⟩
  · split
    · exact .of_dlgret (.of_dlgret (verifyAnswer_checked key))
    · exact .of_dlgret (acceptHostKey_checked key)

theorem checkHostKey_checked (hkey : Option HostKey) (verified : Bool) :
    Checked s (checkHostKey env s hkey verified) := by
  unfold checkHostKey
  split
  · split
    · have h := @gssHostKey_checked w { s with gssKexUsed := true } hkey
      exact ⟨h.eq.trans rfl, h.live, h.result⟩
    · exact .aborted
  · split
    · exact .aborted
    · split
      · exact .aborted
      · split
        · exact fallbackHostKey_checked _
        · split
          · exact repeatHostKey_checked _
          · exact firstHostKey_checked _

/-- The coroutine of the key exchange moves packets, and then may check a host key. -/
theorem ssh2kexCoroutine_checked (k : CrStateKex) (hlive : s.ended = none) :
    ∃ s1 ws, Moved s s1 ws ∧ Checked s1 (ssh2kexCoroutine env s k) := by
  cases k with
  | verify key => exact ⟨s, [], .refl, verifyAnswer_checked key⟩
  | method m =>
    obtain ⟨ws, hmoved, hresult⟩ := @runMethod_moved w s m hlive
    cases hrun : s.runMethod m with
    | mk s1 o =>
      rw [hrun] at hmoved hresult
      unfold ssh2kexCoroutine
      simp only [hrun]
      refine ⟨s1, ws, hmoved, ?_⟩
      cases o with
      | none =>
        refine ⟨rfl, id, ?_⟩
        rcases hresult with hended | ⟨-, m', hstate⟩
        · exact .inl hended
        · exact .inr ⟨_, hstate⟩
      | some result =>
        obtain ⟨hkey, verified⟩ := result
        simp only
        split
        · exact .completed _
        · exact checkHostKey_checked _ _

/-! ## The coroutine -/

/-- `client_kexinit` is emptied before our KEXINIT is constructed, which may be the other string. -/
theorem beginKeyExchange_eq : ∃ kexlists payload incoming,
    beginKeyExchange env s = { s with
      kexlists := kexlists
      outgoingKexinit := payload
      incomingKexinit := incoming
      wire := s.wire ++ [.sentKexinit (20 :: payload.tail)]
      kexInProgress := true
      crState := .kexinit } ∧
    (∃ s', kexlists = (env.writeKexinitLists s').2) ∧
    (s.outgoingKexinit.head? = none ∨ s.outgoingKexinit.head? = some 20 → payload.head? = some 20) := by
  unfold beginKeyExchange
  cases env.isServer with
  | false => exact ⟨_, _, _, rfl, ⟨_, rfl⟩, fun _ => rfl⟩
  | true =>
    refine ⟨_, _, _, rfl, ⟨_, rfl⟩, fun h => ?_⟩
    simp only [if_true]
    cases hout : s.outgoingKexinit with
    | nil => rfl
    | cons b rest =>
      rw [hout] at h
      rcases h with h | h
      · cases h
      · cases h
        rfl

theorem askWeak_cases (l : List Weak) :
    (∃ dlgret rest, rest.length < l.length ∧
      askWeak env s l = { s with dlgret := dlgret, crState := .confirm rest }) ∨
    askWeak env s l = { s with crState := .ignored } ∨ askWeak env s l = startKex env s := by
  induction l with
  | nil =>
    unfold askWeak
    split
    · exact .inr (.inl rfl)
    · exact .inr (.inr rfl)
  | cons weak rest ih =>
    unfold askWeak
    split
    · exact .inl ⟨_, rest, Nat.lt_succ_self _, rfl⟩
    · rcases ih with ⟨dlgret, rest', hlt, heq⟩ | heq
      · exact .inl ⟨dlgret, rest', Nat.lt_succ_of_lt hlt, heq⟩
      · exact .inr heq

/-- The negotiation ends the connection, or is followed by the warnings. -/
theorem receiveKexinit_cases (pktin : PktIn) :
    (∃ incoming ws, receiveKexinit env s pktin =
      { s with incomingKexinit := incoming, wire := s.wire ++ ws, ended := some .aborted } ∧
      (ws = [] ∨ ws = [.receivedKexinit (20 :: pktin.data)])) ∨
    ∃ agreement algs ignorepkt uncertHostkeys,
      ssh2ScanKexinits
        (clientKexinit env { s with incomingKexinit := 20 :: pktin.data })
        (serverKexinit env { s with incomingKexinit := 20 :: pktin.data }) s.kexlists s.algs =
          .ok agreement ∧ algs = agreement.algorithms ∧
      receiveKexinit env s pktin =
        askWeak env { s with
          wire := s.wire ++ [.receivedKexinit (20 :: pktin.data)]
          incomingKexinit := 20 :: pktin.data
          algs := algs
          ignorepkt := ignorepkt
          uncertHostkeys := uncertHostkeys } [.kex, .hk, .cscipher, .sccipher] := by
  unfold receiveKexinit
  split
  · refine .inl ⟨s.incomingKexinit, [], ?_, .inl rfl⟩
    rw [List.append_nil]
    rfl
  · simp only
    split
    · exact .inl ⟨_, _, rfl, .inr rfl⟩
    case _ agreement heq => exact .inr ⟨agreement, _, _, _, heq, rfl, rfl⟩

theorem considerRekey_eq : ∃ reason rekeyClass inStats outStats counts,
    considerRekey env s = { s with
      rekeyReason := reason, rekeyClass := rekeyClass
      inStats := inStats, outStats := outStats, counts := counts } := by
  unfold considerRekey
  simp only
  generalize hclass : (if s.rekeyClass = .postUserauth then _ else s : Ssh2Transport w) = s1
  obtain ⟨reason1, class1, h1⟩ : ∃ reason rekeyClass,
      s1 = { s with rekeyReason := reason, rekeyClass := rekeyClass } := by
    rw [← hclass]
    split
    · split
      · exact ⟨_, _, rfl⟩
      · exact ⟨_, _, rfl⟩
    · exact ⟨_, _, rfl⟩
  generalize hexpired : (if s1.rekeyClass = .none then _ else s1 : Ssh2Transport w) = s2
  obtain ⟨reason2, class2, h2⟩ : ∃ reason rekeyClass,
      s2 = { s with rekeyReason := reason, rekeyClass := rekeyClass } := by
    rw [← hexpired, h1]
    split
    · split
      · exact ⟨_, _, rfl⟩
      · split
        · exact ⟨_, _, rfl⟩
        · exact ⟨_, _, rfl⟩
    · exact ⟨_, _, rfl⟩
  rw [h2]
  split
  · exact ⟨_, _, _, _, _, rfl⟩
  · exact ⟨_, _, _, _, _, rfl⟩

/-! ## The bound on how often the coroutine is resumed -/

theorem rounds_beginKeyExchange : (beginKeyExchange env s).rounds = 10 * s.inPq.length + 1 := by
  obtain ⟨kexlists, payload, incoming, heq, -, -⟩ := @beginKeyExchange_eq w env s
  rw [heq]
  rfl

theorem rounds_askWeak (l : List Weak) : (askWeak env s l).rounds ≤ 10 * s.inPq.length + (3 + l.length) := by
  rcases @askWeak_cases w env s l with ⟨dlgret, rest, hlt, heq⟩ | heq | heq
  · rw [heq]
    show 10 * s.inPq.length + (4 + rest.length) ≤ _
    omega
  · rw [heq]
    show 10 * s.inPq.length + 3 ≤ _
    omega
  · rw [heq]
    show 10 * s.inPq.length + 2 ≤ _
    omega

theorem rounds_receiveKexinit (pktin : PktIn) :
    (receiveKexinit env s pktin).rounds ≤ 10 * s.inPq.length + 7 ∨
      (receiveKexinit env s pktin).rounds = s.rounds := by
  rcases @receiveKexinit_cases w env s pktin with
    ⟨incoming, ws, heq, -⟩ | ⟨agreement, algs, ignorepkt, uncertHostkeys, -, -, heq⟩
  · rw [heq]
    exact .inr rfl
  · rw [heq]
    exact .inl (rounds_askWeak _)

theorem rounds_receiveNewkeys {pktin : PktIn} (h : receiveNewkeys env s pktin = (s', true)) :
    s'.rounds ≤ 10 * s.inPq.length + 1 := by
  unfold receiveNewkeys at h
  simp only at h
  split at h
  · cases h
  · split at h
    · cases h
      exact Nat.le_of_eq rounds_beginKeyExchange
    · split at h
      · cases h
      · split at h
        · cases h
          exact Nat.le_succ _
        · cases h
          exact Nat.le_succ _

theorem rounds_idle (h : idle env s = (s', true)) : s'.rounds ≤ 10 * s.inPq.length + 1 := by
  have hconsider : ∀ s1 : Ssh2Transport w, (considerRekey env s1).inPq = s1.inPq := by
    intro s1
    obtain ⟨reason, rekeyClass, inStats, outStats, counts, heq⟩ := @considerRekey_eq w env s1
    rw [heq]
  unfold idle at h
  split at h
  case _ pktin s1 heq =>
    have hshorter : s1.inPq.length < s.inPq.length := (popped_of_eq heq).shorter rfl
    simp only at h
    split at h
    · cases h
    · split at h
      · cases h
      · cases h
        rw [rounds_beginKeyExchange, hconsider]
        simp only [List.length_cons]
        omega
  case _ s1 heq =>
    obtain ⟨ws, hmoved⟩ := (popped_of_eq heq).moved
    have hlength : s1.inPq.length ≤ s.inPq.length := hmoved.length
    simp only at h
    split at h
    · cases h
    · split at h
      · cases h
      · cases h
        rw [rounds_beginKeyExchange, hconsider]
        omega

/-- Each time that it goes on, it has come nearer to the place where it waits. -/
theorem rounds_resume (hlive : s.ended = none) (h : resume env s = (s', true)) : s'.rounds < s.rounds := by
  have hrounds : s.rounds = 10 * s.inPq.length + CrState.rank s.crState := rfl
  unfold resume at h
  split at h
  case h_1 hstate =>
    cases h
    rw [hrounds, hstate, rounds_beginKeyExchange]
    exact Nat.lt_succ_self _
  case h_2 hstate =>
    split at h
    · cases h
    case _ pktin s1 heq =>
      cases h
      have hshorter := (popped_of_eq heq).shorter rfl
      have hkept : s1.rounds = 10 * s1.inPq.length + CrState.rank s1.crState := rfl
      rw [(popped_of_eq heq).crState] at hkept
      rcases @rounds_receiveKexinit w env s1 pktin with hle | heq'
      · rw [hrounds, hstate]
        show _ < _ + 1
        omega
      · rw [heq', hkept, hrounds]
        omega
  case h_3 rest hstate =>
    split at h
    · cases h
    · split at h
      · cases h
      · cases h
        rw [hrounds, hstate]
        have hle := @rounds_askWeak w env s rest
        show _ < _ + (4 + rest.length)
        omega
  case h_4 hstate =>
    split at h
    · cases h
    case _ s1 heq =>
      cases h
      have hshorter := (popped_of_eq heq).shorter rfl
      rw [hrounds, hstate]
      show 10 * s1.inPq.length + 2 < _ + 3
      omega
  case h_5 k hstate =>
    obtain ⟨s1, ws, hmoved, hchecked⟩ := @ssh2kexCoroutine_checked w env s k hlive
    split at h
    · cases h
    case _ s2 heq =>
      cases h
      have hqueue : (ssh2kexCoroutine env s k).1.inPq = s1.inPq := by rw [hchecked.eq]
      rw [heq] at hqueue
      have hqueue' : s2.inPq = s1.inPq := hqueue
      have hlength := hmoved.length
      rw [hrounds, hstate]
      show 10 * s2.inPq.length + 1 < _ + 2
      rw [hqueue']
      omega
  case h_6 hstate =>
    split at h
    · cases h
    case _ s1 heq =>
      have hshorter := (popped_of_eq heq).shorter rfl
      have hle := rounds_receiveNewkeys h
      rw [hrounds]
      omega
  case h_7 =>
    split at h
    · cases h
    · cases h
  case h_8 hstate =>
    have hle := rounds_idle h
    rw [hrounds, hstate]
    show _ < _ + 2
    omega

/-- A call runs the coroutine until it waits or the connection has ended. -/
theorem runCoroutine_settled {n : ℕ} (h : s.rounds < n) : (runCoroutine env n s).ended.isSome ∨
    ∃ s1, s1.ended = none ∧ resume env s1 = (runCoroutine env n s, false) := by
  induction n generalizing s with
  | zero => exact absurd h (Nat.not_lt_zero _)
  | succ n ih =>
    unfold runCoroutine
    split
    case _ hended => exact .inl hended
    case _ hended =>
      have hlive := Option.not_isSome_iff_eq_none.mp hended
      split
      case _ s1 heq => exact .inr ⟨s, hlive, heq⟩
      case _ s1 heq =>
        have hlt := rounds_resume hlive heq
        exact ih (by omega)

theorem processQueue_settled : (s.processQueue env).ended.isSome ∨
    ∃ s1, s1.ended = none ∧ resume env s1 = (s.processQueue env, false) := by
  unfold processQueue
  simp only
  split
  case _ hended => exact .inl hended
  case _ => exact runCoroutine_settled (Nat.lt_succ_self _)

end Ssh2Transport

end PuttyNd.Transport
