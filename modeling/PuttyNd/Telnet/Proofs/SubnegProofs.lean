import PuttyNd.Telnet.Proofs.StreamProofs
import PuttyNd.Telnet.Subneg

/-!
# Proofs: replies to subnegotiations

The other side takes the bytes of a reply one by one up to the first IAC, so that a reply is read in full only if it
has none.
-/

namespace PuttyNd.Telnet

open Memory Outcome
open TelnetTag

variable {s peer : TelnetTag} {wire body content l : List UInt8} {var value c : UInt8}
  {b : SendBuffer} {env : List (List UInt8 × List UInt8)}

/-! ## Buffers -/

/-- What fits can be stored. -/
theorem storeAll_ok (h : b.bytes.length + l.length ≤ b.size) :
    ∃ b', b.storeAll l = .ok b' ∧ b'.bytes = b.bytes ++ l ∧ b'.size = b.size := by
  induction l generalizing b with
  | nil => exact ⟨b, rfl, (List.append_nil _).symm, rfl⟩
  | cons c l ih =>
    rw [List.length_cons] at h
    have hlt : b.bytes.length < b.size := by omega
    have hstore : b.store c = .ok ⟨b.size, b.bytes ++ [c], by rw [List.length_append]; exact hlt⟩ := dif_pos hlt
    obtain ⟨b', hall, hbytes, hsize⟩ :=
      ih (b := ⟨b.size, b.bytes ++ [c], by rw [List.length_append]; exact hlt⟩) (by
        dsimp only
        rw [List.length_append, List.length_singleton]
        omega)
    refine ⟨b', ?_, ?_, hsize⟩
    · unfold SendBuffer.storeAll
      rw [List.foldlM_cons, hstore, ok_bind]
      exact hall
    · rw [hbytes, List.append_assoc]
      rfl

theorem storeAll_snewn (size : ℕ) (h : l.length ≤ size) :
    ∃ b, (SendBuffer.snewn size).storeAll l = .ok b ∧ b.bytes = l ∧ b.size = size := by
  obtain ⟨b, hall, hbytes, hsize⟩ := storeAll_ok (b := SendBuffer.snewn size) (l := l) (by
    show 0 + l.length ≤ size
    omega)
  exact ⟨b, hall, hbytes, hsize⟩

theorem environBody_eq (conf : Conf) (var value : UInt8) :
    environBody conf var value = (environment conf).flatMap fun e => var :: e.1 ++ value :: e.2 := by
  unfold environBody environment
  rw [List.flatMap_append]
  cases conf.username with
  | none => rfl
  | some user =>
    congr 1
    rw [List.flatMap_cons, List.flatMap_nil, List.append_nil]

theorem length_environBody (conf : Conf) (var value : UInt8) :
    (environBody conf var value).length + 20 = environSize conf := by
  have hvariables : (conf.environmt.flatMap fun e => var :: e.1 ++ value :: e.2).length =
      (conf.environmt.map fun e => e.1.length + e.2.length + 2).sum := by
    rw [List.length_flatMap]
    congr 1
    refine List.map_congr_left fun e _ => ?_
    rw [List.length_append, List.length_cons, List.length_cons]
    omega
  unfold environBody environSize
  rw [List.length_append, hvariables]
  cases conf.username with
  | none =>
    dsimp only
    rw [List.length_nil]
    omega
  | some user =>
    dsimp only
    rw [List.length_append, List.length_cons, List.length_cons]
    show _ + (4 + 1 + (user.length + 1)) + 20 = _
    omega

theorem upcase_length (l : List UInt8) : (l.map upcase).length = l.length := List.length_map _

/-- What the buffer held is what `process_subneg` writes. -/
theorem subnegBuffer_ok : ∃ wire, s.subnegBuffer = .ok wire ∧ s.processSubneg = s.skWrite wire := by
  have hnothing : s.subnegReply = none → ∃ wire, (.ok [] : Except Fault (List UInt8)) = .ok wire ∧
      s.processSubneg = s.skWrite wire := by
    intro hnone
    refine ⟨[], rfl, ?_⟩
    unfold processSubneg skWrite
    rw [hnone, List.append_nil]
  have hsome : ∀ {body}, s.subnegReply = some body →
      s.processSubneg = s.skWrite ([IAC, SB, s.sbOpt] ++ body ++ [IAC, SE]) := by
    intro body hbody
    unfold processSubneg
    rw [hbody]
  unfold subnegBuffer
  unfold subnegReply at hnothing hsome
  by_cases hspeed : s.sbOpt = TELOPT_TSPEED
  · rw [if_pos hspeed] at hnothing hsome ⊢
    by_cases hsend : s.sbBuf = [TELQUAL_SEND]
    · rw [if_pos hsend] at hsome ⊢
      dsimp only
      obtain ⟨b, hb, hbytes, hsize⟩ := storeAll_snewn (20 + s.conf.termspeed.length)
        (l := [IAC, SB, TELOPT_TSPEED, TELQUAL_IS]) (by show 4 ≤ _; omega)
      obtain ⟨b', hb', -, -⟩ := storeAll_ok (b := b) (l := s.conf.termspeed ++ [NUL]) (by
        rw [hbytes, hsize, List.length_append, List.length_singleton]
        show 4 + _ ≤ _
        omega)
      obtain ⟨b'', hb'', hbytes'', -⟩ := storeAll_ok (b := b) (l := s.conf.termspeed ++ [IAC, SE]) (by
        rw [hbytes, hsize, List.length_append]
        show 4 + (_ + 2) ≤ _
        omega)
      rw [hb, ok_bind, hb', ok_bind, hb'', ok_bind]
      refine ⟨_, rfl, ?_⟩
      rw [hsome rfl, hbytes'', hbytes, hspeed]
      congr 1
    · rw [if_neg hsend] at hnothing ⊢
      exact hnothing rfl
  · rw [if_neg hspeed] at hnothing hsome ⊢
    by_cases htype : s.sbOpt = TELOPT_TTYPE
    · rw [if_pos htype] at hnothing hsome ⊢
      by_cases hsend : s.sbBuf = [TELQUAL_SEND]
      · rw [if_pos hsend] at hsome ⊢
        dsimp only
        obtain ⟨b, hb, hbytes, hsize⟩ := storeAll_snewn (20 + s.conf.termtype.length)
          (l := [IAC, SB, TELOPT_TTYPE, TELQUAL_IS]) (by show 4 ≤ _; omega)
        obtain ⟨b', hb', hbytes', hsize'⟩ := storeAll_ok (b := b) (l := s.conf.termtype.map upcase) (by
          rw [hbytes, hsize, upcase_length]
          show 4 + _ ≤ _
          omega)
        obtain ⟨b'', hb'', hbytes'', -⟩ := storeAll_ok (b := b') (l := [IAC, SE]) (by
          rw [hbytes', hbytes, hsize', hsize, List.length_append, upcase_length]
          show 4 + _ + 2 ≤ _
          omega)
        rw [hb, ok_bind, hb', ok_bind, hb'', ok_bind]
        refine ⟨_, rfl, ?_⟩
        rw [hsome rfl, hbytes'', hbytes', hbytes, htype]
        congr 1
      · rw [if_neg hsend] at hnothing ⊢
        exact hnothing rfl
    · rw [if_neg htype] at hnothing hsome ⊢
      by_cases henv : s.sbOpt = TELOPT_OLD_ENVIRON ∨ s.sbOpt = TELOPT_NEW_ENVIRON
      · rw [if_pos henv] at hnothing hsome ⊢
        cases hbuf : s.sbBuf with
        | nil =>
          rw [hbuf] at hnothing
          exact hnothing rfl
        | cons qual buf =>
          rw [hbuf] at hnothing hsome
          dsimp only at hnothing hsome ⊢
          by_cases hsend : qual = TELQUAL_SEND
          · rw [if_pos hsend] at hsome ⊢
            generalize hsense : (if s.sbOpt = TELOPT_OLD_ENVIRON then guessSense s.conf.rfcEnviron buf
              else (RFC_VAR, RFC_VALUE)) = sense at hsome ⊢
            have hlength := length_environBody s.conf sense.1 sense.2
            obtain ⟨b, hb, hbytes, hsize⟩ := storeAll_snewn (environSize s.conf)
              (l := [IAC, SB, s.sbOpt, TELQUAL_IS]) (by show 4 ≤ _; omega)
            obtain ⟨b', hb', hbytes', hsize'⟩ := storeAll_ok (b := b)
              (l := environBody s.conf sense.1 sense.2) (by
                rw [hbytes, hsize]
                show 4 + _ ≤ _
                omega)
            obtain ⟨b'', hb'', hbytes'', -⟩ := storeAll_ok (b := b') (l := [IAC, SE]) (by
              rw [hbytes', hbytes, hsize', hsize, List.length_append]
              show 4 + _ + 2 ≤ _
              omega)
            rw [hb, ok_bind, hb', ok_bind, hb'', ok_bind]
            refine ⟨_, rfl, ?_⟩
            rw [hsome rfl, hbytes'', hbytes', hbytes]
            congr 1
          · rw [if_neg hsend] at hnothing ⊢
            exact hnothing rfl
      · rw [if_neg henv] at hnothing ⊢
        exact hnothing rfl

/-! ## Reading a subnegotiation -/

theorem readItem_subnegot (h : peer.state = .subnegot) (hc : c ≠ IAC) :
    peer.readItem c = (peer.subnegAddchar c, []) := by
  unfold readItem readByte
  rw [h]
  dsimp only
  rw [if_neg hc]
  rfl

theorem readItem_iac (h : peer.state = .subnegot) :
    peer.readItem IAC = ({ peer with state := .subnegIac }, []) := by
  unfold readItem readByte
  rw [h]
  rfl

theorem readItem_se (h : peer.state = .subnegIac) :
    peer.readItem SE = ({ peer.processSubneg with state := .topLevel }, [.subneg peer.sbOpt peer.sbBuf]) := by
  unfold readItem readByte
  rw [h]
  rfl

theorem readItem_escaped (h : peer.state = .subnegIac) (hc : c ≠ SE) :
    peer.readItem c = (peer.subnegAddchar c, []) := by
  unfold readItem readByte
  rw [h]
  dsimp only
  rw [if_pos hc, if_neg hc]

/-- In a subnegotiation, the bytes add the content. -/
def Adds (wire content : List UInt8) : Prop :=
  ∀ peer : TelnetTag, peer.state = .subnegot →
    Transducer.Reads readItem peer wire [] { peer with sbBuf := peer.sbBuf ++ content, state := .subnegot }

theorem Adds.nil : Adds [] [] := by
  intro peer h
  rw [List.append_nil, ← h]
  exact .nil peer

theorem Adds.append {wire' content' : List UInt8} (h : Adds wire content) (h' : Adds wire' content') :
    Adds (wire ++ wire') (content ++ content') := by
  intro peer hpeer
  have hall := (h peer hpeer).append (h' _ rfl)
  rw [← List.append_assoc]
  exact hall

theorem adds_single (hc : c ≠ IAC) : Adds [c] [c] := fun _ h =>
  .silent (readItem_subnegot h hc) (.nil _)

theorem adds_plain (h : IAC ∉ body) : Adds body body := by
  induction body with
  | nil => exact .nil
  | cons c body ih =>
    rw [List.mem_cons, not_or] at h
    exact (adds_single fun hc => h.1 hc.symm).append (ih h.2)

theorem adds_sizeByte (n : ℤ) : Adds (sizeByte n) [UInt8.ofInt n] := by
  unfold sizeByte
  dsimp only
  by_cases hn : UInt8.ofInt n = IAC
  · rw [if_pos hn, hn]
    intro peer h
    refine .silent (readItem_iac h) ?_
    exact .silent (readItem_escaped rfl (by decide)) (.nil _)
  · rw [if_neg hn]
    exact adds_single hn

theorem reads_head (option : UInt8) (h : peer.state = .topLevel) :
    Transducer.Reads readItem peer [IAC, SB, option] []
      { peer with sbOpt := option, sbBuf := [], state := .subnegot } := by
  have hiac : readItem peer IAC = ({ peer with state := .seenIac }, []) := by
    unfold readItem readByte
    rw [h]
    rfl
  have hsb : readItem { peer with state := .seenIac } SB = ({ peer with state := .seenSb }, []) := rfl
  exact .silent hiac (.silent hsb (.silent rfl (.nil _)))

/-- What is put between the head and the end of a subnegotiation is read as its content. -/
theorem Adds.readsAsSubneg (h : Adds body content) (option : UInt8) :
    ReadsAsSubneg ([IAC, SB, option] ++ body ++ [IAC, SE]) option content := by
  intro peer hpeer
  have hend : Transducer.Reads readItem
      { peer with sbOpt := option, sbBuf := [] ++ content, state := .subnegot } [IAC, SE]
      [.subneg option content]
      { TelnetTag.processSubneg { peer with sbOpt := option, sbBuf := [] ++ content, state := .subnegIac } with
        state := .topLevel } := by
    refine .silent (readItem_iac rfl) ?_
    exact .cons (readItem_se rfl) (.nil _)
  have hall := ((reads_head option hpeer).append (h _ rfl)).append hend
  have hrun := hall
  unfold Transducer.Reads at hrun
  rw [hrun]
  exact ⟨rfl, rfl⟩

/-- A subnegotiation that is as long as what was sent had no IAC in it. -/
theorem content_of_run {items : List Item} {option : UInt8} (h : peer.state = .subnegot)
    (hrun : (Transducer.run readItem peer wire).2 = .subneg option content :: items) :
    ∃ d, content = peer.sbBuf ++ d ∧ d.length + 2 ≤ wire.length ∧
      (d.length + 2 = wire.length → IAC ∉ d ∧ wire = d ++ [IAC, SE]) := by
  induction hlen : wire.length using Nat.strongRecOn generalizing peer wire with
  | ind n ih =>
    subst hlen
    cases wire with
    | nil => exact (nomatch hrun)
    | cons c wire =>
      by_cases hc : c = IAC
      · subst hc
        rw [Transducer.run_cons, readItem_iac h] at hrun
        cases wire with
        | nil => exact (nomatch hrun)
        | cons c' wire =>
          rw [List.nil_append, Transducer.run_cons] at hrun
          by_cases hse : c' = SE
          · subst hse
            rw [readItem_se rfl] at hrun
            have hitem := (List.cons.inj hrun).1
            refine ⟨[], ?_, ?_, ?_⟩
            · rw [List.append_nil]
              exact (Item.subneg.inj hitem).2.symm
            · rw [List.length_nil, List.length_cons, List.length_cons]
              omega
            · intro hlength
              rw [List.length_nil, List.length_cons, List.length_cons] at hlength
              have hnil : wire = [] := List.length_eq_zero_iff.mp (by omega)
              rw [hnil]
              exact ⟨List.not_mem_nil, rfl⟩
          · rw [readItem_escaped rfl hse, List.nil_append] at hrun
            obtain ⟨d, hcontent, hle, -⟩ := ih wire.length (by
              rw [List.length_cons, List.length_cons]
              omega) rfl hrun rfl
            refine ⟨c' :: d, ?_, ?_, ?_⟩
            · rw [hcontent]
              show peer.sbBuf ++ [c'] ++ d = _
              rw [List.append_assoc]
              rfl
            · rw [List.length_cons, List.length_cons, List.length_cons]
              omega
            · intro hlength
              rw [List.length_cons, List.length_cons, List.length_cons] at hlength
              omega
      · rw [Transducer.run_cons, readItem_subnegot h hc, List.nil_append] at hrun
        obtain ⟨d, hcontent, hle, hplain⟩ := ih wire.length (by
          rw [List.length_cons]
          omega) rfl hrun rfl
        refine ⟨c :: d, ?_, ?_, ?_⟩
        · rw [hcontent]
          show peer.sbBuf ++ [c] ++ d = _
          rw [List.append_assoc]
          rfl
        · rw [List.length_cons, List.length_cons]
          omega
        · intro hlength
          rw [List.length_cons, List.length_cons] at hlength
          obtain ⟨hd, hwire⟩ := hplain (by omega)
          refine ⟨?_, by rw [hwire]; rfl⟩
          rw [List.mem_cons, not_or]
          exact ⟨fun heq => hc heq.symm, hd⟩

/-! ## Environment variables -/

/-- What is written of the variables -/
def encodeEnviron (var value : UInt8) (env : List (List UInt8 × List UInt8)) : List UInt8 :=
  env.flatMap fun e => var :: e.1 ++ value :: e.2

/-- The bytes that divide the names and values -/
def isMark (var value c : UInt8) : Bool := c == var || c == value

theorem isMark_eq_false : isMark var value c = false ↔ c ≠ var ∧ c ≠ value := by
  unfold isMark
  rw [Bool.or_eq_false_iff, beq_eq_false_iff_ne, beq_eq_false_iff_ne]

/-- There is no mark in the names and values. -/
def Unmarked (var value : UInt8) (env : List (List UInt8 × List UInt8)) : Prop :=
  ∀ e ∈ env, Marks.Plain (isMark var value) e.1 ∧ Marks.Plain (isMark var value) e.2

theorem unmarked_cons {e : List UInt8 × List UInt8} : Unmarked var value (e :: env) ↔
    (Marks.Plain (isMark var value) e.1 ∧ Marks.Plain (isMark var value) e.2) ∧ Unmarked var value env :=
  List.forall_mem_cons

theorem encodeEnviron_cons {e : List UInt8 × List UInt8} : encodeEnviron var value (e :: env) =
    var :: e.1 ++ value :: e.2 ++ encodeEnviron var value env := List.flatMap_cons

theorem pairUp_sound : ∀ (parts : List (UInt8 × List UInt8)) {env : List (List UInt8 × List UInt8)},
    (∀ p ∈ parts, Marks.Marked (isMark var value) p) → pairUp var value parts = some env →
    Marks.join parts = encodeEnviron var value env ∧ Unmarked var value env
  | [], env, _, h => by
    rw [← Option.some.inj h]
    exact ⟨rfl, fun _ he => absurd he List.not_mem_nil⟩
  | [_], _, _, h => (nomatch h)
  | name :: val :: rest, env, hparts, h => by
    unfold pairUp at h
    by_cases hmarks : name.1 = var ∧ val.1 = value
    · rw [if_pos hmarks] at h
      obtain ⟨env', henv', rfl⟩ := Option.map_eq_some_iff.mp h
      obtain ⟨hname, hparts⟩ := List.forall_mem_cons.mp hparts
      obtain ⟨hval, hparts⟩ := List.forall_mem_cons.mp hparts
      obtain ⟨hjoin, hunmarked⟩ := pairUp_sound rest hparts henv'
      refine ⟨?_, unmarked_cons.mpr ⟨⟨hname.2, hval.2⟩, hunmarked⟩⟩
      rw [Marks.join_cons, Marks.join_cons, hjoin, encodeEnviron_cons, hmarks.1, hmarks.2]
      dsimp only
      rw [List.append_assoc, List.cons_append, List.cons_append]
    · rw [if_neg hmarks] at h
      exact (nomatch h)

/-- The parts that are written of the variables -/
def environParts (var value : UInt8) (env : List (List UInt8 × List UInt8)) : List (UInt8 × List UInt8) :=
  env.flatMap fun e => [(var, e.1), (value, e.2)]

theorem join_environParts : Marks.join (environParts var value env) = encodeEnviron var value env := by
  induction env with
  | nil => rfl
  | cons e env ih =>
    have hparts : environParts var value (e :: env) = (var, e.1) :: (value, e.2) :: environParts var value env :=
      rfl
    rw [hparts, Marks.join_cons, Marks.join_cons, ih, encodeEnviron_cons]
    dsimp only
    rw [List.append_assoc, List.cons_append, List.cons_append]

theorem pairUp_environParts : pairUp var value (environParts var value env) = some env := by
  induction env with
  | nil => rfl
  | cons e env ih =>
    show (if var = var ∧ value = value then _ else _) = _
    rw [if_pos ⟨rfl, rfl⟩]
    show (pairUp var value (environParts var value env)).map _ = _
    rw [ih]
    rfl

/-- What is read back as the variables is what is written of them, if they have no marks. -/
theorem decodeEnviron_iff : decodeEnviron var value l = some env ↔
    l = encodeEnviron var value env ∧ Unmarked var value env := by
  have hmark : (fun c => c == var || c == value) = isMark var value := rfl
  unfold decodeEnviron
  dsimp only
  rw [hmark]
  constructor
  · intro h
    obtain ⟨hjoin, -, hparts⟩ := Marks.split_spec (isMark var value) l
    by_cases hnil : (Marks.split (isMark var value) l).1 = []
    · rw [if_pos hnil] at h
      obtain ⟨hencode, hunmarked⟩ := pairUp_sound _ hparts h
      rw [hnil, hencode] at hjoin
      exact ⟨hjoin.symm, hunmarked⟩
    · rw [if_neg hnil] at h
      exact (nomatch h)
  · rintro ⟨rfl, hunmarked⟩
    have hparts : ∀ p ∈ environParts var value env, Marks.Marked (isMark var value) p := by
      intro p hp
      obtain ⟨e, he, hp⟩ := List.mem_flatMap.mp hp
      obtain ⟨hname, hvalue⟩ := hunmarked e he
      rcases List.mem_cons.mp hp with rfl | hp
      · refine ⟨?_, hname⟩
        unfold isMark
        rw [beq_self_eq_true, Bool.true_or]
      · rw [List.mem_singleton.mp hp]
        refine ⟨?_, hvalue⟩
        unfold isMark
        rw [beq_self_eq_true, Bool.or_true]
    rw [← join_environParts, Marks.split_join hparts]
    dsimp only
    rw [if_pos rfl]
    exact pairUp_environParts

/-! ## Replies -/

def Reply.encode : Reply → List UInt8
  | .tspeed termspeed => TELQUAL_IS :: termspeed
  | .ttype termtype => TELQUAL_IS :: termtype.map upcase
  | .environ var value env => TELQUAL_IS :: encodeEnviron var value env

theorem guessSense_cases (rfcEnviron : Bool) (buf : List UInt8) :
    guessSense rfcEnviron buf = (RFC_VAR, RFC_VALUE) ∨ guessSense rfcEnviron buf = (BSD_VAR, BSD_VALUE) := by
  have hfold : ∀ sense : UInt8 × UInt8, sense = (RFC_VAR, RFC_VALUE) ∨ sense = (BSD_VAR, BSD_VALUE) →
      buf.foldl (fun sense c => if c = RFC_VAR then (RFC_VAR, RFC_VALUE)
        else if c = BSD_VAR then (BSD_VAR, BSD_VALUE) else sense) sense = (RFC_VAR, RFC_VALUE) ∨
      buf.foldl (fun sense c => if c = RFC_VAR then (RFC_VAR, RFC_VALUE)
        else if c = BSD_VAR then (BSD_VAR, BSD_VALUE) else sense) sense = (BSD_VAR, BSD_VALUE) := by
    induction buf with
    | nil => exact fun sense h => h
    | cons c buf ih =>
      intro sense h
      rw [List.foldl_cons]
      refine ih _ ?_
      by_cases hrfc : c = RFC_VAR
      · rw [if_pos hrfc]
        exact Or.inl rfl
      · rw [if_neg hrfc]
        by_cases hbsd : c = BSD_VAR
        · rw [if_pos hbsd]
          exact Or.inr rfl
        · rw [if_neg hbsd]
          exact h
  unfold guessSense
  refine hfold _ ?_
  cases rfcEnviron with
  | true => exact Or.inl rfl
  | false => exact Or.inr rfl

/-- The marks of a reply are not IAC. -/
def Reply.Sensible : Reply → Prop
  | .environ var value _ => var ≠ IAC ∧ value ≠ IAC
  | _ => True

/-- What is asked for decides the reply. -/
theorem subnegReply_eq : s.subnegReply = s.requested.map Reply.encode ∧ ∀ reply ∈ s.requested, reply.Sensible := by
  unfold subnegReply requested
  by_cases hspeed : s.sbOpt = TELOPT_TSPEED
  · rw [if_pos hspeed, if_pos hspeed]
    by_cases hsend : s.sbBuf = [TELQUAL_SEND]
    · rw [if_pos hsend, if_pos hsend]
      refine ⟨rfl, fun reply hreply => ?_⟩
      rw [← Option.some.inj hreply]
      trivial
    · rw [if_neg hsend, if_neg hsend]
      exact ⟨rfl, fun reply hreply => (nomatch hreply)⟩
  · rw [if_neg hspeed, if_neg hspeed]
    by_cases htype : s.sbOpt = TELOPT_TTYPE
    · rw [if_pos htype, if_pos htype]
      by_cases hsend : s.sbBuf = [TELQUAL_SEND]
      · rw [if_pos hsend, if_pos hsend]
        refine ⟨rfl, fun reply hreply => ?_⟩
        rw [← Option.some.inj hreply]
        trivial
      · rw [if_neg hsend, if_neg hsend]
        exact ⟨rfl, fun reply hreply => (nomatch hreply)⟩
    · rw [if_neg htype, if_neg htype]
      by_cases henv : s.sbOpt = TELOPT_OLD_ENVIRON ∨ s.sbOpt = TELOPT_NEW_ENVIRON
      · rw [if_pos henv, if_pos henv]
        cases s.sbBuf with
        | nil => exact ⟨rfl, fun reply hreply => (nomatch hreply)⟩
        | cons qual buf =>
          dsimp only
          by_cases hsend : qual = TELQUAL_SEND
          · rw [if_pos hsend, if_pos hsend]
            refine ⟨?_, fun reply hreply => ?_⟩
            · rw [environBody_eq]
              rfl
            · rw [← Option.some.inj hreply]
              by_cases hold : s.sbOpt = TELOPT_OLD_ENVIRON
              · rw [if_pos hold]
                rcases guessSense_cases s.conf.rfcEnviron buf with hguess | hguess
                · rw [hguess]
                  exact ⟨by decide, by decide⟩
                · rw [hguess]
                  exact ⟨by decide, by decide⟩
              · rw [if_neg hold]
                exact ⟨by decide, by decide⟩
          · rw [if_neg hsend, if_neg hsend]
            exact ⟨rfl, fun reply hreply => (nomatch hreply)⟩
      · rw [if_neg henv, if_neg henv]
        exact ⟨rfl, fun reply hreply => (nomatch hreply)⟩

theorem toNat_upcase : (upcase c).toNat = if 97 ≤ c.toNat ∧ c.toNat ≤ 122 then c.toNat - 32 else c.toNat := by
  have hiff : 97 ≤ c ∧ c ≤ 122 ↔ 97 ≤ c.toNat ∧ c.toNat ≤ 122 := by
    rw [UInt8.le_iff_toNat_le, UInt8.le_iff_toNat_le]
    rfl
  unfold upcase
  by_cases hlower : 97 ≤ c ∧ c ≤ 122
  · have hnat := hiff.mp hlower
    rw [if_pos hlower, if_pos hnat, UInt8.toNat_sub, UInt8.toNat_add]
    show (2 ^ 8 - 97 + (c.toNat + 65) % 2 ^ 8) % 2 ^ 8 = _
    omega
  · rw [if_neg hlower, if_neg (mt hiff.mpr hlower)]

theorem upcase_eq_iac : upcase c = IAC ↔ c = IAC := by
  have hiac : IAC.toNat = 255 := rfl
  rw [← UInt8.toNat_inj, ← UInt8.toNat_inj, toNat_upcase, hiac]
  by_cases hlower : 97 ≤ c.toNat ∧ c.toNat ≤ 122
  · rw [if_pos hlower]
    omega
  · rw [if_neg hlower]

theorem iac_mem_upcase : IAC ∈ l.map upcase ↔ IAC ∈ l := by
  rw [List.mem_map]
  constructor
  · rintro ⟨c, hc, heq⟩
    rwa [← upcase_eq_iac.mp heq]
  · exact fun h => ⟨IAC, h, upcase_eq_iac.mpr rfl⟩

theorem upcase_upcase : upcase (upcase c) = upcase c := by
  rw [← UInt8.toNat_inj, toNat_upcase, if_neg]
  rw [toNat_upcase]
  by_cases hlower : 97 ≤ c.toNat ∧ c.toNat ≤ 122
  · rw [if_pos hlower]
    omega
  · rw [if_neg hlower]
    exact hlower

theorem iac_mem_encodeEnviron (hvar : var ≠ IAC) (hvalue : value ≠ IAC) :
    IAC ∈ encodeEnviron var value env ↔ ∃ e ∈ env, IAC ∈ e.1 ++ e.2 := by
  unfold encodeEnviron
  rw [List.mem_flatMap]
  refine exists_congr fun e => and_congr_right fun _ => ?_
  rw [List.mem_append, List.mem_cons, List.mem_cons, List.mem_append]
  have h : ¬ IAC = var := fun heq => hvar heq.symm
  have h' : ¬ IAC = value := fun heq => hvalue heq.symm
  rw [or_iff_right h, or_iff_right h']

theorem clean_environ : (Reply.environ var value env).Clean ↔
    (∀ e ∈ env, IAC ∉ e.1 ++ e.2) ∧ Unmarked var value env := by
  unfold Reply.Clean Unmarked Marks.Plain
  constructor
  · intro h
    refine ⟨fun e he hiac => (h e he IAC hiac).1 rfl, fun e he => ⟨fun c hc => ?_, fun c hc => ?_⟩⟩
    · exact isMark_eq_false.mpr (h e he c (List.mem_append_left _ hc)).2
    · exact isMark_eq_false.mpr (h e he c (List.mem_append_right _ hc)).2
  · rintro ⟨hiac, hmarks⟩ e he c hc
    refine ⟨fun heq => hiac e he (heq ▸ hc), ?_⟩
    rcases List.mem_append.mp hc with hc | hc
    · exact isMark_eq_false.mp ((hmarks e he).1 c hc)
    · exact isMark_eq_false.mp ((hmarks e he).2 c hc)

/-- What was written says what was asked for only if the values have no marks, and it has its length. -/
theorem Reply.Says.length {reply : Reply} (h : reply.Says content) : content.length = reply.encode.length := by
  cases reply with
  | tspeed termspeed =>
    rw [show content = _ from h]
    rfl
  | ttype termtype =>
    have hlength := congrArg List.length (show content.map upcase = _ from h)
    rwa [List.length_map] at hlength
  | environ var value env =>
    obtain ⟨rest, rfl, hdecode⟩ := h
    rw [(decodeEnviron_iff.mp hdecode).1]
    rfl

/-- A reply is clean if it is written without IAC and says what was asked for. -/
theorem Reply.clean_iff {reply : Reply} (h : reply.Sensible) :
    reply.Clean ↔ IAC ∉ reply.encode ∧ reply.Says reply.encode := by
  cases reply with
  | tspeed termspeed =>
    refine Iff.trans ?_ (and_iff_left rfl).symm
    show _ ↔ IAC ∉ TELQUAL_IS :: termspeed
    rw [List.mem_cons, or_iff_right (by decide)]
    rfl
  | ttype termtype =>
    have hsaid : (Reply.ttype termtype).Says (TELQUAL_IS :: termtype.map upcase) := by
      show (TELQUAL_IS :: termtype.map upcase).map upcase = _
      rw [List.map_cons, List.map_map]
      congr 1
      exact List.map_congr_left fun c _ => upcase_upcase
    refine Iff.trans ?_ (and_iff_left hsaid).symm
    show _ ↔ IAC ∉ TELQUAL_IS :: termtype.map upcase
    rw [List.mem_cons, or_iff_right (by decide), iac_mem_upcase]
    rfl
  | environ var value env =>
    have hiac : IAC ∉ TELQUAL_IS :: encodeEnviron var value env ↔ ∀ e ∈ env, IAC ∉ e.1 ++ e.2 := by
      rw [List.mem_cons, or_iff_right (by decide), iac_mem_encodeEnviron h.1 h.2]
      exact ⟨fun hno e he hmem => hno ⟨e, he, hmem⟩, fun hall ⟨e, he, hmem⟩ => hall e he hmem⟩
    rw [clean_environ, ← hiac]
    refine and_congr_right fun _ => ?_
    constructor
    · intro hunmarked
      exact ⟨_, rfl, decodeEnviron_iff.mpr ⟨rfl, hunmarked⟩⟩
    · rintro ⟨rest, hrest, hdecode⟩
      exact (decodeEnviron_iff.mp hdecode).2

/-- A reply is read as one subnegotiation that says what was asked for exactly if it is clean. -/
theorem readsAsSubneg_iff {reply : Reply} (h : reply.Sensible) (option : UInt8) :
    (∃ content, ReadsAsSubneg ([IAC, SB, option] ++ reply.encode ++ [IAC, SE]) option content ∧
      reply.Says content) ↔ reply.Clean := by
  rw [Reply.clean_iff h]
  constructor
  · rintro ⟨content, hreads, hsaid⟩
    have htop := hreads { telnetInit ⟨0, 0, true, [], [], true, [], none⟩ with state := .topLevel } rfl
    have hhead : Transducer.Reads readItem
        { telnetInit ⟨0, 0, true, [], [], true, [], none⟩ with state := .topLevel } [IAC, SB, option] [] _ :=
      reads_head option rfl
    unfold Transducer.Reads at hhead
    rw [List.append_assoc, Transducer.run_append, hhead, List.nil_append] at htop
    obtain ⟨d, hcontent, -, hplain⟩ := content_of_run rfl htop.1
    have hd : content = d := hcontent
    subst hd
    obtain ⟨hiac, hwire⟩ := hplain (by
      rw [hsaid.length, List.length_append]
      rfl)
    rw [List.append_cancel_right hwire]
    exact ⟨hiac, hsaid⟩
  · rintro ⟨hiac, hsaid⟩
    exact ⟨reply.encode, (adds_plain hiac).readsAsSubneg option, hsaid⟩

/-! ## Window sizes -/

theorem ofInt_toNat (n : ℤ) : ((UInt8.ofInt n).toNat : ℤ) = n % 256 := by
  unfold UInt8.ofInt
  rw [UInt8.toNat_ofNat']
  omega

/-- Two bytes of a number are the number if it has no more. -/
theorem size_bytes (n : ℤ) :
    256 * ((UInt8.ofInt (n >>> (8 : ℕ))).toNat : ℤ) + (UInt8.ofInt n).toNat = n ↔ 0 ≤ n ∧ n < 65536 := by
  have hshift : n >>> (8 : ℕ) = n / 256 := Int.shiftRight_eq_div_pow n 8
  rw [ofInt_toNat, ofInt_toNat, hshift]
  omega

theorem sizeBuffer_ok (width height : ℤ) : sizeBuffer width height = .ok ([IAC, SB, TELOPT_NAWS] ++
    sizeByte (width >>> (8 : ℕ)) ++ sizeByte width ++ sizeByte (height >>> (8 : ℕ)) ++ sizeByte height ++ [IAC, SE]) := by
  have htwo : ∀ n, (sizeByte n).length ≤ 2 := by
    intro n
    unfold sizeByte
    dsimp only
    by_cases hn : UInt8.ofInt n = IAC
    · rw [if_pos hn]
      exact Nat.le_refl 2
    · rw [if_neg hn]
      exact Nat.le_succ 1
  have hwidth := htwo width
  have hwidth' := htwo (width >>> (8 : ℕ))
  have hheight := htwo height
  have hheight' := htwo (height >>> (8 : ℕ))
  obtain ⟨b, hb, hbytes, hsize⟩ := storeAll_snewn (24) (l := [IAC, SB, TELOPT_NAWS]) (by decide)
  have hthree : b.bytes.length = 3 := by
    rw [hbytes]
    rfl
  obtain ⟨c, hc, hcbytes, hcsize⟩ := storeAll_ok (b := b) (l := sizeByte (width >>> (8 : ℕ)) ++ sizeByte width) (by
    rw [List.length_append]
    omega)
  have hc' := congrArg List.length hcbytes
  rw [List.length_append, List.length_append] at hc'
  obtain ⟨d, hd, hdbytes, hdsize⟩ := storeAll_ok (b := c) (l := sizeByte (height >>> (8 : ℕ)) ++ sizeByte height) (by
    rw [List.length_append]
    omega)
  have hd' := congrArg List.length hdbytes
  rw [List.length_append, List.length_append] at hd'
  obtain ⟨e, he, hebytes, -⟩ := storeAll_ok (b := d) (l := [IAC, SE]) (by
    show _ + 2 ≤ _
    omega)
  unfold sizeBuffer
  rw [hb, ok_bind, hc, ok_bind, hd, ok_bind, he, ok_bind, hebytes, hdbytes, hcbytes, hbytes]
  simp only [List.append_assoc, pure_eq]

/-- A size is read back exactly if each of its numbers has two bytes. -/
theorem sizeAnswers_iff {width height : ℤ} (hnaws : s.optStates .naws = .active) :
    s.SizeAnswers width height ↔ (0 ≤ width ∧ width < 65536) ∧ 0 ≤ height ∧ height < 65536 := by
  have hadds := (((adds_sizeByte (width >>> (8 : ℕ))).append (adds_sizeByte width)).append
    (adds_sizeByte (height >>> (8 : ℕ)))).append (adds_sizeByte height)
  have hreads := hadds.readsAsSubneg TELOPT_NAWS
  have hsent : (s.telnetSize width height).sent = s.sent ++ ([IAC, SB, TELOPT_NAWS] ++
      (sizeByte (width >>> (8 : ℕ)) ++ sizeByte width ++ sizeByte (height >>> (8 : ℕ)) ++ sizeByte height) ++ [IAC, SE]) := by
    unfold telnetSize
    dsimp only
    rw [if_neg (by rw [hnaws]; exact fun h => h rfl)]
    unfold skWrite
    simp only [List.append_assoc]
  rw [← size_bytes width, ← size_bytes height]
  constructor
  · rintro ⟨wire, content, hwire, hcontent, hdecode⟩
    rw [hsent] at hwire
    rw [← List.append_cancel_left hwire] at hcontent
    have hpeer := (hreads { s with state := .topLevel } rfl).1.symm.trans
      (hcontent { s with state := .topLevel } rfl).1
    rw [← (Item.subneg.inj (List.cons.inj hpeer).1).2] at hdecode
    exact Prod.mk.inj (Option.some.inj hdecode)
  · rintro ⟨hwidth, hheight⟩
    refine ⟨_, _, hsent, hreads, ?_⟩
    exact congrArg some (Prod.ext hwidth hheight)

/-! ## The replies to requests -/

/-- Requests are answered by well-framed replies exactly if the values hold no byte that has a meaning there, and
sizes if they have two bytes. All writes are within the buffers. -/
theorem subneg_iff (telnet : TelnetTag) (width height : ℤ) :
    (telnet.Answers ↔ ∀ reply ∈ telnet.requested, reply.Clean) ∧
      (telnet.optStates .naws = .active → (telnet.SizeAnswers width height ↔
        (0 ≤ width ∧ width < 65536) ∧ 0 ≤ height ∧ height < 65536)) ∧
      (∃ wire, telnet.subnegBuffer = .ok wire ∧ telnet.processSubneg = telnet.skWrite wire) ∧
      ∃ wire, sizeBuffer width height = .ok wire ∧ (telnet.optStates .naws = .active →
        (telnet.telnetSize width height).sent = telnet.sent ++ wire) := by
  obtain ⟨hreply, hsensible⟩ := subnegReply_eq (s := telnet)
  refine ⟨?_, fun hnaws => sizeAnswers_iff hnaws, subnegBuffer_ok, _, sizeBuffer_ok width height, fun hnaws => ?_⟩
  · have hprocess : ∀ wire, telnet.processSubneg = telnet.skWrite wire ↔
        wire = telnet.subnegReply.elim [] fun body => [IAC, SB, telnet.sbOpt] ++ body ++ [IAC, SE] := by
      intro wire
      unfold processSubneg
      cases telnet.subnegReply with
      | none =>
        constructor
        · intro h
          have hsent : telnet.sent ++ [] = telnet.sent ++ wire :=
            (List.append_nil _).trans (congrArg TelnetTag.sent h)
          exact (List.append_cancel_left hsent).symm
        · rintro rfl
          show telnet = { telnet with sent := telnet.sent ++ [] }
          rw [List.append_nil]
      | some body =>
        constructor
        · exact fun h => (List.append_cancel_left (congrArg TelnetTag.sent h)).symm
        · rintro rfl
          rfl
    unfold TelnetTag.Answers
    simp only [hprocess, exists_eq_left, hreply]
    cases hrequested : telnet.requested with
    | none => simp
    | some reply =>
      have hmember : (∀ r ∈ some reply, r.Clean) ↔ reply.Clean :=
        ⟨fun h => h reply rfl, fun h r hr => Option.some.inj hr ▸ h⟩
      rw [hmember, ← readsAsSubneg_iff (hsensible reply hrequested) telnet.sbOpt]
      rfl
  · unfold telnetSize
    dsimp only
    rw [if_neg (by rw [hnaws]; exact fun h => h rfl)]
    rfl

/-- The terminal speed is the one byte IAC, and is asked for. -/
theorem tspeed_iac_unanswered :
    ¬ TelnetTag.Answers { telnetInit ⟨80, 24, false, [IAC], [], true, [], none⟩ with
      sbOpt := TELOPT_TSPEED, sbBuf := [TELQUAL_SEND] } := by
  rintro ⟨wire, hwire, content, hreads, hsaid⟩
  have hsent : wire = [IAC, SB, TELOPT_TSPEED, TELQUAL_IS, IAC, IAC, SE] :=
    (List.append_cancel_left (congrArg TelnetTag.sent hwire)).symm
  subst hsent
  have hnothing := (hreads (telnetInit ⟨80, 24, true, [], [], true, [], none⟩) rfl).1
  have hlength : 0 = 1 := congrArg List.length hnothing
  exact absurd hlength (by decide)

end PuttyNd.Telnet
