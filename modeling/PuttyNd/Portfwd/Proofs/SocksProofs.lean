import PuttyNd.Portfwd.Socks
import PuttyNd.Psftp.Proofs.MarshalProofs
import PuttyNd.Lib.Runs

/-!
# Proofs: the division of the data makes no difference to SOCKS
-/

namespace PuttyNd.Portfwd

open Psftp Lib

variable {conn : Conn} {pf : PortForwarding} {data rest : List UInt8} {buflen : ℕ}

/-! ## Readers -/

theorem getByte_cons (b : UInt8) (rest : List UInt8) :
    getByte ⟨b :: rest, false⟩ = (b, ⟨rest, false⟩) := getByte_accepts.complete b [b] rest rfl

theorem getByte_nil : getByte ⟨[], false⟩ = (0, ⟨[], true⟩) := rfl

theorem getByte_err (data : List UInt8) : getByte ⟨data, true⟩ = (0, ⟨data, true⟩) := rfl

theorem getUint16_err (data : List UInt8) : getUint16 ⟨data, true⟩ = (0, ⟨data, true⟩) := rfl

/-- What a connect message of SOCKS 4 or 4A says, after the message type -/
inductive Socks4Format : UInt16 × CStr → List UInt8 → Prop
  | byAddress (port : Bytes 2) (ipv4 : Bytes 4) (h : ¬ NameBased ipv4) (user : CStr) :
    Socks4Format (get16bit port.val, ipv4ToString (get32bitMsbFirst ipv4.val))
      (port.val ++ (ipv4.val ++ putAsciz user))
  | byName (port : Bytes 2) (ipv4 : Bytes 4) (h : NameBased ipv4) (user hostname : CStr) :
    Socks4Format (get16bit port.val, hostname)
      (port.val ++ (ipv4.val ++ (putAsciz user ++ putAsciz hostname)))

theorem socks4Connect_accepts : Accepts socks4Connect Socks4Format := by
  have h := getUint16_accepts.bind fun port => getUint32_accepts.bind fun ipv4 =>
    getAsciz_accepts.bind fun _ =>
      (getAsciz_accepts.map fun hostname => (port, hostname)).ite
        (ipv4 > 0x00000000 ∧ ipv4 < 0x00000100) (.pure (port, ipv4ToString ipv4))
  refine Accepts.congr h fun a w => ⟨?_, ?_⟩
  · rintro ⟨_, p, _, rfl, ⟨hp, rfl⟩, _, i, _, rfl, ⟨hi, rfl⟩, user, _, _, rfl, rfl, hlast⟩
    by_cases hc : NameBased ⟨i, hi⟩
    · obtain ⟨hostname, rfl, rfl⟩ := (if_pos hc).mp hlast
      exact .byName ⟨p, hp⟩ ⟨i, hi⟩ hc user hostname
    · obtain ⟨rfl, rfl⟩ := (if_neg hc).mp hlast
      rw [List.append_nil]
      exact .byAddress ⟨p, hp⟩ ⟨i, hi⟩ hc user
  · intro hw
    cases hw with
    | byAddress port ipv4 hc user =>
      refine ⟨_, port.val, _, rfl, ⟨port.2, rfl⟩, _, ipv4.val, _, rfl, ⟨ipv4.2, rfl⟩, user, _, [], ?_,
        rfl, ?_⟩
      · rw [List.append_nil]
      · exact (if_neg hc).mpr ⟨rfl, rfl⟩
    | byName port ipv4 hc user hostname =>
      exact ⟨_, port.val, _, rfl, ⟨port.2, rfl⟩, _, ipv4.val, _, rfl, ⟨ipv4.2, rfl⟩, user, _, _, rfl,
        rfl, (if_pos hc).mpr ⟨hostname, rfl, rfl⟩⟩

/-- The address of a connect message of SOCKS 5 is read back. -/
theorem socks5Address_wire (address : Address) (rest : List UInt8) :
    socks5Address ⟨address.wire ++ rest, false⟩ =
      .ok ((address.replyCode, address.host), ⟨rest, false⟩) := by
  cases address with
  | ipv4 address =>
    have h := getUint32_accepts.complete _ address.val rest ⟨address.2, rfl⟩
    simp [Address.wire, socks5Address, getByte_cons, h, Address.replyCode, Address.host]
  | ipv6 address =>
    have h := (getData_accepts 16).complete address.val address.val rest ⟨rfl, address.2⟩
    simp [Address.wire, socks5Address, getByte_cons, h, Address.replyCode, Address.host, ipv6ToString,
      address.2]
    rfl
  | domain length name =>
    have h := getPstring_accepts.complete name.val (length :: name.val) rest ⟨length, rfl, name.2⟩
    rw [List.cons_append] at h
    simp [Address.wire, socks5Address, getByte_cons, h, Address.replyCode, Address.host]
  | other type h =>
    obtain ⟨h1, h4, h3⟩ := h
    simp [Address.wire, socks5Address, getByte_cons, h1, h4, h3, Address.replyCode, Address.host]

/-- There is an address, or the data have run out, unless they end inside an IPv6 address. -/
theorem socks5Address_cases (data : List UInt8) (hcut : ∀ part, data = 4 :: part → 16 ≤ part.length) :
    (∃ code host src, socks5Address ⟨data, false⟩ = .ok ((code, host), src) ∧ src.err = true) ∨
      ∃ (address : Address) (rest : List UInt8), data = address.wire ++ rest := by
  cases data with
  | nil => exact Or.inl ⟨8, none, ⟨[], true⟩, rfl, rfl⟩
  | cons type data =>
    by_cases h1 : type = 1
    · subst h1
      rcases getUint32_accepts.cases data with herr | ⟨_, w, rest, rfl, ⟨hlen, -⟩, -⟩
      · exact Or.inl ⟨0, some (ipv4ToString (getUint32 ⟨data, false⟩).1), (getUint32 ⟨data, false⟩).2, rfl,
          herr⟩
      · exact Or.inr ⟨.ipv4 ⟨w, hlen⟩, rest, rfl⟩
    by_cases h4 : type = 4
    · subst h4
      have hlen := hcut data rfl
      exact Or.inr ⟨.ipv6 ⟨data.take 16, by rw [List.length_take]; omega⟩, data.drop 16, by
        rw [Address.wire, List.cons_append, List.take_append_drop]⟩
    by_cases h3 : type = 3
    · subst h3
      rcases getPstring_accepts.cases data with herr | ⟨name, _, rest, rfl, ⟨length, rfl, hlen⟩, -⟩
      · exact Or.inl ⟨0, some (upToNul (getPstring ⟨data, false⟩).1), (getPstring ⟨data, false⟩).2, rfl,
          herr⟩
      · exact Or.inr ⟨.domain length ⟨name, hlen⟩, rest, rfl⟩
    · exact Or.inr ⟨.other type ⟨h1, h4, h3⟩, data, rfl⟩

/-! ## A connect message of SOCKS 5 -/

theorem socks5Connect_open {code : UInt8} {host : Option CStr} {src : BinarySource}
    (h : socks5Address ⟨data, false⟩ = .ok ((code, host), src)) :
    socks5Connect conn pf buflen ⟨5 :: 1 :: 0 :: data, false⟩ =
      if (getUint16 src).2.err then
        .ok (.wait (conn.setPf { pf with hostname := host, port := (getUint16 src).1.toNat }))
      else if code ≠ 0 then .ok (.closed (conn.skWrite (socks5Reply code)).pfdClose)
      else
        .ok (.done ((conn.skWrite (socks5Reply code)).setPf
          { pf with
            hostname := host
            port := (getUint16 src).1.toNat
            socksState := .none
            socksbufConsumed := buflen - (getUint16 src).2.data.length })) := by
  unfold socks5Connect
  simp only [getByte_cons, and_self, if_true, h]
  rfl

/-- A complete message is granted or refused by the kind of its address. -/
theorem socks5Connect_wire (address : Address) (port : Bytes 2) (rest : List UInt8) :
    socks5Connect conn pf buflen ⟨5 :: 1 :: 0 :: (address.wire ++ (port.val ++ rest)), false⟩ =
      if address.replyCode ≠ 0 then
        .ok (.closed (conn.skWrite (socks5Reply address.replyCode)).pfdClose)
      else
        .ok (.done ((conn.skWrite (socks5Reply address.replyCode)).setPf
          { pf with
            hostname := address.host
            port := (get16bit port.val).toNat
            socksState := .none
            socksbufConsumed := buflen - rest.length })) := by
  have hport := getUint16_accepts.complete _ port.val rest ⟨port.2, rfl⟩
  rw [socks5Connect_open (socks5Address_wire address _), hport, if_neg Bool.false_ne_true]

theorem socks5Connect_other {a b c : UInt8} (h : [a, b, c] ≠ [5, 1, 0]) (rest : List UInt8) :
    socks5Connect conn pf buflen ⟨a :: b :: c :: rest, false⟩ =
      .ok (.closed (conn.skWrite (socks5Reply 7)).pfdClose) := by
  have h : ¬ (a = 5 ∧ b = 1 ∧ c = 0) := by simpa using h
  unfold socks5Connect
  simp only [getByte_cons, if_neg h]
  rfl

/-- Once a connect message has begun, the host and the port are written over. -/
theorem socks5Connect_fields (hostname : Option CStr) (port : ℕ) (rest : List UInt8) :
    socks5Connect conn { pf with hostname := hostname, port := port } buflen ⟨5 :: 1 :: rest, false⟩ =
      socks5Connect conn pf buflen ⟨5 :: 1 :: rest, false⟩ := by
  cases rest with
  | nil => rfl
  | cons c rest =>
    by_cases hc : c = 0
    · subst hc
      unfold socks5Connect
      simp only [getByte_cons, and_self, if_true]
    · have h : [5, 1, c] ≠ [5, 1, 0] := by simpa using hc
      rw [socks5Connect_other h, socks5Connect_other h]

/-- The data are a message, or they are looked at again with those that follow. -/
theorem socks5Connect_cases (data : List UInt8)
    (hcut : ∀ part, data = 5 :: 1 :: 0 :: 4 :: part → 16 ≤ part.length) :
    (∃ hostname port,
      socks5Connect conn pf buflen ⟨data, false⟩ =
        .ok (.wait (conn.setPf { pf with hostname := hostname, port := port })) ∧
      ∀ (conn : Conn) (pf' : PortForwarding) (buflen : ℕ) (more : List UInt8),
        pf'.hostname = pf.hostname → pf'.port = pf.port →
        socks5Connect conn { pf' with hostname := hostname, port := port } buflen
            ⟨data ++ more, false⟩ =
          socks5Connect conn pf' buflen ⟨data ++ more, false⟩) ∨
      (∃ (command : Bytes 3) (rest : List UInt8), command.val ≠ [5, 1, 0] ∧ data = command.val ++ rest) ∨
      ∃ (address : Address) (port : Bytes 2) (rest : List UInt8),
        data = 5 :: 1 :: 0 :: (address.wire ++ (port.val ++ rest)) := by
  have hkeep : ∀ pf' : PortForwarding, pf'.hostname = pf.hostname → pf'.port = pf.port →
      { pf' with hostname := pf.hostname, port := pf.port } = pf' := by
    intro pf' hhost hport
    rw [← hhost, ← hport]
  match data with
  | [] =>
    refine Or.inl ⟨pf.hostname, pf.port, rfl, fun conn pf' buflen more hhost hport => ?_⟩
    rw [hkeep pf' hhost hport]
  | [a] =>
    refine Or.inl ⟨pf.hostname, pf.port, ?_, fun conn pf' buflen more hhost hport => ?_⟩
    · unfold socks5Connect
      simp only [getByte_cons, getByte_nil, getByte_err]
      rw [if_neg (by simp)]
      rfl
    · rw [hkeep pf' hhost hport]
  | [a, b] =>
    by_cases hab : a = 5 ∧ b = 1
    · obtain ⟨rfl, rfl⟩ := hab
      exact Or.inl ⟨none, 0, rfl, fun conn pf' buflen more _ _ => socks5Connect_fields none 0 more⟩
    · refine Or.inl ⟨pf.hostname, pf.port, ?_, fun conn pf' buflen more hhost hport => ?_⟩
      · unfold socks5Connect
        simp only [getByte_cons, getByte_nil]
        rw [if_neg (by simpa using hab)]
        rfl
      · rw [hkeep pf' hhost hport]
  | a :: b :: c :: data =>
    by_cases habc : [a, b, c] = [5, 1, 0]
    · simp only [List.cons.injEq, and_true] at habc
      obtain ⟨rfl, rfl, rfl⟩ := habc
      have hfields : ∀ hostname port, ∀ (conn : Conn) (pf' : PortForwarding) (buflen : ℕ)
          (more : List UInt8), pf'.hostname = pf.hostname → pf'.port = pf.port →
          socks5Connect conn { pf' with hostname := hostname, port := port } buflen
              ⟨5 :: 1 :: 0 :: data ++ more, false⟩ =
            socks5Connect conn pf' buflen ⟨5 :: 1 :: 0 :: data ++ more, false⟩ := by
        intro hostname port conn pf' buflen more _ _
        exact socks5Connect_fields hostname port (0 :: data ++ more)
      rcases socks5Address_cases data fun part hpart => hcut part (by rw [hpart]) with
        ⟨code, host, src, hsrc, herr⟩ | ⟨address, rest, rfl⟩
      · refine Or.inl ⟨host, (getUint16 src).1.toNat, ?_, hfields _ _⟩
        rw [socks5Connect_open hsrc, if_pos (getUint16_accepts.latch src herr)]
      · rcases getUint16_accepts.cases rest with herr | ⟨_, port, rest, rfl, ⟨hport, -⟩, -⟩
        · refine Or.inl ⟨address.host, (getUint16 ⟨rest, false⟩).1.toNat, ?_, hfields _ _⟩
          rw [socks5Connect_open (socks5Address_wire address rest), if_pos herr]
        · exact Or.inr (Or.inr ⟨address, ⟨port, hport⟩, rest, rfl⟩)
    · exact Or.inr (Or.inl ⟨⟨[a, b, c], rfl⟩, data, habc, rfl⟩)

/-! ## What the data lead to -/

/-- What `pfd_receive` does after its loop. -/
def settle (data : List UInt8) : Turn → Except Fault Conn
  | .wait conn => .ok conn
  | .closed conn => .ok conn
  | .done conn => do
    let conn ← connect conn
    forward conn data

theorem settle_ok (turn : Turn) : (.ok turn >>= settle data) = settle data turn := rfl

theorem settle_done (data : List UInt8) (hready : pf.ready = false) :
    settle data (.done (conn.setPf pf)) =
      .ok { conn.setPf { pf with c := true } with
        frozen := true
        opened := conn.opened ++ [(pf.hostname, pf.port)] } := by
  simp only [settle, connect, Conn.setPf, forward, bind, Except.bind, hready]
  rfl

theorem pfdReceive_eq {socksbuf : List UInt8} {state : SocksState} (hpf : conn.pf = some pf)
    (hdata : data ≠ []) (hstate : pf.socksState ≠ .none) (hbuf : pf.socksbuf = some socksbuf)
    (hversion : socksVersionState pf.socksState (socksbuf ++ data) = some state)
    (hconsumed : pf.socksbufConsumed ≤ (socksbuf ++ data).length) :
    pfdReceive conn data =
      (socksLoop conn { pf with socksbuf := some (socksbuf ++ data), socksState := state }
        (socksbuf ++ data).length ⟨(socksbuf ++ data).drop pf.socksbufConsumed, false⟩) >>=
      settle data := by
  have hget : (getData ⟨socksbuf ++ data, false⟩ pf.socksbufConsumed).2 =
      ⟨(socksbuf ++ data).drop pf.socksbufConsumed, false⟩ := by
    rw [getData, avail_ok hconsumed]
  unfold pfdReceive
  rw [hpf]
  simp only [if_neg hdata, if_pos hstate, hbuf, hversion, hget]
  congr 1

/-- The state of a connection that asked for nothing yet -/
def fresh (socksState : SocksState) (socksbuf : List UInt8) : PortForwarding :=
  { c := false
    inputWanted := true
    ready := false
    socksState := socksState
    hostname := none
    port := 0
    socksbuf := some socksbuf
    socksbufConsumed := 0 }

theorem accepted_pf : accepted.pf = some (fresh .initial []) := rfl

theorem pfdReceive_accepted_four (data : List UInt8) :
    pfdReceive accepted (4 :: data) =
      settle (4 :: data)
        (socks4 accepted (fresh .socks4 (4 :: data)) (data.length + 1) ⟨4 :: data, false⟩) := by
  have hversion : socksVersionState .initial ([] ++ 4 :: data) = some .socks4 := rfl
  have h := pfdReceive_eq accepted_pf (List.cons_ne_nil _ _) (by decide) rfl hversion (Nat.zero_le _)
  exact h

theorem pfdReceive_accepted_five (data : List UInt8) :
    pfdReceive accepted (5 :: data) =
      (socks5Initial accepted (fresh .socks5Initial (5 :: data)) (data.length + 1)
        ⟨5 :: data, false⟩) >>= settle (5 :: data) := by
  have hversion : socksVersionState .initial ([] ++ 5 :: data) = some .socks5Initial := rfl
  have h := pfdReceive_eq accepted_pf (List.cons_ne_nil _ _) (by decide) rfl hversion (Nat.zero_le _)
  exact h

theorem pfdReceive_accepted_other {version : UInt8} (h : version ≠ 4 ∧ version ≠ 5)
    (data : List UInt8) : pfdReceive accepted (version :: data) = .ok accepted.pfdClose := by
  have hversion : socksVersionState .initial (version :: data) = none := by
    unfold socksVersionState
    rw [if_pos rfl]
    split
    · exact absurd ‹_› h.1
    · exact absurd ‹_› h.2
    · rfl
  unfold pfdReceive
  simp only [accepted_pf, fresh, List.nil_append, hversion, reduceCtorEq, if_false, ne_eq,
    not_false_eq_true, if_true]
  rfl

theorem socks4_format {a : UInt16 × CStr} {w : List UInt8} (hw : Socks4Format a w) (rest : List UInt8) :
    socks4 conn pf buflen ⟨4 :: 1 :: (w ++ rest), false⟩ =
      .done ((conn.skWrite (socks4Reply 90)).setPf
        { pf with
          port := a.1.toNat
          hostname := some a.2
          socksState := .none
          socksbufConsumed := buflen - rest.length }) := by
  unfold socks4
  simp only [getByte_cons, Bool.false_eq_true, if_false, and_self, if_true,
    socks4Connect_accepts.complete a w rest hw]

theorem socks4_other {type : UInt8} (h : type ≠ 1) (rest : List UInt8) :
    socks4 conn pf buflen ⟨4 :: type :: rest, false⟩ =
      .closed (conn.skWrite (socks4Reply 91)).pfdClose := by
  unfold socks4
  simp only [getByte_cons, Bool.false_eq_true, if_false, h, and_false]

/-- The list of methods is complete: it is refused, or a connect message follows. -/
theorem socks5Initial_wire (m : Methods) (rest : List UInt8) :
    socks5Initial conn pf buflen ⟨5 :: (m.wire ++ rest), false⟩ =
      if 0 ∈ m.methods.val then
        socks5Connect (conn.skWrite [5, 0])
          { pf with socksState := .socks5Connect, socksbufConsumed := buflen - rest.length } buflen
          ⟨rest, false⟩
      else .ok (.closed (conn.skWrite [5, 0xFF]).pfdClose) := by
  have hget := getPstring_accepts.complete m.methods.val m.wire rest ⟨m.count, rfl, m.methods.2⟩
  unfold socks5Initial
  simp only [getByte_cons, hget, Bool.false_eq_true, if_false]
  by_cases h : (0 : UInt8) ∈ m.methods.val
  · have hany : m.methods.val.any (· == 0) = true := by
      rw [List.any_eq_true]
      exact ⟨0, h, rfl⟩
    rw [hany, if_pos rfl, if_neg (by decide), if_pos h]
  · have hany : m.methods.val.any (· == 0) = false := by
      rw [List.any_eq_false]
      intro b hb hb0
      rw [beq_iff_eq] at hb0
      exact h (hb0 ▸ hb)
    rw [hany, if_neg Bool.false_ne_true, if_pos rfl, if_neg h]

/-- The connection after a message, with what follows it still in the buffer -/
def Message.outcome (m : Message) (rest : List UInt8) : Conn :=
  match m.target with
  | none => { accepted with pf := none, sent := m.replies }
  | some (hostname, port) =>
    { pf := some
        { fresh .none (m.wire ++ rest) with
          c := true
          hostname := hostname
          port := port
          socksbufConsumed := m.wire.length }
      frozen := true
      sent := m.replies
      opened := [(hostname, port)]
      channel := [] }

theorem pfdReceive_socks4 {a : UInt16 × CStr} {w : List UInt8} (hw : Socks4Format a w)
    (rest : List UInt8) :
    pfdReceive accepted (4 :: 1 :: (w ++ rest)) =
      .ok
        { pf := some
            { fresh .none (4 :: 1 :: (w ++ rest)) with
              c := true
              hostname := some a.2
              port := a.1.toNat
              socksbufConsumed := (4 :: 1 :: w).length }
          frozen := true
          sent := socks4Reply 90
          opened := [(some a.2, a.1.toNat)]
          channel := [] } := by
  have hlen : (1 :: (w ++ rest)).length + 1 - rest.length = (4 :: 1 :: w).length := by
    simp only [List.length_cons, List.length_append]
    omega
  rw [pfdReceive_accepted_four, socks4_format hw, settle_done _ rfl, hlen]
  rfl

/-- A message decides, whatever follows it. -/
theorem pfdReceive_message (m : Message) (rest : List UInt8) :
    pfdReceive accepted (m.wire ++ rest) = .ok (m.outcome rest) := by
  cases m with
  | unknownVersion version h => exact pfdReceive_accepted_other h rest
  | socks4 port ipv4 h user =>
    exact pfdReceive_socks4 (.byAddress port ipv4 h user) rest
  | socks4a port ipv4 h user hostname =>
    exact pfdReceive_socks4 (.byName port ipv4 h user hostname) rest
  | socks4Other type h =>
    show pfdReceive accepted (4 :: type :: rest) = _
    rw [pfdReceive_accepted_four, socks4_other h]
    rfl
  | noMethod m h =>
    show pfdReceive accepted (5 :: (m.wire ++ rest)) = _
    rw [pfdReceive_accepted_five, socks5Initial_wire, if_neg h]
    rfl
  | socks5Other m h command hcommand =>
    match command, hcommand with
    | ⟨[a, b, c], _⟩, hcommand =>
      show pfdReceive accepted (5 :: (m.wire ++ [a, b, c] ++ rest)) = _
      rw [List.append_assoc, pfdReceive_accepted_five, socks5Initial_wire, if_pos h]
      show socks5Connect _ _ _ ⟨a :: b :: c :: rest, false⟩ >>= _ = _
      rw [socks5Connect_other hcommand]
      rfl
  | socks5 m h address port =>
    have hwire : 5 :: (m.wire ++ (5 :: 1 :: 0 :: (address.wire ++ port.val))) ++ rest =
        5 :: (m.wire ++ (5 :: 1 :: 0 :: (address.wire ++ (port.val ++ rest)))) := by simp
    show pfdReceive accepted (5 :: (m.wire ++ (5 :: 1 :: 0 :: (address.wire ++ port.val))) ++ rest) = _
    rw [hwire, pfdReceive_accepted_five, socks5Initial_wire, if_pos h, socks5Connect_wire]
    by_cases hcode : address.replyCode = 0
    · have htarget : (Message.socks5 m h address port).target =
          some (address.host, (get16bit port.val).toNat) := if_pos hcode
      have hlen : (m.wire ++ (5 :: 1 :: 0 :: (address.wire ++ (port.val ++ rest)))).length + 1 -
          rest.length = (Message.socks5 m h address port).wire.length := by
        simp only [Message.wire, List.length_cons, List.length_append]
        omega
      rw [if_neg (not_not.mpr hcode), hlen, Message.outcome, htarget, ← hwire]
      rw [settle_ok, settle_done _ rfl]
      rfl
    · have htarget : (Message.socks5 m h address port).target = none := if_neg hcode
      rw [if_pos hcode, Message.outcome, htarget]
      rfl

/-! ## Data that are not yet a message -/

theorem socks4_ready {src : BinarySource} {conn' : Conn}
    (h : socks4 conn pf buflen src = .done conn') :
    ∃ pf', conn'.pf = some pf' ∧ pf'.ready = pf.ready := by
  unfold socks4 at h
  dsimp only at h
  split_ifs at h
  cases h
  exact ⟨_, rfl, rfl⟩

theorem socks5Connect_ready {src : BinarySource} {conn' : Conn}
    (h : socks5Connect conn pf buflen src = .ok (.done conn')) :
    ∃ pf', conn'.pf = some pf' ∧ pf'.ready = pf.ready := by
  unfold socks5Connect at h
  dsimp only [bind, pure] at h
  split_ifs at h
  · rcases haddress : socks5Address (getByte (getByte (getByte src).2).2).2 with e | x
    · rw [haddress] at h
      cases h
    · rw [haddress] at h
      simp only [Except.bind, Except.pure] at h
      split_ifs at h <;> cases h
      exact ⟨_, rfl, rfl⟩
  · simp only [Except.bind, Except.pure] at h
    split_ifs at h <;> cases h
    exact ⟨_, rfl, rfl⟩

theorem socks5Initial_ready {src : BinarySource} {conn' : Conn}
    (h : socks5Initial conn pf buflen src = .ok (.done conn')) :
    ∃ pf', conn'.pf = some pf' ∧ pf'.ready = pf.ready := by
  unfold socks5Initial at h
  dsimp only at h
  by_cases herr : (getPstring (getByte src).2).2.err = true
  · simp only [if_pos herr, Except.ok.injEq, reduceCtorEq] at h
  · rw [if_neg herr] at h
    by_cases hmethod : (if (getPstring (getByte src).2).1.any (· == 0) then (0 : UInt8) else 0xFF) = 0xFF
    · simp only [if_pos hmethod, Except.ok.injEq, reduceCtorEq] at h
    · rw [if_neg hmethod] at h
      obtain ⟨pf', hpf', hready⟩ := socks5Connect_ready h
      exact ⟨pf', hpf', hready⟩

theorem socksLoop_ready {src : BinarySource} {conn' : Conn}
    (h : socksLoop conn pf buflen src = .ok (.done conn')) :
    ∃ pf', conn'.pf = some pf' ∧ pf'.ready = pf.ready := by
  unfold socksLoop at h
  split at h
  · cases h
    exact ⟨pf, rfl, rfl⟩
  · cases h
  · exact socks4_ready (Except.ok.inj h)
  · exact socks5Initial_ready h
  · exact socks5Connect_ready h

/-- The state in the connection is written over by the loop. -/
theorem socksLoop_setPf (pf' : PortForwarding) (src : BinarySource) :
    socksLoop (conn.setPf pf') pf buflen src = socksLoop conn pf buflen src := rfl

/-- The data have not asked for anything yet, and it makes no difference whether those that follow come
with them. -/
structure Waiting (data : List UInt8) (conn : Conn) : Prop where
  receive : pfdReceive accepted data = .ok conn
  alive : ∃ pf, conn.pf = some pf ∧ pf.c = false ∧ pf.ready = false ∧ pf.socksState ≠ .none ∧
    pf.socksbuf = some data
  opened : conn.opened = []
  channel : conn.channel = []
  more : ∀ more, more ≠ [] → pfdReceive conn more = pfdReceive accepted (data ++ more)

/-- Before the channel is ready, the loop decides alone. -/
theorem settle_congr (hready : pf.ready = false) (data' : List UInt8) {src : BinarySource} :
    (socksLoop conn pf buflen src) >>= settle data =
      (socksLoop conn pf buflen src) >>= settle data' := by
  rcases hturn : socksLoop conn pf buflen src with e | turn
  · rfl
  · rw [settle_ok, settle_ok]
    cases turn with
    | wait _ => rfl
    | closed _ => rfl
    | done conn' =>
      obtain ⟨pf', hpf', hready'⟩ := socksLoop_ready hturn
      have hconn' : conn' = conn'.setPf pf' := by
        unfold Conn.setPf
        rw [← hpf']
      rw [hconn', settle_done _ (hready'.trans hready), settle_done _ (hready'.trans hready)]

theorem waiting_nil : Waiting [] accepted where
  receive := rfl
  alive := ⟨_, rfl, rfl, rfl, nofun, rfl⟩
  opened := rfl
  channel := rfl
  more _ _ := rfl

/-- A connection that waits for the rest of its first message -/
theorem waiting_first (version : UInt8) (state : SocksState) (data : List UInt8) (hstate : state ≠ .none)
    (hversion : ∀ data, socksVersionState .initial (version :: data) = some state)
    (hkept : ∀ data, socksVersionState state data = some state)
    (hwait : socksLoop accepted (fresh state (version :: data)) (data.length + 1)
      ⟨version :: data, false⟩ = .ok (.wait (accepted.setPf (fresh state (version :: data))))) :
    Waiting (version :: data) (accepted.setPf (fresh state (version :: data))) where
  receive := by
    have h := pfdReceive_eq accepted_pf (List.cons_ne_nil version data) (by decide) rfl
      (hversion data) (Nat.zero_le _)
    refine h.trans ?_
    show socksLoop accepted (fresh state (version :: data)) (data.length + 1)
      ⟨version :: data, false⟩ >>= _ = _
    rw [hwait]
    rfl
  alive := ⟨_, rfl, rfl, rfl, hstate, rfl⟩
  opened := rfl
  channel := rfl
  more more hmore := by
    have h1 := pfdReceive_eq accepted_pf (List.cons_ne_nil version (data ++ more)) (by decide) rfl
      (hversion (data ++ more)) (Nat.zero_le _)
    have h2 := pfdReceive_eq (rfl : (accepted.setPf (fresh state (version :: data))).pf = _) hmore
      hstate rfl (hkept _) (Nat.zero_le _)
    rw [socksLoop_setPf] at h2
    rw [List.cons_append, h1, h2]
    exact settle_congr rfl _

/-- The state in which a connect message of SOCKS 5 is read, after the list of methods -/
def connecting (m : Methods) (data : List UInt8) : PortForwarding :=
  { fresh .socks5Connect (5 :: (m.wire ++ data)) with socksbufConsumed := (5 :: m.wire).length }

/-- After a list of methods with the one that is spoken, the connect message is read at once. -/
theorem pfdReceive_methods {m : Methods} (h : 0 ∈ m.methods.val) (data : List UInt8) :
    pfdReceive accepted (5 :: (m.wire ++ data)) =
      (socks5Connect (accepted.skWrite [5, 0]) (connecting m data) (5 :: (m.wire ++ data)).length
        ⟨data, false⟩) >>= settle (5 :: (m.wire ++ data)) := by
  have hlen : (m.wire ++ data).length + 1 - data.length = (5 :: m.wire).length := by
    simp only [List.length_append, List.length_cons]
    omega
  rw [pfdReceive_accepted_five, socks5Initial_wire, if_pos h, hlen]
  rfl

theorem waiting_connect {m : Methods} (h : 0 ∈ m.methods.val) {data : List UInt8}
    {hostname : Option CStr} {port : ℕ}
    (hwait : socks5Connect (accepted.skWrite [5, 0]) (connecting m data)
      (5 :: (m.wire ++ data)).length ⟨data, false⟩ =
        .ok (.wait ((accepted.skWrite [5, 0]).setPf
          { connecting m data with hostname := hostname, port := port })))
    (hfields : ∀ (conn : Conn) (pf' : PortForwarding) (buflen : ℕ) (more : List UInt8),
      pf'.hostname = (connecting m data).hostname → pf'.port = (connecting m data).port →
      socks5Connect conn { pf' with hostname := hostname, port := port } buflen
          ⟨data ++ more, false⟩ =
        socks5Connect conn pf' buflen ⟨data ++ more, false⟩) :
    Waiting (5 :: (m.wire ++ data))
      ((accepted.skWrite [5, 0]).setPf
        { connecting m data with hostname := hostname, port := port }) where
  receive := by
    rw [pfdReceive_methods h, hwait]
    rfl
  alive := ⟨_, rfl, rfl, rfl, nofun, rfl⟩
  opened := rfl
  channel := rfl
  more more hmore := by
    set pf := { connecting m data with hostname := hostname, port := port } with hpf
    have happ : 5 :: (m.wire ++ data) ++ more = 5 :: (m.wire ++ (data ++ more)) := by simp
    have hdrop : (5 :: (m.wire ++ (data ++ more))).drop pf.socksbufConsumed = data ++ more := by
      show (5 :: m.wire ++ (data ++ more)).drop (5 :: m.wire).length = data ++ more
      rw [List.drop_left]
    have h1 := pfdReceive_eq (rfl : ((accepted.skWrite [5, 0]).setPf pf).pf = some pf) hmore
      (by rw [hpf]; exact nofun) rfl rfl (by
        show (5 :: m.wire).length ≤ _
        rw [happ, ← List.cons_append, List.length_append]
        exact Nat.le_add_right _ _)
    have h2 := hfields (accepted.skWrite [5, 0]) (connecting m (data ++ more))
      (5 :: (m.wire ++ data) ++ more).length more rfl rfl
    have h3 : socksLoop (accepted.skWrite [5, 0])
        { pf with socksbuf := some (5 :: (m.wire ++ data) ++ more), socksState := .socks5Connect }
        (5 :: (m.wire ++ data) ++ more).length
        ⟨(5 :: (m.wire ++ data) ++ more).drop pf.socksbufConsumed, false⟩ =
          socks5Connect (accepted.skWrite [5, 0]) (connecting m (data ++ more))
            (5 :: (m.wire ++ data) ++ more).length ⟨data ++ more, false⟩ := by
      rw [← h2, happ, hdrop]
      rfl
    rw [socksLoop_setPf] at h1
    rw [h1, settle_congr rfl (5 :: (m.wire ++ (data ++ more))), happ, pfdReceive_methods h, ← happ]
    exact congrArg (· >>= _) h3

/-- Data that do not end inside an IPv6 address begin with a message, or wait for the rest of one. -/
theorem message_or_waiting (data : List UInt8) (hcut : ¬ CutAddress data) :
    (∃ (m : Message) (rest : List UInt8), data = m.wire ++ rest) ∨ ∃ conn, Waiting data conn := by
  match data with
  | [] => exact Or.inr ⟨_, waiting_nil⟩
  | version :: data =>
    by_cases h4 : version = 4
    · subst h4
      have hfirst := fun data => waiting_first 4 .socks4 data (by decide) (fun _ => rfl) (fun _ => rfl)
      match data with
      | [] => exact Or.inr ⟨_, hfirst [] rfl⟩
      | type :: data =>
        by_cases h1 : type = 1
        · subst h1
          rcases socks4Connect_accepts.cases data with herr | ⟨_, w, rest, rfl, hw, -⟩
          · refine Or.inr ⟨_, hfirst _ ?_⟩
            show Except.ok (socks4 _ _ _ _) = _
            unfold socks4
            simp only [getByte_cons, Bool.false_eq_true, if_false, and_self, if_true, if_pos herr]
          · cases hw with
            | byAddress port ipv4 h user =>
              exact Or.inl ⟨.socks4 port ipv4 h user, rest, rfl⟩
            | byName port ipv4 h user hostname =>
              exact Or.inl ⟨.socks4a port ipv4 h user hostname, rest, rfl⟩
        · exact Or.inl ⟨.socks4Other type h1, data, rfl⟩
    by_cases h5 : version = 5
    · subst h5
      rcases getPstring_accepts.cases data with herr | ⟨methods, _, rest, rfl, ⟨count, rfl, hlen⟩, -⟩
      · refine Or.inr ⟨_, waiting_first 5 .socks5Initial data (by decide) (fun _ => rfl) (fun _ => rfl) ?_⟩
        show socks5Initial accepted (fresh .socks5Initial (5 :: data)) (data.length + 1)
          ⟨5 :: data, false⟩ = _
        unfold socks5Initial
        simp only [getByte_cons, if_pos herr]
      · let m : Methods := ⟨count, methods, hlen⟩
        by_cases h0 : (0 : UInt8) ∈ m.methods.val
        · rcases socks5Connect_cases rest (fun part hpart => by
            by_contra hlt
            exact hcut ⟨m, part, h0, by omega, by rw [hpart]; rfl⟩) with
            ⟨hostname, port, hwait, hfields⟩ | ⟨command, rest, hcommand, rfl⟩ |
            ⟨address, port, rest, rfl⟩
          · exact Or.inr ⟨_, waiting_connect h0 hwait hfields⟩
          · refine Or.inl ⟨.socks5Other m h0 command hcommand, rest, ?_⟩
            simp [Message.wire, Methods.wire, m]
          · refine Or.inl ⟨.socks5 m h0 address port, rest, ?_⟩
            simp [Message.wire, Methods.wire, m]
        · exact Or.inl ⟨.noMethod m h0, rest, rfl⟩
    · exact Or.inl ⟨.unknownVersion version ⟨h4, h5⟩, data, rfl⟩

/-! ## Runs -/

/-- The connection after a message and what follows it -/
structure Settled (m : Message) (rest : List UInt8) (conn : Conn) : Prop where
  sent : conn.sent = m.replies
  opened : conn.opened = m.target.toList
  closed : m.target = none → conn.pf = none ∧ conn.channel = []
  granted : ∀ a, m.target = some a → ∃ pf, conn.pf = some pf ∧ pf.c = true ∧ pf.socksState = .none ∧
    (pf.ready = false → conn.channel = [] ∧ pf.socksbuf = some (m.wire ++ rest) ∧
      pf.socksbufConsumed = m.wire.length) ∧
    (pf.ready = true → conn.channel = rest ∧ pf.socksbuf = none)

theorem settled_outcome (m : Message) (rest : List UInt8) : Settled m rest (m.outcome rest) := by
  unfold Message.outcome
  rcases htarget : m.target with _ | ⟨hostname, port⟩
  · exact ⟨rfl, by rw [htarget]; rfl, fun _ => ⟨rfl, rfl⟩, fun a ha => (nomatch htarget.symm.trans ha)⟩
  · exact ⟨rfl, by rw [htarget]; rfl, fun h => (nomatch htarget.symm.trans h), fun _ _ =>
      ⟨_, rfl, rfl, rfl, fun _ => ⟨rfl, rfl, rfl⟩, nofun⟩⟩

theorem outcome_confirmed {m : Message} {a : Option CStr × ℕ} (htarget : m.target = some a)
    (rest : List UInt8) :
    ∃ confirmed, pfdOpenConfirmation (m.outcome rest) = .ok confirmed ∧ confirmed.channel = rest := by
  unfold Message.outcome
  rw [htarget]
  exact ⟨_, rfl, List.drop_left⟩

/-- What holds of a connection whose client has sent the data -/
def Negotiated (data : List UInt8) (conn : Conn) : Prop :=
  (∃ (m : Message) (rest : List UInt8), data = m.wire ++ rest ∧ Settled m rest conn) ∨
    Waiting data conn

theorem negotiated_receive {data : List UInt8} (hcut : ¬ CutAddress data) :
    Outcome.Succeeds (pfdReceive accepted data) (Negotiated data) := by
  rcases message_or_waiting data hcut with ⟨m, rest, rfl⟩ | ⟨conn, hconn⟩
  · exact ⟨_, pfdReceive_message m rest, Or.inl ⟨m, rest, rfl, settled_outcome m rest⟩⟩
  · exact ⟨conn, hconn.receive, Or.inr hconn⟩

theorem Waiting.step_succeeds {e : Event} (h : Waiting data conn) (hallowed : Allowed conn e)
    (hundisturbed : Undisturbed conn e) :
    Outcome.Succeeds (step conn e) (Negotiated (data ++ e.data)) := by
  obtain ⟨pf, hpf, hc, hready, hstate, hbuf⟩ := h.alive
  cases e with
  | receive more =>
    have hstep : step conn (.receive more) = pfdReceive conn more := by
      unfold step
      rw [hpf]
      rfl
    rw [hstep]
    by_cases hmore : more = []
    · subst hmore
      refine ⟨conn, ?_, Or.inr ?_⟩
      · unfold pfdReceive
        rw [hpf]
        rfl
      · rw [Event.data, List.append_nil]
        exact h
    · rw [h.more more hmore]
      exact negotiated_receive ((hundisturbed pf hpf).2 data hstate hbuf)
  | openConfirmation =>
    obtain ⟨pf', hpf', hc', -⟩ := hallowed
    rw [hpf] at hpf'
    cases hpf'
    rw [hc] at hc'
    contradiction
  | setInputWanted wanted =>
    obtain ⟨pf', hpf', hc'⟩ := hallowed
    rw [hpf] at hpf'
    cases hpf'
    rw [hc] at hc'
    contradiction

theorem Settled.step_succeeds {m : Message} {e : Event} (h : Settled m rest conn) (hallowed : Allowed conn e)
    (hundisturbed : Undisturbed conn e) :
    Outcome.Succeeds (step conn e) (Settled m (rest ++ e.data)) := by
  rcases htarget : m.target with _ | a
  · obtain ⟨hpf, hchannel⟩ := h.closed htarget
    have hclosed : ∀ data, Settled m data conn := fun data =>
      ⟨h.sent, h.opened, h.closed, fun a ha => (nomatch htarget.symm.trans ha)⟩
    cases e with
    | receive more =>
      refine ⟨conn, ?_, hclosed _⟩
      unfold step
      rw [hpf]
      rfl
    | openConfirmation =>
      obtain ⟨pf', hpf', -⟩ := hallowed
      rw [hpf] at hpf'
      contradiction
    | setInputWanted wanted =>
      obtain ⟨pf', hpf', -⟩ := hallowed
      rw [hpf] at hpf'
      contradiction
  · obtain ⟨pf, hpf, hc, hstate, hwaits, hopen⟩ := h.granted a htarget
    have hclosed : m.target = none → False := fun hnone => (nomatch htarget.symm.trans hnone)
    cases e with
    | receive more =>
      have hstep : step conn (.receive more) = pfdReceive conn more := by
        unfold step
        rw [hpf]
        rfl
      rw [hstep]
      by_cases hmore : more = []
      · subst hmore
        refine ⟨conn, ?_, ?_⟩
        · unfold pfdReceive
          rw [hpf]
          rfl
        · rw [Event.data, List.append_nil]
          exact h
      · have hready : pf.ready = true := ((hundisturbed pf hpf).1 hc).resolve_right hmore
        obtain ⟨hchannel, hbuf⟩ := hopen hready
        refine ⟨conn.sshfwdWrite more, ?_, h.sent, h.opened, fun hnone => (hclosed hnone).elim, ?_⟩
        · unfold pfdReceive forward
          rw [hpf]
          simp only [if_neg hmore, hstate, ne_eq, not_true_eq_false, if_false, hready, if_true, hc]
        · refine fun a ha => ⟨pf, hpf, hc, hstate, ?_, fun _ => ⟨?_, hbuf⟩⟩
          · intro hready'
            rw [hready] at hready'
            contradiction
          · show conn.channel ++ more = _
            rw [hchannel]
            rfl
    | openConfirmation =>
      obtain ⟨pf', hpf', -, hready⟩ := hallowed
      rw [hpf] at hpf'
      cases hpf'
      obtain ⟨hchannel, hbuf, hconsumed⟩ := hwaits hready
      have hrest : conn.channel ++ (m.wire ++ rest).drop pf.socksbufConsumed = rest := by
        rw [hchannel, hconsumed, List.drop_left]
        rfl
      refine ⟨(({ conn with frozen := false } : Conn).sshfwdWrite
        ((m.wire ++ rest).drop pf.socksbufConsumed)).setPf { pf with ready := true, socksbuf := none },
        ?_, h.sent, h.opened, fun hnone => (hclosed hnone).elim, fun a ha =>
        ⟨{ pf with ready := true, socksbuf := none }, rfl, hc, hstate, nofun, fun _ => ⟨?_, rfl⟩⟩⟩
      · unfold step pfdOpenConfirmation
        rw [hpf]
        simp only [hbuf, if_pos hc]
      · show conn.channel ++ (m.wire ++ rest).drop pf.socksbufConsumed = rest ++ []
        rw [hrest, List.append_nil]
    | setInputWanted wanted =>
      have hdata : rest ++ (Event.setInputWanted wanted).data = rest := List.append_nil rest
      refine ⟨{ conn.setPf { pf with inputWanted := wanted } with frozen := !wanted }, ?_, h.sent,
        h.opened, fun hnone => (hclosed hnone).elim, fun a ha =>
        ⟨{ pf with inputWanted := wanted }, rfl, hc, hstate, ?_, ?_⟩⟩
      · unfold step pfdSetInputWanted
        rw [hpf]
      · rw [hdata]
        exact hwaits
      · rw [hdata]
        exact hopen

theorem Negotiated.step_succeeds {e : Event} (h : Negotiated data conn) (hallowed : Allowed conn e)
    (hundisturbed : Undisturbed conn e) :
    Outcome.Succeeds (step conn e) (Negotiated (data ++ e.data)) := by
  rcases h with ⟨m, rest, rfl, hsettled⟩ | hwaiting
  · obtain ⟨conn', hstep, hsettled'⟩ := hsettled.step_succeeds hallowed hundisturbed
    exact ⟨conn', hstep, Or.inl ⟨m, rest ++ e.data, List.append_assoc _ _ _, hsettled'⟩⟩
  · exact hwaiting.step_succeeds hallowed hundisturbed

theorem Negotiated.run_succeeds {events : List Event} (h : Negotiated data conn)
    (hall : Runs.AllSteps step (fun conn e => Allowed conn e ∧ Undisturbed conn e) conn events) :
    Outcome.Succeeds (run conn events) (Negotiated (data ++ events.flatMap Event.data)) := by
  induction events generalizing data conn with
  | nil =>
    rw [List.flatMap_nil, List.append_nil]
    exact ⟨conn, rfl, h⟩
  | cons e events ih =>
    obtain ⟨⟨hallowed, hundisturbed⟩, hall⟩ := hall
    obtain ⟨conn', hstep, h'⟩ := h.step_succeeds hallowed hundisturbed
    rw [hstep] at hall
    obtain ⟨conn'', hrun, h''⟩ := ih h' hall
    rw [List.flatMap_cons, ← List.append_assoc]
    refine ⟨conn'', ?_, h''⟩
    show events.foldlM step =<< step conn e = _
    rw [hstep]
    exact hrun

/-- A connection whose client has sent the data is as after all of them in one chunk; once the channel is
open, it was written what follows the request. -/
structure AsOneChunk (data : List UInt8) (conn one : Conn) : Prop where
  receive : pfdReceive accepted data = .ok one
  sent : conn.sent = one.sent
  opened : conn.opened = one.opened
  rejected : conn.pf = none ↔ one.pf = none
  held : (∀ pf, conn.pf = some pf → pf.ready = false) → conn.channel = []
  forwarded : ∀ pf, conn.pf = some pf → pf.ready = true →
    ∃ (m : Message) (rest : List UInt8) (confirmed : Conn),
      data = m.wire ++ rest ∧ m.target.isSome ∧ conn.channel = rest ∧
      pfdOpenConfirmation one = .ok confirmed ∧ confirmed.channel = rest

theorem Negotiated.asOneChunk (h : Negotiated data conn) : ∃ one, AsOneChunk data conn one := by
  rcases h with ⟨m, rest, rfl, h⟩ | h
  · have hone := settled_outcome m rest
    refine ⟨m.outcome rest, pfdReceive_message m rest, h.sent.trans hone.sent.symm,
      h.opened.trans hone.opened.symm, ?_, ?_, ?_⟩
    all_goals rcases htarget : m.target with _ | a
    · exact iff_of_true (h.closed htarget).1 (hone.closed htarget).1
    · obtain ⟨pf, hpf, -⟩ := h.granted a htarget
      obtain ⟨pf', hpf', -⟩ := hone.granted a htarget
      rw [hpf, hpf']
      exact iff_of_false nofun nofun
    · exact fun _ => (h.closed htarget).2
    · obtain ⟨pf, hpf, -, -, hwaits, -⟩ := h.granted a htarget
      exact fun hready => (hwaits (hready pf hpf)).1
    · intro pf hpf
      rw [(h.closed htarget).1] at hpf
      contradiction
    · intro pf hpf hready
      obtain ⟨pf', hpf', -, -, -, hopen⟩ := h.granted a htarget
      rw [hpf] at hpf'
      cases hpf'
      obtain ⟨confirmed, hconfirmed⟩ := outcome_confirmed htarget rest
      exact ⟨m, rest, confirmed, rfl, Option.isSome_of_eq_some htarget, (hopen hready).1, hconfirmed⟩
  · obtain ⟨pf, hpf, -, hready, -⟩ := h.alive
    refine ⟨conn, h.receive, rfl, rfl, Iff.rfl, fun _ => h.channel, fun pf' hpf' hready' => ?_⟩
    rw [hpf] at hpf'
    cases hpf'
    rw [hready] at hready'
    contradiction

/-- In a run in which nothing arrives between the request and the confirmation, and no chunk ends inside
an IPv6 address, it makes no difference how the data are divided. -/
theorem run_asOneChunk {events : List Event}
    (hall : Runs.AllSteps step (fun conn e => Allowed conn e ∧ Undisturbed conn e) accepted events) :
    ∃ conn one, run accepted events = .ok conn ∧
      AsOneChunk (events.flatMap Event.data) conn one := by
  obtain ⟨conn, hrun, h⟩ := Negotiated.run_succeeds (Or.inr waiting_nil) hall
  obtain ⟨one, hone⟩ := h.asOneChunk
  exact ⟨conn, one, hrun, hone⟩

/-- A request of SOCKS 4A in two chunks, with data in the second and after the channel was opened. -/
theorem run_asOneChunk_socks4a :
    let events : List Event := [.receive [4, 1, 0, 80, 0, 0, 0, 1], .receive [0, 97, 0, 66],
      .openConfirmation, .receive [67]]
    ∃ conn one, run accepted events = .ok conn ∧
      AsOneChunk (events.flatMap Event.data) conn one := by
  intro events
  refine run_asOneChunk ⟨⟨trivial, ?_⟩, ⟨trivial, ?_⟩, ⟨⟨_, rfl, rfl, rfl⟩, trivial⟩, ⟨trivial, ?_⟩, trivial⟩
  · rintro pf ⟨⟩
    refine ⟨nofun, ?_⟩
    rintro _ - ⟨⟩ ⟨m, part, -, -, h⟩
    simp at h
  · rintro pf ⟨⟩
    refine ⟨nofun, ?_⟩
    rintro _ - ⟨⟩ ⟨m, part, -, -, h⟩
    simp at h
  · rintro pf ⟨⟩
    exact ⟨fun _ => Or.inl rfl, fun _ h => absurd rfl h⟩

/-- Two chunks of a request that end inside the IPv6 address. And a client that sends on after its request,
while the socket is not frozen because the connection stopped holding back all channels. -/
theorem chunk_faults :
    (∃ chunks : List (List UInt8), (∀ chunk ∈ chunks, chunk ≠ []) ∧
      run accepted (chunks.map .receive) = .error .assertion) ∧
      ∃ (events : List Event) (conn one confirmed : Conn),
        Runs.AllSteps step (fun conn e => Allowed conn e ∧ ∀ data, e = .receive data →
          data ≠ [] ∧ conn.frozen = false) accepted events ∧
        run accepted events = .ok conn ∧
        pfdReceive accepted (events.flatMap Event.data) = .ok one ∧
        pfdOpenConfirmation one = .ok confirmed ∧ conn.channel = [] ∧ confirmed.channel = [120] := by
  constructor
  · exact ⟨[[5, 1, 0], [5, 1, 0, 4, 32]], by decide, by decide⟩
  · refine ⟨[.receive [5, 1, 0, 5, 1, 0, 3, 1, 97, 0, 80], .setInputWanted true, .receive [120],
      .openConfirmation], _, _, _, ?_, rfl, rfl, rfl, rfl, rfl⟩
    refine ⟨⟨trivial, ?_⟩, ⟨⟨_, rfl, rfl⟩, nofun⟩, ⟨trivial, ?_⟩, ⟨⟨_, rfl, rfl, rfl⟩, nofun⟩, trivial⟩
    · rintro data ⟨⟩
      exact ⟨List.cons_ne_nil _ _, rfl⟩
    · rintro data ⟨⟩
      exact ⟨List.cons_ne_nil _ _, rfl⟩

end PuttyNd.Portfwd
