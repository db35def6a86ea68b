import PuttyNd.X11.Connection
import PuttyNd.X11.Proofs.AuthProofs

/-!
# Proofs: the division of the data makes no difference to an X client
-/

namespace PuttyNd.X11

open Psftp Runs

/-! ## Gathering -/

/-- An array of `n` bytes whose first ones are set -/
def fill (n : ℕ) (l : List UInt8) : List UInt8 := l.take n ++ List.replicate (n - l.length) 0

theorem length_fill (n : ℕ) (l : List UInt8) : (fill n l).length = n := by
  unfold fill
  rw [List.length_append, List.length_take, List.length_replicate]
  omega

theorem fill_of_le {n : ℕ} {l : List UInt8} (h : n ≤ l.length) : fill n l = l.take n := by
  unfold fill
  rw [Nat.sub_eq_zero_of_le h]
  exact List.append_nil _

theorem fill_nil (n : ℕ) : fill n [] = List.replicate n 0 := by
  unfold fill
  rw [List.take_nil]
  rfl

/-- One more byte is set. -/
theorem store_fill {n : ℕ} {l : List UInt8} (h : l.length < n) (base : ℕ) (b : UInt8) :
    store (fill n l) base (base + l.length) b = .ok (fill n (l ++ [b])) := by
  unfold store
  rw [length_fill, if_pos ⟨by omega, by omega⟩, Nat.add_sub_cancel_left]
  unfold fill
  obtain ⟨k, rfl⟩ : ∃ k, n = l.length + 1 + k := ⟨n - (l.length + 1), by omega⟩
  rw [List.take_of_length_le (by omega), List.take_of_length_le (by simp), List.length_append,
    show l.length + 1 + k - l.length = k + 1 by omega, List.replicate_succ,
    List.set_append_right _ _ (Nat.le_refl _), Nat.sub_self, List.set_cons_zero, List.append_assoc,
    List.length_singleton, Nat.add_sub_cancel_left]
  rfl

/-- The loop takes as many bytes as there is room for. -/
theorem gather_fill (base : ℕ) {n room : ℕ} (hroom : room ≤ n) {l : List UInt8} (hl : l.length ≤ room)
    (data : List UInt8) :
    gather base (base + room) (fill n l) (base + l.length) data =
      .ok (fill n ((l ++ data).take room), base + ((l ++ data).take room).length,
        (l ++ data).drop room) := by
  induction data generalizing l with
  | nil =>
    rw [List.append_nil, List.take_of_length_le hl, List.drop_of_length_le hl]
    rfl
  | cons b data ih =>
    unfold gather
    by_cases hlt : base + l.length < base + room
    · have hlen : base + l.length + 1 = base + (l ++ [b]).length := by simp; omega
      rw [if_pos hlt, store_fill (by omega) base b]
      show gather base (base + room) (fill n (l ++ [b])) (base + l.length + 1) data = _
      rw [hlen, ih (by simp; omega), List.append_assoc]
      rfl
    · have heq : l.length = room := by omega
      rw [if_neg hlt, ← heq, List.take_left, List.drop_left]

theorem gather_done (base : ℕ) {limit dataRead : ℕ} (h : limit ≤ dataRead) (array data : List UInt8) :
    gather base limit array dataRead data = .ok (array, dataRead, data) := by
  cases data with
  | nil => rfl
  | cons b data =>
    unfold gather
    rw [if_neg (by omega)]

/-! ## The connection while the client speaks -/

variable {arrival : Arrival} {h : Header}

/-- The connection after less than a header -/
def before (arrival : Arrival) (data : List UInt8) : X11Connection :=
  { x11NewChannel arrival.peerAddr arrival.peerPort with
    firstpkt := fill 12 data
    dataRead := data.length }

/-- The connection after a header and some of the authorisation -/
def after (arrival : Arrival) (h : Header) (auth : List UInt8) : X11Connection :=
  { firstpkt := h.val
    disp := none
    authProtocol := some (fill (roundUp h.plen + 1) (auth.take (roundUp h.plen)))
    authData := fill (roundUp h.dlen) (auth.drop (roundUp h.plen))
    dataRead := 12 + auth.length
    authPlen := h.plen
    authPsize := roundUp h.plen
    authDlen := h.dlen
    authDsize := roundUp h.dlen
    verified := false
    peerAddr := arrival.peerAddr
    peerPort := arrival.peerPort
    s := false }

theorem readHeader_short {part data : List UInt8} (hlen : (part ++ data).length < 12) :
    readHeader (before arrival part) data = .ok (before arrival (part ++ data), none) := by
  have hpart : part.length ≤ 12 := by
    rw [List.length_append] at hlen
    omega
  have hgather := gather_fill 0 (Nat.le_refl 12) hpart data
  rw [Nat.zero_add, Nat.zero_add, Nat.zero_add, List.take_of_length_le (by omega),
    List.drop_of_length_le (by omega)] at hgather
  unfold readHeader
  show (gather 0 12 (fill 12 part) part.length data >>= _) = _
  rw [hgather]
  show (if (part ++ data).length < 12 then _ else _) = _
  rw [if_pos hlen]
  rfl

theorem readHeader_long {part data rest : List UInt8} (hpart : part.length < 12)
    (hdata : part ++ data = h.val ++ rest) :
    readHeader (before arrival part) data = .ok (after arrival h [], some rest) := by
  have hgather := gather_fill 0 (Nat.le_refl 12) (Nat.le_of_lt hpart) data
  have htake : (h.val ++ rest).take 12 = h.val := List.take_left' h.2
  have hdrop : (h.val ++ rest).drop 12 = rest := List.drop_left' h.2
  have hfill : fill 12 h.val = h.val := by
    rw [fill_of_le (Nat.le_of_eq h.2.symm), List.take_of_length_le (Nat.le_of_eq h.2)]
  rw [Nat.zero_add, Nat.zero_add, Nat.zero_add, hdata, htake, hdrop, hfill, h.2] at hgather
  unfold readHeader
  show (gather 0 12 (fill 12 part) part.length data >>= _) = _
  rw [hgather]
  unfold after
  rw [List.take_nil, List.drop_nil, fill_nil, fill_nil]
  rfl

theorem readHeader_after (auth data : List UInt8) :
    readHeader (after arrival h auth) data = .ok (after arrival h auth, some data) := by
  unfold readHeader
  show (gather 0 12 h.val (12 + auth.length) data >>= _) = _
  rw [gather_done 0 (Nat.le_add_right _ _)]
  show (if 12 + auth.length < 12 then _ else _) = _
  rw [if_neg (by omega)]
  rfl

/-- The two loops take the authorisation, whatever of it has been read before. -/
theorem gather_auth {auth : List UInt8} (hauth : auth.length ≤ h.size) (data : List UInt8) :
    ∃ dataRead left,
      gather 12 (12 + roundUp h.plen) (fill (roundUp h.plen + 1) (auth.take (roundUp h.plen)))
        (12 + auth.length) data =
          .ok (fill (roundUp h.plen + 1) ((auth ++ data).take (roundUp h.plen)), dataRead, left) ∧
      gather (12 + roundUp h.plen) (12 + roundUp h.plen + roundUp h.dlen)
        (fill (roundUp h.dlen) (auth.drop (roundUp h.plen))) dataRead left =
          .ok (fill (roundUp h.dlen) (((auth ++ data).take h.size).drop (roundUp h.plen)),
            12 + ((auth ++ data).take h.size).length, (auth ++ data).drop h.size) := by
  unfold Header.size at *
  generalize roundUp h.plen = p at *
  generalize roundUp h.dlen = d at *
  rcases Nat.lt_or_ge p auth.length with hlt | hge
  · -- the name is complete
    have hfst := gather_done 12 (Nat.add_le_add_left (Nat.le_of_lt hlt) 12)
      (fill (p + 1) (auth.take p)) data
    have hlen : (auth.drop p).length ≤ d := by
      rw [List.length_drop]
      omega
    have hsnd := gather_fill (12 + p) (Nat.le_refl d) hlen data
    have hread : 12 + p + (auth.drop p).length = 12 + auth.length := by
      rw [List.length_drop]
      omega
    have happ : auth.drop p ++ data = (auth ++ data).drop p :=
      (List.drop_append_of_le_length (Nat.le_of_lt hlt)).symm
    have hname : (auth ++ data).take p = auth.take p :=
      List.take_append_of_le_length (Nat.le_of_lt hlt)
    have hend : 12 + p + (((auth ++ data).drop p).take d).length =
        12 + ((auth ++ data).take (p + d)).length := by
      simp only [List.length_take, List.length_drop, List.length_append]
      omega
    rw [hread, happ, hend, List.drop_drop] at hsnd
    rw [hname, List.drop_take, Nat.add_sub_cancel_left]
    exact ⟨_, _, hfst, hsnd⟩
  · have hfst := gather_fill 12 (Nat.le_succ p) hge data
    rw [List.take_of_length_le hge, List.drop_of_length_le hge, List.drop_take,
      Nat.add_sub_cancel_left]
    rcases Nat.lt_or_ge (auth ++ data).length p with hshort | hlong
    · rw [List.drop_of_length_le (Nat.le_of_lt hshort)] at hfst ⊢
      rw [List.drop_of_length_le (l := auth ++ data) (i := p + d) (by omega),
        List.take_of_length_le (l := auth ++ data) (i := p + d) (by omega)]
      rw [List.take_of_length_le (Nat.le_of_lt hshort)] at hfst ⊢
      rw [List.take_nil]
      exact ⟨_, _, hfst, rfl⟩
    · have hsnd := gather_fill (12 + p) (Nat.le_refl d) (l := []) (Nat.zero_le d)
        ((auth ++ data).drop p)
      have hread : (12 + ((auth ++ data).take p).length) = 12 + p + ([] : List UInt8).length := by
        rw [List.length_take, Nat.min_eq_left hlong]
        rfl
      have hend : 12 + p + (((auth ++ data).drop p).take d).length =
          12 + ((auth ++ data).take (p + d)).length := by
        simp only [List.length_take, List.length_drop]
        omega
      rw [List.nil_append, hend, List.drop_drop] at hsnd
      exact ⟨_, _, hfst, hread ▸ hsnd⟩

theorem readAuth_after {auth : List UInt8} (hauth : auth.length ≤ h.size) (data : List UInt8) :
    readAuth (after arrival h auth) (fill (roundUp h.plen + 1) (auth.take (roundUp h.plen))) data =
      .ok (after arrival h ((auth ++ data).take h.size),
        if (auth ++ data).length < h.size then none else some ((auth ++ data).drop h.size)) := by
  obtain ⟨dataRead, left, hfst, hsnd⟩ := gather_auth hauth data
  have hle : roundUp h.plen ≤ h.size := Nat.le_add_right _ _
  have hname : ((auth ++ data).take h.size).take (roundUp h.plen) =
      (auth ++ data).take (roundUp h.plen) := by
    rw [List.take_take, Nat.min_eq_left hle]
  have hiff : 12 + ((auth ++ data).take h.size).length < 12 + roundUp h.plen + roundUp h.dlen ↔
      (auth ++ data).length < h.size := by
    unfold Header.size
    rw [List.length_take]
    omega
  unfold readAuth
  show (gather 12 (12 + roundUp h.plen) (fill (roundUp h.plen + 1) (auth.take (roundUp h.plen)))
    (12 + auth.length) data >>= _) = _
  rw [hfst]
  show (gather (12 + roundUp h.plen) (12 + roundUp h.plen + roundUp h.dlen)
    (fill (roundUp h.dlen) (auth.drop (roundUp h.plen))) dataRead left >>= _) = _
  rw [hsnd]
  show (if 12 + ((auth ++ data).take h.size).length < 12 + roundUp h.plen + roundUp h.dlen then _
    else _) = _
  unfold after
  rw [hname]
  by_cases hlt : (auth ++ data).length < h.size
  · rw [if_pos (hiff.mpr hlt), if_pos hlt]
    rfl
  · rw [if_neg (fun hlt' => hlt (hiff.mp hlt')), if_neg hlt]
    rfl

/-! ## All that is gathered -/

variable {env : Env} {xconn : X11Connection} {part data rest : List UInt8} {hello : Hello}

/-- The connection after all that a client has to say -/
def complete (arrival : Arrival) (hello : Hello) : X11Connection :=
  after arrival hello.header hello.auth

/-- The array with the name of the authorisation -/
def nameArray (hello : Hello) : List UInt8 :=
  fill (roundUp hello.header.plen + 1) (hello.auth.take (roundUp hello.header.plen))

/-- The connection has gathered the data, and waits for more. -/
inductive Gathers (arrival : Arrival) : List UInt8 → X11Connection → Prop
  | before (part : List UInt8) (hlen : part.length < 12) : Gathers arrival part (before arrival part)
  | after (h : Header) (auth : List UInt8) (hlen : auth.length < h.size) :
    Gathers arrival (h.val ++ auth) (after arrival h auth)

theorem x11Send_after {auth : List UInt8} (hauth : auth.length ≤ h.size) (s : State) :
    x11Send env s (after arrival h auth) data =
      if (auth ++ data).length < h.size then .ok (s.set (after arrival h ((auth ++ data).take h.size)))
      else
        x11Decide env s (after arrival h ((auth ++ data).take h.size))
          (fill (roundUp h.plen + 1) (((auth ++ data).take h.size).take (roundUp h.plen)))
          ((auth ++ data).drop h.size) := by
  have hauthProtocol : (after arrival h auth).authProtocol =
      some (fill (roundUp h.plen + 1) (auth.take (roundUp h.plen))) := rfl
  unfold x11Send
  rw [readHeader_after]
  simp only [hauthProtocol, readAuth_after hauth, bind, Except.bind, pure, Except.pure]
  by_cases hlt : (auth ++ data).length < h.size
  · simp only [if_pos hlt]
  · simp only [if_neg hlt]
    rfl

/-- The data complete what the client has to say, or the connection waits for more. -/
theorem x11Send_gathers (env : Env) (hg : Gathers arrival part xconn) (data : List UInt8) :
    (∃ xconn', Gathers arrival (part ++ data) xconn' ∧
      ∀ s, x11Send env s xconn data = .ok (s.set xconn')) ∨
      ∃ hello rest, part ++ data = Hello.wire hello ++ rest ∧
        ∀ s, x11Send env s xconn data =
          x11Decide env s (complete arrival hello) (nameArray hello) rest := by
  have hafter : ∀ (h : Header) (auth data : List UInt8), auth.length ≤ h.size →
      (∃ xconn', Gathers arrival (h.val ++ (auth ++ data)) xconn' ∧
        ∀ s, x11Send env s (after arrival h auth) data = .ok (s.set xconn')) ∨
      ∃ hello rest, h.val ++ (auth ++ data) = Hello.wire hello ++ rest ∧
        ∀ s, x11Send env s (after arrival h auth) data =
          x11Decide env s (complete arrival hello) (nameArray hello) rest := by
    intro h auth data hauth
    by_cases hlt : (auth ++ data).length < h.size
    · refine Or.inl ⟨after arrival h (auth ++ data), .after h _ hlt, fun s => ?_⟩
      rw [x11Send_after hauth, if_pos hlt, List.take_of_length_le (Nat.le_of_lt hlt)]
    · refine Or.inr ⟨⟨h, (auth ++ data).take h.size, ?_⟩, (auth ++ data).drop h.size, ?_, fun s => ?_⟩
      · rw [List.length_take]
        omega
      · unfold Hello.wire
        rw [List.append_assoc, List.take_append_drop]
      · rw [x11Send_after hauth, if_neg hlt]
        rfl
  cases hg with
  | before part hlen =>
    by_cases hshort : (part ++ data).length < 12
    · refine Or.inl ⟨_, .before _ hshort, fun s => ?_⟩
      unfold x11Send
      rw [readHeader_short hshort]
      rfl
    · let h : Header := ⟨(part ++ data).take 12, by rw [List.length_take]; omega⟩
      have hdata : part ++ data = h.val ++ (part ++ data).drop 12 :=
        (List.take_append_drop 12 (part ++ data)).symm
      have hsend : ∀ s, x11Send env s (before arrival part) data =
          x11Send env s (after arrival h []) ((part ++ data).drop 12) := by
        intro s
        unfold x11Send
        rw [readHeader_long hlen hdata, readHeader_after]
      have := hafter h [] ((part ++ data).drop 12) (Nat.zero_le _)
      rw [List.nil_append, ← hdata] at this
      simpa only [hsend] using this
  | after h auth hlen =>
    rw [List.append_assoc]
    exact hafter h auth data (Nat.le_of_lt hlen)

/-! ## The decision -/

/-- The bytes before the first NUL do not change if one is written. -/
theorem upToNul_set {l : List UInt8} {n : ℕ} (h : n < l.length) :
    upToNul (l.set n 0) = upToNul (l.take n) := by
  have hset : l.set n 0 = l.take n ++ 0 :: l.drop (n + 1) := by
    rw [List.set_eq_take_append_cons_drop, if_pos h]
  apply Subtype.ext
  show (l.set n 0).takeWhile (· ≠ 0) = (l.take n).takeWhile (· ≠ 0)
  rw [hset, List.takeWhile_append]
  split
  · next hlen =>
      have htake := (List.takeWhile_prefix _).eq_of_length hlen
      rw [htake]
      exact List.append_nil _
  · rfl

theorem roundUp_ge (n : ℕ) : n ≤ roundUp n := by
  unfold roundUp
  omega

/-- What is written for `x11_verify` is the name that the client gave. -/
theorem store_nameArray (hello : Hello) :
    ∃ array, store (nameArray hello) 0 hello.header.plen 0 = .ok array ∧
      upToNul array = upToNul (hello.auth.take hello.header.plen) := by
  have hge := roundUp_ge hello.header.plen
  have hlt : hello.header.plen < (nameArray hello).length := by
    unfold nameArray
    rw [length_fill]
    omega
  have hauth : roundUp hello.header.plen ≤ hello.auth.length := by
    rw [hello.length_auth]
    exact Nat.le_add_right _ _
  refine ⟨(nameArray hello).set hello.header.plen 0, ?_, ?_⟩
  · unfold store
    rw [if_pos ⟨Nat.zero_le _, hlt⟩]
    rfl
  · rw [upToNul_set hlt]
    unfold nameArray fill
    rw [List.take_take, Nat.min_eq_right (Nat.le_succ _), List.take_append_of_le_length, List.take_take,
      Nat.min_eq_left hge]
    rw [List.length_take]
    omega

/-- The connection is authorised in full. -/
structure Full (xconn : X11Connection) : Prop where
  authProtocol : xconn.authProtocol.isSome
  dataRead : xconn.dataRead = 12 + xconn.authPsize + xconn.authDsize

theorem x11Send_verified (hfull : Full xconn) (hverified : xconn.verified = true) (s : State)
    (data : List UInt8) : x11Send env s xconn data = .ok ((s.set xconn).act [.skWrite data]) := by
  obtain ⟨authProtocol, hauth⟩ := Option.isSome_iff_exists.mp hfull.authProtocol
  have hread := hfull.dataRead
  have hheader : readHeader xconn data = .ok (xconn, some data) := by
    unfold readHeader
    rw [gather_done 0 (by omega)]
    simp only [bind, Except.bind, pure, Except.pure, hauth]
    rw [if_neg (by omega), ← hauth]
  have hauthorisation : readAuth xconn authProtocol data = .ok (xconn, some data) := by
    unfold readAuth
    simp only [gather_done 12 (show 12 + xconn.authPsize ≤ xconn.dataRead by omega),
      gather_done (12 + xconn.authPsize)
        (show 12 + xconn.authPsize + xconn.authDsize ≤ xconn.dataRead by omega), bind, Except.bind,
      pure, Except.pure]
    rw [if_neg (by omega), ← hauth]
  unfold x11Send
  simp only [hheader, hauth, hauthorisation, hverified, bind, Except.bind, pure, Except.pure, if_true]

namespace Outcome

theorem ofLog_append (log actions : List Action) :
    ofLog (log ++ actions) = actions.foldl add (ofLog log) := List.foldl_append

theorem ofLog_act (s : State) (action : Action) :
    ofLog (s.act [action]).log = (ofLog s.log).add action := ofLog_append _ _

end Outcome

/-- How a client that said all was dealt with, where `f` gives the state with what follows. -/
inductive Dealt (env : Env) (arrival : Arrival) (hello : Hello) (f : List UInt8 → State) : Prop
  | refused (s : State) (xconn : X11Connection) (hf : ∀ rest, f rest = s) (hxconn : s.xconn = some xconn)
    (hfull : Full xconn) (hverified : xconn.verified = false)
    (h : ∀ rest, Decision env arrival (hello.wire ++ rest) (Outcome.ofLog s.log))
  | handedOver (hnone : ∀ rest, (f rest).xconn = none)
    (hmore : ∀ rest more, Outcome.ofLog (f (rest ++ more)).log =
      (Outcome.ofLog (f rest).log).add (.downstream more))
    (h : ∀ rest, Decision env arrival (hello.wire ++ rest) (Outcome.ofLog (f rest).log))
  | connected (xconn : X11Connection) (hxconn : ∀ rest, (f rest).xconn = some xconn)
    (hfull : Full xconn) (hverified : xconn.verified = true)
    (hmore : ∀ rest more, Outcome.ofLog (f (rest ++ more)).log =
      (Outcome.ofLog (f rest).log).add (.skWrite more))
    (h : ∀ rest, Decision env arrival (hello.wire ++ rest) (Outcome.ofLog (f rest).log))

/-- The connection and the world after the verdict -/
def judged (arrival : Arrival) (hello : Hello) (auths : Auths) (array data : List UInt8) (call : Call)
    (verdict : Verdict) : State :=
  { xconn := some
      { complete arrival hello with
        authProtocol := some array
        authData := data ++ (complete arrival hello).authData.drop hello.header.dlen }
    auths := auths
    log := [.verify call verdict] }

theorem authData_complete (arrival : Arrival) (hello : Hello) :
    (complete arrival hello).authData = hello.auth.drop (roundUp hello.header.plen) := by
  have hlen : (hello.auth.drop (roundUp hello.header.plen)).length = roundUp hello.header.dlen := by
    rw [List.length_drop, hello.length_auth]
    exact Nat.add_sub_cancel_left _ _
  show fill _ (hello.auth.drop (roundUp hello.header.plen)) = _
  rw [fill_of_le (Nat.le_of_eq hlen.symm), List.take_of_length_le (Nat.le_of_eq hlen)]

theorem peerData_eq (xconn : X11Connection) : peerData xconn =
    ((x11ParseIp xconn.peerAddr).getD 0,
      if (x11ParseIp xconn.peerAddr).isSome then xconn.peerPort else -1) := by
  unfold peerData
  cases x11ParseIp xconn.peerAddr <;> rfl

/-- `x11_verify` is asked about what the client said. -/
theorem x11Decide_eq {array data : List UInt8} {auths : Auths} {verdict : Verdict}
    (hstore : store (nameArray hello) 0 hello.header.plen 0 = .ok array)
    (hname : upToNul array = upToNul (hello.auth.take hello.header.plen))
    (hverify : x11Verify env.des arrival.auths (hello.call env arrival) = .ok (auths, data, verdict))
    (xconn : Option X11Connection) (rest : List UInt8) :
    x11Decide env ⟨xconn, arrival.auths, []⟩ (complete arrival hello) (nameArray hello) rest =
      match verdict with
      | .rejected err => .ok ((judged arrival hello auths array data (hello.call env arrival)
          verdict).act (x11SendInitError env hello.header.val (ascii err)))
      | .accepted auth =>
        match env.target auth with
        | .share cs chan => .ok { (judged arrival hello auths array data (hello.call env arrival)
            verdict).act [.handover cs chan arrival.peerAddr arrival.peerPort hello.header.endian
              hello.header.protomajor hello.header.protominor rest] with xconn := none }
        | .display disp => .ok (connectDisplay env
            (judged arrival hello auths array data (hello.call env arrival) verdict)
            { complete arrival hello with
              authProtocol := some array
              authData := data ++ (complete arrival hello).authData.drop hello.header.dlen } disp rest) := by
  have hs : (complete arrival hello).s = false := rfl
  have hplen : (complete arrival hello).authPlen = hello.header.plen := rfl
  have hdlen : (complete arrival hello).authDlen = hello.header.dlen := rfl
  have haddr : (complete arrival hello).peerAddr = arrival.peerAddr := rfl
  have hport : (complete arrival hello).peerPort = arrival.peerPort := rfl
  unfold x11Decide
  simp only [hs, Bool.false_eq_true, if_false, hplen, hstore, peerData_eq, haddr, hport, hname, hdlen,
    bind, Except.bind, pure, Except.pure]
  have hcall : (⟨(x11ParseIp arrival.peerAddr).getD 0,
      if (x11ParseIp arrival.peerAddr).isSome then arrival.peerPort else -1,
      upToNul (hello.auth.take hello.header.plen),
      (complete arrival hello).authData.take hello.header.dlen, env.tim⟩ : Call) =
      hello.call env arrival := by
    rw [authData_complete]
    rfl
  rw [hcall]
  simp only [hverify, Except.mapError]
  cases verdict with
  | rejected err => rfl
  | accepted auth =>
    dsimp only
    cases env.target auth <;> rfl

theorem dataRead_complete (arrival : Arrival) (hello : Hello) : (complete arrival hello).dataRead =
    12 + (complete arrival hello).authPsize + (complete arrival hello).authDsize := by
  show 12 + hello.auth.length = 12 + roundUp hello.header.plen + roundUp hello.header.dlen
  rw [hello.length_auth, Nat.add_assoc]
  rfl

theorem x11Decide_spec (hauths : AuthsOk arrival.auths)
    (hread : ReadOk arrival.auths (hello.call env arrival)) :
    ∃ f, (∀ xconn rest, x11Decide env ⟨xconn, arrival.auths, []⟩ (complete arrival hello) (nameArray hello)
      rest = .ok (f rest)) ∧ Dealt env arrival hello f := by
  obtain ⟨array, hstore, hname⟩ := store_nameArray hello
  obtain ⟨auths, data, verdict, hverify, -⟩ := x11Verify_spec env.des hauths hread
  have hjudged : Judged env arrival hello verdict := ⟨auths, data, hverify⟩
  have heq := x11Decide_eq hstore hname hverify
  simp only [heq]
  cases verdict with
  | rejected err =>
    refine ⟨fun _ => _, fun _ rest => rfl, ?_⟩
    exact .refused _ _ (fun _ => rfl) rfl ⟨rfl, dataRead_complete arrival hello⟩ rfl fun rest =>
      .rejected hello rest err hjudged
  | accepted auth =>
    dsimp only
    cases htarget : env.target auth with
    | share cs chan =>
      refine ⟨fun rest => _, fun _ rest => rfl, ?_⟩
      refine .handedOver (fun _ => rfl) (fun rest more => rfl) fun rest => ?_
      exact .handedOver hello rest auth cs chan hjudged htarget
    | display disp =>
      refine ⟨fun rest => _, fun _ rest => rfl, ?_⟩
      unfold connectDisplay
      cases herr : env.socketError disp with
      | some err =>
        exact .refused _ _ (fun _ => rfl) rfl ⟨rfl, dataRead_complete arrival hello⟩ rfl fun rest =>
          .unreachable hello rest auth disp err hjudged htarget herr
      | none =>
        refine .connected _ (fun _ => rfl) ⟨rfl, dataRead_complete arrival hello⟩ rfl (fun rest more => ?_) fun rest => ?_
        · exact Outcome.ext rfl rfl rfl rfl (List.append_assoc _ _ _).symm rfl
        · exact .connected hello rest auth disp hjudged htarget herr

/-! ## Runs -/

theorem header_inj {h h' : Header} {l l' : List UInt8} (heq : h.val ++ l = h'.val ++ l') :
    h = h' ∧ l = l' := by
  obtain ⟨hval, hl⟩ := List.append_inj heq (h.2.trans h'.2.symm)
  exact ⟨Subtype.ext hval, hl⟩

/-- What a client says to be authorised has one end. -/
theorem wire_inj {hello hello' : Hello} {rest rest' : List UInt8}
    (heq : hello.wire ++ rest = hello'.wire ++ rest') : hello = hello' ∧ rest = rest' := by
  obtain ⟨header, auth, hauth⟩ := hello
  obtain ⟨header', auth', hauth'⟩ := hello'
  unfold Hello.wire at heq
  rw [List.append_assoc, List.append_assoc] at heq
  obtain ⟨rfl, htail⟩ := header_inj heq
  obtain ⟨rfl, rfl⟩ := List.append_inj htail (hauth.trans hauth'.symm)
  exact ⟨rfl, rfl⟩

theorem Gathers.ne_wire (hg : Gathers arrival part xconn) (hello : Hello) (rest : List UInt8) :
    part ≠ hello.wire ++ rest := by
  intro heq
  unfold Hello.wire at heq
  rw [List.append_assoc] at heq
  cases hg with
  | before part hlen =>
    rw [heq, List.length_append, hello.header.2] at hlen
    omega
  | after h auth hlen =>
    obtain ⟨rfl, rfl⟩ := header_inj heq
    rw [List.length_append, hello.length_auth] at hlen
    omega

theorem Gathers.unique {xconn' : X11Connection} (hg : Gathers arrival part xconn)
    (hg' : Gathers arrival part xconn') : xconn = xconn' := by
  have hlong : ∀ (h : Header) (auth : List UInt8), ¬ (h.val ++ auth).length < 12 := by
    intro h auth hlt
    rw [List.length_append, h.2] at hlt
    omega
  cases hg with
  | before _ hlen =>
    generalize hpart : part = part' at hg'
    cases hg' with
    | before _ _ => rfl
    | after h auth _ => exact absurd (hpart ▸ hlen) (hlong h auth)
  | after h auth hlen =>
    generalize hpart : h.val ++ auth = part' at hg'
    cases hg' with
    | before _ hlen' => exact absurd (hpart.symm ▸ hlen') (hlong h auth)
    | after h' auth' _ =>
      obtain ⟨rfl, rfl⟩ := header_inj hpart
      rfl

/-- A channel for the client -/
def Arrival.opened (arrival : Arrival) : State :=
  X11.opened arrival.auths arrival.peerAddr arrival.peerPort

theorem gathers_opened (arrival : Arrival) :
    Gathers arrival [] (x11NewChannel arrival.peerAddr arrival.peerPort) := .before [] (by decide)

/-- What a connection is after the data, however they were divided. -/
inductive Seen (env : Env) (arrival : Arrival) (data : List UInt8) (s : State) : Prop
  | gathering (xconn : X11Connection) (hg : Gathers arrival data xconn)
    (hs : s = ⟨some xconn, arrival.auths, []⟩)
  | dealt (hello : Hello) (rest : List UInt8) (f : List UInt8 → State) (hdata : data = hello.wire ++ rest)
    (hf : ∀ rest, send env arrival.opened (hello.wire ++ rest) = .ok (f rest))
    (hdealt : Dealt env arrival hello f) (hxconn : s.xconn = (f rest).xconn)
    (hlog : Outcome.ofLog s.log = Outcome.ofLog (f rest).log)

/-- All in one chunk -/
theorem send_opened {f : List UInt8 → State}
    (hf : ∀ xconn rest, x11Decide env ⟨xconn, arrival.auths, []⟩ (complete arrival hello)
      (nameArray hello) rest = .ok (f rest)) (rest : List UInt8) :
    send env arrival.opened (hello.wire ++ rest) = .ok (f rest) := by
  show x11Send env arrival.opened (x11NewChannel arrival.peerAddr arrival.peerPort) _ = _
  rcases x11Send_gathers env (gathers_opened arrival) (hello.wire ++ rest) with
    ⟨xconn', hg, -⟩ | ⟨hello', rest', hdata, hsend⟩
  · exact absurd rfl (hg.ne_wire hello rest)
  · obtain ⟨rfl, rfl⟩ := wire_inj hdata
    exact (hsend _).trans (hf _ _)

theorem Seen.send {s : State} (h : Seen env arrival part s) (hauths : AuthsOk arrival.auths)
    (hread : ∀ hello rest, part ++ data = Hello.wire hello ++ rest →
      ReadOk arrival.auths (hello.call env arrival)) (hok : NotRejected s data) :
    Outcome.Succeeds (X11.send env s data) (Seen env arrival (part ++ data)) := by
  cases h with
  | gathering xconn hg hs =>
    subst hs
    show Outcome.Succeeds (x11Send env _ xconn data) _
    rcases x11Send_gathers env hg data with ⟨xconn', hg', hsend⟩ | ⟨hello, rest, hdata, hsend⟩
    · exact ⟨_, hsend _, .gathering xconn' hg' rfl⟩
    · obtain ⟨f, hf, hdealt⟩ := x11Decide_spec hauths (hread hello rest hdata)
      exact ⟨f rest, (hsend _).trans (hf _ _), .dealt hello rest f hdata (send_opened hf) hdealt rfl rfl⟩
  | dealt hello rest f hdata hf hdealt hxconn hlog =>
    have hdata' : part ++ data = hello.wire ++ (rest ++ data) := by rw [hdata, List.append_assoc]
    cases hdealt with
    | refused s' xconn hfs hs' hfull hverified hdecision =>
      have hs := (hxconn.trans (congrArg State.xconn (hfs rest))).trans hs'
      have := hok xconn hs hfull.authProtocol (Nat.le_of_eq hfull.dataRead.symm)
      rw [hverified] at this
      contradiction
    | handedOver hnone hmore hdecision =>
      refine ⟨s.act [.downstream data], ?_, .dealt hello (rest ++ data) f hdata' hf
        (.handedOver hnone hmore hdecision) ((hxconn.trans (hnone rest)).trans (hnone _).symm) ?_⟩
      · unfold X11.send
        rw [hxconn, hnone]
      · rw [Outcome.ofLog_act, hmore, hlog]
    | connected xconn hxconns hfull hverified hmore hdecision =>
      have hs := hxconn.trans (hxconns rest)
      refine ⟨(s.set xconn).act [.skWrite data], ?_, .dealt hello (rest ++ data) f hdata' hf
        (.connected xconn hxconns hfull hverified hmore hdecision) (hxconns _).symm ?_⟩
      · unfold X11.send
        rw [hs]
        exact x11Send_verified hfull hverified s data
      · rw [Outcome.ofLog_act, hmore]
        exact congrArg (fun o => Outcome.add o _) hlog

theorem Seen.sendAll {s : State} {chunks : List (List UInt8)} (h : Seen env arrival part s)
    (hauths : AuthsOk arrival.auths)
    (hread : ∀ hello rest, part ++ chunks.flatten = Hello.wire hello ++ rest →
      ReadOk arrival.auths (hello.call env arrival))
    (hall : AllSteps (X11.send env) NotRejected s chunks) :
    Outcome.Succeeds (X11.sendAll env s chunks) (Seen env arrival (part ++ chunks.flatten)) := by
  induction chunks generalizing part s with
  | nil => exact ⟨s, rfl, by simpa using h⟩
  | cons data chunks ih =>
    obtain ⟨hok, hall⟩ := hall
    rw [List.flatten_cons, ← List.append_assoc] at hread ⊢
    obtain ⟨s', hs', h'⟩ := h.send hauths (fun hello rest hdata => hread hello (rest ++ chunks.flatten) (by
      rw [hdata, List.append_assoc])) hok
    rw [hs'] at hall
    obtain ⟨s'', hs'', h''⟩ := ih h' hread hall
    refine ⟨s'', ?_, h''⟩
    unfold X11.sendAll
    rw [List.foldlM_cons, hs']
    exact hs''

theorem authsOk_cookie {cookie : List UInt8} (h : cookie.length = 16) :
    AuthsOk ⟨[⟨0, .mit, cookie, []⟩], fun _ => none, 1⟩ where
  data auth hauth := by
    obtain rfl := List.mem_singleton.mp hauth
    exact h
  block auth hauth hxdm := by
    obtain rfl := List.mem_singleton.mp hauth
    cases hxdm
  seen auth hauth hxdm := by
    obtain rfl := List.mem_singleton.mp hauth
    cases hxdm
  seenOk := nofun
  fresh _ _ := rfl

/-- How often a client was verified, and what was done on its channel -/
def attempts (r : Except ConnFault State) : Except ConnFault (ℕ × ℕ) :=
  r.map fun s => ((Outcome.ofLog s.log).verified.length, (Outcome.ofLog s.log).channel.length)

end PuttyNd.X11
