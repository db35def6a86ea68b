import PuttyNd.Sftp.Proofs.ListProofs

/-!
# Proofs: the list of a transfer is its ledger

Every step of an upload, and of a download, does to the list what the ledger says; and no step faults.
-/

namespace PuttyNd.Sftp

open Psftp CInt Memory Outcome DoublyLinked Function

/-! ## Sending a request -/

section Queue

variable {s : State} {ps : Listing}

/-- What sending a request does -/
structure Queued (s s' : State) (ps : Listing) (id : ℕ) (len : ℤ) (sending : ℕ → Event) : Prop where
  chained : Chained s'.reqs s'.xfer (ps ++ [(s.reqs.next, ⟨id, s.xfer.offset, len⟩, false)])
  owned : Owned s'.requests (ps ++ [(s.reqs.next, ⟨id, s.xfer.offset, len⟩, false)])
  trace : s'.trace = s.trace ++ [sending id]
  relinked : Relinked s.reqs s'.reqs ps.addresses
  cell : s'.reqs.cell s.reqs.next = some ⟨[], len, 0, 0, s.xfer.offset, none, s.xfer.tail⟩
  next : s'.reqs.next = s.reqs.next + 1
  xfer : s'.xfer = {
    s.xfer with
    offset := s.xfer.offset + UInt64.ofInt len
    reqTotalsize := toInt32 (s.xfer.reqTotalsize + len)
    head := s'.xfer.head
    tail := s'.xfer.tail }

theorem queueReq_spec {len : ℤ} {sending : ℕ → Event} (hc : Chained s.reqs s.xfer ps)
    (ho : Owned s.requests ps) :
    Succeeds (queueReq s len sending) fun s' => ∃ id, Queued s s' ps id len sending := by
  unfold queueReq
  have happend := hc.append (v := ⟨[], len, 0, 0, s.xfer.offset, none, s.xfer.tail⟩) rfl rfl rfl
  refine happend.bind ?_
  rintro reqs ⟨hrelinked, hcell, hnext, hextended⟩
  let s1 : State := { s with reqs := reqs, xfer := {
    s.xfer with
    head := if s.xfer.tail.isSome then s.xfer.head else some s.reqs.next
    tail := some s.reqs.next } }
  show Succeeds (sftpAllocRequest s1 >>= _) _
  refine (sftpAllocRequest_spec (s := s1) ho.sorted).bind ?_
  rintro ⟨id, s2⟩ ⟨hid, hfree, hs2⟩
  dsimp only at hid hfree hs2
  subst hs2
  refine succeeds_ok.mpr ⟨id, ?_, ?_, rfl, hrelinked, hcell, hnext, rfl⟩
  · exact hextended ⟨id, s.xfer.offset, len⟩ _ rfl rfl rfl rfl rfl
  · show Owned (modifyRequest (modifyRequest (addRequest ⟨id, false, none⟩ s.requests) id _) id _) _
    rw [modifyRequest_add (r := ⟨id, false, none⟩) hfree rfl,
      modifyRequest_add (r := ⟨id, true, none⟩) hfree rfl]
    exact ho.add (x := ⟨id, s.xfer.offset, len⟩) hid hfree

end Queue

/-! ## Uploads -/

/-- What holds in an upload that began at `offset` -/
structure UploadInv (offset : UInt64) (s : State) (ps : Listing) : Prop where
  chained : Chained s.reqs s.xfer ps
  owned : Owned s.requests ps
  pending : ∀ p ∈ ps, p.2.2 = false
  len : ∀ p ∈ ps, 0 ≤ p.2.1.len
  ledger : ps.map (fun p => p.2.1) = unanswered s.trace
  contiguous : Contiguous offset (writes s.trace)
  offset : s.xfer.offset = (writes s.trace).foldl (fun o w => o + UInt64.ofNat w.2.length) offset
  eof : s.xfer.eof = true

section Ledger

variable {trace : List Event} {e : Event}

theorem unanswered_concat : unanswered (trace ++ [e]) = recordUpload (unanswered trace) e := by
  unfold unanswered
  rw [List.foldl_append]
  rfl

theorem notHandedOut_concat : notHandedOut (trace ++ [e]) = recordDownload (notHandedOut trace) e := by
  unfold notHandedOut
  rw [List.foldl_append]
  rfl

theorem writes_append {trace' : List Event} : writes (trace ++ trace') = writes trace ++ writes trace' := by
  unfold writes
  rw [List.filterMap_append]

theorem contiguous_append {offset : UInt64} {l : List (UInt64 × List UInt8)} {data : List UInt8}
    (h : Contiguous offset l) :
    Contiguous offset
      (l ++ [(l.foldl (fun o w => o + UInt64.ofNat w.2.length) offset, data)]) := by
  induction l generalizing offset with
  | nil => exact ⟨rfl, trivial⟩
  | cons w l ih => exact ⟨h.1, ih h.2⟩

end Ledger

section Upload

variable {s : State} {ps left right : Listing} {offset : UInt64} {a : ℕ} {x : Sent}

theorem toInt_ofNat {n : ℕ} : UInt64.ofInt (n : ℤ) = UInt64.ofNat n := by
  unfold UInt64.ofInt
  rw [show ((n : ℤ) % 2 ^ 64) = ((n % 2 ^ 64 : ℕ) : ℤ) by simp, Int.toNat_natCast]
  exact UInt64.ofNat_mod_size

theorem uploadInv_init {requests : List SftpRequest} (h : Fresh requests) :
    UploadInv offset (xferUploadInit requests offset) [] where
  chained := ⟨rfl, rfl, .nil, List.Pairwise.nil, fun _ _ _ hx => (nomatch hx), rfl⟩
  owned := ⟨⟨h.sorted, h.offset⟩, fun _ _ hx => (nomatch hx), fun r a hr ha => by
    rw [h.other r hr] at ha
    cases ha⟩
  pending := fun _ hp => (nomatch hp)
  len := fun _ hp => (nomatch hp)
  ledger := rfl
  contiguous := trivial
  offset := rfl
  eof := rfl

theorem xferUploadData_inv (h : UploadInv offset s ps) {buffer : List UInt8} :
    Succeeds (xferUploadData s buffer) fun s' => ∃ ps', UploadInv offset s' ps' ∧
      writes s'.trace = writes s.trace ++ [(s.xfer.offset, buffer)] ∧
        ps'.total = ps.total + buffer.length := by
  unfold xferUploadData
  refine (queueReq_spec h.chained h.owned).mono ?_
  rintro s' ⟨id, hq⟩
  have hwrites : writes s'.trace = writes s.trace ++ [(s.xfer.offset, buffer)] := by
    rw [hq.trace, writes_append]
    rfl
  refine ⟨_, ⟨hq.chained, hq.owned, ?_, ?_, ?_, ?_, ?_, ?_⟩, hwrites, Listing.total_append⟩
  · intro p hp
    rcases List.mem_append.mp hp with hp | hp
    · exact h.pending p hp
    · rw [List.mem_singleton.mp hp]
  · intro p hp
    rcases List.mem_append.mp hp with hp | hp
    · exact h.len p hp
    · rw [List.mem_singleton.mp hp]
      exact Int.natCast_nonneg _
  · rw [hq.trace, unanswered_concat, List.map_append, h.ledger]
    rfl
  · rw [hwrites, h.offset]
    exact contiguous_append h.contiguous
  · rw [hwrites, List.foldl_append, hq.xfer, ← h.offset]
    show s.xfer.offset + UInt64.ofInt _ = s.xfer.offset + UInt64.ofNat _
    rw [toInt_ofNat]
  · rw [hq.xfer]
    exact h.eof

theorem fxpWriteRecv_only {pkt : SftpPacket} : ∃ msg errtype,
    (fxpWriteRecv s pkt).2 = { s with fxpErrorMessage := msg, fxpErrtype := errtype } := ⟨_, _, rfl⟩

/-- No request of the transfer is waiting for this reply. -/
def Unexpected (ps : Listing) (pktin : Option SftpPacket) : Prop :=
  ∀ a x, (a, x, false) ∈ ps → replyId pktin ≠ some x.id

/-- The ledger ignores a reply that nothing is waiting for. -/
theorem unanswered_unexpected {pktin : Option SftpPacket}
    (hledger : ps.map (fun p => p.2.1) = unanswered s.trace) (hpending : ∀ p ∈ ps, p.2.2 = false)
    (h : Unexpected ps pktin) :
    unanswered (s.trace ++ ((replyId pktin).map Event.reply).toList) = unanswered s.trace := by
  cases hid : replyId pktin with
  | none => rw [Option.map_none, Option.toList_none, List.append_nil]
  | some id =>
    rw [Option.map_some, Option.toList_some, unanswered_concat, ← hledger]
    refine List.eraseP_of_forall_not ?_
    intro x hx
    obtain ⟨⟨a, y, answered⟩, hy, rfl⟩ := List.mem_map.mp hx
    have hanswered : answered = false := hpending _ hy
    rw [hanswered] at hy
    have hne := h a y hy
    rw [hid] at hne
    simpa using fun hyid : y.id = id => hne (congrArg some hyid.symm)

theorem writes_reply {trace : List Event} {id : Option ℕ} :
    writes (trace ++ (id.map Event.reply).toList) = writes trace := by
  rw [writes_append]
  cases id with
  | none => exact List.append_nil _
  | some id => exact List.append_nil _

/-- A reply that nothing is waiting for changes nothing but the tree of the ids. -/
theorem UploadInv.unexpected {pktin : Option SftpPacket} {requests : List SftpRequest} {msg : String}
    {errtype : ℤ} (h : UploadInv offset s ps) (hunexpected : Unexpected ps pktin)
    (howned : Owned requests ps) :
    UploadInv offset { s with
      requests := requests
      fxpErrorMessage := msg
      fxpErrtype := errtype
      trace := s.trace ++ ((replyId pktin).map Event.reply).toList } ps where
  chained := h.chained
  owned := howned
  pending := h.pending
  len := h.len
  ledger := h.ledger.trans (unanswered_unexpected h.ledger h.pending hunexpected).symm
  contiguous := by
    show Contiguous offset (writes (s.trace ++ _))
    rw [writes_reply]
    exact h.contiguous
  offset := by
    show s.xfer.offset = (writes (s.trace ++ _)).foldl _ offset
    rw [writes_reply]
    exact h.offset
  eof := h.eof

/-- The result of a packet: it is rejected and the list stays as it is, or the request that it answers is
taken off the list. -/
inductive UploadResult (s : State) (ps : Listing) (pktin : Option SftpPacket) : ℤ × State → Prop
  | rejected {s' : State} : Unexpected ps pktin → s'.reqs = s.reqs → s'.xfer = s.xfer →
      UploadResult s ps pktin (intMin, s')
  | answered {ret : ℤ} {s' : State} {a : ℕ} {x : Sent} : (a, x, false) ∈ ps →
      replyId pktin = some x.id → ret ≠ intMin → UploadResult s ps pktin (ret, s')

theorem xferUploadGotpkt_inv (h : UploadInv offset s ps) {pktin : Option SftpPacket} :
    Succeeds (xferUploadGotpkt s pktin) fun r =>
      (∃ ps', UploadInv offset r.2 ps' ∧ writes r.2.trace = writes s.trace) ∧
        UploadResult s ps pktin r := by
  unfold xferUploadGotpkt
  rcases @sftpFindRequest_cases _ pktin h.owned.sorted with
    ⟨s', heq, ⟨msg, errtype, hs'⟩, hnone⟩ | ⟨r, pkt, src, heq, -, -, hr, hregistered, hid⟩
  · have hunexpected : Unexpected ps pktin := fun a x hx =>
      hnone _ (h.owned.request a x hx) rfl
    rw [heq, hs']
    refine succeeds_ok.mpr ⟨⟨ps, h.unexpected hunexpected h.owned, writes_reply⟩, ?_⟩
    exact .rejected hunexpected rfl rfl
  · rw [heq]
    dsimp only
    cases hdata : r.userdata with
    | none =>
      have hunexpected : Unexpected ps pktin := by
        intro a x hx hxid
        have heq := h.owned.sorted.unique hr (h.owned.request a x hx)
          (Option.some.inj (hid.symm.trans hxid))
        rw [heq] at hdata
        cases hdata
      rw [if_pos Option.isNone_none]
      refine succeeds_ok.mpr ⟨⟨ps, ?_, writes_reply⟩, .rejected hunexpected rfl rfl⟩
      exact h.unexpected hunexpected (h.owned.delOther hr hdata)
    | some a =>
      rw [if_neg (by simp)]
      obtain ⟨left, right, x, rfl, hxid, hothers⟩ := h.owned.found hr hdata
      obtain ⟨v, hv, -, -, -⟩ := h.chained.cells a x false (by simp)
      obtain ⟨msg, errtype, hrecv⟩ := @fxpWriteRecv_only
        { s with
          trace := s.trace ++ ((replyId pktin).map Event.reply).toList
          requests := delRequest s.requests r.id }
        { pkt with src := src }
      rw [hrecv, deref_eq hv, ok_bind]
      refine (Chained.unlink (s := { s with
        fxpErrorMessage := msg, fxpErrtype := errtype
        trace := s.trace ++ ((replyId pktin).map Event.reply).toList
        requests := delRequest s.requests r.id }) h.chained hv).bind ?_
      rintro s' ⟨reqs', head, tail, hs', -, -, hchained⟩
      rw [hs'] at hchained
      have hne : ∀ p ∈ left, p.2.1.id ≠ x.id := by
        rintro ⟨b, y, answered⟩ hy
        have hpending : answered = false := h.pending _ (List.mem_append_left _ hy)
        rw [hpending] at hy
        rw [hxid]
        exact hothers b y (List.mem_append_left _ hy)
          (Listing.ne_address h.chained.nodup (List.mem_append_left _ hy))
      have hledger : (left ++ right).map (fun p => p.2.1) =
          unanswered (s.trace ++ ((replyId pktin).map Event.reply).toList) := by
        rw [hid, Option.map_some, Option.toList_some, unanswered_concat, ← h.ledger]
        show _ = List.eraseP _ _
        rw [List.map_append, List.map_append, List.eraseP_append_right, List.map_cons,
          List.eraseP_cons_of_pos]
        · simp [hxid]
        · intro y hy
          obtain ⟨p, hp, rfl⟩ := List.mem_map.mp hy
          simpa [← hxid] using hne p hp
      refine succeeds_ok.mpr ⟨⟨left ++ right, ?_, ?_⟩, ?_⟩
      · rw [hs']
        have howned := @Owned.answered _ _ _ _ _ h.owned h.chained.nodup [] fun p hp => (nomatch hp)
        rw [hxid, List.append_nil] at howned
        have hrest : ∀ p ∈ left ++ right, p ∈ left ++ (a, x, false) :: right := by
          intro p hp
          rcases List.mem_append.mp hp with hp | hp
          · exact List.mem_append_left _ hp
          · exact List.mem_append_right _ (List.mem_cons_of_mem _ hp)
        refine ⟨hchained, howned, fun p hp => h.pending p (hrest p hp),
          fun p hp => h.len p (hrest p hp), hledger, ?_, ?_, h.eof⟩
        · show Contiguous offset (writes (s.trace ++ _))
          rw [writes_reply]
          exact h.contiguous
        · show s.xfer.offset = (writes (s.trace ++ _)).foldl _ offset
          rw [writes_reply]
          exact h.offset
      · rw [hs']
        exact writes_reply
      · refine .answered (a := a) (x := x) (by simp) (hid.trans (congrArg some hxid.symm)) ?_
        split
        · decide
        · decide

theorem otherRequest_inv (h : UploadInv offset s ps) :
    Succeeds (sftpAllocRequest s) fun r =>
      UploadInv offset r.2 ps ∧ writes r.2.trace = writes s.trace := by
  refine (sftpAllocRequest_spec h.owned.sorted).mono ?_
  rintro ⟨id, s'⟩ ⟨hid, hfree, hs'⟩
  dsimp only at hid hfree hs'
  subst hs'
  exact ⟨⟨h.chained, h.owned.addOther (r := ⟨id, false, none⟩) hid hfree rfl, h.pending, h.len, h.ledger,
    h.contiguous, h.offset, h.eof⟩, rfl⟩

/-- What `registerOther` does -/
theorem registerOther_owned {id : ℕ} (h : Owned s.requests ps) :
    ∃ requests, registerOther s id = { s with requests := requests } ∧ Owned requests ps := by
  unfold registerOther
  cases hfind : findRequest s.requests id with
  | none => exact ⟨s.requests, rfl, h⟩
  | some r =>
    obtain ⟨hr, hid⟩ := findRequest_some hfind
    obtain ⟨rid, registered, userdata⟩ := r
    cases userdata with
    | none =>
      have hid : rid = id := hid
      rw [← hid]
      exact ⟨_, rfl, h.registerOther (r := ⟨rid, registered, none⟩) hr rfl⟩
    | some a => exact ⟨s.requests, rfl, h⟩

theorem uploadStep_inv (h : UploadInv offset s ps) {e : UploadEvent} :
    Succeeds (uploadStep s e) fun s' => ∃ ps', UploadInv offset s' ps' ∧
      (writes s'.trace).flatMap Prod.snd =
        (writes s.trace).flatMap Prod.snd ++ match e with | .data buffer => buffer | _ => [] := by
  cases e with
  | data buffer =>
    refine (xferUploadData_inv h).mono ?_
    rintro s' ⟨ps', hinv, hwrites, -⟩
    refine ⟨ps', hinv, ?_⟩
    rw [hwrites, List.flatMap_append]
    simp
  | packet pktin =>
    refine (xferUploadGotpkt_inv h).bind ?_
    rintro ⟨ret, s'⟩ ⟨⟨ps', hinv, hwrites⟩, -⟩
    exact succeeds_ok.mpr ⟨ps', hinv, by rw [hwrites, List.append_nil]⟩
  | otherRequest =>
    refine (otherRequest_inv h).bind ?_
    rintro ⟨id, s'⟩ ⟨hinv, hwrites⟩
    exact succeeds_ok.mpr ⟨ps, hinv, by rw [hwrites, List.append_nil]⟩
  | otherRegister id =>
    obtain ⟨requests, heq, howned⟩ := @registerOther_owned _ _ id h.owned
    simp only [uploadStep, heq]
    exact succeeds_ok.mpr ⟨ps, ⟨h.chained, howned, h.pending, h.len, h.ledger, h.contiguous, h.offset,
      h.eof⟩, (List.append_nil _).symm⟩

end Upload

/-! ## Downloads -/

/-- What holds in a download -/
structure DownloadInv (s : State) (ps : Listing) : Prop where
  chained : Chained s.reqs s.xfer ps
  owned : Owned s.requests ps
  ledger : ps.map Prod.snd = notHandedOut s.trace
  len : ∀ p ∈ ps, p.2.1.len = 32768
  length : ps.length ≤ 32
  maxsize : s.xfer.reqMaxsize = 1048576

section Download

variable {s : State} {ps left right : Listing} {a : ℕ} {x : Sent} {v w : Req} {answered : Bool}

theorem Listing.total_eq (hlen : ∀ p ∈ ps, p.2.1.len = 32768) : ps.total = 32768 * ps.length := by
  induction ps with
  | nil => rfl
  | cons p ps ih =>
    have hp := hlen p List.mem_cons_self
    have hps := ih fun q hq => hlen q (List.mem_cons_of_mem p hq)
    rw [Listing.total_cons, hp, hps, List.length_cons]
    push_cast
    omega

theorem DownloadInv.total (h : DownloadInv s ps) : s.xfer.reqTotalsize = ps.total := by
  have htotal := Listing.total_eq h.len
  have hlength := h.length
  rw [h.chained.total, (toInt32_eq (by omega)).mpr (by omega)]

theorem downloadInv_init {requests : List SftpRequest} {offset : UInt64} {eof : Bool}
    (h : Fresh requests) : DownloadInv (.start requests offset eof) [] where
  chained := ⟨rfl, rfl, .nil, List.Pairwise.nil, fun _ _ _ hx => (nomatch hx), rfl⟩
  owned := ⟨⟨h.sorted, h.offset⟩, fun _ _ hx => (nomatch hx), fun r a hr ha => by
    rw [h.other r hr] at ha
    cases ha⟩
  ledger := rfl
  len := fun _ hp => (nomatch hp)
  length := Nat.zero_le _
  maxsize := rfl

/-- A read is sent while there are less than 32 on the list. -/
theorem Queued.downloadInv {s' : State} {id : ℕ} (h : DownloadInv s ps) (hlength : ps.length < 32)
    (hq : Queued s s' ps id 32768 fun id => .read id s.xfer.offset 32768) :
    DownloadInv s' (ps ++ [(s.reqs.next, ⟨id, s.xfer.offset, 32768⟩, false)]) where
  chained := hq.chained
  owned := hq.owned
  ledger := by
    rw [hq.trace, notHandedOut_concat, List.map_append, h.ledger]
    rfl
  len := by
    intro p hp
    rcases List.mem_append.mp hp with hp | hp
    · exact h.len p hp
    · rw [List.mem_singleton.mp hp]
  length := by
    rw [List.length_append, List.length_singleton]
    omega
  maxsize := by
    rw [hq.xfer]
    exact h.maxsize

/-- What `xfer_download_queue` keeps, one read after the other -/
theorem downloadQueue_rule {P : State → Listing → Prop} {rounds : ℕ}
    (hstep : ∀ s s' ps id, DownloadInv s ps → P s ps → s.xfer.eof = false → s.xfer.err = false →
      ps.length < 32 → Queued s s' ps id 32768 (fun id => .read id s.xfer.offset 32768) →
      P s' (ps ++ [(s.reqs.next, ⟨id, s.xfer.offset, 32768⟩, false)]))
    (h : DownloadInv s ps) (hP : P s ps) (hrounds : 33 ≤ rounds + ps.length) :
    Succeeds (downloadQueue rounds s) fun s' => ∃ ps', DownloadInv s' ps' ∧ P s' ps' := by
  induction rounds generalizing s ps with
  | zero =>
    have := h.length
    omega
  | succ rounds ih =>
    unfold downloadQueue
    split
    · next hmore =>
      have hlength : ps.length < 32 := by
        have htotal := Listing.total_eq h.len
        have hlt := hmore.1
        rw [h.total, h.maxsize, htotal] at hlt
        omega
      refine (queueReq_spec h.chained h.owned).bind ?_
      rintro s' ⟨id, hq⟩
      have heof : s.xfer.eof = false := by simpa using hmore.2.1
      have herr : s.xfer.err = false := by simpa using hmore.2.2
      refine ih (hq.downloadInv h hlength) (hstep s s' ps id h hP heof herr hlength hq) ?_
      rw [List.length_append, List.length_singleton]
      omega
    · exact succeeds_ok.mpr ⟨ps, h, hP⟩

/-- A reply marks the request that is waiting for it, and no other one. -/
theorem map_answer {id : ℕ} (hne : ∀ a x, (a, x, false) ∈ ps → x.id ≠ id) :
    (ps.map Prod.snd).map (answer id) = ps.map Prod.snd := by
  conv_rhs => rw [← List.map_id (ps.map Prod.snd)]
  refine List.map_congr_left ?_
  rintro ⟨x, answered⟩ hx
  obtain ⟨⟨a, y⟩, hy, hyx⟩ := List.mem_map.mp hx
  unfold answer
  refine if_neg ?_
  rintro ⟨hid, hanswered⟩
  have hy : (a, y) ∈ ps := hy
  rw [show y = (x, answered) from hyx, show answered = false from hanswered] at hy
  exact hne a x hy hid

theorem notHandedOut_unexpected {pktin : Option SftpPacket}
    (hledger : ps.map Prod.snd = notHandedOut s.trace) (h : Unexpected ps pktin) :
    notHandedOut (s.trace ++ ((replyId pktin).map Event.reply).toList) = notHandedOut s.trace := by
  cases hid : replyId pktin with
  | none => rw [Option.map_none, Option.toList_none, List.append_nil]
  | some id =>
    rw [Option.map_some, Option.toList_some, notHandedOut_concat, ← hledger]
    refine map_answer ?_
    intro a x hx hxid
    exact h a x hx (hid.trans (congrArg some hxid.symm))

theorem DownloadInv.unexpected {pktin : Option SftpPacket} {requests : List SftpRequest}
    {msg : String} {errtype : ℤ} (h : DownloadInv s ps) (hunexpected : Unexpected ps pktin)
    (howned : Owned requests ps) :
    DownloadInv { s with
      requests := requests
      fxpErrorMessage := msg
      fxpErrtype := errtype
      trace := s.trace ++ ((replyId pktin).map Event.reply).toList } ps where
  chained := h.chained
  owned := howned
  ledger := h.ledger.trans (notHandedOut_unexpected h.ledger hunexpected).symm
  len := h.len
  length := h.length
  maxsize := h.maxsize

/-- What is written to the request when its read returns -/
theorem gotData_write : ∃ w' msg errtype xfer,
    (gotData s a w).2 = { s with
      reqs := s.reqs.set a w'
      fxpErrorMessage := msg
      fxpErrtype := errtype
      xfer := xfer } ∧
    w'.next = w.next ∧ w'.prev = w.prev ∧ w'.offset = w.offset ∧ w'.len = w.len ∧
    w'.complete ≠ 0 ∧ xfer.head = s.xfer.head ∧ xfer.tail = s.xfer.tail ∧
    xfer.reqTotalsize = s.xfer.reqTotalsize ∧ xfer.reqMaxsize = s.xfer.reqMaxsize ∧
    (gotData s a w).1 ≠ intMin := by
  unfold gotData
  dsimp only
  generalize (decide (w.retlen < 0) && s.fxpErrtype == 1 || w.retlen == 0) = atEof
  have hfailed : (-1 : ℤ) ≠ intMin := by decide
  have hread : (1 : ℤ) ≠ intMin := by decide
  by_cases hfail : ¬ atEof = true ∧ w.retlen < 0
  · rw [if_pos hfail]
    exact ⟨_, _, _, _, rfl, rfl, rfl, rfl, rfl, by simp, rfl, rfl, rfl, rfl, hfailed⟩
  · rw [if_neg hfail]
    generalize (if atEof = true then 0 else w.retlen) = retlen
    split
    · exact ⟨_, _, _, _, rfl, rfl, rfl, rfl, rfl, by simp, rfl, rfl, rfl, rfl, hfailed⟩
    · exact ⟨_, _, _, _, rfl, rfl, rfl, rfl, rfl, by simp, rfl, rfl, rfl, rfl, hread⟩

theorem fxpReadRecv_only {pkt : SftpPacket} {len : ℤ} : ∃ msg errtype,
    (fxpReadRecv s pkt len).2 = { s with fxpErrorMessage := msg, fxpErrtype := errtype } := by
  unfold fxpReadRecv
  split
  · dsimp only
    split
    · exact ⟨_, _, rfl⟩
    · split
      · exact ⟨_, _, rfl⟩
      · exact ⟨s.fxpErrorMessage, s.fxpErrtype, rfl⟩
  · exact ⟨_, _, rfl⟩

/-- The result of a packet: it is rejected and the list stays as it is, or the request that it answers
gets what `fxp_read_recv` reads from it. -/
inductive DownloadResult (s : State) (ps : Listing) (pktin : Option SftpPacket) :
    ℤ × State → Listing → Prop
  | rejected {s' : State} : Unexpected ps pktin → s'.reqs = s.reqs → s'.xfer = s.xfer →
      s'.trace = s.trace ++ ((replyId pktin).map Event.reply).toList →
      DownloadResult s ps pktin (intMin, s') ps
  | answered {left right : Listing} {a : ℕ} {x : Sent} {v : Req} {pkt : SftpPacket} {s0 : State}
      {got : (ℤ × List UInt8) × State} :
      ps = left ++ (a, x, false) :: right → replyId pktin = some x.id → s.reqs.cell a = some v →
      pktin = some pkt →
      got = fxpReadRecv s0 { pkt with src := (getUint32 pkt.src).2 } v.len →
      got.2.reqs = s.reqs → got.2.xfer = s.xfer →
      got.2.trace = s.trace ++ ((replyId pktin).map Event.reply).toList →
      (gotData got.2 a { v with retlen := got.1.1, buffer := got.1.2 }).1 ≠ intMin →
      DownloadResult s ps pktin (gotData got.2 a { v with retlen := got.1.1, buffer := got.1.2 })
        (left ++ (a, x, true) :: right)

theorem xferDownloadGotpkt_inv (h : DownloadInv s ps) {pktin : Option SftpPacket} :
    Succeeds (xferDownloadGotpkt s pktin) fun r =>
      ∃ ps', DownloadInv r.2 ps' ∧ DownloadResult s ps pktin r ps' := by
  unfold xferDownloadGotpkt
  rcases @sftpFindRequest_cases _ pktin h.owned.sorted with
    ⟨s', heq, ⟨msg, errtype, hs'⟩, hnone⟩ | ⟨r, pkt, src, heq, hpkt, hsrc, hr, hregistered, hid⟩
  · have hunexpected : Unexpected ps pktin := fun a x hx =>
      hnone _ (h.owned.request a x hx) rfl
    rw [heq, hs']
    exact succeeds_ok.mpr ⟨ps, h.unexpected hunexpected h.owned, .rejected hunexpected rfl rfl rfl⟩
  · rw [heq]
    dsimp only
    cases hdata : r.userdata with
    | none =>
      have hunexpected : Unexpected ps pktin := by
        intro a x hx hxid
        have heq := h.owned.sorted.unique hr (h.owned.request a x hx)
          (Option.some.inj (hid.symm.trans hxid))
        rw [heq] at hdata
        cases hdata
      rw [if_pos Option.isNone_none]
      exact succeeds_ok.mpr ⟨ps, h.unexpected hunexpected (h.owned.delOther hr hdata),
        .rejected hunexpected rfl rfl rfl⟩
    | some a =>
      rw [if_neg (by simp)]
      obtain ⟨left, right, x, rfl, hxid, hothers⟩ := h.owned.found hr hdata
      obtain ⟨v, hv, -, -, -⟩ := h.chained.cells a x false (by simp)
      let s0 : State := { s with
        trace := s.trace ++ ((replyId pktin).map Event.reply).toList
        requests := delRequest s.requests r.id }
      have hderef : deref s0.reqs (some a) = .ok (a, v) := deref_eq hv
      rw [hderef, ok_bind]
      dsimp only
      rw [hsrc]
      generalize hgot : fxpReadRecv s0 { pkt with src := (getUint32 pkt.src).2 } v.len = got
      obtain ⟨msg, errtype, hrecv⟩ := @fxpReadRecv_only s0
        { pkt with src := (getUint32 pkt.src).2 } v.len
      rw [hgot] at hrecv
      obtain ⟨w', msg', errtype', xfer, hs', hnext, hprev, hoffset, hlen, hcomplete, hhead, htail,
        htotal, hmaxsize, hret⟩ := gotData_write (s := got.2) (a := a)
          (w := { v with retlen := got.1.1, buffer := got.1.2 })
      have hreqs : got.2.reqs = s.reqs := by rw [hrecv]
      have hxfer : got.2.xfer = s.xfer := by rw [hrecv]
      refine succeeds_ok.mpr ⟨left ++ (a, x, true) :: right, ?_,
        .answered rfl (hid.trans (congrArg some hxid.symm)) hv hpkt hgot.symm hreqs hxfer
          (by rw [hrecv]) hret⟩
      show DownloadInv (gotData got.2 a { v with retlen := got.1.1, buffer := got.1.2 }).2 _
      rw [hs', hrecv]
      rw [hxfer] at hhead htail htotal hmaxsize
      have howned := @Owned.answered _ _ _ _ _ h.owned h.chained.nodup [(a, x, true)]
        fun p hp => by rw [List.mem_singleton.mp hp]
      rw [hxid, List.append_assoc] at howned
      refine ⟨?_, howned, ?_, ?_, ?_, hmaxsize.trans h.maxsize⟩
      · have hdone : true = true ↔ w'.complete ≠ 0 := by simp [hcomplete]
        have hwrite := h.chained.write hv hnext hprev hoffset hlen hdone
        exact hwrite.congr hhead htail htotal
      · show _ = notHandedOut (s.trace ++ _)
        rw [hid, Option.map_some, Option.toList_some, notHandedOut_concat, ← h.ledger]
        have hne : ∀ b y, (b, y, false) ∈ left ++ right → y.id ≠ r.id := fun b y hy =>
          hothers b y hy (Listing.ne_address h.chained.nodup hy)
        show _ = List.map (answer r.id) _
        rw [List.map_append, List.map_append, List.map_cons, List.map_cons, List.map_append,
          List.map_cons, map_answer fun b y hy => hne b y (List.mem_append_left _ hy),
          map_answer fun b y hy => hne b y (List.mem_append_right _ hy)]
        simp [answer, hxid]
      · intro p hp
        rcases List.mem_append.mp hp with hp | hp
        · exact h.len p (List.mem_append_left _ hp)
        · rcases List.mem_cons.mp hp with rfl | hp
          · exact h.len (a, x, false) (by simp)
          · exact h.len p (List.mem_append_right _ (List.mem_cons_of_mem _ hp))
      · have hlength := h.length
        rw [List.length_append, List.length_cons] at hlength ⊢
        exact hlength

end Download

section Taking

variable {s : State} {ps rest : Listing} {a : ℕ} {x : Sent} {v : Req}

/-- What taking the first request off the list does -/
structure Taken (s s' : State) (rest : Listing) (v : Req) : Prop where
  inv : DownloadInv s' rest
  relinked : Relinked s.reqs s'.reqs rest.addresses
  next : s'.reqs.next = s.reqs.next
  same : s' = { s with
    reqs := s'.reqs
    xfer := {
      s.xfer with
      head := s'.xfer.head, tail := s'.xfer.tail
      reqTotalsize := s'.xfer.reqTotalsize }
    trace := s.trace ++ [.taken] }

theorem takeHead_spec (h : DownloadInv s ((a, x, true) :: rest)) (hv : s.reqs.cell a = some v) :
    Succeeds (takeHead s a v) fun s' => Taken s s' rest v := by
  obtain ⟨v', hv', -, hprev⟩ := Linked.head h.chained.linked
  cases hv.symm.trans hv'
  rw [takeHead_eq hprev]
  refine (@Chained.unlink [] _ _ _ _ _ _ h.chained hv).bind ?_
  rintro s1 ⟨reqs', head, tail, hs1, hnext, hrelinked, hchained⟩
  subst hs1
  refine succeeds_ok.mpr ⟨⟨hchained, h.owned.tail, ?_, ?_, ?_, h.maxsize⟩, hrelinked, hnext, rfl⟩
  · show _ = notHandedOut (s.trace ++ [.taken])
    rw [notHandedOut_concat, ← h.ledger]
    rfl
  · exact fun p hp => h.len p (List.mem_cons_of_mem _ hp)
  · have hlength := h.length
    rw [List.length_cons] at hlength
    omega

/-- The requests on the list were allocated one after the other. -/
theorem DownloadInv.length_le (h : DownloadInv s ps) : ps.length ≤ s.reqs.next := by
  have hsub : ps.addresses ⊆ List.range s.reqs.next := by
    intro b hb
    exact List.mem_range.mpr (h.chained.lt_next hb)
  have hle := (List.subperm_of_subset h.chained.nodup hsub).length_le
  rw [List.length_range] at hle
  exact (@List.length_map _ _ ps Prod.fst) ▸ hle

theorem downloadData_inv {rounds : ℕ} (h : DownloadInv s ps) (hrounds : ps.length < rounds) :
    Succeeds (downloadData rounds s) fun r => ∃ ps', DownloadInv r.2 ps' := by
  induction rounds generalizing s ps with
  | zero => omega
  | succ rounds ih =>
    unfold downloadData
    rw [h.chained.head]
    cases ps with
    | nil => exact succeeds_ok.mpr ⟨[], h⟩
    | cons p rest =>
      obtain ⟨a, x, answered⟩ := p
      obtain ⟨v, hv, -, -, hanswered⟩ := h.chained.cells a x answered List.mem_cons_self
      show Succeeds (deref s.reqs (some a) >>= _) _
      rw [deref_eq hv, ok_bind]
      dsimp only
      by_cases hcomplete : v.complete = 0
      · rw [if_pos hcomplete]
        exact succeeds_ok.mpr ⟨_, h⟩
      · rw [if_neg hcomplete]
        rw [hanswered.mpr hcomplete] at h
        refine (takeHead_spec h hv).bind ?_
        intro s' htaken
        split
        · exact succeeds_ok.mpr ⟨rest, htaken.inv⟩
        · exact ih htaken.inv (by rw [List.length_cons] at hrounds; omega)

theorem DownloadInv.otherRequest (h : DownloadInv s ps) :
    Succeeds (sftpAllocRequest s) fun r => DownloadInv r.2 ps ∧ r.2.reqs = s.reqs ∧
      r.2.xfer = s.xfer ∧ r.2.trace = s.trace := by
  refine (sftpAllocRequest_spec h.owned.sorted).mono ?_
  rintro ⟨id, s'⟩ ⟨hid, hfree, hs'⟩
  dsimp only at hid hfree hs'
  subst hs'
  exact ⟨⟨h.chained, h.owned.addOther (r := ⟨id, false, none⟩) hid hfree rfl, h.ledger, h.len, h.length,
    h.maxsize⟩, rfl, rfl, rfl⟩

theorem DownloadInv.otherRegister (h : DownloadInv s ps) {id : ℕ} :
    DownloadInv (registerOther s id) ps ∧ (registerOther s id).reqs = s.reqs ∧
      (registerOther s id).xfer = s.xfer ∧ (registerOther s id).trace = s.trace := by
  obtain ⟨requests, heq, howned⟩ := @registerOther_owned _ _ id h.owned
  rw [heq]
  exact ⟨⟨h.chained, howned, h.ledger, h.len, h.length, h.maxsize⟩, rfl, rfl, rfl⟩

theorem DownloadInv.setError (h : DownloadInv s ps) : DownloadInv (xferSetError s) ps :=
  ⟨h.chained.congr rfl rfl rfl, h.owned, h.ledger, h.len, h.length, h.maxsize⟩

theorem downloadStep_inv (h : DownloadInv s ps) {e : DownloadEvent} :
    Succeeds (downloadStep s e) fun r => ∃ ps', DownloadInv r.2 ps' := by
  cases e with
  | queue =>
    have hqueue := @downloadQueue_rule _ _ (fun _ _ => True) 33
      (fun _ _ _ _ _ _ _ _ _ _ => trivial) h trivial (by omega)
    refine hqueue.bind ?_
    rintro s' ⟨ps', hinv, -⟩
    exact succeeds_ok.mpr ⟨ps', hinv⟩
  | packet pktin =>
    refine (xferDownloadGotpkt_inv h).bind ?_
    rintro r ⟨ps', hinv, -⟩
    exact succeeds_ok.mpr ⟨ps', hinv⟩
  | data =>
    have hlength := h.length_le
    refine (downloadData_inv h (by omega)).bind ?_
    rintro r ⟨ps', hinv⟩
    exact succeeds_ok.mpr ⟨ps', hinv⟩
  | setError => exact succeeds_ok.mpr ⟨ps, h.setError⟩
  | otherRequest =>
    refine h.otherRequest.bind ?_
    rintro r ⟨hinv, -⟩
    exact succeeds_ok.mpr ⟨ps, hinv⟩
  | otherRegister id => exact succeeds_ok.mpr ⟨ps, h.otherRegister.1⟩

end Taking

/-! ## Runs -/

/-- The list from the head to the tail has these requests. -/
def HasList (s : State) (entries : List (Sent × Bool)) : Prop :=
  ∃ ps : Listing, Chained s.reqs s.xfer ps ∧ ps.map Prod.snd = entries

/-- The sum of the lengths of requests -/
def totalLen (entries : List (Sent × Bool)) : ℤ := (entries.map fun p => p.1.len).sum

/-- A packet is rejected exactly if no request on the ledger is waiting for it, and then the list stays as
it is. -/
def Matches (s : State) (entries : List (Sent × Bool)) (pktin : Option SftpPacket)
    (gotpkt : Except Fault (ℤ × State)) : Prop :=
  ∃ r, gotpkt = .ok r ∧ (r.1 = intMin ↔ ∀ x, (x, false) ∈ entries → replyId pktin ≠ some x.id) ∧
    (r.1 = intMin → r.2.reqs = s.reqs ∧ r.2.xfer = s.xfer)

/-- The bookkeeping of an upload that began at `offset`, where `data` was written -/
structure UploadSound (offset : UInt64) (data : List UInt8) (s : State) : Prop where
  list : HasList s ((unanswered s.trace).map fun x => (x, false))
  total : s.xfer.reqTotalsize = totalLen ((unanswered s.trace).map fun x => (x, false)) ↔
    totalLen ((unanswered s.trace).map fun x => (x, false)) < 2 ^ 31
  replies : ∀ pktin, Matches s ((unanswered s.trace).map fun x => (x, false)) pktin
    (xferUploadGotpkt s pktin)
  contiguous : Contiguous offset (writes s.trace)
  data : (writes s.trace).flatMap Prod.snd = data
  done : xferDone s.xfer = true ↔ unanswered s.trace = []

/-- The bookkeeping of a download -/
structure DownloadSound (s : State) : Prop where
  list : HasList s (notHandedOut s.trace)
  total : s.xfer.reqTotalsize = totalLen (notHandedOut s.trace)
  replies : ∀ pktin, Matches s (notHandedOut s.trace) pktin (xferDownloadGotpkt s pktin)

/-- The data that is given to `xfer_upload_data` -/
def givenData (events : List UploadEvent) : List UInt8 :=
  events.flatMap fun e => match e with | .data buffer => buffer | _ => []

section Sound

variable {s : State} {ps : Listing} {offset : UInt64}

theorem Unexpected.iff {entries : List (Sent × Bool)} {pktin : Option SftpPacket}
    (h : ps.map Prod.snd = entries) :
    Unexpected ps pktin ↔ ∀ x, (x, false) ∈ entries → replyId pktin ≠ some x.id := by
  rw [← h]
  constructor
  · intro hu x hx
    obtain ⟨⟨a, y⟩, hy, hyx⟩ := List.mem_map.mp hx
    have hyx : y = (x, false) := hyx
    rw [hyx] at hy
    exact hu a x hy
  · intro hu a x hx
    exact hu x (List.mem_map_of_mem (f := Prod.snd) hx)

theorem UploadInv.entries (h : UploadInv offset s ps) :
    ps.map Prod.snd = (unanswered s.trace).map fun x => (x, false) := by
  rw [← h.ledger, List.map_map]
  refine List.map_congr_left ?_
  rintro ⟨a, x, answered⟩ hp
  have hpending : answered = false := h.pending _ hp
  rw [hpending]
  rfl

theorem Listing.totalLen_eq : totalLen (ps.map Prod.snd) = ps.total := by
  unfold totalLen Listing.total
  rw [List.map_map]
  rfl

theorem UploadInv.sound {data : List UInt8} (h : UploadInv offset s ps)
    (hdata : (writes s.trace).flatMap Prod.snd = data) :
    UploadSound offset data s where
  list := ⟨ps, h.chained, h.entries⟩
  total := by
    have hnonneg : 0 ≤ ps.total := by
      have hlen := h.len
      clear h
      induction ps with
      | nil => exact Int.le_refl _
      | cons p ps ih =>
        rw [Listing.total_cons]
        have hp := hlen p List.mem_cons_self
        have hps := ih fun q hq => hlen q (List.mem_cons_of_mem p hq)
        omega
    rw [← h.entries, Listing.totalLen_eq, h.chained.total]
    exact toInt32_eq hnonneg
  replies := by
    intro pktin
    obtain ⟨r, hr, -, hresult⟩ := @xferUploadGotpkt_inv _ _ _ h pktin
    refine ⟨r, hr, ?_⟩
    rw [← Unexpected.iff h.entries]
    cases hresult with
    | rejected hunexpected hreqs hxfer =>
      exact ⟨⟨fun _ => hunexpected, fun _ => rfl⟩, fun _ => ⟨hreqs, hxfer⟩⟩
    | answered hx hid hret =>
      exact ⟨⟨fun h => absurd h hret, fun hu => absurd hid (hu _ _ hx)⟩, fun h => absurd h hret⟩
  contiguous := h.contiguous
  data := hdata
  done := by
    have hhead := h.chained.head
    unfold xferDone
    rw [h.eof, hhead, ← h.ledger]
    cases ps with
    | nil => simp [Listing.addresses]
    | cons p ps => simp [Listing.addresses]

theorem DownloadInv.sound (h : DownloadInv s ps) : DownloadSound s where
  list := ⟨ps, h.chained, h.ledger⟩
  total := by
    rw [← h.ledger, Listing.totalLen_eq]
    exact h.total
  replies := by
    intro pktin
    obtain ⟨r, hr, ps', -, hresult⟩ := @xferDownloadGotpkt_inv _ _ h pktin
    refine ⟨r, hr, ?_⟩
    rw [← Unexpected.iff h.ledger]
    cases hresult with
    | rejected hunexpected hreqs hxfer htrace =>
      exact ⟨⟨fun _ => hunexpected, fun _ => rfl⟩, fun _ => ⟨hreqs, hxfer⟩⟩
    | @answered left right a x v pkt s0 got hps hid hv hpkt hgot hreqs hxfer htrace hret =>
      refine ⟨⟨fun h => absurd h hret, fun hu => absurd hid (hu a x ?_)⟩, fun h => absurd h hret⟩
      rw [hps]
      exact List.mem_append_right _ List.mem_cons_self

end Sound

section Runs

variable {s : State} {ps : Listing} {offset : UInt64} {requests : List SftpRequest}

theorem uploadRun_inv (h : UploadInv offset s ps) {events : List UploadEvent} :
    Succeeds (uploadRun s events) fun s' => ∃ ps', UploadInv offset s' ps' ∧
      (writes s'.trace).flatMap Prod.snd =
        (writes s.trace).flatMap Prod.snd ++ givenData events := by
  induction events generalizing s ps with
  | nil => exact succeeds_ok.mpr ⟨ps, h, (List.append_nil _).symm⟩
  | cons e events ih =>
    unfold uploadRun
    rw [List.foldlM_cons]
    refine (uploadStep_inv h).bind ?_
    rintro s1 ⟨ps1, h1, hdata1⟩
    refine (ih h1).mono ?_
    rintro s2 ⟨ps2, h2, hdata2⟩
    refine ⟨ps2, h2, ?_⟩
    rw [hdata2, hdata1, List.append_assoc]
    rfl

theorem downloadRun_inv (h : DownloadInv s ps) {events : List DownloadEvent} :
    Succeeds (downloadRun s events) fun r => ∃ ps', DownloadInv r.2 ps' := by
  induction events generalizing s ps with
  | nil => exact succeeds_ok.mpr ⟨ps, h⟩
  | cons e events ih =>
    refine (downloadStep_inv h).bind ?_
    rintro ⟨data, s1⟩ ⟨ps1, h1⟩
    refine (ih h1).bind ?_
    rintro ⟨rest, s2⟩ ⟨ps2, h2⟩
    exact succeeds_ok.mpr ⟨ps2, h2⟩

theorem xferDownloadInit_inv (h : Fresh requests) :
    Succeeds (xferDownloadInit requests offset) fun s => ∃ ps, DownloadInv s ps := by
  have hqueue := @downloadQueue_rule _ _ (fun _ _ => True) 33
    (fun _ _ _ _ _ _ _ _ _ _ => trivial) (@downloadInv_init _ offset false h)
    trivial (by simp)
  refine hqueue.mono ?_
  rintro s ⟨ps, hinv, -⟩
  exact ⟨ps, hinv⟩

end Runs

theorem fresh_nil : Fresh [] := ⟨List.Pairwise.nil, fun _ h => (nomatch h), fun _ h => (nomatch h)⟩

/-- In every run of an upload and of a download the list is the ledger, every reply is for the request with
its id and a reply that is rejected leaves the list as it is. The sum of the lengths of the requests is in
`req_totalsize`; in an upload, exactly if it fits. -/
theorem xfer_bookkeeping (requests : List SftpRequest) (h : Fresh requests) (offset : UInt64) :
    (∀ events, ∃ s, uploadRun (xferUploadInit requests offset) events = .ok s ∧
      UploadSound offset (givenData events) s) ∧
    ∃ s, xferDownloadInit requests offset = .ok s ∧
      ∀ events, ∃ r, downloadRun s events = .ok r ∧ DownloadSound r.2 := by
  constructor
  · intro events
    obtain ⟨s, hs, ps, hinv, hdata⟩ := @uploadRun_inv _ _ _ (uploadInv_init h) events
    exact ⟨s, hs, hinv.sound hdata⟩
  · obtain ⟨s, hs, ps, hinv⟩ := @xferDownloadInit_inv offset _ h
    refine ⟨s, hs, ?_⟩
    intro events
    obtain ⟨r, hr, ps', hinv'⟩ := @downloadRun_inv _ _ hinv events
    exact ⟨r, hr, hinv'.sound⟩

/-- An upload from the start of a file, with nothing else going on -/
theorem xfer_bookkeeping_start :
    ∃ s, uploadRun (xferUploadInit [] 0) [.data [1, 2], .data [3]] = .ok s ∧
      UploadSound 0 [1, 2, 3] s :=
  (xfer_bookkeeping [] fresh_nil 0).1
    [.data [1, 2], .data [3]]

/-- Writes that are not answered -/
theorem uploadRun_replicate {s : State} {ps : Listing} {offset : UInt64} {buffer : List UInt8} {n : ℕ}
    (h : UploadInv offset s ps) :
    Succeeds (uploadRun s (List.replicate n (.data buffer))) fun s' => ∃ ps', UploadInv offset s' ps' ∧
      ps'.total = ps.total + n * buffer.length := by
  induction n generalizing s ps with
  | zero => exact succeeds_ok.mpr ⟨ps, h, by simp⟩
  | succ n ih =>
    unfold uploadRun
    rw [List.replicate_succ, List.foldlM_cons]
    refine (xferUploadData_inv h).bind ?_
    rintro s1 ⟨ps1, h1, -, htotal1⟩
    refine (ih h1).mono ?_
    rintro s2 ⟨ps2, h2, htotal2⟩
    refine ⟨ps2, h2, ?_⟩
    rw [htotal2, htotal1]
    push_cast
    rw [Int.add_mul, Int.one_mul]
    omega

/-- After half a million writes of 4096 bytes that are not answered, `req_totalsize` is negative. -/
theorem reqTotalsize_overflow : ∃ events s,
    uploadRun (xferUploadInit [] 0) events = .ok s ∧
      s.xfer.reqTotalsize ≠ totalLen ((unanswered s.trace).map fun x => (x, false)) := by
  obtain ⟨s, hs, ps, hinv, htotal⟩ := @uploadRun_replicate _ _ _
    (List.replicate 4096 0) 524288 (@uploadInv_init 0 _ fresh_nil)
  refine ⟨_, s, hs, ?_⟩
  rw [List.length_replicate] at htotal
  have htotal : ps.total = 2 ^ 31 := htotal
  rw [← hinv.entries, Listing.totalLen_eq, hinv.chained.total, htotal]
  decide

end PuttyNd.Sftp
