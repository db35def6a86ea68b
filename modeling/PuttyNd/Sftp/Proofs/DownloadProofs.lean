import PuttyNd.Lib.Blocks
import PuttyNd.Sftp.Proofs.LedgerProofs

/-!
# Proofs: what a download hands out

The reads of a download are for the blocks of the file, one after the other. A server gives a part of each
block; a block that is not given completely leaves a hole, unless the file ends there.
-/

namespace PuttyNd.Sftp

open Psftp Memory Outcome DoublyLinked Function

/-! ## The server -/

/-- What comes after the id -/
def SftpPacket.body (pkt : SftpPacket) : SftpPacket := { pkt with src := (getUint32 pkt.src).2 }

/-- The answer to a read: a part of what it asks for that is not empty, or, at or after the end of the file,
`SSH_FX_EOF`. -/
def ReadFrom (file : List UInt8) (x : Sent) (pkt : SftpPacket) : Prop :=
  pkt.type = 103 ∧ (getString pkt.src).2.err = false ∧ (getString pkt.src).1 ≠ [] ∧
      (getString pkt.src).1 <+: (file.drop x.offset.toNat).take x.len.toNat ∨
    pkt.type = 101 ∧ (getUint32 pkt.src).2.err = false ∧ (getUint32 pkt.src).1 = 1 ∧
      file.length ≤ x.offset.toNat

instance {file : List UInt8} {x : Sent} {pkt : SftpPacket} : Decidable (ReadFrom file x pkt) := by
  unfold ReadFrom
  infer_instance

/-- The reads that this packet answers -/
def answers (s : State) (pktin : Option SftpPacket) : List Sent :=
  ((notHandedOut s.trace).filter fun p => p.2 = false ∧ replyId pktin = some p.1.id).map Prod.fst

/-- The server answers a read from the file. -/
def Served (file : List UInt8) (s : State) : DownloadEvent → Prop
  | .packet (some pkt) => ∀ x ∈ answers s (some pkt), ReadFrom file x pkt.body
  | _ => True

instance {file : List UInt8} {s : State} {e : DownloadEvent} : Decidable (Served file s e) := by
  unfold Served
  split
  · infer_instance
  · infer_instance

def Event.isRead : Event → Bool
  | .read _ _ _ => true
  | _ => false

/-- The number of reads that were sent -/
def readsSent (trace : List Event) : ℕ := trace.countP Event.isRead

/-- An offset that is more than 64 bits long is, without the upper bits, not in the file. -/
def InRange (file : List UInt8) (start i : ℕ) : Prop :=
  start + 32768 * i < 2 ^ 64 ∨ file.length ≤ (start + 32768 * i) % 2 ^ 64

instance {file : List UInt8} {start i : ℕ} : Decidable (InRange file start i) := by
  unfold InRange
  infer_instance

/-- When does a download find out that a block is not complete: another block follows. And the offsets do not
come to the file again. -/
def Covered (file : List UInt8) (start : ℕ) (s : State) : DownloadEvent → Prop
  | .queue => s.xfer.eof = false → s.xfer.err = false → ∀ k < 32 - (notHandedOut s.trace).length,
      InRange file start (readsSent s.trace + k)
  | .packet (some pkt) => ∀ x ∈ answers s (some pkt), pkt.type = 103 →
      (getString pkt.body.src).1.length < 32768 →
      x.offset.toNat + (getString pkt.body.src).1.length < file.length →
        x.offset.toNat + 32768 < file.length
  | _ => True

instance {file : List UInt8} {start : ℕ} {s : State} {e : DownloadEvent} :
    Decidable (Covered file start s e) := by
  unfold Covered
  split
  · infer_instance
  · infer_instance
  · infer_instance

/-- Each step of the run is like this. -/
def AllSteps (P : State → DownloadEvent → Prop) (s : State) : List DownloadEvent → Prop
  | [] => True
  | e :: events => P s e ∧
    match downloadStep s e with
    | .error _ => True
    | .ok r => AllSteps P r.2 events

instance AllSteps.decidable {P : State → DownloadEvent → Prop} [∀ s e, Decidable (P s e)] :
    ∀ (s : State) (events : List DownloadEvent), Decidable (AllSteps P s events)
  | _, [] => isTrue trivial
  | s, e :: events =>
    match hstep : downloadStep s e with
    | .error _ => decidable_of_iff (P s e) (by
        unfold AllSteps
        rw [hstep]
        exact (and_iff_left trivial).symm)
    | .ok r =>
      have := AllSteps.decidable (P := P) r.2 events
      decidable_of_iff (P s e ∧ AllSteps P r.2 events) (by
        conv_rhs => unfold AllSteps
        rw [hstep])

/-! ## Blocks -/

/-- What is known of the answer to the `i`-th read -/
structure Answered (file : List UInt8) (start : ℕ) (xfer : FxpXfer) (i : ℕ) (data : List UInt8) :
    Prop where
  part : data <+: (file.drop (start + 32768 * i)).take 32768
  eof : data = [] → file.length ≤ start + 32768 * i
  furthest : data ≠ [] → start + 32768 * i ≤ xfer.furthestdata.toNat
  short : data.length < 32768 → xfer.filesize.toNat ≤ start + 32768 * i + data.length
  followed : data.length < 32768 → start + 32768 * i + data.length < file.length →
    start + 32768 * i + 32768 < file.length

/-- The request has this answer, or none yet. -/
def Held (reqs : Heap Req) (p : ℕ × Sent × Bool) : Option (List UInt8) → Prop
  | none => p.2.2 = false
  | some data => p.2.2 = true ∧
    ∃ v, reqs.cell p.1 = some v ∧ v.complete = 1 ∧ v.retlen = data.length ∧ v.buffer = data

/-- A download without an error, of which `taken` blocks were handed out -/
structure Delivering (file : List UInt8) (start : ℕ) (s : State) (ps : Listing)
    (block : ℕ → Option (List UInt8)) (taken : ℕ) (handed : List UInt8) : Prop where
  reads : readsSent s.trace = taken + ps.length
  offset : s.xfer.offset.toNat = (start + 32768 * (taken + ps.length)) % 2 ^ 64
  offsets : ∀ i p, ps[i]? = some p → p.2.1.offset.toNat = (start + 32768 * (taken + i)) % 2 ^ 64
  held : ∀ i p, ps[i]? = some p → Held s.reqs p (block (taken + i))
  inRange : ∀ i < taken + ps.length, InRange file start i
  before : ∀ i < taken, ∃ data, block i = some data
  later : ∀ i, taken + ps.length ≤ i → block i = none
  answered : ∀ i data, block i = some data → Answered file start s.xfer i data
  noHole : s.xfer.furthestdata ≤ s.xfer.filesize
  eof : s.xfer.eof = true → ∃ i, block i = some []
  handed : handed = (List.range taken).flatMap fun i => (block i).getD []

section Blocks

variable {file handed : List UInt8} {start taken : ℕ} {s s' : State} {ps : Listing}
  {block : ℕ → Option (List UInt8)}

theorem Answered.mono {xfer xfer' : FxpXfer} {i : ℕ} {data : List UInt8}
    (h : Answered file start xfer i data) (hfurthest : xfer.furthestdata ≤ xfer'.furthestdata)
    (hfilesize : xfer'.filesize ≤ xfer.filesize) : Answered file start xfer' i data where
  part := h.part
  eof := h.eof
  furthest := fun hdata => Nat.le_trans (h.furthest hdata) hfurthest
  short := fun hshort => Nat.le_trans hfilesize (h.short hshort)
  followed := h.followed

/-- A block that is not complete reaches the end of the file: what follows it would have been noticed. -/
theorem Delivering.complete (h : Delivering file start s [] block taken handed) {j : ℕ}
    (hj : block j = some []) {i : ℕ} {data : List UInt8} (hi : block i = some data) :
    data.length = 32768 ∨ file.length ≤ start + 32768 * i + data.length := by
  by_contra hnot
  rw [not_or, Nat.not_le] at hnot
  obtain ⟨hshort, hhole⟩ := hnot
  have hdata := h.answered i data hi
  have hlen : data.length < 32768 := by
    have hle := hdata.part.length_le
    rw [List.length_take] at hle
    omega
  have hnext := hdata.followed hlen hhole
  have hend := (h.answered j [] hj).eof rfl
  have hlater : i + 1 ≤ j := by omega
  have hbefore : ∀ k, (∃ data, block k = some data) → k < taken := by
    rintro k ⟨data, hk⟩
    by_contra hge
    rw [h.later k (by rw [List.length_nil]; omega)] at hk
    cases hk
  obtain ⟨data', hdata'⟩ := h.before (i + 1) (Nat.lt_of_le_of_lt hlater (hbefore j ⟨_, hj⟩))
  have hanswered := h.answered (i + 1) data' hdata'
  have hne : data' ≠ [] := by
    intro heq
    have := hanswered.eof heq
    omega
  have hfurthest := hanswered.furthest hne
  have hfilesize := hdata.short hlen
  have hnoHole : s.xfer.furthestdata.toNat ≤ s.xfer.filesize.toNat := h.noHole
  omega

/-- All blocks were handed out, and the end of the file was reached. -/
theorem Delivering.done (h : Delivering file start s [] block taken handed)
    (heof : s.xfer.eof = true) : handed = file.drop start := by
  obtain ⟨j, hj⟩ := h.eof heof
  have hend := (h.answered j [] hj).eof rfl
  have hjlt : j < taken := by
    by_contra hge
    rw [h.later j (by rw [List.length_nil]; omega)] at hj
    cases hj
  have hblock : ∀ i < taken, ∃ data, (block i).getD [] = data ∧ block i = some data := by
    intro i hi
    obtain ⟨data, hdata⟩ := h.before i hi
    exact ⟨data, by rw [hdata]; rfl, hdata⟩
  rw [h.handed]
  refine Blocks.flatMap_eq (n := 32768) ?_ ?_ ?_
  · intro i hi
    obtain ⟨data, heq, hdata⟩ := hblock i hi
    rw [heq]
    unfold Blocks.block
    rw [List.drop_drop]
    exact (h.answered i data hdata).part
  · intro i hi
    obtain ⟨data, heq, hdata⟩ := hblock i hi
    rw [heq, List.length_drop]
    have := h.complete hj hdata
    omega
  · rw [List.length_drop]
    omega

end Blocks

/-! ## Steps -/

section Steps

variable {file handed data : List UInt8} {start taken : ℕ} {s s' : State} {ps left right rest : Listing}
  {block : ℕ → Option (List UInt8)} {a id : ℕ} {x : Sent} {v w : Req}

theorem readsSent_concat {trace : List Event} {e : Event} :
    readsSent (trace ++ [e]) = readsSent trace + if e.isRead then 1 else 0 := by
  unfold readsSent
  rw [List.countP_append, List.countP_singleton]

theorem Held.congr {reqs reqs' : Heap Req} {p : ℕ × Sent × Bool} {answer : Option (List UInt8)}
    (h : Held reqs p answer)
    (hcell : ∀ v, reqs.cell p.1 = some v →
      ∃ next prev, reqs'.cell p.1 = some { v with next := next, prev := prev }) :
    Held reqs' p answer := by
  cases answer with
  | none => exact h
  | some data =>
    obtain ⟨hanswered, v, hv, hcomplete, hretlen, hbuffer⟩ := h
    obtain ⟨next, prev, hv'⟩ := hcell v hv
    exact ⟨hanswered, _, hv', hcomplete, hretlen, hbuffer⟩

theorem Delivering.queued (h : Delivering file start s ps block taken handed)
    (hq : Queued s s' ps id 32768 fun id => .read id s.xfer.offset 32768)
    (hrange : InRange file start (taken + ps.length)) :
    Delivering file start s' (ps ++ [(s.reqs.next, ⟨id, s.xfer.offset, 32768⟩, false)]) block taken
      handed := by
  have hlength : (ps ++ [(s.reqs.next, (⟨id, s.xfer.offset, 32768⟩ : Sent), false)]).length =
      ps.length + 1 := by rw [List.length_append, List.length_singleton]
  have hxfer := hq.xfer
  have hfurthest : s'.xfer.furthestdata = s.xfer.furthestdata := by rw [hxfer]
  have hfilesize : s'.xfer.filesize = s.xfer.filesize := by rw [hxfer]
  have hcases : ∀ i p, (ps ++ [(s.reqs.next, (⟨id, s.xfer.offset, 32768⟩ : Sent), false)])[i]? = some p →
      ps[i]? = some p ∨ i = ps.length ∧ p = (s.reqs.next, ⟨id, s.xfer.offset, 32768⟩, false) := by
    intro i p hp
    rcases Nat.lt_trichotomy i ps.length with hi | hi | hi
    · rw [List.getElem?_append_left hi] at hp
      exact Or.inl hp
    · rw [hi, List.getElem?_concat_length] at hp
      exact Or.inr ⟨hi, (Option.some.inj hp).symm⟩
    · rw [List.getElem?_eq_none (by omega)] at hp
      cases hp
  refine ⟨?_, ?_, ?_, ?_, ?_, h.before, ?_, ?_, ?_, ?_, h.handed⟩
  · rw [hq.trace, readsSent_concat, h.reads, hlength]
    rfl
  · rw [hxfer, hlength]
    show (s.xfer.offset + UInt64.ofInt 32768).toNat = _
    rw [UInt64.toNat_add, h.offset]
    show (_ + 32768) % 2 ^ 64 = _
    omega
  · intro i p hp
    rcases hcases i p hp with hp | ⟨hi, hp⟩
    · exact h.offsets i p hp
    · rw [hp, hi]
      exact h.offset
  · intro i p hp
    rcases hcases i p hp with hp | ⟨hi, hp⟩
    · refine (h.held i p hp).congr fun v hv => ?_
      exact hq.relinked p.1 v (List.mem_map_of_mem (List.mem_of_getElem? hp)) hv
    · rw [hp, hi, h.later _ (Nat.le_refl _)]
      exact (rfl : (false : Bool) = false)
  · intro i hi
    rw [hlength] at hi
    by_cases hlt : i < taken + ps.length
    · exact h.inRange i hlt
    · rw [show i = taken + ps.length by omega]
      exact hrange
  · intro i hi
    rw [hlength] at hi
    exact h.later i (by omega)
  · intro i data hdata
    exact (h.answered i data hdata).mono (UInt64.le_of_eq hfurthest.symm)
      (UInt64.le_of_eq hfilesize)
  · rw [hfurthest, hfilesize]
    exact h.noHole
  · intro heof
    rw [hxfer] at heof
    exact h.eof heof

/-- A packet that answers no read changes nothing of this. -/
theorem Delivering.same (h : Delivering file start s ps block taken handed) (hreqs : s'.reqs = s.reqs)
    (hxfer : s'.xfer = s.xfer) (hreads : readsSent s'.trace = readsSent s.trace) :
    Delivering file start s' ps block taken handed := by
  obtain ⟨requests, message, errtype, reqs, xfer, trace⟩ := s'
  cases hreqs
  cases hxfer
  exact ⟨hreads.trans h.reads, h.offset, h.offsets, h.held, h.inRange, h.before, h.later, h.answered,
    h.noHole, h.eof, h.handed⟩

theorem readsSent_reply {trace : List Event} {id : Option ℕ} :
    readsSent (trace ++ (id.map Event.reply).toList) = readsSent trace := by
  cases id with
  | none => rw [Option.map_none, Option.toList_none, List.append_nil]
  | some id =>
    rw [Option.map_some, Option.toList_some, readsSent_concat]
    rfl

/-- The first block is handed out. -/
theorem Delivering.takeBlock (h : Delivering file start s ((a, x, true) :: rest) block taken handed)
    (hblock : block taken = some data) (htaken : Taken s s' rest v) :
    Delivering file start s' rest block (taken + 1) (handed ++ data) := by
  have hsame := htaken.same
  have hfurthest : s'.xfer.furthestdata = s.xfer.furthestdata := by rw [hsame]
  have hfilesize : s'.xfer.filesize = s.xfer.filesize := by rw [hsame]
  have hcount : taken + ((a, x, true) :: rest : Listing).length = taken + 1 + rest.length := by
    rw [List.length_cons]
    omega
  have hshift : ∀ i, taken + 1 + i = taken + (i + 1) := fun i => by omega
  refine ⟨?_, ?_, ?_, ?_, ?_, ?_, ?_, ?_, ?_, ?_, ?_⟩
  · rw [hsame]
    show readsSent (s.trace ++ [.taken]) = _
    rw [readsSent_concat, h.reads, hcount]
    rfl
  · rw [← hcount, ← h.offset, hsame]
  · intro i p hp
    rw [hshift]
    exact h.offsets (i + 1) p hp
  · intro i p hp
    rw [hshift]
    refine (h.held (i + 1) p hp).congr fun v hv => ?_
    exact htaken.relinked p.1 v (List.mem_map_of_mem (List.mem_of_getElem? hp)) hv
  · intro i hi
    exact h.inRange i (by omega)
  · intro i hi
    by_cases hlt : i < taken
    · exact h.before i hlt
    · rw [show i = taken by omega]
      exact ⟨data, hblock⟩
  · intro i hi
    exact h.later i (by omega)
  · intro i data hdata
    exact (h.answered i data hdata).mono (UInt64.le_of_eq hfurthest.symm)
      (UInt64.le_of_eq hfilesize)
  · rw [hfurthest, hfilesize]
    exact h.noHole
  · intro heof
    rw [hsame] at heof
    exact h.eof heof
  · rw [List.range_succ, List.flatMap_append, ← h.handed, List.flatMap_singleton, hblock]
    rfl

/-- What `xfer_download_gotpkt` notes of a block -/
theorem noteRead_spec {xfer : FxpXfer} (hlen : w.len = 32768) (hretlen : w.retlen = data.length) :
    xfer.furthestdata ≤ (noteRead xfer w).furthestdata ∧
    (noteRead xfer w).filesize ≤ xfer.filesize ∧
    (data ≠ [] → w.offset ≤ (noteRead xfer w).furthestdata) ∧
    (data.length < 32768 → (noteRead xfer w).filesize.toNat ≤ w.offset.toNat + data.length) := by
  unfold noteRead
  dsimp only
  rw [hlen, hretlen]
  have hend : (w.offset + UInt64.ofInt (data.length : ℤ)).toNat ≤ w.offset.toNat + data.length := by
    rw [toInt_ofNat, UInt64.toNat_add, UInt64.toNat_ofNat']
    have := Nat.mod_le (w.offset.toNat + data.length % 2 ^ 64) (2 ^ 64)
    have := Nat.mod_le data.length (2 ^ 64)
    omega
  refine ⟨?_, ?_, ?_, ?_⟩
  · split
    · next hnew => exact UInt64.le_of_lt hnew.2
    · exact UInt64.le_refl _
  · split
    · next hnew => exact UInt64.le_of_lt hnew.2
    · exact UInt64.le_refl _
  · intro hdata
    have hpos := List.length_pos_of_ne_nil hdata
    split
    · exact UInt64.le_refl _
    · next hold => exact UInt64.not_lt.mp fun hlt => hold ⟨by omega, hlt⟩
  · intro hshort
    split
    · exact hend
    · next hold =>
      have hle := UInt64.not_lt.mp fun hlt => hold ⟨by omega, hlt⟩
      exact Nat.le_trans hle hend

/-- The request after its read has returned this -/
def returned (w : Req) (data : List UInt8) : Req := { w with retlen := data.length, complete := 1 }

/-- The transfer after a read has returned this -/
def noted (xfer : FxpXfer) (w : Req) (data : List UInt8) : FxpXfer :=
  noteRead { xfer with eof := xfer.eof || data.isEmpty } (returned w data)

/-- There is an error, or the data is noted. -/
theorem gotData_answer
    (hret : data ≠ [] ∧ w.retlen = data.length ∨ data = [] ∧ w.retlen = -1 ∧ s.fxpErrtype = 1) :
    (gotData s a w).2.xfer.err = true ∨
      (gotData s a w).2 = { s with reqs := s.reqs.set a (returned w data), xfer := noted s.xfer w data } ∧
        (noted s.xfer w data).furthestdata ≤ (noted s.xfer w data).filesize := by
  have hfinish : ∀ (msg : String) (s1 : State),
      ((if s1.xfer.furthestdata > s1.xfer.filesize then
          ((-1 : ℤ), xferSetError (s1.fxpInternalError msg)) else (1, s1)).2.xfer.err = true) ∨
        (if s1.xfer.furthestdata > s1.xfer.filesize then
          ((-1 : ℤ), xferSetError (s1.fxpInternalError msg)) else (1, s1)).2 = s1 ∧
          s1.xfer.furthestdata ≤ s1.xfer.filesize := by
    intro msg s1
    split
    · exact Or.inl rfl
    · next hle => exact Or.inr ⟨rfl, UInt64.not_lt.mp hle⟩
  unfold gotData
  rcases hret with ⟨hdata, hretlen⟩ | ⟨hdata, hretlen, herrtype⟩
  · have hpos : 0 < (data.length : ℤ) := by
      have := List.length_pos_of_ne_nil hdata
      omega
    have heof : (decide (w.retlen < 0) && s.fxpErrtype == 1 || w.retlen == 0) = false := by
      rw [hretlen, decide_eq_false (by omega)]
      simp [hdata]
    rw [heof, if_neg (by rw [hretlen]; omega)]
    dsimp only
    rw [hretlen]
    obtain ⟨b, data', rfl⟩ := List.exists_cons_of_ne_nil hdata
    exact hfinish _ { s with
      reqs := s.reqs.set a (returned w (b :: data')), xfer := noted s.xfer w (b :: data') }
  · have heof : (decide (w.retlen < 0) && s.fxpErrtype == 1 || w.retlen == 0) = true := by
      rw [hretlen, herrtype]
      rfl
    rw [heof, if_neg (by simp), hdata]
    exact hfinish _ { s with reqs := s.reqs.set a (returned w []), xfer := noted s.xfer w [] }

/-- What `fxp_read_recv` gets from a server that reads from the file -/
theorem fxpReadRecv_served {pkt : SftpPacket} (h : ReadFrom file x pkt) (hlen : x.len = 32768) :
    ∃ data, (fxpReadRecv s pkt 32768).1.2 = data ∧
      data <+: (file.drop x.offset.toNat).take 32768 ∧
      (data = [] → file.length ≤ x.offset.toNat) ∧
      (data ≠ [] → pkt.type = 103 ∧ data = (getString pkt.src).1) ∧
      (data ≠ [] ∧ (fxpReadRecv s pkt 32768).1.1 = data.length ∨
        data = [] ∧ (fxpReadRecv s pkt 32768).1.1 = -1 ∧
          (fxpReadRecv s pkt 32768).2.fxpErrtype = 1) := by
  unfold fxpReadRecv
  rcases h with ⟨htype, herr, hdata, hpart⟩ | ⟨htype, herr, hcode, hend⟩
  · rw [hlen] at hpart
    have hle : (getString pkt.src).1.length ≤ 32768 :=
      Nat.le_trans hpart.length_le (List.length_take_le _ _)
    rw [if_pos htype]
    dsimp only
    rw [herr, if_neg Bool.false_ne_true, if_neg (by omega)]
    exact ⟨_, rfl, hpart, fun h => absurd h hdata, fun _ => ⟨htype, rfl⟩, Or.inl ⟨hdata, rfl⟩⟩
  · rw [if_neg (by rw [htype]; decide)]
    have hstatus : (fxpGotStatus s pkt).fxpErrtype = 1 := by
      unfold fxpGotStatus gotStatus
      dsimp only
      rw [if_neg (by rw [htype]; decide), herr, if_neg Bool.false_ne_true, hcode]
      rfl
    exact ⟨[], rfl, List.nil_prefix, fun _ => hend, fun h => absurd rfl h,
      Or.inr ⟨rfl, rfl, hstatus⟩⟩

theorem getElem?_middle {l l' : List (ℕ × Sent × Bool)} {y z p : ℕ × Sent × Bool} {i : ℕ}
    (hp : (l ++ y :: l')[i]? = some p) :
    i = l.length ∧ p = y ∨ i ≠ l.length ∧ p ∈ l ++ l' ∧ (l ++ z :: l')[i]? = some p := by
  rcases Nat.lt_trichotomy i l.length with hi | hi | hi
  · rw [List.getElem?_append_left hi] at hp ⊢
    exact Or.inr ⟨Nat.ne_of_lt hi, List.mem_append_left _ (List.mem_of_getElem? hp), hp⟩
  · rw [hi, List.getElem?_append_right (Nat.le_refl _), Nat.sub_self] at hp
    exact Or.inl ⟨hi, (Option.some.inj hp).symm⟩
  · obtain ⟨k, rfl⟩ := Nat.exists_eq_add_of_lt hi
    rw [List.getElem?_append_right (by omega), show l.length + k + 1 - l.length = k + 1 by omega,
      List.getElem?_cons_succ] at hp ⊢
    exact Or.inr ⟨by omega, List.mem_append_right _ (List.mem_of_getElem? hp), hp⟩

/-- A block arrives. -/
theorem Delivering.answer (h : Delivering file start s (left ++ (a, x, false) :: right) block taken handed)
    (hnodup : (Listing.addresses (left ++ (a, x, false) :: right)).Nodup)
    (hv : s.reqs.cell a = some v) (hwlen : w.len = 32768) (hwoffset : w.offset = x.offset)
    (hwbuffer : w.buffer = data) (hpart : data <+: (file.drop x.offset.toNat).take 32768)
    (heof : data = [] → file.length ≤ x.offset.toNat)
    (hfollowed : data ≠ [] → data.length < 32768 → x.offset.toNat + data.length < file.length →
      x.offset.toNat + 32768 < file.length)
    (hreqs : s'.reqs = s.reqs.set a (returned w data)) (hxfer : s'.xfer = noted s.xfer w data)
    (hnoHole : s'.xfer.furthestdata ≤ s'.xfer.filesize)
    (hreads : readsSent s'.trace = readsSent s.trace) :
    Delivering file start s' (left ++ (a, x, true) :: right)
      (update block (taken + left.length) (some data)) taken handed := by
  have hlength : (left ++ (a, x, true) :: right).length = (left ++ (a, x, false) :: right).length := by
    rw [List.length_append, List.length_append, List.length_cons, List.length_cons]
  have hleft : left.length < (left ++ (a, x, false) :: right).length := by
    rw [List.length_append, List.length_cons]
    omega
  have hoffset : x.offset.toNat = (start + 32768 * (taken + left.length)) % 2 ^ 64 :=
    h.offsets left.length (a, x, false) (by simp)
  have hmod := Nat.mod_le (start + 32768 * (taken + left.length)) (2 ^ 64)
  obtain ⟨hfurthest, hfilesize, hnewFurthest, hnewFilesize⟩ := @noteRead_spec _ (returned w data)
    { s.xfer with eof := s.xfer.eof || data.isEmpty } hwlen rfl
  change s.xfer.furthestdata ≤ (noted s.xfer w data).furthestdata at hfurthest
  change (noted s.xfer w data).filesize ≤ s.xfer.filesize at hfilesize
  rw [← hxfer] at hfurthest hfilesize
  have hother : ∀ i data', i ≠ taken + left.length →
      update block (taken + left.length) (some data) i = some data' → block i = some data' := by
    intro i data' hi heq
    rwa [update_of_ne hi] at heq
  refine ⟨?_, ?_, ?_, ?_, ?_, ?_, ?_, ?_, hnoHole, ?_, ?_⟩
  · rw [hreads, h.reads, hlength]
  · rw [hxfer, hlength]
    exact h.offset
  · intro i p hp
    rcases getElem?_middle (z := (a, x, false)) hp with ⟨hi, rfl⟩ | ⟨-, -, hp⟩
    · rw [hi]
      exact hoffset
    · exact h.offsets i p hp
  · intro i p hp
    rcases getElem?_middle (z := (a, x, false)) hp with ⟨hi, rfl⟩ | ⟨hi, hmem, hp⟩
    · rw [hi, update_self]
      refine ⟨rfl, returned w data, ?_, rfl, rfl, hwbuffer⟩
      rw [hreqs, Heap.cell_set hv, update_self]
    · rw [update_of_ne (by omega)]
      refine (h.held i p hp).congr fun u hu => ⟨u.next, u.prev, ?_⟩
      rw [hreqs, Heap.cell_set hv, update_of_ne (Listing.ne_address hnodup hmem), hu]
  · intro i hi
    rw [hlength] at hi
    exact h.inRange i hi
  · intro i hi
    rw [update_of_ne (by omega)]
    exact h.before i hi
  · intro i hi
    rw [hlength] at hi
    rw [update_of_ne (by omega)]
    exact h.later i hi
  · intro i data' hdata
    by_cases hi : i = taken + left.length
    · rw [hi, update_self] at hdata
      cases hdata
      rw [hi]
      -- the block is in the file where it was asked for, as its offset did not wrap round
      have hrange := h.inRange (taken + left.length) (by omega)
      have hsame : data ≠ [] → x.offset.toNat = start + 32768 * (taken + left.length) := by
        intro hdata
        have hin : x.offset.toNat < file.length := by
          by_contra hout
          rw [List.drop_eq_nil_of_le (Nat.le_of_not_lt hout), List.take_nil, List.prefix_nil] at hpart
          exact hdata hpart
        rcases hrange with hlt | hout
        · rw [hoffset, Nat.mod_eq_of_lt hlt]
        · omega
      refine ⟨?_, ?_, ?_, ?_, ?_⟩
      · by_cases hdata : data = []
        · rw [hdata]
          exact List.nil_prefix
        · rw [← hsame hdata]
          exact hpart
      · intro hdata
        have := heof hdata
        omega
      · intro hdata
        have hnew : w.offset ≤ (noted s.xfer w data).furthestdata := hnewFurthest hdata
        rw [← hsame hdata, hxfer, ← hwoffset]
        exact hnew
      · intro hshort
        have hnew : (noted s.xfer w data).filesize.toNat ≤ w.offset.toNat + data.length :=
          hnewFilesize hshort
        rw [hwoffset] at hnew
        rw [hxfer]
        omega
      · intro hshort hbefore
        by_cases hdata : data = []
        · have := heof hdata
          omega
        · rw [← hsame hdata] at hbefore ⊢
          exact hfollowed hdata hshort hbefore
    · exact (h.answered i data' (hother i data' hi hdata)).mono hfurthest hfilesize
  · intro hend
    rw [hxfer] at hend
    have hend : (s.xfer.eof || data.isEmpty) = true := hend
    by_cases hdata : data = []
    · exact ⟨taken + left.length, by rw [update_self, hdata]⟩
    · have hold : s.xfer.eof = true := by simpa [hdata] using hend
      obtain ⟨j, hj⟩ := h.eof hold
      refine ⟨j, ?_⟩
      rw [update_of_ne ?_, hj]
      rintro rfl
      have hheld := h.held left.length (a, x, false) (by simp)
      rw [hj] at hheld
      exact absurd hheld.1 Bool.false_ne_true
  · rw [h.handed]
    unfold List.flatMap
    refine congrArg List.flatten (List.map_congr_left ?_)
    intro i hi
    have hi := List.mem_range.mp hi
    rw [update_of_ne (by omega)]

end Steps

/-! ## Errors -/

section Errors

variable {s : State} {ps : Listing}

theorem gotData_err {a : ℕ} {w : Req} (h : s.xfer.err = true) : (gotData s a w).2.xfer.err = true := by
  unfold gotData
  dsimp only
  by_cases hfail : ¬ (decide (w.retlen < 0) && s.fxpErrtype == 1 || w.retlen == 0) = true ∧ w.retlen < 0
  · rw [if_pos hfail]
    rfl
  · rw [if_neg hfail]
    split
    · split
      · rfl
      · exact h
    · split
      · rfl
      · exact h

theorem downloadData_err {rounds : ℕ} (h : s.xfer.err = true) :
    Ensures (downloadData rounds s) fun r => r.2.xfer.err = true := by
  induction rounds generalizing s with
  | zero => exact ensures_error.mpr trivial
  | succ rounds ih =>
    unfold downloadData
    split
    · exact ensures_ok.mpr h
    · refine ensures_deref.bind ?_
      rintro ⟨a, v⟩ -
      dsimp only
      split
      · exact ensures_ok.mpr h
      · have htake : Ensures (takeHead s a v) fun s' => s'.xfer.err = true := by
          unfold takeHead
          refine Ensures.bind (P := fun _ => True) (fun _ _ => trivial) ?_
          intro reqs _
          exact ensures_ok.mpr h
        refine htake.bind ?_
        intro s' hs'
        split
        · exact ensures_ok.mpr hs'
        · exact ih hs'

/-- An error is not forgotten. -/
theorem downloadStep_err {e : DownloadEvent} (hinv : DownloadInv s ps) (h : s.xfer.err = true) :
    Ensures (downloadStep s e) fun r => r.2.xfer.err = true := by
  cases e with
  | queue =>
    have hqueue : xferDownloadQueue s = .ok s := by
      unfold xferDownloadQueue downloadQueue
      exact if_neg fun hmore => hmore.2.2 h
    show Ensures (xferDownloadQueue s >>= _) _
    rw [hqueue, ok_bind]
    exact ensures_ok.mpr h
  | packet pktin =>
    refine (xferDownloadGotpkt_inv hinv).ensures.bind ?_
    rintro r ⟨ps', -, hresult⟩
    cases hresult with
    | rejected hunexpected hreqs hxfer htrace =>
      refine ensures_ok.mpr ?_
      show (State.xfer _).err = true
      rw [hxfer]
      exact h
    | answered hps hid hv hpkt hgot hreqs hxfer htrace hret =>
      refine ensures_ok.mpr (gotData_err ?_)
      rw [hxfer]
      exact h
  | data =>
    refine (downloadData_err h).bind ?_
    intro r hr
    exact ensures_ok.mpr hr
  | setError => exact ensures_ok.mpr rfl
  | otherRequest =>
    refine hinv.otherRequest.ensures.bind ?_
    rintro r ⟨-, -, hxfer, -⟩
    refine ensures_ok.mpr ?_
    show r.2.xfer.err = true
    rw [hxfer]
    exact h
  | otherRegister id =>
    refine ensures_ok.mpr ?_
    show (registerOther s id).xfer.err = true
    rw [hinv.otherRegister.2.2.1]
    exact h

end Errors

/-! ## Runs -/

/-- Blocks are delivered, or there was an error. -/
def Delivers (file : List UInt8) (start : ℕ) (s : State) (ps : Listing) (handed : List UInt8) : Prop :=
  s.xfer.err = true ∨ ∃ block taken, Delivering file start s ps block taken handed

section Runs

variable {file handed : List UInt8} {start taken : ℕ} {s : State} {ps : Listing}
  {block : ℕ → Option (List UInt8)}

theorem xferDownloadQueue_delivers (hinv : DownloadInv s ps)
    (h : Delivering file start s ps block taken handed) (hcovered : Covered file start s .queue) :
    Succeeds (xferDownloadQueue s) fun s' => ∃ ps', DownloadInv s' ps' ∧
      Delivers file start s' ps' handed := by
  by_cases hmore : s.xfer.eof = false ∧ s.xfer.err = false
  · have hrange := hcovered hmore.1 hmore.2
    have hledger : (notHandedOut s.trace).length = ps.length := by
      rw [← hinv.ledger, List.length_map]
    rw [hledger, h.reads] at hrange
    refine (downloadQueue_rule (P := fun s' ps' => ps.length ≤ ps'.length ∧
      Delivering file start s' ps' block taken handed) ?_ hinv ⟨Nat.le_refl _, h⟩ (by omega)).mono ?_
    · rintro s1 s2 ps1 id - ⟨hle, hd⟩ - - hlt hq
      refine ⟨?_, hd.queued hq ?_⟩
      · rw [List.length_append]
        omega
      · have := hrange (ps1.length - ps.length) (by omega)
        rwa [show taken + ps.length + (ps1.length - ps.length) = taken + ps1.length by omega] at this
    · rintro s' ⟨ps', hinv', -, hd⟩
      exact ⟨ps', hinv', Or.inr ⟨block, taken, hd⟩⟩
  · have hqueue : xferDownloadQueue s = .ok s := by
      unfold xferDownloadQueue downloadQueue
      refine if_neg fun hcond => hmore ⟨?_, ?_⟩
      · simpa using hcond.2.1
      · simpa using hcond.2.2
    rw [hqueue]
    exact succeeds_ok.mpr ⟨ps, hinv, Or.inr ⟨block, taken, h⟩⟩

theorem xferDownloadGotpkt_delivers {pktin : Option SftpPacket} (hinv : DownloadInv s ps)
    (h : Delivering file start s ps block taken handed) (hserved : Served file s (.packet pktin))
    (hcovered : Covered file start s (.packet pktin)) :
    Succeeds (xferDownloadGotpkt s pktin) fun r => ∃ ps', DownloadInv r.2 ps' ∧
      Delivers file start r.2 ps' handed := by
  refine (xferDownloadGotpkt_inv hinv).mono ?_
  rintro r ⟨ps', hinv', hresult⟩
  refine ⟨ps', hinv', ?_⟩
  cases hresult with
  | rejected hunexpected hreqs hxfer htrace =>
    refine Or.inr ⟨block, taken, h.same hreqs hxfer ?_⟩
    show readsSent (State.trace _) = _
    rw [htrace, readsSent_reply]
  | @answered left right a x v pkt s0 got hps hid hv hpkt hgot hreqs hxfer htrace hret =>
    subst hps hpkt
    have hmem : (a, x, false) ∈ left ++ (a, x, false) :: right := by simp
    have hlen := hinv.len _ hmem
    have hcell : v.offset = x.offset ∧ v.len = 32768 := by
      obtain ⟨v', hv', hoffset', hlen', -⟩ := hinv.chained.cells a x false hmem
      cases hv.symm.trans hv'
      exact ⟨hoffset', hlen'.trans hlen⟩
    have hx : x ∈ answers s (some pkt) := by
      unfold answers
      rw [← hinv.ledger]
      refine List.mem_map_of_mem (f := Prod.fst) (List.mem_filter.mpr
        ⟨List.mem_map_of_mem (f := Prod.snd) hmem, ?_⟩)
      simpa using hid
    obtain ⟨data, hdata, hpart, hend, htype, hret⟩ := fxpReadRecv_served (s := s0) (hserved x hx) hlen
    rw [hcell.2] at hgot
    change got = fxpReadRecv s0 pkt.body 32768 at hgot
    rw [← hgot] at hdata hret
    have hanswer := @gotData_answer data got.2 a
      { v with retlen := got.1.1, buffer := got.1.2 } hret
    rcases hanswer with herr | ⟨heq, hnoHole⟩
    · exact Or.inl herr
    · refine Or.inr ⟨update block (taken + left.length) (some data), taken, ?_⟩
      rw [heq, hreqs, hxfer]
      rw [hxfer] at hnoHole
      refine h.answer (w := { v with retlen := got.1.1, buffer := got.1.2 }) hinv.chained.nodup hv hcell.2 hcell.1 hdata hpart hend ?_ rfl rfl hnoHole ?_
      · intro hne hshort hbefore
        obtain ⟨htype, hstring⟩ := htype hne
        rw [hstring] at hshort hbefore
        exact hcovered x hx htype hshort hbefore
      · show readsSent got.2.trace = _
        rw [htrace, readsSent_reply]

theorem xferDownloadData_delivers (hinv : DownloadInv s ps)
    (h : Delivering file start s ps block taken handed) :
    Succeeds (xferDownloadData s) fun r => ∃ ps', DownloadInv r.2 ps' ∧
      Delivers file start r.2 ps' (handed ++ r.1.getD []) := by
  unfold xferDownloadData downloadData
  rw [hinv.chained.head]
  cases ps with
  | nil => exact succeeds_ok.mpr ⟨[], hinv, Or.inr ⟨block, taken, (List.append_nil handed).symm ▸ h⟩⟩
  | cons p rest =>
    obtain ⟨a, x, answered⟩ := p
    obtain ⟨v, hv, -, -, hanswered⟩ := hinv.chained.cells a x answered List.mem_cons_self
    show Succeeds (deref s.reqs (some a) >>= _) _
    rw [deref_eq hv, ok_bind]
    dsimp only
    have hheld := h.held 0 (a, x, answered) rfl
    cases hblock : block (taken + 0) with
    | none =>
      rw [hblock] at hheld
      have hheld : answered = false := hheld
      have hcomplete : v.complete = 0 := by
        by_contra hne
        rw [hanswered.mpr hne] at hheld
        cases hheld
      rw [if_pos hcomplete]
      exact succeeds_ok.mpr ⟨_, hinv, Or.inr ⟨block, taken, (List.append_nil handed).symm ▸ h⟩⟩
    | some data =>
      rw [hblock] at hheld
      obtain ⟨heq, v', hv', hcomplete, hretlen, hbuffer⟩ := hheld
      cases hv.symm.trans hv'
      have heq : answered = true := heq
      subst heq
      rw [if_neg (by rw [hcomplete]; decide)]
      refine (takeHead_spec hinv hv).bind ?_
      intro s' htaken
      rw [if_pos (by rw [hcomplete]; decide)]
      refine succeeds_ok.mpr ⟨rest, htaken.inv, Or.inr ⟨block, taken + 1, ?_⟩⟩
      have hall : v.buffer.take v.retlen.toNat = data := by
        rw [hretlen, hbuffer, Int.toNat_natCast, List.take_length]
      show Delivering file start s' rest block (taken + 1) (handed ++ v.buffer.take v.retlen.toNat)
      rw [hall]
      exact h.takeBlock hblock htaken

theorem downloadStep_delivers {e : DownloadEvent} (hinv : DownloadInv s ps)
    (h : Delivers file start s ps handed) (hserved : Served file s e)
    (hcovered : Covered file start s e) :
    Succeeds (downloadStep s e) fun r => ∃ ps', DownloadInv r.2 ps' ∧
      Delivers file start r.2 ps' (handed ++ r.1) := by
  rcases h with herr | ⟨block, taken, h⟩
  · refine ((downloadStep_inv hinv).and_ensures (downloadStep_err hinv herr)).mono ?_
    rintro r ⟨⟨ps', hinv'⟩, herr'⟩
    exact ⟨ps', hinv', Or.inl herr'⟩
  · cases e with
    | queue =>
      refine (xferDownloadQueue_delivers hinv h hcovered).bind ?_
      rintro s' ⟨ps', hinv', hd⟩
      exact succeeds_ok.mpr ⟨ps', hinv', (List.append_nil handed).symm ▸ hd⟩
    | packet pktin =>
      refine (xferDownloadGotpkt_delivers hinv h hserved hcovered).bind ?_
      rintro r ⟨ps', hinv', hd⟩
      exact succeeds_ok.mpr ⟨ps', hinv', (List.append_nil handed).symm ▸ hd⟩
    | data =>
      refine (xferDownloadData_delivers hinv h).bind ?_
      rintro r ⟨ps', hinv', hd⟩
      exact succeeds_ok.mpr ⟨ps', hinv', hd⟩
    | setError => exact succeeds_ok.mpr ⟨ps, hinv.setError, Or.inl rfl⟩
    | otherRequest =>
      refine hinv.otherRequest.bind ?_
      rintro r ⟨hinv', hreqs, hxfer, htrace⟩
      refine succeeds_ok.mpr ⟨ps, hinv', Or.inr ⟨block, taken, ?_⟩⟩
      rw [List.append_nil]
      exact h.same hreqs hxfer (congrArg readsSent htrace)
    | otherRegister id =>
      obtain ⟨hinv', hreqs, hxfer, htrace⟩ := @DownloadInv.otherRegister _ _ hinv id
      refine succeeds_ok.mpr ⟨ps, hinv', Or.inr ⟨block, taken, ?_⟩⟩
      rw [List.append_nil]
      exact h.same hreqs hxfer (congrArg readsSent htrace)

theorem downloadRun_delivers {events : List DownloadEvent} (hinv : DownloadInv s ps)
    (h : Delivers file start s ps handed) (hserved : AllSteps (Served file) s events)
    (hcovered : AllSteps (Covered file start) s events) :
    Succeeds (downloadRun s events) fun r => ∃ ps', DownloadInv r.2 ps' ∧
      Delivers file start r.2 ps' (handed ++ r.1) := by
  induction events generalizing s ps handed with
  | nil => exact succeeds_ok.mpr ⟨ps, hinv, (List.append_nil handed).symm ▸ h⟩
  | cons e events ih =>
    obtain ⟨⟨data, s1⟩, hr1, ps1, hinv1, h1⟩ := downloadStep_delivers hinv h hserved.1 hcovered.1
    obtain ⟨-, hserved1⟩ := hserved
    obtain ⟨-, hcovered1⟩ := hcovered
    rw [hr1] at hserved1 hcovered1
    unfold downloadRun
    rw [hr1, ok_bind]
    refine (ih hinv1 h1 hserved1 hcovered1).bind ?_
    rintro ⟨rest, s2⟩ ⟨ps2, hinv2, h2⟩
    refine succeeds_ok.mpr ⟨ps2, hinv2, ?_⟩
    show Delivers file start s2 ps2 (handed ++ (data ++ rest))
    rw [← List.append_assoc]
    exact h2

theorem delivering_start {requests : List SftpRequest} {offset : UInt64} :
    Delivering file offset.toNat (.start requests offset false) [] (fun _ => none) 0 [] where
  reads := rfl
  offset := (Nat.mod_eq_of_lt offset.toNat_lt).symm
  offsets := fun _ _ hp => (nomatch hp)
  held := fun _ _ hp => (nomatch hp)
  inRange := fun i hi => absurd hi (Nat.not_lt_zero i)
  before := fun i hi => absurd hi (Nat.not_lt_zero i)
  later := fun _ _ => rfl
  answered := fun _ _ hdata => (nomatch hdata)
  noHole := UInt64.zero_le
  eof := fun heof => absurd heof Bool.false_ne_true
  handed := rfl

end Runs

/-- A download from `start`: `xfer_download_init`, which begins with `xfer_download_queue`, and what comes
then. -/
def download (requests : List SftpRequest) (start : UInt64) (events : List DownloadEvent) :
    Except Fault (List UInt8 × State) :=
  downloadRun (.start requests start false) (.queue :: events)

/-- A download that is done without an error has handed out the file, if the reads are for the file and if
each block that is not complete is followed by another one. -/
theorem download_delivers (file : List UInt8) (requests : List SftpRequest) (hfresh : Fresh requests)
    (start : UInt64) (events : List DownloadEvent)
    (hserved : AllSteps (Served file) (.start requests start false) (.queue :: events))
    (hcovered : AllSteps (Covered file start.toNat) (.start requests start false) (.queue :: events)) :
    ∃ r, download requests start events = .ok r ∧
      (xferDone r.2.xfer = true → r.2.xfer.err = false → r.1 = file.drop start.toNat) := by
  obtain ⟨r, hr, ps, hinv, h⟩ := downloadRun_delivers (downloadInv_init hfresh)
    (Or.inr ⟨_, _, delivering_start⟩) hserved hcovered
  refine ⟨r, hr, ?_⟩
  intro hdone herr
  rcases h with herr' | ⟨block, taken, h⟩
  · rw [herr] at herr'
    cases herr'
  · unfold xferDone at hdone
    rw [herr, Bool.or_false, Bool.and_eq_true, Option.isNone_iff_eq_none, hinv.chained.head] at hdone
    have hps : ps = [] := by
      cases ps with
      | nil => rfl
      | cons p ps => cases hdone.2
    rw [hps] at h
    exact h.done hdone.1

/-- `SSH_FXP_DATA` -/
def dataReply (id : UInt32) (data : List UInt8) : DownloadEvent :=
  .packet (some ⟨103, ⟨putUint32 id ++ putUint32 (UInt32.ofNat data.length) ++ data, false⟩⟩)

/-- `SSH_FXP_STATUS`, with `SSH_FX_EOF` -/
def eofReply (id : UInt32) : DownloadEvent :=
  .packet (some ⟨101, ⟨putUint32 id ++ putUint32 1, false⟩⟩)

/-- Of all the blocks only the first one has data. -/
def oneBlock (data : List UInt8) : List DownloadEvent :=
  dataReply 256 data :: (List.range 31).map (fun i => eofReply (UInt32.ofNat (257 + i))) ++
    List.replicate 32 .data

/-- A file of three bytes -/
theorem download_delivers_small : ∃ r, download [] 0 (oneBlock [1, 2, 3]) = .ok r ∧
    (xferDone r.2.xfer = true → r.2.xfer.err = false → r.1 = [1, 2, 3]) :=
  download_delivers [1, 2, 3] [] fresh_nil 0 (oneBlock [1, 2, 3]) (by decide +kernel)
    (by decide +kernel)

/-- What was handed out when the download is done without an error -/
def delivered (r : Except Fault (List UInt8 × State)) : Option (List UInt8) :=
  match r with
  | .error _ => none
  | .ok r => if xferDone r.2.xfer = true ∧ r.2.xfer.err = false then some r.1 else none

/-- If the server returns only the first two bytes of a file of three, nothing is noticed. -/
theorem download_short : ¬ ∀ (file : List UInt8) (requests : List SftpRequest), Fresh requests →
    ∀ (start : UInt64) (events : List DownloadEvent),
      AllSteps (Served file) (.start requests start false) (.queue :: events) →
      ∃ r, download requests start events = .ok r ∧
        (xferDone r.2.xfer = true → r.2.xfer.err = false → r.1 = file.drop start.toNat) := by
  intro h
  obtain ⟨r, hr, hdone⟩ := h [1, 2, 3] [] fresh_nil 0 (oneBlock [1, 2]) (by decide +kernel)
  have hdelivered : delivered (download [] 0 (oneBlock [1, 2])) = some [1, 2] := by decide +kernel
  rw [hr] at hdelivered
  unfold delivered at hdelivered
  dsimp only at hdelivered
  split at hdelivered
  · next hend =>
    have heq := hdone hend.1 hend.2
    rw [Option.some.inj hdelivered] at heq
    exact absurd heq (by decide)
  · cases hdelivered

end PuttyNd.Sftp
