import PuttyNd.Lib.LinkedLists
import PuttyNd.Sftp.Proofs.RequestProofs

/-!
# Proofs: the list of a transfer

`Chained` says what the list has, from its head to its tail; `Owned` says which of the requests that can
be found by an id are on it. A request that was answered stays on the list of a download, but cannot be
found any more.
-/

namespace PuttyNd.Sftp

open CInt Psftp Memory Outcome DoublyLinked Function

/-- A request on the list, by its address, with what was sent and whether it was answered. -/
abbrev Listing := List (ℕ × Sent × Bool)

def Listing.addresses (ps : Listing) : List ℕ := ps.map Prod.fst

def Listing.total (ps : Listing) : ℤ := (ps.map fun p => p.2.1.len).sum

/-- The list from the head to the tail is this one. -/
structure Chained (reqs : Heap Req) (xfer : FxpXfer) (ps : Listing) : Prop where
  head : xfer.head = ps.addresses.head?
  tail : xfer.tail = ps.addresses.getLast?
  linked : Linked Req.next Req.prev reqs.cell ps.addresses
  order : ps.addresses.Pairwise (· < ·)
  cells : ∀ a x answered, (a, x, answered) ∈ ps → ∃ v, reqs.cell a = some v ∧ v.offset = x.offset ∧
    v.len = x.len ∧ (answered = true ↔ v.complete ≠ 0)
  total : xfer.reqTotalsize = toInt32 ps.total

/-- The requests that were not answered can be found by their ids, and no others of the transfer. -/
structure Owned (requests : List SftpRequest) (ps : Listing) : Prop where
  sorted : Sorted requests
  request : ∀ a x, (a, x, false) ∈ ps → (⟨x.id, true, some a⟩ : SftpRequest) ∈ requests
  owner : ∀ r a, r ∈ requests → r.userdata = some a →
    r.registered = true ∧ ∃ x, (a, x, false) ∈ ps ∧ x.id = r.id

/-! ## Arithmetic -/

theorem Listing.total_append {ps ps' : Listing} : (ps ++ ps').total = ps.total + ps'.total := by
  unfold Listing.total
  rw [List.map_append, List.sum_append]

theorem Listing.total_cons {p : ℕ × Sent × Bool} {ps : Listing} :
    Listing.total (p :: ps) = p.2.1.len + ps.total := by
  unfold Listing.total
  rw [List.map_cons, List.sum_cons]

/-! ## The list -/

section Chained

variable {reqs reqs' : Heap Req} {xfer xfer' : FxpXfer} {ps left right : Listing} {a : ℕ} {v : Req}
  {x : Sent} {answered : Bool}

/-- Only the links of these are changed. -/
def Relinked (reqs reqs' : Heap Req) (l : List ℕ) : Prop :=
  ∀ a v, a ∈ l → reqs.cell a = some v →
    ∃ next prev, reqs'.cell a = some { v with next := next, prev := prev }

theorem Listing.mem_addresses (h : (a, x, answered) ∈ ps) : a ∈ ps.addresses :=
  List.mem_map_of_mem (f := Prod.fst) h

/-- Another request on the list has another address. -/
theorem Listing.ne_address (hnodup : (Listing.addresses (left ++ (a, x, answered) :: right)).Nodup)
    {b : ℕ} {y : Sent} {answered' : Bool} (hy : (b, y, answered') ∈ left ++ right) : b ≠ a := by
  rintro rfl
  unfold Listing.addresses at hnodup
  rw [List.map_append, List.map_cons] at hnodup
  have hb := List.mem_map_of_mem (f := Prod.fst) hy
  rw [List.map_append] at hb
  exact (List.nodup_middle.mp hnodup).notMem hb

theorem Chained.nodup (h : Chained reqs xfer ps) : ps.addresses.Nodup :=
  h.order.imp fun hlt => Nat.ne_of_lt hlt

theorem Chained.cell (h : Chained reqs xfer ps) (ha : a ∈ ps.addresses) : ∃ v, reqs.cell a = some v :=
  h.linked.mem ha

theorem Chained.lt_next (h : Chained reqs xfer ps) (ha : a ∈ ps.addresses) : a < reqs.next := by
  obtain ⟨v, hv⟩ := h.cell ha
  by_contra hge
  rw [reqs.fresh a (Nat.le_of_not_lt hge)] at hv
  cases hv

theorem Chained.congr (h : Chained reqs xfer ps) (hhead : xfer'.head = xfer.head)
    (htail : xfer'.tail = xfer.tail) (htotal : xfer'.reqTotalsize = xfer.reqTotalsize) :
    Chained reqs xfer' ps :=
  ⟨hhead.trans h.head, htail.trans h.tail, h.linked, h.order, h.cells, htotal.trans h.total⟩

theorem Relinked.cells (h : Relinked reqs reqs' ps.addresses) (hx : (a, x, answered) ∈ ps)
    (hv : ∃ v, reqs.cell a = some v ∧ v.offset = x.offset ∧ v.len = x.len ∧
      (answered = true ↔ v.complete ≠ 0)) :
    ∃ v, reqs'.cell a = some v ∧ v.offset = x.offset ∧ v.len = x.len ∧
      (answered = true ↔ v.complete ≠ 0) := by
  obtain ⟨v, hv, hoffset, hlen, hcomplete⟩ := hv
  obtain ⟨next, prev, hv'⟩ := h a v (Listing.mem_addresses hx) hv
  exact ⟨_, hv', hoffset, hlen, hcomplete⟩

/-- The list has one more request at its end. -/
def Extended (reqs' : Heap Req) (xfer : FxpXfer) (ps : Listing) (a : ℕ) (v : Req) : Prop :=
  ∀ (x : Sent) (xfer' : FxpXfer), x.offset = v.offset → x.len = v.len →
    xfer'.head = (if xfer.tail.isSome then xfer.head else some a) → xfer'.tail = some a →
    xfer'.reqTotalsize = toInt32 (xfer.reqTotalsize + v.len) →
      Chained reqs' xfer' (ps ++ [(a, x, false)])

theorem Chained.extended (h : Chained reqs xfer ps) (hcomplete : v.complete = 0)
    (hrelinked : Relinked reqs reqs' ps.addresses) (hnew : reqs'.cell reqs.next = some v)
    (hlinked : Linked Req.next Req.prev reqs'.cell (ps.addresses ++ [reqs.next])) :
    Extended reqs' xfer ps reqs.next v := by
  intro x xfer' hx hxlen hhead htail htotal
  have haddresses : Listing.addresses (ps ++ [(reqs.next, x, false)]) =
      ps.addresses ++ [reqs.next] := List.map_append
  refine ⟨?_, ?_, haddresses ▸ hlinked, ?_, ?_, ?_⟩
  · rw [haddresses, hhead, h.tail, h.head]
    cases ps.addresses with
    | nil => rfl
    | cons b l => simp
  · rw [haddresses, htail, List.getLast?_concat]
  · rw [haddresses, List.pairwise_append]
    refine ⟨h.order, List.pairwise_singleton _ _, ?_⟩
    intro b hb c hc
    rw [List.mem_singleton.mp hc]
    exact h.lt_next hb
  · intro b y answered hy
    rcases List.mem_append.mp hy with hy | hy
    · exact hrelinked.cells hy (h.cells b y answered hy)
    · rw [List.mem_singleton] at hy
      cases hy
      exact ⟨v, hnew, hx.symm, hxlen.symm, by simp [hcomplete]⟩
  · rw [htotal, h.total, toInt32_add, Listing.total_append]
    show toInt32 (ps.total + v.len) = toInt32 (ps.total + (x.len + 0))
    rw [hxlen, Int.add_zero]

/-- A new request is put at the end of the list. -/
theorem Chained.append (h : Chained reqs xfer ps) (hcomplete : v.complete = 0) (hnext : v.next = none)
    (hprev : v.prev = xfer.tail) :
    Succeeds (writeOpt (reqs.alloc v) xfer.tail fun r => { r with next := some reqs.next }) fun reqs' =>
      Relinked reqs reqs' ps.addresses ∧ reqs'.cell reqs.next = some v ∧
        reqs'.next = reqs.next + 1 ∧ Extended reqs' xfer ps reqs.next v := by
  have hout : reqs.next ∉ ps.addresses := fun hmem => Nat.lt_irrefl _ (h.lt_next hmem)
  have hold : ∀ b ∈ ps.addresses, (reqs.alloc v).cell b = reqs.cell b := fun b hb =>
    update_of_ne (fun hbn : b = reqs.next => hout (hbn ▸ hb)) _ _
  have hnew : (reqs.alloc v).cell reqs.next = some v := update_self _ _ _
  cases htail : xfer.tail with
  | none =>
    have hnil : ps.addresses = [] := List.getLast?_eq_none_iff.mp (h.tail.symm.trans htail)
    rw [writeOpt_none]
    refine succeeds_ok.mpr ⟨?_, hnew, rfl, ?_⟩
    · intro b w hb
      rw [hnil] at hb
      cases hb
    · refine h.extended hcomplete ?_ hnew ?_
      · intro b w hb
        rw [hnil] at hb
        cases hb
      · refine h.linked.append hout h.nodup hnew hnext ?_ ?_ ?_
        · rw [hprev, h.tail]
        · intro t w ht
          rw [hnil] at ht
          cases ht
        · intro b hb
          rw [hnil] at hb
          cases hb
  | some t =>
    have hlast : ps.addresses.getLast? = some t := h.tail.symm.trans htail
    have ht : t ∈ ps.addresses := List.mem_of_getLast? hlast
    obtain ⟨w, hw⟩ := h.cell ht
    have hw' : (reqs.alloc v).cell t = some w := (hold t ht).trans hw
    rw [writeOpt_some hw']
    have hcell : ((reqs.alloc v).set t { w with next := some reqs.next }).cell =
        update (reqs.alloc v).cell t (some { w with next := some reqs.next }) := Heap.cell_set hw'
    have hnt : reqs.next ≠ t := fun hnt => hout (hnt ▸ ht)
    have hrelinked : Relinked reqs ((reqs.alloc v).set t { w with next := some reqs.next })
        ps.addresses := by
      intro b y hb hy
      rw [hcell]
      by_cases hbt : b = t
      · rw [hbt] at hy ⊢
        rw [update_self]
        cases hw.symm.trans hy
        exact ⟨some reqs.next, w.prev, rfl⟩
      · rw [update_of_ne hbt, hold b hb]
        exact ⟨y.next, y.prev, hy⟩
    have hnew' : ((reqs.alloc v).set t { w with next := some reqs.next }).cell reqs.next = some v := by
      rw [hcell, update_of_ne hnt]
      exact hnew
    refine succeeds_ok.mpr ⟨hrelinked, hnew', rfl, ?_⟩
    refine h.extended hcomplete hrelinked hnew' ?_
    refine h.linked.append hout h.nodup hnew' hnext ?_ ?_ ?_
    · rw [hprev, h.tail]
    · intro u y hu hy
      cases hlast.symm.trans hu
      cases hw.symm.trans hy
      exact ⟨{ w with next := some reqs.next }, by rw [hcell, update_self], rfl, rfl⟩
    · intro b hb hne
      have hbt : b ≠ t := fun hbt => hne (hbt ▸ hlast)
      rw [hcell, update_of_ne hbt]
      exact hold b hb

/-- A request is taken out of the list. -/
theorem Chained.unlink {s : State} (h : Chained s.reqs s.xfer (left ++ (a, x, answered) :: right))
    (hv : s.reqs.cell a = some v) :
    Succeeds (unlinkReq s a v) fun s' => ∃ reqs' head tail, s' = { s with
        reqs := reqs'
        xfer := {
          s.xfer with
          head := head, tail := tail
          reqTotalsize := toInt32 (s.xfer.reqTotalsize - v.len) } } ∧
      reqs'.next = s.reqs.next ∧ Relinked s.reqs reqs' (left ++ right).addresses ∧
      Chained reqs' s'.xfer (left ++ right) := by
  have haddresses : Listing.addresses (left ++ (a, x, answered) :: right) =
      left.addresses ++ a :: right.addresses := List.map_append
  have hrest : Listing.addresses (left ++ right) = left.addresses ++ right.addresses :=
    List.map_append
  have hnodup := h.nodup
  have hlinked := h.linked
  have horder := h.order
  have hhead := h.head
  have htail := h.tail
  rw [haddresses] at hnodup hlinked horder hhead htail
  obtain ⟨v', hv', hnext, hprev⟩ := hlinked _ _ _ rfl
  cases hv.symm.trans hv'
  have hout : a ∉ left.addresses ++ right.addresses :=
    (List.nodup_middle.mp hnodup).notMem
  have hlive : ∀ b, b ∈ left.addresses ∨ b ∈ right.addresses → ∃ w, s.reqs.cell b = some w := by
    intro b hb
    refine hlinked.mem (List.mem_append.mpr (hb.imp_right (List.mem_cons_of_mem a)))
  have hdisjoint : ∀ b, b ∈ left.addresses → b ∈ right.addresses → False := fun b hl hr =>
    (List.nodup_append.mp hnodup).2.2 b hl b (List.mem_cons_of_mem a hr) rfl
  unfold unlinkReq
  refine (writeOpt_spec ?_).bind ?_
  · intro b hb
    exact hlive b (Or.inl (List.mem_of_getLast? (hprev.symm.trans hb)))
  · rintro reqs1 ⟨hnext1, hcell1⟩
    refine (writeOpt_spec ?_).bind ?_
    · intro b hb
      obtain ⟨w, hw⟩ := hlive b (Or.inr (List.mem_of_head? (hnext.symm.trans hb)))
      rw [hcell1 b, hw]
      split
      · exact ⟨_, rfl⟩
      · exact ⟨_, rfl⟩
    · rintro reqs2 ⟨hnext2, hcell2⟩
      have hcell : ∀ b, b ≠ a → (reqs2.free a).cell b =
          if v.next = some b then (reqs1.cell b).map fun r => { r with prev := v.prev }
          else reqs1.cell b := fun b hb => (update_of_ne hb _ _).trans (hcell2 b)
      have hrelinked : Relinked s.reqs (reqs2.free a) (left ++ right).addresses := by
        intro b w hb hw
        rw [hrest] at hb
        rw [hcell b fun hba => hout (hba ▸ hb), hcell1 b, hw]
        split
        · split
          · exact ⟨_, _, rfl⟩
          · exact ⟨_, _, rfl⟩
        · split
          · exact ⟨_, _, rfl⟩
          · exact ⟨w.next, w.prev, rfl⟩
      refine succeeds_ok.mpr ⟨_, _, _, rfl, hnext2.trans hnext1, hrelinked, ?_⟩
      refine ⟨?_, ?_, ?_, ?_, ?_, ?_⟩
      · show (if v.prev.isSome then s.xfer.head else v.next) = _
        rw [hhead, hprev, hnext, hrest]
        rcases hl : left.addresses with _ | ⟨b, l⟩
        · rfl
        · simp [List.getLast?_cons]
      · show (if v.next.isSome then s.xfer.tail else v.prev) = _
        rw [htail, hprev, hnext, hrest]
        rcases hr : right.addresses with _ | ⟨b, l⟩
        · simp
        · simp [List.getLast?_append, List.getLast?_cons]
      · rw [hrest]
        refine hlinked.remove hnodup ?_ ?_ ?_
        · intro t w ht hw
          have htl := List.mem_of_getLast? ht
          have hta : t ≠ a := fun hta => hout (hta ▸ List.mem_append_left _ htl)
          have hnt : v.next ≠ some t := fun hnt =>
            hdisjoint t htl (List.mem_of_head? (hnext.symm.trans hnt))
          refine ⟨{ w with next := v.next }, ?_, hnext, rfl⟩
          rw [hcell t hta, if_neg hnt, hcell1 t, if_pos (hprev.trans ht), hw]
          rfl
        · intro t w ht hw
          have htr := List.mem_of_head? ht
          have hta : t ≠ a := fun hta => hout (hta ▸ List.mem_append_right _ htr)
          have hpt : v.prev ≠ some t := fun hpt =>
            hdisjoint t (List.mem_of_getLast? (hprev.symm.trans hpt)) htr
          refine ⟨{ w with prev := v.prev }, ?_, rfl, hprev⟩
          rw [hcell t hta, if_pos (hnext.trans ht), hcell1 t, if_neg hpt, hw]
          rfl
        · intro b hb hlast hfirst
          have hba : b ≠ a := fun hba => hout (hba ▸ List.mem_append.mpr hb)
          rw [hcell b hba, if_neg fun hnb => hfirst (hnext.symm.trans hnb), hcell1 b,
            if_neg fun hpb => hlast (hprev.symm.trans hpb)]
      · rw [hrest]
        exact horder.sublist (List.Sublist.append_left (List.sublist_cons_self a _) _)
      · intro b y ans hy
        refine hrelinked.cells hy (h.cells b y ans ?_)
        rcases List.mem_append.mp hy with hy | hy
        · exact List.mem_append_left _ hy
        · exact List.mem_append_right _ (List.mem_cons_of_mem _ hy)
      · obtain ⟨w, hw, -, hlen, -⟩ := h.cells a x answered (by simp)
        cases hv.symm.trans hw
        show toInt32 (s.xfer.reqTotalsize - v.len) = _
        rw [h.total, toInt32_sub, Listing.total_append, Listing.total_append, Listing.total_cons, hlen]
        congr 1
        show left.total + (x.len + right.total) - x.len = _
        omega

/-- `xfer_download_data` takes the first request off the list as `xfer_upload_gotpkt` would. -/
theorem takeHead_eq {s : State} (h : v.prev = none) :
    takeHead s a v = (unlinkReq s a v >>= fun s' => .ok (s'.emit .taken)) := by
  unfold takeHead unlinkReq
  rw [h, writeOpt_none, ok_bind]
  cases writeOpt s.reqs v.next fun r => { r with prev := none } with
  | error e => rfl
  | ok reqs => rfl

/-- The request at `a` was answered, or something is written to it that is not looked at here. -/
theorem Chained.write {w : Req} {answered' : Bool}
    (h : Chained reqs xfer (left ++ (a, x, answered) :: right)) (hv : reqs.cell a = some v)
    (hnext : w.next = v.next) (hprev : w.prev = v.prev) (hoffset : w.offset = v.offset)
    (hlen : w.len = v.len) (hcomplete : answered' = true ↔ w.complete ≠ 0) :
    Chained (reqs.set a w) xfer (left ++ (a, x, answered') :: right) := by
  have haddresses : Listing.addresses (left ++ (a, x, answered') :: right) =
      Listing.addresses (left ++ (a, x, answered) :: right) := by
    unfold Listing.addresses
    rw [List.map_append, List.map_append]
    rfl
  have htotal : Listing.total (left ++ (a, x, answered') :: right) =
      Listing.total (left ++ (a, x, answered) :: right) := by
    rw [Listing.total_append, Listing.total_append, Listing.total_cons, Listing.total_cons]
  have hcell : (reqs.set a w).cell = update reqs.cell a (some w) := Heap.cell_set hv
  refine ⟨haddresses ▸ h.head, haddresses ▸ h.tail, ?_, haddresses ▸ h.order, ?_,
    htotal ▸ h.total⟩
  · rw [haddresses]
    refine h.linked.congr ?_
    intro b _ y hy
    rw [hcell]
    by_cases hb : b = a
    · rw [hb] at hy ⊢
      cases hv.symm.trans hy
      exact ⟨w, update_self _ _ _, hnext, hprev⟩
    · exact ⟨y, (update_of_ne hb _ _).trans hy, rfl, rfl⟩
  · intro b y ans hy
    rw [hcell]
    have hold : ∃ ans', (b, y, ans') ∈ left ++ (a, x, answered) :: right ∧
        (b = a ∧ ans = answered' ∨ b ≠ a ∧ ans' = ans) := by
      have hne : (b, y, ans) ∈ left ++ right → b ≠ a := Listing.ne_address h.nodup
      rcases List.mem_append.mp hy with hy | hy
      · exact ⟨ans, List.mem_append_left _ hy, Or.inr ⟨hne (List.mem_append_left _ hy), rfl⟩⟩
      · rcases List.mem_cons.mp hy with hy | hy
        · cases hy
          exact ⟨answered, by simp, Or.inl ⟨rfl, rfl⟩⟩
        · exact ⟨ans, List.mem_append_right _ (List.mem_cons_of_mem _ hy),
            Or.inr ⟨hne (List.mem_append_right _ hy), rfl⟩⟩
    obtain ⟨ans', hmem, ⟨rfl, rfl⟩ | ⟨hba, rfl⟩⟩ := hold
    · obtain ⟨v', hv', hoffset', hlen', -⟩ := h.cells b y ans' hmem
      cases hv.symm.trans hv'
      exact ⟨w, update_self _ _ _, hoffset.trans hoffset', hlen.trans hlen', hcomplete⟩
    · obtain ⟨v', hv', hrest⟩ := h.cells b y ans' hmem
      exact ⟨v', (update_of_ne hba _ _).trans hv', hrest⟩

end Chained

/-! ## The owners of the requests -/

section Owned

variable {requests : List SftpRequest} {ps left right : Listing} {r : SftpRequest} {a : ℕ} {x : Sent}

/-- Two requests that were not answered have different ids. -/
theorem Owned.address (h : Owned requests ps) {b : ℕ} {y : Sent} (hx : (a, x, false) ∈ ps)
    (hy : (b, y, false) ∈ ps) (hid : x.id = y.id) : a = b := by
  have heq := h.sorted.unique (h.request a x hx) (h.request b y hy) hid
  exact Option.some.inj (congrArg SftpRequest.userdata heq)

theorem Owned.add (h : Owned requests ps) (hid : 256 ≤ x.id) (hfree : ∀ r ∈ requests, r.id ≠ x.id) :
    Owned (addRequest ⟨x.id, true, some a⟩ requests) (ps ++ [(a, x, false)]) := by
  refine ⟨h.sorted.add hid hfree, ?_, ?_⟩
  · intro b y hy
    rcases List.mem_append.mp hy with hy | hy
    · exact mem_addRequest.mpr (Or.inr (h.request b y hy))
    · cases List.mem_singleton.mp hy
      exact mem_addRequest.mpr (Or.inl rfl)
  · intro r b hr hb
    rcases mem_addRequest.mp hr with rfl | hr
    · cases hb
      exact ⟨rfl, x, by simp, rfl⟩
    · obtain ⟨hregistered, y, hy, hyid⟩ := h.owner r b hr hb
      exact ⟨hregistered, y, List.mem_append_left _ hy, hyid⟩

/-- A request that is not part of the transfer -/
theorem Owned.addOther (h : Owned requests ps) (hid : 256 ≤ r.id)
    (hfree : ∀ x ∈ requests, x.id ≠ r.id) (hother : r.userdata = none) :
    Owned (addRequest r requests) ps := by
  refine ⟨h.sorted.add hid hfree, ?_, ?_⟩
  · intro b y hy
    exact mem_addRequest.mpr (Or.inr (h.request b y hy))
  · intro x b hx hb
    rcases mem_addRequest.mp hx with rfl | hx
    · rw [hother] at hb
      cases hb
    · exact h.owner x b hx hb

theorem Owned.delOther (h : Owned requests ps) (hr : r ∈ requests) (hother : r.userdata = none) :
    Owned (delRequest requests r.id) ps := by
  refine ⟨h.sorted.del, ?_, ?_⟩
  · intro b y hy
    refine (mem_delRequest h.sorted).mpr ⟨h.request b y hy, ?_⟩
    intro hid
    have heq := h.sorted.unique hr (h.request b y hy) hid.symm
    rw [heq] at hother
    cases hother
  · intro x b hx hb
    exact h.owner x b ((mem_delRequest h.sorted).mp hx).1 hb

theorem Owned.registerOther (h : Owned requests ps) (hr : r ∈ requests) (hother : r.userdata = none) :
    Owned (modifyRequest requests r.id fun r => { r with registered := true }) ps := by
  refine ⟨h.sorted.modify fun _ => rfl, ?_, ?_⟩
  · intro b y hy
    refine (mem_modifyRequest h.sorted hr rfl).mpr (Or.inr ⟨h.request b y hy, ?_⟩)
    intro hid
    have heq := h.sorted.unique hr (h.request b y hy) hid.symm
    rw [heq] at hother
    cases hother
  · intro x b hx hb
    rcases (mem_modifyRequest h.sorted hr rfl).mp hx with rfl | ⟨hx, -⟩
    · exact absurd (hother.symm.trans hb) (by simp)
    · exact h.owner x b hx hb

/-- The request that is found by an id, if it is part of the transfer -/
theorem Owned.found (h : Owned requests ps) (hr : r ∈ requests) (ha : r.userdata = some a) :
    ∃ left right x, ps = left ++ (a, x, false) :: right ∧ x.id = r.id ∧
      ∀ b y, (b, y, false) ∈ left ++ right → b ≠ a → y.id ≠ r.id := by
  obtain ⟨-, x, hx, hid⟩ := h.owner r a hr ha
  obtain ⟨left, right, hps⟩ := List.append_of_mem hx
  refine ⟨left, right, x, hps, hid, ?_⟩
  intro b y hy hba hyid
  refine hba (h.address ?_ hx (hyid.trans hid.symm))
  rw [hps]
  rcases List.mem_append.mp hy with hy | hy
  · exact List.mem_append_left _ hy
  · exact List.mem_append_right _ (List.mem_cons_of_mem _ hy)

/-- The request is answered; it stays on the list, or it does not. -/
theorem Owned.answered (h : Owned requests (left ++ (a, x, false) :: right))
    (hnodup : Listing.addresses (left ++ (a, x, false) :: right) |>.Nodup) {mid : Listing}
    (hmid : ∀ p ∈ mid, p.2.2 = true) :
    Owned (delRequest requests x.id) (left ++ mid ++ right) := by
  have hmem : ∀ b y, (b, y, false) ∈ left ++ mid ++ right → (b, y, false) ∈ left ++ right := by
    intro b y hy
    rw [List.append_assoc, List.mem_append, List.mem_append] at hy
    rcases hy with hy | hy | hy
    · exact List.mem_append_left _ hy
    · exact absurd (hmid _ hy) (by simp)
    · exact List.mem_append_right _ hy
  have hne : ∀ b y, (b, y, false) ∈ left ++ right → b ≠ a := fun b y => Listing.ne_address hnodup
  have hold : ∀ b y, (b, y, false) ∈ left ++ right → (b, y, false) ∈ left ++ (a, x, false) :: right := by
    intro b y hy
    rcases List.mem_append.mp hy with hy | hy
    · exact List.mem_append_left _ hy
    · exact List.mem_append_right _ (List.mem_cons_of_mem _ hy)
  refine ⟨h.sorted.del, ?_, ?_⟩
  · intro b y hy
    have hy' := hmem b y hy
    refine (mem_delRequest h.sorted).mpr ⟨h.request b y (hold b y hy'), ?_⟩
    intro hid
    exact hne b y hy' (h.address (hold b y hy') (by simp) hid)
  · intro r b hr hb
    obtain ⟨hr, hrid⟩ := (mem_delRequest h.sorted).mp hr
    obtain ⟨hregistered, y, hy, hid⟩ := h.owner r b hr hb
    refine ⟨hregistered, y, ?_, hid⟩
    rw [List.append_assoc]
    rcases List.mem_append.mp hy with hy | hy
    · exact List.mem_append_left _ hy
    · rcases List.mem_cons.mp hy with hy | hy
      · cases hy
        exact absurd hid.symm hrid
      · exact List.mem_append_right _ (List.mem_append_right _ hy)

/-- A request that was answered is taken off the list. -/
theorem Owned.tail (h : Owned requests ((a, x, true) :: right)) : Owned requests right := by
  refine ⟨h.sorted, fun b y hy => h.request b y (List.mem_cons_of_mem _ hy), ?_⟩
  intro r b hr hb
  obtain ⟨hregistered, y, hy, hid⟩ := h.owner r b hr hb
  rcases List.mem_cons.mp hy with hy | hy
  · cases hy
  · exact ⟨hregistered, y, hy, hid⟩

end Owned

/-! ## Finding the request of a reply -/

/-- The id of a reply, if there is one -/
def replyId (pktin : Option SftpPacket) : Option ℕ :=
  match pktin with
  | none => none
  | some pktin => if (getUint32 pktin.src).2.err then none else some (getUint32 pktin.src).1.toNat

/-- Only the error message and the trace are changed. -/
def OnlyError (s s' : State) (pktin : Option SftpPacket) : Prop :=
  ∃ msg errtype, s' = { s with
    fxpErrorMessage := msg
    fxpErrtype := errtype
    trace := s.trace ++ ((replyId pktin).map Event.reply).toList }

/-- There is no request for a reply, or it is taken out of the tree. -/
theorem sftpFindRequest_cases {s : State} {pktin : Option SftpPacket} (h : Sorted s.requests) :
    (∃ s', sftpFindRequest s pktin = (none, s') ∧ OnlyError s s' pktin ∧
      ∀ r ∈ s.requests, r.registered = true → replyId pktin ≠ some r.id) ∨
    ∃ r pkt src, sftpFindRequest s pktin = (some (r, { pkt with src := src }),
        { s with
          trace := s.trace ++ ((replyId pktin).map Event.reply).toList
          requests := delRequest s.requests r.id }) ∧
      pktin = some pkt ∧ src = (getUint32 pkt.src).2 ∧ r ∈ s.requests ∧ r.registered = true ∧
        replyId pktin = some r.id := by
  unfold sftpFindRequest
  cases pktin with
  | none =>
    refine Or.inl ⟨_, rfl, ⟨"did not receive a valid SFTP packet\n", -1, ?_⟩,
      fun r _ _ hr => (nomatch hr)⟩
    exact (congrArg (fun trace => { s.fxpInternalError _ with trace := trace })
      (List.append_nil s.trace)).symm
  | some pkt =>
    dsimp only
    by_cases herr : (getUint32 pkt.src).2.err = true
    · have hid : replyId (some pkt) = none := if_pos herr
      rw [if_pos herr, hid]
      refine Or.inl ⟨_, rfl, ⟨"did not receive a valid SFTP packet\n", -1, ?_⟩,
        fun r _ _ hr => (nomatch hr)⟩
      rw [hid]
      exact (congrArg (fun trace => { s.fxpInternalError _ with trace := trace })
        (List.append_nil s.trace)).symm
    · have hid : replyId (some pkt) = some (getUint32 pkt.src).1.toNat := if_neg herr
      rw [if_neg herr]
      have hrejected : OnlyError s ((s.emit (.reply (getUint32 pkt.src).1.toNat)).fxpInternalError
          "request ID mismatch\n") (some pkt) := by
        refine ⟨"request ID mismatch\n", -1, ?_⟩
        rw [hid]
        rfl
      have hrequests : (s.emit (.reply (getUint32 pkt.src).1.toNat)).requests = s.requests := rfl
      rw [hrequests]
      cases hfind : findRequest s.requests (getUint32 pkt.src).1.toNat with
      | none =>
        refine Or.inl ⟨_, rfl, hrejected, ?_⟩
        intro r hr _ hrid
        rw [hid] at hrid
        exact findRequest_none hfind r hr (Option.some.inj hrid).symm
      | some r =>
        obtain ⟨hr, hrid⟩ := findRequest_some hfind
        by_cases hregistered : r.registered = true
        · refine Or.inr ⟨r, pkt, _, ?_, rfl, rfl, hr, hregistered, by rw [hid, hrid]⟩
          dsimp only
          rw [if_neg (by simp [hregistered]), hid]
          rfl
        · refine Or.inl ⟨_, if_pos hregistered, hrejected, ?_⟩
          intro x hx hxregistered hxid
          rw [hid] at hxid
          have heq := h.unique hx hr ((Option.some.inj hxid).symm.trans hrid.symm)
          rw [heq] at hxregistered
          exact hregistered hxregistered

end PuttyNd.Sftp
