import PuttyNd.Sftp.Xfer

/-!
# Proofs: request ids

The tree is sorted by ids that are 256 or greater, so the binary search finds the smallest one that is
free.
-/

namespace PuttyNd.Sftp

open Memory Outcome

/-- The tree has the requests in the order of their ids. -/
structure Sorted (requests : List SftpRequest) : Prop where
  ids : requests.Pairwise fun x y => x.id < y.id
  offset : ∀ r ∈ requests, 256 ≤ r.id

section Sorted

variable {requests : List SftpRequest} {r x : SftpRequest} {id : ℕ}

theorem Sorted.lt (h : Sorted requests) {i j : ℕ} (hi : i < requests.length)
    (hj : j < requests.length) (hij : i < j) : requests[i].id < requests[j].id :=
  List.pairwise_iff_getElem.mp h.ids i j hi hj hij

/-- Two requests with one id are the same. -/
theorem Sorted.unique (h : Sorted requests) (hr : r ∈ requests) (hx : x ∈ requests)
    (hid : r.id = x.id) : r = x := by
  obtain ⟨i, hi, rfl⟩ := List.getElem_of_mem hr
  obtain ⟨j, hj, rfl⟩ := List.getElem_of_mem hx
  rcases Nat.lt_trichotomy i j with hij | hij | hij
  · have := h.lt hi hj hij
    omega
  · cases hij
    rfl
  · have := h.lt hj hi hij
    omega

/-- Between two places the ids grow at least as fast as the places. -/
theorem Sorted.gap (h : Sorted requests) {i d : ℕ} (hi : i < requests.length)
    (hj : i + d < requests.length) : requests[i].id + d ≤ requests[i + d].id := by
  induction d with
  | zero => exact Nat.le_refl _
  | succ d ih =>
    have hd := ih (by omega)
    have hlt := h.lt (i := i + d) (j := i + (d + 1)) (by omega) hj (by omega)
    omega

theorem Sorted.ge (h : Sorted requests) {i : ℕ} (hi : i < requests.length) :
    256 + i ≤ requests[i].id := by
  have hgap := h.gap (i := 0) (d := i) (by omega) (by omega)
  have hoffset := h.offset requests[0] (List.getElem_mem _)
  simp only [Nat.zero_add] at hgap
  omega

theorem mem_addRequest : x ∈ addRequest r requests ↔ x = r ∨ x ∈ requests := by
  induction requests with
  | nil => simp [addRequest]
  | cons y l ih =>
    unfold addRequest
    split
    · rw [List.mem_cons, ih, List.mem_cons]
      tauto
    · rw [List.mem_cons]

theorem Sorted.add (h : Sorted requests) (hr : 256 ≤ r.id) (hfree : ∀ x ∈ requests, x.id ≠ r.id) :
    Sorted (addRequest r requests) := by
  constructor
  · have hids := h.ids
    clear h
    induction requests with
    | nil => simp [addRequest]
    | cons y l ih =>
      rw [List.pairwise_cons] at hids
      have hy := hfree y List.mem_cons_self
      unfold addRequest
      split
      · next hlt =>
        refine List.pairwise_cons.mpr ⟨?_, ih (fun x hx => hfree x (List.mem_cons_of_mem y hx)) hids.2⟩
        intro x hx
        rcases mem_addRequest.mp hx with rfl | hx
        · exact hlt
        · exact hids.1 x hx
      · next hlt =>
        refine List.pairwise_cons.mpr ⟨?_, List.pairwise_cons.mpr hids⟩
        intro x hx
        rcases List.mem_cons.mp hx with rfl | hx
        · omega
        · have := hids.1 x hx
          omega
  · intro x hx
    rcases mem_addRequest.mp hx with rfl | hx
    · exact hr
    · exact h.offset x hx

theorem mem_delRequest (h : Sorted requests) : x ∈ delRequest requests id ↔ x ∈ requests ∧ x.id ≠ id := by
  unfold delRequest
  have hids := h.ids
  clear h
  induction requests with
  | nil => simp
  | cons y l ih =>
    rw [List.pairwise_cons] at hids
    by_cases hy : y.id = id
    · rw [List.eraseP_cons_of_pos (by simp [hy])]
      constructor
      · intro hx
        have := hids.1 x hx
        exact ⟨List.mem_cons_of_mem y hx, by omega⟩
      · rintro ⟨hx, hne⟩
        rcases List.mem_cons.mp hx with rfl | hx
        · exact absurd hy hne
        · exact hx
    · have hl := ih hids.2
      rw [List.eraseP_cons_of_neg (by simp [hy]), List.mem_cons, List.mem_cons]
      constructor
      · rintro (rfl | hx)
        · exact ⟨Or.inl rfl, hy⟩
        · exact ⟨Or.inr (hl.mp hx).1, (hl.mp hx).2⟩
      · rintro ⟨rfl | hx, hne⟩
        · exact Or.inl rfl
        · exact Or.inr (hl.mpr ⟨hx, hne⟩)

theorem Sorted.del (h : Sorted requests) : Sorted (delRequest requests id) where
  ids := h.ids.sublist List.eraseP_sublist
  offset := fun x hx => h.offset x ((mem_delRequest h).mp hx).1

theorem findRequest_some (h : findRequest requests id = some r) : r ∈ requests ∧ r.id = id := by
  unfold findRequest at h
  have hid := List.find?_some h
  exact ⟨List.mem_of_find?_eq_some h, by simpa using hid⟩

theorem findRequest_none (h : findRequest requests id = none) : ∀ x ∈ requests, x.id ≠ id := by
  unfold findRequest at h
  intro x hx hid
  have := List.find?_eq_none.mp h x hx
  simp [hid] at this

end Sorted

/-! ## Writes to a request -/

section Modify

variable {requests : List SftpRequest} {r x : SftpRequest} {id : ℕ} {f : SftpRequest → SftpRequest}

theorem modifyRequest_free (h : ∀ x ∈ requests, x.id ≠ id) : modifyRequest requests id f = requests := by
  unfold modifyRequest
  conv_rhs => rw [← List.map_id requests]
  refine List.map_congr_left ?_
  intro x hx
  rw [if_neg (h x hx)]
  rfl

/-- A write to a request that was just added -/
theorem modifyRequest_add (h : ∀ x ∈ requests, x.id ≠ r.id) (hf : (f r).id = r.id) :
    modifyRequest (addRequest r requests) r.id f = addRequest (f r) requests := by
  induction requests with
  | nil =>
    unfold modifyRequest addRequest
    simp
  | cons y l ih =>
    have hy := h y List.mem_cons_self
    have hl := fun x hx => h x (List.mem_cons_of_mem y hx)
    unfold addRequest
    rw [hf]
    split
    · show (if y.id = r.id then f y else y) :: modifyRequest (addRequest r l) r.id f = _
      rw [if_neg hy, ih hl]
    · show (if r.id = r.id then f r else r) :: modifyRequest (y :: l) r.id f = _
      rw [if_pos rfl, modifyRequest_free h]

theorem mem_modifyRequest (h : Sorted requests) (hr : r ∈ requests) (hid : r.id = id) :
    x ∈ modifyRequest requests id f ↔ x = f r ∨ x ∈ requests ∧ x.id ≠ id := by
  unfold modifyRequest
  rw [List.mem_map]
  constructor
  · rintro ⟨y, hy, rfl⟩
    by_cases hyid : y.id = id
    · rw [if_pos hyid, h.unique hy hr (hyid.trans hid.symm)]
      exact Or.inl rfl
    · rw [if_neg hyid]
      exact Or.inr ⟨hy, hyid⟩
  · rintro (rfl | ⟨hx, hne⟩)
    · exact ⟨r, hr, if_pos hid⟩
    · exact ⟨x, hx, if_neg hne⟩

theorem Sorted.modify (h : Sorted requests) (hf : ∀ x, (f x).id = x.id) :
    Sorted (modifyRequest requests id f) := by
  unfold modifyRequest
  have hid : ∀ x : SftpRequest, (if x.id = id then f x else x).id = x.id := by
    intro x
    split
    · exact hf x
    · rfl
  constructor
  · refine h.ids.map _ ?_
    intro x y hxy
    rw [hid, hid]
    exact hxy
  · intro x hx
    obtain ⟨y, hy, rfl⟩ := List.mem_map.mp hx
    rw [hid]
    exact h.offset y hy

end Modify

/-! ## `sftp_alloc_request` -/

section Alloc

variable {requests : List SftpRequest}

/-- What holds in each round of the search: up to `low` the ids are the first ones, and that at `high`, if
there is one, is not. -/
structure Search (requests : List SftpRequest) (low high : ℤ) : Prop where
  low_ge : -1 ≤ low
  low_lt : low < high
  high_le : high ≤ requests.length
  first : ∀ i : ℕ, (i : ℤ) ≤ low → ∀ hi : i < requests.length, requests[i].id = i + 256
  past : ∀ hi : high.toNat < requests.length, (requests[high.toNat].id : ℤ) ≠ high + 256

theorem firstFit_spec (h : Sorted requests) {rounds : ℕ} {low high : ℤ}
    (hsearch : Search requests low high) (hrounds : high - low ≤ rounds) :
    Succeeds (firstFit requests rounds low high) fun low => Search requests low (low + 1) := by
  induction rounds generalizing low high with
  | zero =>
    have := hsearch.low_lt
    omega
  | succ rounds ih =>
    obtain ⟨hge, hlt, hle, hfirst, hpast⟩ := hsearch
    unfold firstFit
    split
    · next hgap =>
      dsimp only
      have hmid0 : 0 ≤ (high + low) / 2 := by omega
      have hmidlow : low < (high + low) / 2 := by omega
      have hmidhigh : (high + low) / 2 < high := by omega
      generalize (high + low) / 2 = mid at hmid0 hmidlow hmidhigh
      have hlen : mid.toNat < requests.length := by omega
      rw [List.getElem?_eq_getElem hlen]
      dsimp only
      split
      · next hid =>
        refine ih ⟨by omega, hmidhigh, hle, ?_, hpast⟩ (by omega)
        intro i hi hilen
        -- The ids are as close as they can be, up to the one that was looked at.
        obtain ⟨d, hd⟩ : ∃ d, mid.toNat = i + d := ⟨mid.toNat - i, by omega⟩
        have hgapi := h.gap hilen (by omega : i + d < requests.length)
        have hgei := h.ge hilen
        have heq : requests[mid.toNat].id = requests[i + d].id := by simp only [hd]
        omega
      · next hid =>
        refine ih ⟨hge, hmidlow, by omega, hfirst, ?_⟩ (by omega)
        intro _
        exact hid
    · have hhigh : high = low + 1 := by omega
      rw [hhigh] at hle hpast
      exact succeeds_ok.mpr ⟨hge, by omega, hle, hfirst, hpast⟩

/-- The id is not in use. -/
theorem Search.free (h : Sorted requests) {low : ℤ} (hsearch : Search requests low (low + 1)) :
    ∀ x ∈ requests, x.id ≠ (low + 1 + 256).toNat := by
  obtain ⟨hge, hlt, hle, hfirst, hpast⟩ := hsearch
  intro x hx
  obtain ⟨i, hi, rfl⟩ := List.getElem_of_mem hx
  by_cases hilow : (i : ℤ) ≤ low
  · have := hfirst i hilow hi
    omega
  · have hlen : (low + 1).toNat < requests.length := by omega
    have hne := hpast hlen
    have hgelow := h.ge hlen
    obtain ⟨d, hd⟩ : ∃ d, i = (low + 1).toNat + d := ⟨i - (low + 1).toNat, by omega⟩
    have hgap := h.gap hlen (by omega : (low + 1).toNat + d < requests.length)
    have heq : requests[i].id = requests[(low + 1).toNat + d].id := by simp only [hd]
    omega

/-- The new request has an id that was free. -/
theorem sftpAllocRequest_spec {s : State} (h : Sorted s.requests) :
    Succeeds (sftpAllocRequest s) fun r =>
      256 ≤ r.1 ∧ (∀ x ∈ s.requests, x.id ≠ r.1) ∧
        r.2 = { s with requests := addRequest ⟨r.1, false, none⟩ s.requests } := by
  unfold sftpAllocRequest
  have hstart : Search s.requests (-1) s.requests.length := by
    refine ⟨by omega, by omega, by omega, fun i hi => by omega, ?_⟩
    intro hi
    simp at hi
  refine (firstFit_spec h hstart (by push_cast; omega)).bind ?_
  intro low hsearch
  have hfree := hsearch.free h
  have hge := hsearch.low_ge
  rw [if_neg]
  · exact succeeds_ok.mpr ⟨by simp only; omega, hfree, rfl⟩
  · cases hfind : findRequest s.requests (low + 1 + 256).toNat with
    | none => simp
    | some x =>
      obtain ⟨hx, hid⟩ := findRequest_some hfind
      exact absurd hid (hfree x hx)

end Alloc

end PuttyNd.Sftp
