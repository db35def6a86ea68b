import PuttyNd.Share.Server
import PuttyNd.Lib.Runs

/-!
# Proofs: the ids of the downstreams
-/

namespace PuttyNd.Share

open Outcome

variable {connections : List UInt32} {first id r : UInt32} {lowOrig low high rounds i j : ℕ}

/-! ## Sorted ids -/

/-- Different ids are at least as far apart as their places. -/
theorem sorted_gap (hsorted : connections.Pairwise (· < ·)) (hij : i ≤ j) (hj : j < connections.length) :
    connections[i].toNat + (j - i) ≤ connections[j].toNat := by
  induction j, hij using Nat.le_induction with
  | base => omega
  | succ j hij ih =>
    have hlt : connections[j] < connections[j + 1] :=
      List.pairwise_iff_getElem.mp hsorted j (j + 1) (by omega) hj (Nat.lt_succ_self j)
    have hlt := UInt32.lt_iff_toNat_lt.mp hlt
    have ih := ih (by omega)
    omega

theorem toNat_add_ofNat (first : UInt32) (k : ℕ) :
    (first + UInt32.ofNat k).toNat = (first.toNat + k) % 2 ^ 32 := by
  rw [UInt32.toNat_add, UInt32.toNat_ofNat']
  omega

/-! ## The binary search -/

/-- What is at this place continues the sequence. -/
def InSequence (connections : List UInt32) (first : UInt32) (lowOrig i : ℕ) : Prop :=
  connections[i]? = some (first + UInt32.ofNat (i - lowOrig))

/-- The search ends at a place where the sequence is continued, unless that is where it started, and where
it is not continued at the next place. -/
theorem sequenceEnd_spec (hlow : low < high) (hhigh : high ≤ connections.length)
    (hrounds : high - low < rounds) :
    ∃ found, sequenceEnd connections first lowOrig rounds low high = .ok found ∧
      low ≤ found ∧ found < high ∧ (found = low ∨ InSequence connections first lowOrig found) ∧
      (found + 1 = high ∨ ¬ InSequence connections first lowOrig (found + 1)) := by
  induction rounds generalizing low high with
  | zero => exact absurd hrounds (Nat.not_lt_zero _)
  | succ rounds ih =>
    unfold sequenceEnd
    by_cases hmore : high - low > 1
    · rw [if_pos hmore]
      dsimp only
      have hmid : (high + low) / 2 < connections.length := by omega
      rw [List.getElem?_eq_getElem hmid]
      dsimp only
      by_cases hid : connections[(high + low) / 2] =
          first + UInt32.ofNat ((high + low) / 2 - lowOrig)
      · rw [if_pos hid]
        have hin : InSequence connections first lowOrig ((high + low) / 2) := by
          unfold InSequence
          rw [List.getElem?_eq_getElem hmid, hid]
        obtain ⟨found, hfound, hge, hlt, hstart, hend⟩ :=
          @ih ((high + low) / 2) high (by omega) hhigh (by omega)
        refine ⟨found, hfound, by omega, hlt, Or.inr ?_, hend⟩
        rcases hstart with rfl | hstart
        · exact hin
        · exact hstart
      · rw [if_neg hid]
        have hout : ¬ InSequence connections first lowOrig ((high + low) / 2) := by
          unfold InSequence
          rw [List.getElem?_eq_getElem hmid]
          exact fun h => hid (Option.some.inj h)
        obtain ⟨found, hfound, hge, hlt, hstart, hend⟩ :=
          @ih low ((high + low) / 2) (by omega) (by omega) (by omega)
        refine ⟨found, hfound, hge, by omega, hstart, Or.inr ?_⟩
        rcases hend with hend | hend
        · rw [hend]
          exact hout
        · exact hend
    · rw [if_neg hmore]
      exact ⟨low, rfl, Nat.le_refl _, hlow, Or.inl rfl, Or.inl (by omega)⟩

/-- The search of `share_find_unused_id`, from the first id that is at least `first` -/
theorem sequenceEnd_found (hlow : low < connections.length) :
    ∃ found, sequenceEnd connections first low (connections.length + 1) low connections.length =
        .ok found ∧
      low ≤ found ∧ found < connections.length ∧
      (found = low ∨ InSequence connections first low found) ∧
      ¬ InSequence connections first low (found + 1) := by
  obtain ⟨found, hfound, hge, hlt, hstart, hend⟩ :=
    @sequenceEnd_spec _ first low _ _ (connections.length + 1) hlow (Nat.le_refl _)
      (by omega)
  refine ⟨found, hfound, hge, hlt, hstart, ?_⟩
  rcases hend with hend | hend
  · unfold InSequence
    rw [hend, List.getElem?_eq_none (Nat.le_refl _)]
    exact fun h => (nomatch h)
  · exact hend

/-! ## The id that is found -/

/-- The lowest id from `first` on that is not in the tree, or 0 if all of them are -/
def LowestUnused (connections : List UInt32) (first id : UInt32) : Prop :=
  (id = 0 ∧ ∀ used, first ≤ used → used ∈ connections) ∨
    (first ≤ id ∧ id ∉ connections ∧ ∀ used, first ≤ used → used < id → used ∈ connections)

/-- The sequence has no gap. -/
theorem getElem_of_inSequence (hsorted : connections.Pairwise (· < ·)) (hlow : low ≤ i)
    (hi : i < connections.length) (hfirst : connections[low] = first)
    (hin : i = low ∨ InSequence connections first low i) :
    connections[i].toNat = first.toNat + (i - low) := by
  have hgap := sorted_gap hsorted hlow hi
  have hbound := connections[i].toNat_lt
  rcases hin with rfl | hin
  · rw [hfirst]
    omega
  · unfold InSequence at hin
    rw [List.getElem?_eq_getElem hi] at hin
    have hid := congrArg UInt32.toNat (Option.some.inj hin)
    rw [toNat_add_ofNat] at hid
    rw [hfirst] at hgap
    omega

/-- Every id in the sequence is in the tree. -/
theorem mem_of_sequence (hsorted : connections.Pairwise (· < ·)) (hlow : low ≤ i)
    (hi : i < connections.length) (hfirst : connections[low] = first)
    (hlast : connections[i].toNat = first.toNat + (i - low)) {used : UInt32} (hge : first ≤ used)
    (hle : used ≤ connections[i]) : used ∈ connections := by
  have hge := UInt32.le_iff_toNat_le.mp hge
  have hle := UInt32.le_iff_toNat_le.mp hle
  have hplace : low + (used.toNat - first.toNat) < connections.length := by omega
  have hbefore := sorted_gap hsorted (i := low) (by omega) hplace
  have hafter := sorted_gap hsorted (i := low + (used.toNat - first.toNat)) (j := i) (by omega) hi
  rw [hfirst] at hbefore
  have hused : connections[low + (used.toNat - first.toNat)] = used :=
    UInt32.toNat_inj.mp (by omega)
  rw [← hused]
  exact List.getElem_mem hplace

/-- If the id after the sequence is in the tree, it is at the next place. -/
theorem inSequence_succ (hsorted : connections.Pairwise (· < ·)) (hlow : low ≤ i)
    (hi : i < connections.length) (hlast : connections[i].toNat = first.toNat + (i - low))
    (hbound : connections[i].toNat + 1 < 2 ^ 32)
    (hmem : first + UInt32.ofNat (i - low) + 1 ∈ connections) :
    InSequence connections first low (i + 1) := by
  obtain ⟨j, hj, hid⟩ := List.mem_iff_getElem.mp hmem
  have hnext : (first + UInt32.ofNat (i - low) + 1).toNat = connections[i].toNat + 1 := by
    rw [UInt32.toNat_add, toNat_add_ofNat, hlast]
    rw [show (1 : UInt32).toNat = 1 from rfl]
    omega
  have hij : i + 1 ≤ j := by
    by_contra hle
    have hgap := sorted_gap hsorted (i := j) (j := i) (by omega) hi
    rw [hid, hnext] at hgap
    omega
  have hgap := sorted_gap hsorted hij hj
  have hstep := sorted_gap hsorted (i := i) (j := i + 1) (by omega) (by omega)
  rw [hid, hnext] at hgap
  unfold InSequence
  rw [List.getElem?_eq_getElem (by omega)]
  refine congrArg some (UInt32.toNat_inj.mp ?_)
  rw [toNat_add_ofNat]
  omega

/-- The search starts at the first id that is at least `first`. -/
theorem findIdx_ge (hsorted : connections.Pairwise (· < ·)) (hmem : first ∈ connections) :
    ∃ low, ∃ hlow : low < connections.length,
      connections.findIdx? (first ≤ ·) = some low ∧ connections[low] = first := by
  obtain ⟨i, hi, hfirst⟩ := List.mem_iff_getElem.mp hmem
  cases hfind : connections.findIdx? (first ≤ ·) with
  | none =>
    have := List.findIdx?_eq_none_iff.mp hfind first hmem
    simp at this
  | some low =>
    obtain ⟨hlow, hge, hbefore⟩ := List.findIdx?_eq_some_iff_getElem.mp hfind
    have hle : low ≤ i := by
      by_contra hlt
      have := hbefore i (by omega)
      rw [hfirst] at this
      simp at this
    have hgap := sorted_gap hsorted hle hi
    have hge := UInt32.le_iff_toNat_le.mp (of_decide_eq_true hge)
    rw [hfirst] at hgap
    exact ⟨low, hlow, rfl, UInt32.toNat_inj.mp (by omega)⟩

/-- From an id that is used on, the lowest unused id is found. -/
theorem shareFindUnusedId_used (hsorted : connections.Pairwise (· < ·)) (hzero : 0 ∉ connections)
    (hmem : first ∈ connections) :
    Succeeds (shareFindUnusedId connections first) (LowestUnused connections first) := by
  obtain ⟨low, hlow, hfind, hfirst⟩ := findIdx_ge hsorted hmem
  obtain ⟨found, hfound, hge, hlt, hstart, hend⟩ := @sequenceEnd_found _ first _ hlow
  have hlast := getElem_of_inSequence hsorted hge hlt hfirst hstart
  unfold shareFindUnusedId
  rw [hfind]
  dsimp only
  rw [hfound, ok_bind]
  have hret : (first + UInt32.ofNat (found - low) + 1).toNat = (connections[found].toNat + 1) % 2 ^ 32 := by
    rw [UInt32.toNat_add, toNat_add_ofNat, hlast]
    rw [show (1 : UInt32).toNat = 1 from rfl]
    omega
  have hbound := connections[found].toNat_lt
  by_cases hmax : connections[found].toNat + 1 = 2 ^ 32
  · have hnone : first + UInt32.ofNat (found - low) + 1 = 0 := by
      refine UInt32.toNat_inj.mp ?_
      rw [hret, hmax]
      rfl
    rw [hnone, if_neg hzero]
    refine succeeds_ok.mpr (Or.inl ⟨rfl, fun used hused => ?_⟩)
    refine mem_of_sequence hsorted hge hlt hfirst hlast hused (UInt32.le_iff_toNat_le.mpr ?_)
    have := used.toNat_lt
    omega
  · rw [Nat.mod_eq_of_lt (by omega)] at hret
    rw [if_neg fun hused => hend (inSequence_succ hsorted hge hlt hlast (by omega) hused)]
    refine succeeds_ok.mpr (Or.inr ⟨?_, ?_, fun used hused hbefore => ?_⟩)
    · refine UInt32.le_iff_toNat_le.mpr ?_
      omega
    · exact fun hused => hend (inSequence_succ hsorted hge hlt hlast (by omega) hused)
    · refine mem_of_sequence hsorted hge hlt hfirst hlast hused (UInt32.le_iff_toNat_le.mpr ?_)
      have := UInt32.lt_iff_toNat_lt.mp hbefore
      omega

/-- An id that is greater than all that are used is free. -/
theorem shareFindUnusedId_above (habove : ∀ id ∈ connections, id < first) :
    Succeeds (shareFindUnusedId connections first) (LowestUnused connections first) := by
  have hfind : connections.findIdx? (first ≤ ·) = none := by
    refine List.findIdx?_eq_none_iff.mpr fun id hid => ?_
    have := habove id hid
    simpa using this
  unfold shareFindUnusedId
  rw [hfind]
  refine succeeds_ok.mpr (Or.inr ⟨UInt32.le_refl _, ?_, fun used hge hlt => ?_⟩)
  · exact fun hmem => absurd (habove first hmem) (UInt32.lt_irrefl _)
  · exact absurd hlt (UInt32.not_lt.mpr hge)

/-- A free id below one that is used is passed over. -/
theorem shareFindUnusedId_gap (hsorted : connections.Pairwise (· < ·)) (hfree : first ∉ connections)
    (hid : id ∈ connections) (hge : first ≤ id) :
    Ensures (shareFindUnusedId connections first) (· = first + 1) := by
  cases hfind : connections.findIdx? (first ≤ ·) with
  | none =>
    have := List.findIdx?_eq_none_iff.mp hfind id hid
    simp [hge] at this
  | some low =>
    obtain ⟨hlow, hlowge, -⟩ := List.findIdx?_eq_some_iff_getElem.mp hfind
    obtain ⟨found, hfound, hge, hlt, hstart, hend⟩ := @sequenceEnd_found _ first _ hlow
    have hlowge := UInt32.le_iff_toNat_le.mp (of_decide_eq_true hlowge)
    have hne : connections[low].toNat ≠ first.toNat := by
      intro h
      rw [← UInt32.toNat_inj.mp h] at hfree
      exact hfree (List.getElem_mem hlow)
    have hlowest : found = low := by
      rcases hstart with hstart | hstart
      · exact hstart
      · have hgap := sorted_gap hsorted hge hlt
        have hbound := connections[found].toNat_lt
        unfold InSequence at hstart
        rw [List.getElem?_eq_getElem hlt] at hstart
        have hid := congrArg UInt32.toNat (Option.some.inj hstart)
        rw [toNat_add_ofNat] at hid
        omega
    unfold shareFindUnusedId
    rw [hfind]
    dsimp only
    rw [hfound, ok_bind, hlowest, Nat.sub_self]
    by_cases hused : first + UInt32.ofNat 0 + 1 ∈ connections
    · rw [if_pos hused]
      exact ensures_error.mpr trivial
    · rw [if_neg hused]
      refine ensures_ok.mpr ?_
      rw [show UInt32.ofNat 0 = 0 from rfl, UInt32.add_zero]

/-- The first id is used, or greater than all that are. -/
def FirstOk (connections : List UInt32) (first : UInt32) : Prop :=
  first ∈ connections ∨ ∀ id ∈ connections, id < first

instance : Decidable (FirstOk connections first) :=
  inferInstanceAs (Decidable (first ∈ connections ∨ ∀ id ∈ connections, id < first))

/-- The lowest unused id is found exactly from these ids on. -/
theorem shareFindUnusedId_iff (hsorted : connections.Pairwise (· < ·)) (hzero : 0 ∉ connections) :
    Succeeds (shareFindUnusedId connections first) (LowestUnused connections first) ↔
      FirstOk connections first := by
  constructor
  · rintro ⟨id, hfind, hlowest⟩
    by_contra hnot
    obtain ⟨hfree, hbelow⟩ := not_or.mp hnot
    push Not at hbelow
    obtain ⟨used, hused, hge⟩ := hbelow
    have hge := UInt32.not_lt.mp hge
    have hid := shareFindUnusedId_gap hsorted hfree hused hge id hfind
    have hne : first ≠ used := fun h => hfree (h ▸ hused)
    rcases hlowest with ⟨-, hall⟩ | ⟨-, -, hall⟩
    · exact hfree (hall first (UInt32.le_refl _))
    · refine hfree (hall first (UInt32.le_refl _) ?_)
      have hlt := UInt32.lt_iff_toNat_lt.mp (UInt32.lt_of_le_of_ne hge hne)
      have hbound := used.toNat_lt
      rw [hid, UInt32.lt_iff_toNat_lt, UInt32.toNat_add]
      rw [show (1 : UInt32).toNat = 1 from rfl]
      omega
  · rintro (hmem | habove)
    · exact shareFindUnusedId_used hsorted hzero hmem
    · exact shareFindUnusedId_above habove

/-! ## Downstreams that come and go -/

theorem shareFindUnusedId_unused : Ensures (shareFindUnusedId connections first) (· ∉ connections) := by
  unfold shareFindUnusedId
  cases hfind : connections.findIdx? (first ≤ ·) with
  | none =>
    refine ensures_ok.mpr fun hmem => ?_
    have := List.findIdx?_eq_none_iff.mp hfind first hmem
    simp at this
  | some low =>
    refine Ensures.bind (P := fun _ => True) (fun _ _ => trivial) fun found _ => ?_
    by_cases hused : first + UInt32.ofNat (found - low) + 1 ∈ connections
    · rw [if_pos hused]
      exact ensures_error.mpr trivial
    · rw [if_neg hused]
      exact ensures_ok.mpr hused

/-- The tree has the ids of the downstreams that there are, which are different and not 0. -/
structure Listening (s : Sharestate) : Prop where
  perm : s.connections.Perm s.live
  nodup : s.live.Nodup
  sorted : s.connections.Pairwise (· ≤ ·)
  nonzero : 0 ∉ s.connections
  nextid : s.nextid ≠ 0

namespace Listening

variable {s : Sharestate} (h : Listening s)
include h

theorem strict : s.connections.Pairwise (· < ·) := by
  have hnodup := h.perm.nodup_iff.mpr h.nodup
  exact (h.sorted.and hnodup).imp fun hle => UInt32.lt_of_le_of_ne hle.1 hle.2

/-- A downstream comes with an id that is free. -/
theorem accepted {nextid : UInt32} (hid : id ∉ s.connections) (hne : id ≠ 0) (hnext : nextid ≠ 0) :
    Listening ⟨addConnection id s.connections, nextid, id :: s.live⟩ := by
  unfold addConnection
  rw [if_neg hid]
  have hperm := List.perm_orderedInsert (· ≤ ·) id s.connections
  refine ⟨hperm.trans (h.perm.cons id), ?_, h.sorted.orderedInsert id _, ?_, hnext⟩
  · exact List.nodup_cons.mpr ⟨fun hmem => hid (h.perm.mem_iff.mpr hmem), h.nodup⟩
  · intro hmem
    rcases List.mem_cons.mp (hperm.mem_iff.mp hmem) with hzero | hzero
    · exact hne hzero.symm
    · exact h.nonzero hzero

theorem refused {nextid : UInt32} (hnext : nextid ≠ 0) : Listening { s with nextid := nextid } :=
  ⟨h.perm, h.nodup, h.sorted, h.nonzero, hnext⟩

theorem cleanedUp (i : ℕ) : Listening (shareCleanedUp s i) := by
  unfold shareCleanedUp
  cases hid : s.live[i]? with
  | none => exact h
  | some id =>
    obtain ⟨hi, hget⟩ := List.getElem?_eq_some_iff.mp hid
    refine ⟨?_, h.nodup.eraseIdx i, h.sorted.erase id, ?_, h.nextid⟩
    swap
    · exact fun hmem => h.nonzero (List.mem_of_mem_erase hmem)
    show (s.connections.erase id).Perm (s.live.eraseIdx i)
    rw [← hget, ← List.Nodup.erase_getElem h.nodup i hi]
    exact h.perm.erase _

end Listening

theorem listening_init : Listening .init where
  perm := List.Perm.refl _
  nodup := List.nodup_nil
  sorted := List.Pairwise.nil
  nonzero := List.not_mem_nil
  nextid := by decide

variable {s : Sharestate} {sockOk : Bool} {e : ListenEvent} {events : List ListenEvent}

theorem acceptWith_spec (h : Listening s) (hid : id ∉ s.connections) :
    Succeeds (acceptWith s sockOk id) Listening := by
  unfold acceptWith
  by_cases hzero : id = 0
  · rw [if_pos hzero]
    exact ⟨s, rfl, h⟩
  · rw [if_neg hzero]
    dsimp only
    have hnext : (if id + 1 = 0 then id + 1 + 1 else id + 1) ≠ 0 := by
      by_cases hwrap : id + 1 = 0
      · rw [if_pos hwrap, hwrap]
        decide
      · rw [if_neg hwrap]
        exact hwrap
    by_cases hsock : sockOk
    · rw [if_pos hsock]
      exact ⟨_, rfl, h.accepted hid hzero hnext⟩
    · rw [if_neg hsock]
      exact ⟨_, rfl, h.refused hnext⟩

/-- A downstream never gets the id of another. -/
theorem newId_unused : Ensures (newId s) (· ∉ s.connections) := by
  refine shareFindUnusedId_unused.bind fun id hid => ?_
  by_cases hzero : id = 0
  · rw [if_pos hzero]
    exact shareFindUnusedId_unused
  · rw [if_neg hzero]
    exact ensures_ok.mpr hid

/-- An id is found from `nextid` on; or from 1 on, if all ids from `nextid` on are used. -/
def AcceptOk (s : Sharestate) : ListenEvent → Prop
  | .accepting _ => FirstOk s.connections s.nextid ∧
    ((∀ used, s.nextid ≤ used → used ∈ s.connections) → FirstOk s.connections 1)
  | .cleanedUp _ => True

theorem newId_succeeds (h : Listening s) (hok : AcceptOk s (.accepting sockOk)) :
    Succeeds (newId s) fun _ => True := by
  obtain ⟨hfirst, hagain⟩ := hok
  obtain ⟨id, hfind, hlowest⟩ := (shareFindUnusedId_iff h.strict h.nonzero).mpr hfirst
  unfold newId
  rw [hfind, ok_bind]
  by_cases hzero : id = 0
  · rw [if_pos hzero]
    have hall : ∀ used, s.nextid ≤ used → used ∈ s.connections := by
      rcases hlowest with ⟨-, hall⟩ | ⟨hle, -⟩
      · exact hall
      · rw [hzero] at hle
        exact absurd (UInt32.le_zero_iff.mp hle) h.nextid
    exact ((shareFindUnusedId_iff h.strict h.nonzero).mpr (hagain hall)).mono fun _ _ => trivial
  · rw [if_neg hzero]
    exact ⟨id, rfl, trivial⟩

theorem shareListenAccepting_ensures (h : Listening s) :
    Ensures (shareListenAccepting s sockOk) Listening :=
  newId_unused.bind fun _ hid => (acceptWith_spec h hid).ensures

theorem shareListenAccepting_succeeds (h : Listening s) (hok : AcceptOk s (.accepting sockOk)) :
    Succeeds (shareListenAccepting s sockOk) Listening :=
  ((newId_succeeds h hok).and_ensures newId_unused).bind fun _ hid => acceptWith_spec h hid.2

theorem listenStep_ensures (h : Listening s) : Ensures (listenStep s e) Listening := by
  cases e with
  | accepting sockOk => exact shareListenAccepting_ensures h
  | cleanedUp i => exact ensures_ok.mpr (h.cleanedUp i)

theorem listenStep_succeeds (h : Listening s) (hok : AcceptOk s e) :
    Succeeds (listenStep s e) Listening := by
  cases e with
  | accepting sockOk => exact shareListenAccepting_succeeds h hok
  | cleanedUp i => exact ⟨_, rfl, h.cleanedUp i⟩

/-- The lowest unused id is found exactly if the first one is used or greater than all that are. No two
downstreams ever have the same id; and while the ids are found so, no assertion fails. -/
theorem ids_allocated (hsorted : connections.Pairwise (· < ·)) (hzero : 0 ∉ connections) :
    (Succeeds (shareFindUnusedId connections first) (LowestUnused connections first) ↔
      FirstOk connections first) ∧
    ∀ events, Ensures (listenRun .init events) (fun s => s.live.Nodup) ∧
      (Runs.AllSteps listenStep AcceptOk .init events → ∃ s, listenRun .init events = .ok s) := by
  refine ⟨shareFindUnusedId_iff hsorted hzero, fun events => ⟨?_, fun hall => ?_⟩⟩
  · exact (Ensures.foldlM (fun s e _ h => listenStep_ensures h) listening_init).mono fun s h => h.nodup
  · obtain ⟨s, hrun, -⟩ := Runs.succeeds_run (fun s e h hok => listenStep_succeeds h hok)
      listening_init hall
    exact ⟨s, hrun⟩

/-- With 2, 3 and 5 in use, the lowest unused id from 2 on is found. -/
theorem ids_allocated_sequence :
    Succeeds (shareFindUnusedId [2, 3, 5] 2) (LowestUnused [2, 3, 5] 2) :=
  (ids_allocated (by decide) (by decide)).1.mpr (Or.inl (by decide))

/-- With only 2 in use, the lowest unused id from 1 on is 1, but the search takes 2 for the start of the
sequence, and the assertion fails. -/
theorem free_id_missed : shareFindUnusedId [2] 1 = .error .assertion ∧ LowestUnused [2] 1 1 ∧
    shareFindUnusedId [3] 1 = .ok 2 ∧ ¬ LowestUnused [3] 1 2 := by
  refine ⟨by decide, Or.inr ⟨by decide, by decide, ?_⟩, by decide, ?_⟩
  · intro used hge hlt
    exact absurd hlt (UInt32.not_lt.mpr hge)
  · rintro (⟨h, -⟩ | ⟨-, -, hall⟩)
    · exact absurd h (by decide)
    · exact absurd (hall 1 (by decide) (by decide)) (by decide)

end PuttyNd.Share
