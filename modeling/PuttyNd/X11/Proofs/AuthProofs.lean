import PuttyNd.Lib.ReplayWindow
import PuttyNd.Lib.Runs
import PuttyNd.Tree.Proofs.RefinementProofs
import PuttyNd.X11.Auth

/-!
# An authorisation is accepted once

What `x11_verify` accepts is matched by the record, and a stamp is not accepted again as long as the purge
forgets no stamp that could still be accepted.
-/

namespace PuttyNd.X11

open Psftp Runs ReplayWindow
open Tree234 (Sought exists_sought)

/-! ## Reading -/

theorem peek_eq {data : List UInt8} {pos n : ℕ} (h : pos + n ≤ data.length) :
    peek data pos n = .ok ((data.drop pos).take n) := if_pos h

theorem memcmp_eq {a b : List UInt8} {n : ℕ} (ha : n ≤ a.length) (hb : n ≤ b.length) :
    memcmp a b n = .ok (compare (a.take n) (b.take n)) := by
  unfold memcmp
  rw [peek_eq (by omega), peek_eq (by omega)]
  rfl

/-! ## Searching -/

section Tree

variable {α : Type} {cmp : α → Except Fault Ordering} {key : α → Ordering} {l l1 l2 : List α} {o : Option α}

/-- What is found is in the list and equal. -/
theorem find234_spec (hcmp : ∀ a ∈ l, ∃ c, cmp a = .ok c) :
    ∃ r, find234 cmp l = .ok r ∧ ∀ a ∈ r, a ∈ l ∧ cmp a = .ok .eq := by
  induction l with
  | nil => exact ⟨none, rfl, by simp⟩
  | cons a l ih =>
    obtain ⟨c, hc⟩ := hcmp a (by simp)
    unfold find234
    rw [hc]
    cases c with
    | lt => exact ⟨none, rfl, by simp⟩
    | eq =>
      refine ⟨some a, rfl, ?_⟩
      rintro b ⟨⟩
      exact ⟨by simp, hc⟩
    | gt =>
      obtain ⟨r, h1, h2⟩ := ih fun b hb => hcmp b (List.mem_cons_of_mem a hb)
      exact ⟨r, h1, fun b hb => ⟨List.mem_cons_of_mem a (h2 b hb).1, (h2 b hb).2⟩⟩

/-- An element is added, or there is an equal one. -/
theorem add234_mem (hcmp : ∀ a ∈ l, ∃ c, cmp a = .ok c) (e : α) :
    ∃ l' added, add234 cmp e l = .ok (l', added) ∧ ∀ a, a ∈ l' ↔ a ∈ l ∨ added = true ∧ a = e := by
  induction l with
  | nil => exact ⟨[e], true, rfl, by simp⟩
  | cons a l ih =>
    obtain ⟨c, hc⟩ := hcmp a (by simp)
    unfold add234
    rw [hc]
    cases c with
    | lt => exact ⟨e :: a :: l, true, rfl, by simp [or_comm]⟩
    | eq => exact ⟨a :: l, false, rfl, by simp⟩
    | gt =>
      obtain ⟨l', added, h1, h2⟩ := ih fun b hb => hcmp b (List.mem_cons_of_mem a hb)
      refine ⟨a :: l', added, ?_, fun b => by rw [List.mem_cons, h2, List.mem_cons, or_assoc]⟩
      show (add234 cmp e l >>= _) = _
      rw [h1]
      rfl

/-- An element is put in its place, as in a tree. -/
theorem add234_sought (hcmp : ∀ a ∈ l, cmp a = .ok (key a)) (hs : Sought key l l1 o l2) (e : α) :
    add234 cmp e l = .ok (if o.isNone then (l1 ++ e :: l2, true) else (l, false)) := by
  obtain ⟨rfl, hleft, heq, hright⟩ := hs
  induction l1 with
  | nil =>
    cases o with
    | some a =>
      have hc : cmp a = .ok .eq := by rw [hcmp a (by simp), heq a rfl]
      simp [add234, hc, bind, Except.bind, pure, Except.pure]
    | none =>
      cases l2 with
      | nil => rfl
      | cons a l2 =>
        have hc : cmp a = .ok .lt := by rw [hcmp a (by simp), hright a (by simp)]
        simp [add234, hc, bind, Except.bind, pure, Except.pure]
  | cons a l1 ih =>
    have hc : cmp a = .ok .gt := by rw [hcmp a (by simp), hleft a (by simp)]
    have hrest := ih (fun b hb => hleft b (List.mem_cons_of_mem a hb))
      (fun b hb => hcmp b (List.mem_cons_of_mem a hb))
    unfold add234
    simp only [List.cons_append, hc, bind, Except.bind, hrest, pure, Except.pure]
    cases o <;> rfl

end Tree

/-! ## Seen stamps -/

/-- The order of the seen stamps -/
def seenOrder : XDMSeen → XDMSeen → Ordering :=
  compareLex (compareOn XDMSeen.time) (compareOn XDMSeen.clientid)

instance : Std.TransCmp seenOrder := inferInstanceAs (Std.TransCmp (compareLex _ _))

theorem seenOrder_eq {a b : XDMSeen} (h : seenOrder a b = .eq) : a = b := by
  obtain ⟨h1, h2⟩ := Ordering.then_eq_eq.mp h
  have htime := Std.LawfulEqOrd.eq_of_compare h1
  have hclient := Std.LawfulEqOrd.eq_of_compare h2
  cases a
  cases b
  cases htime
  cases hclient
  rfl

theorem seenOrder_lt {a b : XDMSeen} (h : seenOrder a b = .lt) : a.time.toNat ≤ b.time.toNat := by
  unfold seenOrder compareLex compareOn at h
  cases hc : compare a.time b.time with
  | lt => exact Nat.le_of_lt (UInt32.lt_iff_toNat_lt.mp (Std.compare_eq_lt.mp hc))
  | eq => rw [Std.compare_eq_iff_eq.mp hc]
  | gt =>
    rw [hc] at h
    cases h

theorem xdmseenCmp_eq {a b : XDMSeen} (ha : a.clientid.length = 6) (hb : b.clientid.length = 6) :
    xdmseenCmp a b = .ok (seenOrder a b) := by
  unfold xdmseenCmp seenOrder compareLex compareOn
  cases hc : compare a.time b.time with
  | lt =>
    have hlt := Std.compare_eq_lt.mp hc
    rw [if_neg (Std.not_lt.mpr (Std.le_of_lt hlt)), if_pos hlt]
    rfl
  | gt =>
    rw [if_pos (Std.compare_eq_gt.mp hc)]
    rfl
  | eq =>
    have heq := Std.compare_eq_iff_eq.mp hc
    rw [if_neg (by simp [heq]), if_neg (by simp [heq]), memcmp_eq (by omega) (by omega),
      List.take_of_length_le (by omega), List.take_of_length_le (by omega)]
    rfl

/-- The stamps that a record has seen: sorted, of clients with six bytes. -/
structure SeenOk (l : List XDMSeen) : Prop where
  sorted : l.Pairwise (seenOrder · · = .lt)
  clientid : ∀ e ∈ l, e.clientid.length = 6

variable {l : List XDMSeen} {e : XDMSeen}

theorem SeenOk.nil : SeenOk [] := ⟨.nil, by simp⟩

/-- A stamp is added exactly if it was not seen. -/
theorem SeenOk.add (h : SeenOk l) (he : e.clientid.length = 6) :
    (e ∈ l ∧ add234 (xdmseenCmp e) e l = .ok (l, false)) ∨
      e ∉ l ∧ ∃ l', add234 (xdmseenCmp e) e l = .ok (l', true) ∧ SeenOk l' ∧ ∀ a, a ∈ l' ↔ a ∈ l ∨ a = e := by
  obtain ⟨l1, o, l2, hs⟩ := exists_sought h.sorted e
  have hadd := add234_sought (fun a ha => xdmseenCmp_eq he (h.clientid a ha)) hs e
  cases o with
  | some a =>
    have heq : e = a := seenOrder_eq (hs.eq a rfl)
    refine .inl ⟨?_, hadd⟩
    rw [hs.append, heq]
    simp
  | none =>
    have hnew : e ∉ l := by
      intro hmem
      have hself : seenOrder e e = .eq := Std.ReflCmp.compare_self
      rcases hs.key_of_mem hmem with ⟨-, hc⟩ | ⟨hc, -⟩ | ⟨-, hc⟩
      · rw [hself] at hc
        cases hc
      · cases hc
      · rw [hself] at hc
        cases hc
    have hmem : ∀ a, a ∈ l1 ++ e :: l2 ↔ a ∈ l ∨ a = e := by
      intro a
      rw [hs.append]
      simp [or_comm, or_left_comm]
    refine .inr ⟨hnew, l1 ++ e :: l2, hadd, ⟨hs.pairwise h.sorted, fun a ha => ?_⟩, hmem⟩
    rcases (hmem a).mp ha with ha | rfl
    · exact h.clientid a ha
    · exact he

/-- The difference of two stamps that are in order -/
theorem skew_le_iff {t u : UInt32} (h : u.toNat ≤ t.toNat) :
    t.toUInt64 - u.toUInt64 ≤ XDM_MAXSKEW ↔ t.toNat ≤ u.toNat + 1200 := by
  have hle : u.toUInt64 ≤ t.toUInt64 := by simpa [UInt64.le_iff_toNat_le] using h
  rw [UInt64.le_iff_toNat_le, UInt64.toNat_sub_of_le _ _ hle]
  have hskew : XDM_MAXSKEW.toNat = 1200 := rfl
  simp only [UInt32.toNat_toUInt64, hskew]
  omega

/-- The purge removes only stamps that are older than the new one by more than the skew. -/
theorem purge_spec (h : SeenOk l) {t : UInt32} (ht : ∃ a ∈ l, a.time = t) :
    ∃ l', purge t l = .ok l' ∧ SeenOk l' ∧ ∀ a ∈ l, a ∈ l' ∨ a.time.toNat + 1200 < t.toNat := by
  induction l with
  | nil =>
    obtain ⟨a, ha, -⟩ := ht
    cases ha
  | cons a l ih =>
    obtain ⟨h1, h2⟩ := List.pairwise_cons.mp h.sorted
    obtain ⟨b, hb, rfl⟩ := ht
    have hle : a.time.toNat ≤ b.time.toNat := by
      rcases List.mem_cons.mp hb with rfl | hb
      · exact Nat.le_refl _
      · exact seenOrder_lt (h1 b hb)
    unfold purge
    by_cases hskew : b.time.toUInt64 - a.time.toUInt64 ≤ XDM_MAXSKEW
    · rw [if_pos hskew]
      exact ⟨a :: l, rfl, h, fun c hc => .inl hc⟩
    · rw [if_neg hskew]
      rw [skew_le_iff hle] at hskew
      -- the new stamp itself is not removed
      have hrest : b ∈ l := by
        rcases List.mem_cons.mp hb with rfl | hb
        · omega
        · exact hb
      obtain ⟨l', h3, h4, h5⟩ :=
        ih ⟨h2, fun e he => h.clientid e (List.mem_cons_of_mem a he)⟩ ⟨b, hrest, rfl⟩
      refine ⟨l', h3, h4, fun c hc => ?_⟩
      rcases List.mem_cons.mp hc with rfl | hc
      · exact .inr (by omega)
      · exact h5 c hc

/-! ## What is accepted -/

/-- The time of day and the client id in the data, and whether they belong to a record -/
def stampOf (des : Des) (auth : X11FakeAuth) (data : List UInt8) : XDMSeen :=
  let d := des.decrypt (auth.data.drop 9) data
  ⟨get32bitMsbFirst ((d.drop 14).take 4), (d.drop 8).take 6⟩

/-- The cookie is that of the record. -/
structure MitMatches (call : Call) (auth : X11FakeAuth) : Prop where
  proto : auth.proto = .mit
  name : call.proto.val = x11Authname .mit
  data : call.data = auth.data

/-- The data decrypt to the cookie, the address of the peer, a time near the clock and padding. -/
structure XdmMatches (des : Des) (call : Call) (auth : X11FakeAuth) : Prop where
  proto : auth.proto = .xdm
  name : call.proto.val = x11Authname .xdm
  length : call.data.length = 24
  cookie : (des.decrypt (auth.data.drop 9) call.data).take 8 = auth.data.take 8
  address : (get32bitMsbFirst (((des.decrypt (auth.data.drop 9) call.data).drop 8).take 4)).toUInt64 =
    call.peerIp
  port : ((get16bit (((des.decrypt (auth.data.drop 9) call.data).drop 12).take 2)).toNat : ℤ) =
    call.peerPort
  padding : ∀ b ∈ (des.decrypt (auth.data.drop 9) call.data).drop 18, b = 0
  early : ((stampOf des auth call.data).time.toNat : ℤ) ≤ call.tim.toInt + 1200
  late : call.tim.toInt ≤ (stampOf des auth call.data).time.toNat + 1200

/-- The record is in the tree and matches the call. -/
def Justified (des : Des) (authtree : List X11FakeAuth) (call : Call) (auth : X11FakeAuth) : Prop :=
  auth ∈ authtree ∧ (MitMatches call auth ∨ XdmMatches des call auth)

/-- The stamp is within the skew of the clock. -/
theorem window_iff (t : UInt32) (tim : Int64) :
    ¬ t.toUInt64 - tim.toUInt64 + XDM_MAXSKEW > 2 * XDM_MAXSKEW ↔
      (t.toNat : ℤ) ≤ tim.toInt + 1200 ∧ tim.toInt ≤ t.toNat + 1200 := by
  have htim : tim.toInt = if 2 * tim.toUInt64.toNat < 2 ^ 64 then (tim.toUInt64.toNat : ℤ)
      else (tim.toUInt64.toNat : ℤ) - 2 ^ 64 := BitVec.toInt_eq_toNat_cond tim.toBitVec
  have hlt := tim.toUInt64.toNat_lt
  have ht := t.toNat_lt
  have hskew : XDM_MAXSKEW.toNat = 1200 := rfl
  have hskew2 : (2 * XDM_MAXSKEW).toNat = 2400 := rfl
  rw [gt_iff_lt, UInt64.lt_iff_toNat_lt, UInt64.toNat_add, UInt64.toNat_sub, UInt32.toNat_toUInt64, hskew,
    hskew2]
  by_cases h : 2 * tim.toUInt64.toNat < 2 ^ 64
  · rw [if_pos h] at htim
    omega
  · rw [if_neg h] at htim
    omega

variable {des : Des} {s : Auths} {call : Call} {auth : X11FakeAuth}

/-- The checks reject, or the data match the record and the stamp is looked for. -/
theorem xdmCheck_cases (hproto : auth.proto = .xdm) (hname : call.proto.val = x11Authname .xdm)
    (hlength : call.data.length = 24) (hauth : auth.data.length = 16) :
    (∃ err, xdmCheck s auth call (des.decrypt (auth.data.drop 9) call.data) = .ok (s, .rejected err)) ∨
      XdmMatches des call auth ∧ xdmCheck s auth call (des.decrypt (auth.data.drop 9) call.data) =
        xdmRemember s auth (stampOf des auth call.data).time (stampOf des auth call.data).clientid := by
  have hd : (des.decrypt (auth.data.drop 9) call.data).length = 24 := by rw [des.length_decrypt, hlength]
  have hmem : memcmp auth.data (des.decrypt (auth.data.drop 9) call.data) 8 =
      .ok (compare (auth.data.take 8) ((des.decrypt (auth.data.drop 9) call.data).take 8)) :=
    memcmp_eq (by omega) (by omega)
  have hpeek : ∀ pos n, pos + n ≤ 24 → peek (des.decrypt (auth.data.drop 9) call.data) pos n =
      .ok (((des.decrypt (auth.data.drop 9) call.data).drop pos).take n) :=
    fun pos n h => peek_eq (by omega)
  have hpad : ((des.decrypt (auth.data.drop 9) call.data).drop 18).take 6 =
      (des.decrypt (auth.data.drop 9) call.data).drop 18 := List.take_of_length_le (by simp [hd])
  unfold xdmCheck get32 get16
  simp only [hmem, hpeek 8 4 (by omega), hpeek 12 2 (by omega), hpeek 14 4 (by omega),
    hpeek 18 6 (by omega), hpeek 8 6 (by omega), hpad, bind, Except.bind, pure, Except.pure]
  by_cases hcookie : compare (auth.data.take 8) ((des.decrypt (auth.data.drop 9) call.data).take 8) ≠ .eq
  · exact .inl ⟨_, if_pos hcookie⟩
  rw [if_neg hcookie]
  by_cases haddr : (get32bitMsbFirst (((des.decrypt (auth.data.drop 9) call.data).drop 8).take 4)).toUInt64 ≠
      call.peerIp
  · exact .inl ⟨_, if_pos haddr⟩
  rw [if_neg haddr]
  by_cases hport : ((get16bit (((des.decrypt (auth.data.drop 9) call.data).drop 12).take 2)).toNat : ℤ) ≠
      call.peerPort
  · exact .inl ⟨_, if_pos hport⟩
  rw [if_neg hport]
  by_cases hzero : ((des.decrypt (auth.data.drop 9) call.data).drop 18).any (· ≠ 0) = true
  · exact .inl ⟨_, if_pos hzero⟩
  rw [if_neg hzero]
  by_cases hskew : (stampOf des auth call.data).time.toUInt64 - call.tim.toUInt64 + XDM_MAXSKEW >
      2 * XDM_MAXSKEW
  · exact .inl ⟨_, if_pos hskew⟩
  have hwindow := (window_iff _ _).mp hskew
  refine .inr ⟨?_, if_neg hskew⟩
  exact {
    proto := hproto
    name := hname
    length := hlength
    cookie := (Std.LawfulEqOrd.eq_of_compare (not_not.mp hcookie)).symm
    address := not_not.mp haddr
    port := not_not.mp hport
    padding := by simpa using hzero
    early := hwindow.1
    late := hwindow.2 }

/-! ## The invariant -/

/-- Every record has its data, and an XDM record its tree of seen stamps. Numbers that are not used yet
have none. -/
structure AuthsOk (s : Auths) : Prop where
  data : ∀ auth ∈ s.authtree, auth.data.length = 16
  block : ∀ auth ∈ s.authtree, auth.proto = .xdm → auth.xa1Firstblock.length = 8
  seen : ∀ auth ∈ s.authtree, auth.proto = .xdm → ∃ l, s.xdmseen auth.id = some l
  seenOk : ∀ id l, s.xdmseen id = some l → SeenOk l
  fresh : ∀ id, s.next ≤ id → s.xdmseen id = none

theorem authsOk_empty : AuthsOk .empty where
  data := by simp [Auths.empty]
  block := by simp [Auths.empty]
  seen := by simp [Auths.empty]
  seenOk _ _ h := by cases h
  fresh _ _ := rfl

theorem inventData_length (authtype : AuthType) (random : ℕ → UInt8) :
    (inventData authtype random).length = 16 := by
  cases authtype <;> simp [inventData]

/-- Two records are compared without reading too far. -/
theorem x11Authcmp_ok {a b : X11FakeAuth} (ha : a.data.length = 16) (hb : b.data.length = 16)
    (hab : a.proto = .xdm → a.xa1Firstblock.length = 8) (hbb : b.proto = .xdm → b.xa1Firstblock.length = 8) :
    ∃ c, x11Authcmp a.key b.key = .ok c := by
  unfold X11FakeAuth.key
  cases hpa : a.proto with
  | mit =>
    cases hpb : b.proto with
    | mit =>
      simp only [x11Authcmp, ha, hb, Nat.lt_irrefl, if_false, gt_iff_lt]
      exact ⟨_, memcmp_eq (by omega) (by omega)⟩
    | xdm => exact ⟨_, rfl⟩
  | xdm =>
    cases hpb : b.proto with
    | mit => exact ⟨_, rfl⟩
    | xdm => exact ⟨_, memcmp_eq (by rw [hab hpa]) (by rw [hbb hpb])⟩

/-- A new record is added, and nothing that was seen is forgotten. -/
theorem x11InventFakeAuth_spec (hs : AuthsOk s) (authtype : AuthType) (randoms : List (ℕ → UInt8)) :
    ∃ r, x11InventFakeAuth des s authtype randoms = .ok r ∧ ∀ s' ∈ r, AuthsOk s' ∧
      (∀ auth ∈ s.authtree, auth ∈ s'.authtree) ∧
      ∀ id l, s.xdmseen id = some l → s'.xdmseen id = some l := by
  induction randoms with
  | nil => exact ⟨none, rfl, by simp⟩
  | cons random randoms ih =>
    unfold x11InventFakeAuth
    set auth := mkFakeAuth des s.next authtype (inventData authtype random) with hauth
    have hdata : auth.data.length = 16 := inventData_length authtype random
    have hblock : auth.proto = .xdm → auth.xa1Firstblock.length = 8 := by
      intro hxdm
      cases authtype with
      | mit => cases hxdm
      | xdm => simp [hauth, mkFakeAuth, des.length_encrypt, inventData]
    obtain ⟨authtree, added, hadd, hmem⟩ := add234_mem (l := s.authtree)
      (fun a ha => x11Authcmp_ok hdata (hs.data a ha) hblock (hs.block a ha)) auth
    simp only [hadd, bind, Except.bind]
    by_cases hadded : added = true
    · rw [if_pos hadded]
      refine ⟨_, rfl, ?_⟩
      rintro s' ⟨⟩
      refine ⟨?_, fun a ha => (hmem a).mpr (.inl ha), fun id l hid => ?_⟩
      · exact {
          data := fun a ha => by
            rcases (hmem a).mp ha with ha | ⟨-, rfl⟩
            · exact hs.data a ha
            · exact hdata
          block := fun a ha => by
            rcases (hmem a).mp ha with ha | ⟨-, rfl⟩
            · exact hs.block a ha
            · exact hblock
          seen := fun a ha hxdm => by
            show ∃ l, (if a.id = auth.id then _ else s.xdmseen a.id) = some l
            rcases (hmem a).mp ha with ha | ⟨-, rfl⟩
            · obtain ⟨l, hl⟩ := hs.seen a ha hxdm
              have hne : a.id ≠ auth.id := by
                intro heq
                rw [hs.fresh a.id (Nat.le_of_eq heq.symm)] at hl
                cases hl
              exact ⟨l, by rw [if_neg hne, hl]⟩
            · have htype : authtype = .xdm := hxdm
              exact ⟨[], by rw [if_pos rfl, htype]⟩
          seenOk := fun id l hid => by
            change (if id = auth.id then _ else s.xdmseen id) = some l at hid
            by_cases heq : id = auth.id
            · rw [if_pos heq] at hid
              cases authtype with
              | mit => cases hid
              | xdm =>
                cases hid
                exact .nil
            · rw [if_neg heq] at hid
              exact hs.seenOk id l hid
          fresh := fun id hid => by
            show (if id = auth.id then _ else s.xdmseen id) = none
            have hlt : s.next + 1 ≤ id := hid
            have hne : id ≠ s.next := by omega
            rw [if_neg (show id ≠ auth.id from hne)]
            exact hs.fresh id (by omega) }
      · have hne : id ≠ auth.id := by
          intro heq
          rw [hs.fresh id (Nat.le_of_eq heq.symm)] at hid
          cases hid
        show (if id = auth.id then _ else s.xdmseen id) = some l
        rw [if_neg hne, hid]
    · rw [if_neg hadded]
      exact ih

/-! ## One call -/

/-- The lookup reads no more than the data: there are eight bytes for a comparison with an XDM record. -/
def ReadOk (s : Auths) (call : Call) : Prop :=
  call.proto.val = x11Authname .xdm → 8 ≤ call.data.length ∨ ∀ auth ∈ s.authtree, auth.proto ≠ .xdm

/-- A stamp that the purge for a matching call would remove is not accepted any more: it is behind the clock
by more than the skew. -/
def PurgeOk (des : Des) (s : Auths) (call : Call) : Prop :=
  ∀ auth ∈ s.authtree, XdmMatches des call auth → ∀ l, s.xdmseen auth.id = some l → ∀ e ∈ l,
    e.time.toNat + 1200 < (stampOf des auth call.data).time.toNat →
      (e.time.toNat : ℤ) + 1200 < call.tim.toInt

/-- What the lookup finds is the record with the cookie, or an XDM record. -/
theorem lookup_spec (hs : AuthsOk s) (hread : ReadOk s call) {key : Key}
    (hkey : call.proto.val = x11Authname .mit ∧ key = .mit call.data ∨
      call.proto.val = x11Authname .xdm ∧ key = .xdm call.data) :
    ∃ r, find234 (fun a => x11Authcmp key a.key) s.authtree = .ok r ∧
      ∀ auth ∈ r, auth ∈ s.authtree ∧
        (MitMatches call auth ∨ call.proto.val = x11Authname .xdm ∧ auth.proto = .xdm) := by
  rcases hkey with ⟨hname, rfl⟩ | ⟨hname, rfl⟩
  · have hcmp : ∀ a ∈ s.authtree, ∃ c, x11Authcmp (.mit call.data) a.key = .ok c ∧
        (c = .eq → MitMatches call a) := by
      intro a ha
      unfold X11FakeAuth.key
      cases hproto : a.proto with
      | xdm => exact ⟨.lt, rfl, by simp⟩
      | mit =>
        unfold x11Authcmp
        dsimp only
        by_cases hlt : call.data.length < a.data.length
        · exact ⟨.lt, if_pos hlt, by simp⟩
        · rw [if_neg hlt]
          by_cases hgt : call.data.length > a.data.length
          · exact ⟨.gt, if_pos hgt, by simp⟩
          · rw [if_neg hgt, memcmp_eq (by omega) (by omega), List.take_of_length_le (by omega),
              List.take_of_length_le (by omega)]
            exact ⟨_, rfl, fun heq => ⟨hproto, hname, Std.LawfulEqOrd.eq_of_compare heq⟩⟩
    obtain ⟨r, h1, h2⟩ := find234_spec fun a ha => (hcmp a ha).imp fun c hc => hc.1
    refine ⟨r, h1, fun auth hauth => ?_⟩
    obtain ⟨hmem, heq⟩ := h2 auth hauth
    obtain ⟨c, hc, hmatch⟩ := hcmp auth hmem
    exact ⟨hmem, .inl (hmatch (Except.ok.inj (hc.symm.trans heq)))⟩
  · have hcmp : ∀ a ∈ s.authtree, ∃ c, x11Authcmp (.xdm call.data) a.key = .ok c ∧
        (c = .eq → a.proto = .xdm) := by
      intro a ha
      unfold X11FakeAuth.key
      cases hproto : a.proto with
      | mit => exact ⟨.gt, rfl, by simp⟩
      | xdm =>
        have hlen : 8 ≤ call.data.length := by
          rcases hread hname with h | h
          · exact h
          · exact absurd hproto (h a ha)
        exact ⟨_, memcmp_eq hlen (by rw [hs.block a ha hproto]), fun _ => rfl⟩
    obtain ⟨r, h1, h2⟩ := find234_spec fun a ha => (hcmp a ha).imp fun c hc => hc.1
    refine ⟨r, h1, fun auth hauth => ?_⟩
    obtain ⟨hmem, heq⟩ := h2 auth hauth
    obtain ⟨c, hc, hmatch⟩ := hcmp auth hmem
    exact ⟨hmem, .inr ⟨hname, hmatch (Except.ok.inj (hc.symm.trans heq))⟩⟩

/-- The call accepts the record with a stamp that was not seen, and forgets only stamps that are not accepted
any more. -/
structure Remembers (des : Des) (call : Call) (s s' : Auths) (auth : X11FakeAuth) : Prop where
  mem : auth ∈ s.authtree
  matched : XdmMatches des call auth
  new : ∀ l, s.xdmseen auth.id = some l → stampOf des auth call.data ∉ l
  seen : ∃ l, s'.xdmseen auth.id = some l ∧ stampOf des auth call.data ∈ l
  kept : ∀ id l e, s.xdmseen id = some l → e ∈ l → (∃ l', s'.xdmseen id = some l' ∧ e ∈ l') ∨
    (e.time.toNat : ℤ) + 1200 < call.tim.toInt

theorem xdmRemember_spec (hs : AuthsOk s) (hmem : auth ∈ s.authtree)
    (hmatch : XdmMatches des call auth) :
    ∃ s' v, xdmRemember s auth (stampOf des auth call.data).time (stampOf des auth call.data).clientid =
        .ok (s', v) ∧ s'.authtree = s.authtree ∧ AuthsOk s' ∧
      ((s' = s ∧ ∃ err, v = .rejected err) ∨
        v = .accepted auth ∧ (PurgeOk des s call → Remembers des call s s' auth)) := by
  obtain ⟨l, hl⟩ := hs.seen auth hmem hmatch.proto
  have hok := hs.seenOk auth.id l hl
  have hd : (des.decrypt (auth.data.drop 9) call.data).length = 24 := by
    rw [des.length_decrypt, hmatch.length]
  have hclient : (stampOf des auth call.data).clientid.length = 6 := by simp [stampOf, hd]
  have heta : (⟨(stampOf des auth call.data).time, (stampOf des auth call.data).clientid⟩ : XDMSeen) =
    stampOf des auth call.data := rfl
  unfold xdmRemember
  simp only [hl, heta]
  rcases hok.add hclient with ⟨-, hadd⟩ | ⟨hnew, l1, hadd, hok1, hmem1⟩
  · rw [hadd]
    exact ⟨s, _, rfl, rfl, hs, .inl ⟨rfl, _, rfl⟩⟩
  · obtain ⟨l2, hpurged, hok2, hkept⟩ :=
      purge_spec hok1 ⟨stampOf des auth call.data, (hmem1 _).mpr (.inr rfl), rfl⟩
    have hself : stampOf des auth call.data ∈ l2 := by
      rcases hkept _ ((hmem1 _).mpr (.inr rfl)) with h | h
      · exact h
      · omega
    simp only [hadd, hpurged, bind, Except.bind, if_true, pure, Except.pure]
    refine ⟨_, _, rfl, rfl, ?_, .inr ⟨rfl, ?_⟩⟩
    · exact {
        data := hs.data
        block := hs.block
        seen := fun a ha hxdm => by
          show ∃ l, (if a.id = auth.id then some l2 else s.xdmseen a.id) = some l
          by_cases heq : a.id = auth.id
          · exact ⟨l2, if_pos heq⟩
          · rw [if_neg heq]
            exact hs.seen a ha hxdm
        seenOk := fun id l' hid => by
          change (if id = auth.id then some l2 else s.xdmseen id) = some l' at hid
          by_cases heq : id = auth.id
          · rw [if_pos heq] at hid
            cases hid
            exact hok2
          · rw [if_neg heq] at hid
            exact hs.seenOk id l' hid
        fresh := fun id hid => by
          show (if id = auth.id then some l2 else s.xdmseen id) = none
          have hne : id ≠ auth.id := by
            rintro rfl
            rw [hs.fresh _ hid] at hl
            cases hl
          rw [if_neg hne]
          exact hs.fresh id hid }
    · exact fun hpurge => {
        mem := hmem
        matched := hmatch
        new := fun l' hl' => by
          rw [hl] at hl'
          cases hl'
          exact hnew
        seen := ⟨l2, if_pos rfl, hself⟩
        kept := fun id l' e hid he => by
          by_cases heq : id = auth.id
          · subst heq
            rw [hl] at hid
            cases hid
            rcases hkept e ((hmem1 e).mpr (.inl he)) with h | h
            · exact .inl ⟨l2, if_pos rfl, h⟩
            · exact .inr (hpurge auth hmem hmatch l hl e he h)
          · exact .inl ⟨l', by rw [← hid]; exact if_neg heq, he⟩ }

/-- Every call ends, and accepts only what matches. -/
theorem verifyKey_spec (hs : AuthsOk s) (hread : ReadOk s call) {key : Key}
    (hkey : call.proto.val = x11Authname .mit ∧ key = .mit call.data ∨
      call.proto.val = x11Authname .xdm ∧ key = .xdm call.data) :
    ∃ s' data v, verifyKey des s call key = .ok (s', data, v) ∧ s'.authtree = s.authtree ∧ AuthsOk s' ∧
      ((s' = s ∧ ∀ auth, v = .accepted auth → auth ∈ s.authtree ∧ MitMatches call auth) ∨
        ∃ auth, v = .accepted auth ∧ (PurgeOk des s call → Remembers des call s s' auth)) := by
  have hreject : ∀ {v : Verdict}, (∃ err, v = .rejected err) →
      ∀ auth, v = .accepted auth → auth ∈ s.authtree ∧ MitMatches call auth := by
    rintro v ⟨err, rfl⟩ auth heq
    cases heq
  obtain ⟨r, hfind, hr⟩ := lookup_spec hs hread hkey
  unfold verifyKey
  simp only [hfind, bind, Except.bind, pure, Except.pure]
  cases r with
  | none => exact ⟨s, _, _, rfl, rfl, hs, .inl ⟨rfl, hreject ⟨_, rfl⟩⟩⟩
  | some auth =>
    obtain ⟨hmem, hmatch⟩ := hr auth rfl
    dsimp only
    cases hproto : auth.proto with
    | mit =>
      refine ⟨s, _, _, rfl, rfl, hs, .inl ⟨rfl, ?_⟩⟩
      rintro a ⟨⟩
      rcases hmatch with h | ⟨-, h⟩
      · exact ⟨hmem, h⟩
      · rw [hproto] at h
        cases h
    | xdm =>
      dsimp only
      by_cases hlength : call.data.length ≠ 24
      · rw [if_pos hlength]
        exact ⟨s, _, _, rfl, rfl, hs, .inl ⟨rfl, hreject ⟨_, rfl⟩⟩⟩
      rw [if_neg hlength]
      by_cases hport : call.peerPort = -1
      · rw [if_pos hport]
        exact ⟨s, _, _, rfl, rfl, hs, .inl ⟨rfl, hreject ⟨_, rfl⟩⟩⟩
      rw [if_neg hport]
      have hname : call.proto.val = x11Authname .xdm := by
        rcases hmatch with h | h
        · have hmitproto := h.proto
          rw [hproto] at hmitproto
          cases hmitproto
        · exact h.1
      rcases @xdmCheck_cases des s _ _ hproto hname (not_not.mp hlength) (hs.data auth hmem) with
        ⟨err, hcheck⟩ | ⟨hxdm, hcheck⟩
      · rw [hcheck]
        exact ⟨s, _, _, rfl, rfl, hs, .inl ⟨rfl, hreject ⟨_, rfl⟩⟩⟩
      · obtain ⟨s', v, hrem, htree, hok, hcases⟩ := xdmRemember_spec hs hmem hxdm
        rw [hcheck, hrem]
        refine ⟨s', _, v, rfl, htree, hok, ?_⟩
        rcases hcases with ⟨rfl, herr⟩ | ⟨rfl, hremembers⟩
        · exact .inl ⟨rfl, hreject herr⟩
        · exact .inr ⟨auth, rfl, hremembers⟩

theorem x11Verify_spec (des : Des) (hs : AuthsOk s) (hread : ReadOk s call) :
    ∃ s' data v, x11Verify des s call = .ok (s', data, v) ∧ s'.authtree = s.authtree ∧ AuthsOk s' ∧
      ((s' = s ∧ ∀ auth, v = .accepted auth → auth ∈ s.authtree ∧ MitMatches call auth) ∨
        ∃ auth, v = .accepted auth ∧ (PurgeOk des s call → Remembers des call s s' auth)) := by
  unfold x11Verify
  by_cases hmit : call.proto.val = x11Authname .mit
  · rw [if_pos hmit]
    exact verifyKey_spec hs hread (.inl ⟨hmit, rfl⟩)
  · rw [if_neg hmit]
    by_cases hxdm : call.proto.val = x11Authname .xdm
    · rw [if_pos hxdm]
      exact verifyKey_spec hs hread (.inr ⟨hxdm, rfl⟩)
    · rw [if_neg hxdm]
      refine ⟨s, _, _, rfl, rfl, hs, .inl ⟨rfl, ?_⟩⟩
      intro auth heq
      cases heq

/-! ## Runs -/

/-- The stamp that a call made a record accept -/
def acceptedStamp (des : Des) : Call × Verdict → Option (ℕ × XDMSeen)
  | (call, .accepted auth) =>
    match auth.proto with
    | .mit => none
    | .xdm => some (auth.id, stampOf des auth call.data)
  | (_, .rejected _) => none

/-- When a stamp is behind the clock by more than the skew -/
def expires (k : ℕ × XDMSeen) : ℤ := k.2.time.toNat + 1200

def Auths.remembers (s : Auths) (k : ℕ × XDMSeen) : Prop := ∃ l, s.xdmseen k.1 = some l ∧ k.2 ∈ l

/-- What holds after every step, at a time to which the clock has come. -/
structure SessionOk (des : Des) (s : Session) (now : ℤ) : Prop where
  auths : AuthsOk s.auths
  justified : ∀ p ∈ s.log, ∀ auth, p.2 = .accepted auth → Justified des s.auths.authtree p.1 auth
  guards : Guards expires (s.log.filterMap (acceptedStamp des)) s.auths.remembers now

def Event.tim : Event → Option ℤ
  | .invent _ _ => none
  | .verify call => some call.tim.toInt

/-- The condition on a step: the lookup reads no more than the data, and the purge forgets no stamp that could
still be accepted. -/
def CallOk (des : Des) (s : Session) : Event → Prop
  | .invent _ _ => True
  | .verify call => ReadOk s.auths call ∧ PurgeOk des s.auths call

theorem SessionOk.later {s : Session} {now now' : ℤ} (h : SessionOk des s now) (hle : now ≤ now') :
    SessionOk des s now' := ⟨h.auths, h.justified, h.guards.later hle⟩

theorem step_invent {s : Session} {now : ℤ} (h : SessionOk des s now) (authtype : AuthType)
    (randoms : List (ℕ → UInt8)) :
    ∃ s', step des s (.invent authtype randoms) = .ok s' ∧ SessionOk des s' now := by
  obtain ⟨r, hr, hspec⟩ := @x11InventFakeAuth_spec des _ h.auths authtype randoms
  unfold step
  simp only [hr, bind, Except.bind, pure, Except.pure]
  cases r with
  | none => exact ⟨s, rfl, h⟩
  | some auths =>
    obtain ⟨h1, h2, h3⟩ := hspec auths rfl
    refine ⟨_, rfl, h1, fun p hp auth hauth => ?_, h.guards.forget ?_⟩
    · obtain ⟨hmem, hmatch⟩ := h.justified p hp auth hauth
      exact ⟨h2 auth hmem, hmatch⟩
    · rintro k ⟨l, hl, hk⟩
      exact .inl ⟨l, h3 k.1 l hl, hk⟩

theorem step_verify {s : Session} (h : SessionOk des s call.tim.toInt) (hread : ReadOk s.auths call)
    (hpurge : PurgeOk des s.auths call) :
    ∃ s', step des s (.verify call) = .ok s' ∧ SessionOk des s' call.tim.toInt := by
  obtain ⟨auths, data, v, hv, htree, hok, hcases⟩ := x11Verify_spec des h.auths hread
  unfold step
  simp only [hv, bind, Except.bind, pure, Except.pure]
  refine ⟨_, rfl, hok, ?_, ?_⟩
  · intro p hp auth hauth
    rcases List.mem_append.mp hp with hp | hp
    · obtain ⟨hmem, hmatch⟩ := h.justified p hp auth hauth
      exact ⟨htree ▸ hmem, hmatch⟩
    · obtain rfl := List.mem_singleton.mp hp
      show auth ∈ auths.authtree ∧ _
      rw [htree]
      rcases hcases with ⟨-, hmit⟩ | ⟨auth', haccept, hrem⟩
      · exact ⟨(hmit auth hauth).1, .inl (hmit auth hauth).2⟩
      · cases hauth.symm.trans haccept
        exact ⟨(hrem hpurge).mem, .inr (hrem hpurge).matched⟩
  · show Guards expires ((s.log ++ [(call, v)]).filterMap (acceptedStamp des)) auths.remembers _
    rw [List.filterMap_append]
    rcases hcases with ⟨rfl, hmit⟩ | ⟨auth, rfl, hremembers⟩
    · have hnone : acceptedStamp des (call, v) = none := by
        unfold acceptedStamp
        cases v with
        | rejected err => rfl
        | accepted auth => simp only [(hmit auth rfl).2.proto]
      simpa [hnone] using h.guards
    · have hrem := hremembers hpurge
      have hstamp : acceptedStamp des (call, .accepted auth) = some (auth.id, stampOf des auth call.data) := by
        unfold acceptedStamp
        simp only [hrem.matched.proto]
      rw [List.filterMap_cons_some hstamp, List.filterMap_nil]
      refine h.guards.accept ?_ ?_ ?_ hrem.seen
      · rintro ⟨l, hl, hmem⟩
        exact hrem.new l hl hmem
      · exact hrem.matched.late
      · rintro ⟨id, e⟩ ⟨l, hl, he⟩
        exact hrem.kept id l e hl he

/-- The steps keep the invariant, at the times that the clock shows. -/
theorem run_sessionOk {events : List Event} {s : Session} {now : ℤ} (h : SessionOk des s now)
    (hnow : ∀ t ∈ events.filterMap Event.tim, now ≤ t)
    (hclock : (events.filterMap Event.tim).Pairwise (· ≤ ·))
    (hok : AllSteps (step des) (CallOk des) s events) :
    ∃ s' now', events.foldlM (step des) s = .ok s' ∧ SessionOk des s' now' := by
  induction events generalizing s now with
  | nil => exact ⟨s, now, rfl, h⟩
  | cons e events ih =>
    obtain ⟨he, hrest⟩ := hok
    cases e with
    | invent authtype randoms =>
      obtain ⟨s', hs', h'⟩ := step_invent h authtype randoms
      rw [hs'] at hrest
      obtain ⟨s'', now', h1, h2⟩ := ih h' hnow hclock hrest
      exact ⟨s'', now', by rw [List.foldlM_cons, hs']; exact h1, h2⟩
    | verify call =>
      have htim : Event.tim (.verify call) = some call.tim.toInt := rfl
      rw [List.filterMap_cons_some htim] at hnow hclock
      obtain ⟨s', hs', h'⟩ := step_verify (h.later (hnow _ (by simp))) he.1 he.2
      rw [hs'] at hrest
      obtain ⟨h3, h4⟩ := List.pairwise_cons.mp hclock
      obtain ⟨s'', now', h1, h2⟩ := ih h' h3 h4 hrest
      exact ⟨s'', now', by rw [List.foldlM_cons, hs']; exact h1, h2⟩

end PuttyNd.X11
