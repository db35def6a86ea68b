import PuttyNd.Psftp.Conf
import PuttyNd.Tree.Proofs.Search234Proofs

/-!
# Proofs: a configuration survives its serialisation

The tree of a configuration holds its entries in the order of their keys, so they are read back in
increasing order, and each is put behind those that are there already.
-/

namespace PuttyNd.Psftp

open PuttyNd.Lib Tree234

/-! ## The order of the keys -/

instance (t : KeyType) : Std.TransCmp t.cmp :=
  match t with
  | .int => inferInstanceAs (Std.TransCmp fun a b : Int32 => compare a b)
  | .str =>
    { eq_swap := by
        intro a b
        exact @Std.OrientedCmp.eq_swap (List UInt8) compare _ a.val b.val
      isLE_trans := by
        intro a b c
        exact @Std.TransCmp.isLE_trans (List UInt8) compare _ a.val b.val c.val }
  | .none => { eq_swap := rfl, isLE_trans := fun _ _ => rfl }

theorem confCmp_lt {a b : Key} (h : a.primary < b.primary) : confCmp a b = .lt := if_pos h

theorem confCmp_gt {a b : Key} (h : b.primary < a.primary) : confCmp a b = .gt := by
  rw [confCmp, if_neg (not_lt_of_gt h), if_pos h]

theorem confCmp_same (primary : Primary) (s s' : (subkeytypes primary).Data) :
    confCmp ⟨primary, s⟩ ⟨primary, s'⟩ = (subkeytypes primary).cmp s s' := by
  rw [confCmp, if_neg (lt_irrefl _), if_neg (lt_irrefl _), dif_pos rfl]

instance : Std.TransCmp confCmp where
  eq_swap := by
    rintro ⟨p, s⟩ ⟨q, s'⟩
    rcases lt_trichotomy p q with h | rfl | h
    · rw [confCmp_lt h, confCmp_gt h]
      rfl
    · rw [confCmp_same, confCmp_same]
      exact Std.OrientedCmp.eq_swap
    · rw [confCmp_gt h, confCmp_lt h]
      rfl
  isLE_trans := by
    rintro ⟨p, s⟩ ⟨q, s'⟩ ⟨r, s''⟩ h1 h2
    have hle : ∀ {p q : Primary} {s : (subkeytypes p).Data} {s' : (subkeytypes q).Data},
        (confCmp ⟨p, s⟩ ⟨q, s'⟩).isLE = true → p ≤ q := by
      intro p q s s' h
      by_contra h'
      rw [confCmp_gt (not_le.mp h')] at h
      cases h
    rcases (hle h1).lt_or_eq with h | rfl
    · rw [confCmp_lt (lt_of_lt_of_le h (hle h2))]
      rfl
    · rcases (hle h2).lt_or_eq with h | rfl
      · rw [confCmp_lt h]
        rfl
      · rw [confCmp_same] at *
        exact Std.TransCmp.isLE_trans h1 h2

variable {P : Platform} {conf conf' : Conf P} {l l1 l2 : List (Entry P)} {s : Setting P}
  {o : Option (Entry P)} {key : Key}

/-- The comparison of the tree. -/
def entryCmp (a b : Entry P) : Ordering := confCmp a.setting.key b.setting.key

instance : Std.TransCmp (entryCmp (P := P)) where
  eq_swap := by
    intro a b
    exact @Std.OrientedCmp.eq_swap Key confCmp _ a.setting.key b.setting.key
  isLE_trans := by
    intro a b c
    exact @Std.TransCmp.isLE_trans Key confCmp _ a.setting.key b.setting.key c.setting.key

/-- The comparison with a key. -/
def keyCmp (key : Key) (e : Entry P) : Ordering := confCmp key e.setting.key

/-! ## The entries of a configuration -/

/-- The tree holds the entries, which have been allocated. -/
structure Good (conf : Conf P) (l : List (Entry P)) : Prop where
  tree : Represents (some entryCmp) conf.tree l
  addr : ∀ e ∈ l, e.addr < conf.next

theorem good_new : Good (confNew (P := P)) [] :=
  ⟨represents_newtree234 _, by simp⟩

theorem Good.sought (hg : Good conf l) (key : Key) : ∃ l1 o l2, Sought (keyCmp key) l l1 o l2 := by
  refine exists_sought_of (hg.tree.sorted _ rfl) fun a b hab hne => ?_
  cases hc : confCmp key a.setting.key with
  | lt => exact Std.TransCmp.lt_trans hc hab
  | eq => exact Std.TransCmp.lt_of_eq_of_lt hc hab
  | gt => exact absurd hc hne

theorem Good.find (hg : Good conf l) (key : Key) :
    confFind conf key = l.find? (keyCmp key · = .eq) := by
  obtain ⟨l1, o, l2, hs⟩ := hg.sought key
  rw [hs.find?_eq]
  exact find234_sought hg.tree.holds hs

/-- An entry with an equal key is replaced. -/
theorem confSet_spec (hg : Good conf l) (hs : Sought (keyCmp s.key) l l1 o l2) :
    ∃ conf', confSet conf s = some conf' ∧ Good conf' (l1 ++ ⟨conf.next, s⟩ :: l2) := by
  have haddr : ∀ {conf' : Conf P}, conf'.next = conf.next + 1 →
      ∀ e ∈ l1 ++ ⟨conf.next, s⟩ :: l2, e.addr < conf'.next := by
    intro conf' hnext e he
    have hmem : e ∈ l ∨ e.addr = conf.next := by
      rw [hs.append]
      rcases List.mem_append.mp he with he | he
      · exact Or.inl (by simp [he])
      · rcases List.mem_cons.mp he with rfl | he
        · exact Or.inr rfl
        · exact Or.inl (by simp [he])
    rcases hmem with hmem | hmem
    · have h1 := hg.addr e hmem
      omega
    · omega
  have hs : Sought (entryCmp ⟨conf.next, s⟩) l l1 o l2 := hs
  unfold confSet confInsert
  cases o with
  | none =>
    obtain ⟨t', h1, h2⟩ := add234_none hg.tree hs
    simp only [h1]
    exact ⟨_, if_neg (not_not_intro rfl), h2, haddr rfl⟩
  | some old =>
    have hold : old.addr ≠ conf.next := by
      have h1 := hg.addr old (by rw [hs.append]; simp)
      omega
    have hkey : entryCmp ⟨conf.next, s⟩ = entryCmp old := by
      funext e
      exact Std.TransCmp.congr_left (hs.eq old rfl)
    have hs' : Sought (entryCmp old) l l1 (some old) l2 := hkey ▸ hs
    obtain ⟨t1, h1, h2⟩ := del234_sought hg.tree hs'
    have hs'' : Sought (entryCmp ⟨conf.next, s⟩) (l1 ++ l2) l1 none l2 :=
      ⟨rfl, hs.left, by simp, hs.right⟩
    obtain ⟨t2, h3, h4⟩ := add234_none h2 hs''
    simp only [add234_some hg.tree hs, if_pos hold, h1, h3, if_true]
    exact ⟨_, rfl, h4, haddr rfl⟩

theorem confDelStrStr_spec (hg : Good conf l) {primary : Primary}
    (hk : subkeytypes primary = .str) (hv : valuetypes primary = .str) (secondary : CStr) :
    ∃ conf' l', confDelStrStr conf primary hk hv secondary = some conf' ∧ Good conf' l' := by
  obtain ⟨l1, o, l2, hs⟩ := hg.sought ⟨primary, hk ▸ secondary⟩
  have hfind : confFind conf ⟨primary, hk ▸ secondary⟩ = o := find234_sought hg.tree.holds hs
  rw [confDelStrStr, hfind]
  cases o with
  | none => exact ⟨conf, l, rfl, hg⟩
  | some entry =>
    have hkey : keyCmp ⟨primary, hk ▸ secondary⟩ = entryCmp entry := by
      funext e
      exact Std.TransCmp.congr_left (hs.eq entry rfl)
    obtain ⟨t', h1, h2⟩ := del234_sought hg.tree (hkey ▸ hs)
    refine ⟨{ conf with tree := t' }, _, ?_, h2, ?_⟩
    · simp only [h1]
      rfl
    · intro e he
      refine hg.addr e ?_
      rw [hs.append]
      rcases List.mem_append.mp he with he | he
      · simp [he]
      · simp [he]

/-- **No assertion fails, and the tree holds the entries in order.** -/
theorem confOp_good (hg : Good conf l) (op : ConfOp P) :
    ∃ conf' l', confOp conf op = some conf' ∧ Good conf' l' := by
  have hset : ∀ s, ∃ conf' l', confSet conf s = some conf' ∧ Good conf' l' := by
    intro s
    obtain ⟨l1, o, l2, hs⟩ := hg.sought s.key
    obtain ⟨conf', h1, h2⟩ := confSet_spec hg hs
    exact ⟨conf', _, h1, h2⟩
  cases op with
  | delStrStr primary hk hv secondary => exact confDelStrStr_spec hg hk hv secondary
  | setBool => exact hset _
  | setInt => exact hset _
  | setIntInt => exact hset _
  | setStr => exact hset _
  | setStrStr => exact hset _
  | setFilename => exact hset _
  | setFontspec => exact hset _

theorem confRun_good (hg : Good conf l) (ops : List (ConfOp P)) :
    ∃ conf' l', confRun conf ops = some conf' ∧ Good conf' l' := by
  induction ops generalizing conf l with
  | nil => exact ⟨conf, l, rfl, hg⟩
  | cons op ops ih =>
    obtain ⟨conf1, l1, h1, hg1⟩ := confOp_good hg op
    obtain ⟨conf2, l2, h2, hg2⟩ := ih hg1
    refine ⟨conf2, l2, ?_, hg2⟩
    rw [confRun, List.foldlM_cons, h1]
    exact h2

/-! ## Writing -/

theorem serialiseFrom_eq {h : ℕ} {p : Option ℕ} {t : Tree234.Tree (Entry P)} (hn : Wf h p t.root)
    (hl : t.root.toList = l) {fuel i : ℕ} (hfuel : l.length < fuel + i) :
    serialiseFrom t fuel i = (l.drop i).flatMap fun e => putSetting e.setting := by
  induction fuel generalizing i with
  | zero =>
    rw [List.drop_eq_nil_of_le (by omega)]
    rfl
  | succ fuel ih =>
    rw [serialiseFrom, index234_spec hn, hl]
    rcases Nat.lt_or_ge i l.length with hi | hi
    · rw [List.getElem?_eq_getElem hi, List.drop_eq_getElem_cons hi]
      simp only [List.flatMap_cons]
      rw [ih (by omega)]
    · rw [List.getElem?_eq_none hi, List.drop_eq_nil_of_le hi]
      rfl

/-- The settings in order, and the terminator. -/
theorem confSerialise_eq (hg : Good conf l) :
    confSerialise conf = (l.map Entry.setting).flatMap putSetting ++ putUint32 0xFFFFFFFF := by
  obtain ⟨h, hn⟩ := hg.tree.holds.wf
  have hl := hg.tree.holds.toList
  rw [confSerialise, count234, hn.countnode, serialiseFrom_eq hn hl (by rw [hl]; omega),
    List.drop_zero, List.flatMap_map]

/-! ## Reading -/

set_option maxRecDepth 2000 in
theorem nConfigOptions_eq : nConfigOptions = 197 := rfl

/-- The number of an option is not that of the terminator, and is read back as it is. -/
theorem primary_toNat (primary : Primary) : (UInt32.ofNat primary).toNat = primary := by
  have h1 : (primary : ℕ) < nConfigOptions := primary.isLt
  have h2 := nConfigOptions_eq
  rw [UInt32.toNat_ofNat', Nat.mod_eq_of_lt (by omega)]

theorem primary_ne (primary : Primary) : UInt32.ofNat primary ≠ 0xFFFFFFFF := by
  intro h
  have h1 := congrArg UInt32.toNat h
  rw [primary_toNat] at h1
  have h2 : (primary : ℕ) < nConfigOptions := primary.isLt
  have h3 := nConfigOptions_eq
  have h4 : (0xFFFFFFFF : UInt32).toNat = 4294967295 := rfl
  omega

theorem confDeserialise_end (conf : Conf P) (rest : List UInt8) :
    confDeserialise conf ⟨putUint32 0xFFFFFFFF ++ rest, false⟩ = some (true, conf, ⟨rest, false⟩) := by
  have h := uint32Codec.get_put 0xFFFFFFFF rest
  have h' : getUint32 ⟨putUint32 0xFFFFFFFF ++ rest, false⟩ = (0xFFFFFFFF, ⟨rest, false⟩) := h
  rw [confDeserialise, h', dif_neg Bool.false_ne_true, if_pos rfl]

/-- A round that reads the number of an option. -/
theorem confDeserialise_primary (conf : Conf P) (primary : Primary) (rest : List UInt8) :
    confDeserialise conf ⟨putUint32 (UInt32.ofNat primary) ++ rest, false⟩ =
      if (getSetting (P := P) primary ⟨rest, false⟩).2.err then
        some (false, conf, (getSetting (P := P) primary ⟨rest, false⟩).2)
      else
        match confSet conf (getSetting primary ⟨rest, false⟩).1 with
        | none => none
        | some conf => confDeserialise conf (getSetting (P := P) primary ⟨rest, false⟩).2 := by
  have hget : getUint32 ⟨putUint32 (UInt32.ofNat primary) ++ rest, false⟩ =
      (UInt32.ofNat primary, ⟨rest, false⟩) := uint32Codec.get_put _ rest
  have hlt : (getUint32 ⟨putUint32 (UInt32.ofNat primary) ++ rest, false⟩).1.toNat <
      nConfigOptions := by
    rw [hget, primary_toNat]
    exact primary.isLt
  rw [confDeserialise, dif_neg (by rw [hget]; exact Bool.false_ne_true),
    if_neg (by rw [hget]; exact primary_ne primary), dif_pos hlt]
  generalize hq : (⟨_, hlt⟩ : Primary) = q
  obtain rfl : q = primary := by
    rw [← hq]
    refine Fin.ext ?_
    show (getUint32 _).1.toNat = _
    rw [hget, primary_toNat]
  all_goals simp only [hget]
  all_goals rfl

theorem getSetting_put (s : Setting P) (rest : List UInt8) :
    getSetting s.key.primary ⟨(subkeytypes s.key.primary).codec.put s.key.secondary ++
      (((valuetypes s.key.primary).codec P).put s.value ++ rest), false⟩ = (s, ⟨rest, false⟩) := by
  rw [getSetting, (subkeytypes s.key.primary).codec.get_put]
  simp only
  rw [((valuetypes s.key.primary).codec P).get_put]

theorem confDeserialise_cons (conf : Conf P) (s : Setting P) (rest : List UInt8) :
    confDeserialise conf ⟨putSetting s ++ rest, false⟩ =
      match confSet conf s with
      | none => none
      | some conf => confDeserialise conf ⟨rest, false⟩ := by
  rw [putSetting, List.append_assoc, confDeserialise_primary, List.append_assoc, getSetting_put]
  rfl

/-- Settings in increasing order are read one behind the other. -/
theorem confDeserialise_settings (hg : Good conf l) {ss : List (Setting P)}
    (hss : (l.map Entry.setting ++ ss).Pairwise fun s s' => confCmp s.key s'.key = .lt) (rest : List UInt8) :
    ∃ conf' l', confDeserialise conf ⟨ss.flatMap putSetting ++ rest, false⟩ =
      confDeserialise conf' ⟨rest, false⟩ ∧ Good conf' l' ∧
      l'.map Entry.setting = l.map Entry.setting ++ ss := by
  induction ss generalizing conf l with
  | nil => exact ⟨conf, l, rfl, hg, by simp⟩
  | cons s ss ih =>
    have hs : Sought (keyCmp s.key) l l none [] := by
      refine ⟨by simp, fun e he => ?_, by simp, by simp⟩
      have h1 := (List.pairwise_append.mp hss).2.2 e.setting (List.mem_map_of_mem he) s (by simp)
      exact Std.OrientedCmp.gt_of_lt h1
    obtain ⟨conf1, h1, hg1⟩ := confSet_spec hg hs
    obtain ⟨conf2, l2, h2, hg2, h3⟩ := ih hg1 (by simpa using hss)
    refine ⟨conf2, l2, ?_, hg2, by rw [h3]; simp⟩
    rw [List.flatMap_cons, List.append_assoc, confDeserialise_cons, h1]
    exact h2

/-! ## A part of the bytes -/

theorem confDeserialise_empty (conf : Conf P) {part : List UInt8} (h : part.length < 4) :
    ∃ src, confDeserialise conf ⟨part, false⟩ = some (false, conf, src) := by
  have h1 : (getUint32 ⟨part, false⟩).2.err = true := by
    rw [getUint32, avail_part h]
  rw [confDeserialise, dif_pos h1]
  exact ⟨_, rfl⟩

/-- A part of a setting is not read. -/
theorem confDeserialise_part (conf : Conf P) (s : Setting P) {part : List UInt8}
    (hp : part.IsPrefix (putSetting s)) (hne : part ≠ putSetting s) :
    ∃ src, confDeserialise conf ⟨part, false⟩ = some (false, conf, src) := by
  rcases Codec.part_append hp hne with ⟨h1, h2⟩ | ⟨m, rfl, h1, h2⟩
  · exact confDeserialise_empty conf (length_of_part h1 h2)
  · rw [confDeserialise_primary]
    have herr : (((subkeytypes s.key.primary).codec.pair ((valuetypes s.key.primary).codec P)).get
        ⟨m, false⟩).2.err = true :=
      Codec.get_part _ (s.key.secondary, s.value) m h1 h2
    exact ⟨_, if_pos herr⟩

/-- **A part of the bytes is refused.** -/
theorem confDeserialise_settings_part (hg : Good conf l) {ss : List (Setting P)}
    {part : List UInt8} (hp : part.IsPrefix (ss.flatMap putSetting ++ putUint32 0xFFFFFFFF))
    (hne : part ≠ ss.flatMap putSetting ++ putUint32 0xFFFFFFFF) :
    ∃ conf' src, confDeserialise conf ⟨part, false⟩ = some (false, conf', src) := by
  induction ss generalizing conf l part with
  | nil => exact ⟨conf, confDeserialise_empty conf (length_of_part hp hne)⟩
  | cons s ss ih =>
    rw [List.flatMap_cons, List.append_assoc] at hp hne
    rcases Codec.part_append hp hne with ⟨h1, h2⟩ | ⟨m, rfl, h1, h2⟩
    · exact ⟨conf, confDeserialise_part conf s h1 h2⟩
    · obtain ⟨l1, o, l2, hs⟩ := hg.sought s.key
      obtain ⟨conf1, h3, hg1⟩ := confSet_spec hg hs
      rw [confDeserialise_cons, h3]
      exact ih hg1 h1 h2

/-- **A configuration is read back from its bytes, which are all consumed, with the same value for every
key; and no part of the bytes is accepted.** -/
theorem conf_roundtrip (P : Platform) (ops : List (ConfOp P)) :
    ∃ conf, confRun confNew ops = some conf ∧
      (∃ conf', confDeserialise confNew ⟨confSerialise conf, false⟩ = some (true, conf', ⟨[], false⟩) ∧
        ∀ key, (confFind conf' key).map Entry.setting = (confFind conf key).map Entry.setting) ∧
      ∀ part, part.IsPrefix (confSerialise conf) → part ≠ confSerialise conf →
        ∃ (conf' : Conf P) (src : BinarySource),
          confDeserialise confNew ⟨part, false⟩ = some (false, conf', src) := by
  obtain ⟨conf, l, hrun, hg⟩ := confRun_good good_new ops
  refine ⟨conf, hrun, ?_, fun part hp hne => ?_⟩
  · have hss : (([] : List (Entry P)).map Entry.setting ++ l.map Entry.setting).Pairwise
        (fun s s' => confCmp s.key s'.key = .lt) := by
      rw [List.map_nil, List.nil_append, List.pairwise_map]
      exact hg.tree.sorted _ rfl
    obtain ⟨conf', l', h1, hg', h2⟩ :=
      confDeserialise_settings (good_new (P := P)) hss (putUint32 0xFFFFFFFF)
    refine ⟨conf', ?_, fun key => ?_⟩
    · have h3 := confDeserialise_end conf' []
      rw [List.append_nil] at h3
      rw [confSerialise_eq hg, h1, h3]
    · have h3 : l'.map Entry.setting = l.map Entry.setting := by simpa using h2
      have h4 := congrArg (List.find? fun s : Setting P => confCmp key s.key = .eq) h3
      rw [List.find?_map, List.find?_map] at h4
      rw [hg.find, hg'.find]
      exact h4
  · rw [confSerialise_eq hg] at hp hne
    exact confDeserialise_settings_part good_new hp hne

end PuttyNd.Psftp
