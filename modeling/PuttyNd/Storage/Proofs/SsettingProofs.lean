import Mathlib.Data.List.Nodup
import Mathlib.Data.Nat.Digits.Defs
import PuttyNd.Storage.Proofs.RegistryProofs
import PuttyNd.Storage.Ssetting

/-!
# Two ways to look up a setting

Both go along the same sessions, but one reads strings only and ends at what is left of the name, in place of the
default session.
-/

namespace PuttyNd.Storage

open WinRegStore

variable {R : Registry} {vs vs' : Values} {key name : Text}

/-! ## The values of a session -/

/-- The values in another order -/
theorem lookup_perm (h : vs.Perm vs') (hnodup : (vs.map (·.1)).Nodup) : vs.lookup key = vs'.lookup key := by
  induction h with
  | nil => rfl
  | cons v _ ih =>
    rw [List.map_cons, List.nodup_cons] at hnodup
    rw [List.lookup_cons, List.lookup_cons, ih hnodup.2]
  | swap v w vs =>
    rw [List.map_cons, List.map_cons, List.nodup_cons] at hnodup
    obtain ⟨k, v⟩ := v
    obtain ⟨k', w⟩ := w
    have hne : k' ≠ k := fun h => hnodup.1 (h ▸ List.mem_cons_self)
    simp only [List.lookup_cons]
    by_cases hv : key = k'
    · have hw : (key == k) = false := beq_false_of_ne (hv ▸ hne)
      rw [hw]
    · have hv' : (key == k') = false := beq_false_of_ne hv
      rw [hv']
  | trans h₁ _ ih₁ ih₂ => rw [ih₁ hnodup, ih₂ ((h₁.map _).nodup_iff.mp hnodup)]

/-- The loop comes to all values. -/
theorem find_visible {n : ℕ} (hlen : vs.length ≤ n) (hnodup : (vs.map (·.1)).Nodup)
    (hfits : ∀ v ∈ vs, v.1.length < 1023 ∧ v.2.size ≤ 1024) :
    (visible n vs).find key = (vs.lookup key).bind RegValue.text := by
  induction vs generalizing n with
  | nil =>
    cases n <;> rfl
  | cons v vs ih =>
    obtain ⟨k, value⟩ := v
    obtain ⟨n, rfl⟩ : ∃ m, n = m + 1 := ⟨n - 1, by rw [List.length_cons] at hlen; omega⟩
    rw [List.map_cons, List.nodup_cons] at hnodup
    obtain ⟨hk, hsize⟩ := hfits (k, value) List.mem_cons_self
    have hrest := @ih n (Nat.le_of_succ_le_succ hlen) hnodup.2 fun v hv => hfits v (List.mem_cons_of_mem _ hv)
    rw [visible, if_neg (by dsimp only at hk hsize; omega), List.lookup_cons]
    cases htext : value.text with
    | none =>
      dsimp only
      rw [hrest]
      by_cases heq : key = k
      · have hnone : vs.lookup key = none := by
          rw [List.lookup_eq_none_iff]
          intro p hp
          have hkey : p.1 ∈ vs.map (·.1) := List.mem_map_of_mem hp
          have hne : key ≠ p.1 := fun h => hnodup.1 (heq ▸ h ▸ hkey)
          exact bne_iff_ne.mpr hne
        rw [hnone, heq, beq_self_eq_true]
        exact htext.symm
      · rw [beq_false_of_ne heq]
    | some text =>
      dsimp only
      unfold Tree.find at hrest ⊢
      rw [List.lookup_cons, hrest]
      by_cases heq : key = k
      · rw [heq, beq_self_eq_true]
        exact htext.symm
      · rw [beq_false_of_ne heq]

/-- The string or number that the session has for the key -/
def valueOf (s : Sessions) (key name : Text) : Option RegValue :=
  (s (mungestr name)).bind fun vs => (vs.lookup key).filter fun value => value.text.isSome

/-- The value if it is a string -/
def RegValue.string : RegValue → Option Text
  | sz s => some s
  | _ => none

/-- What `load_settings_to_tree234` makes of it -/
def textAt (s : Sessions) (key name : Text) : Option Text := (valueOf s key name).bind RegValue.text

/-- What `read_setting_s` of the registry makes of it -/
def stringAt (s : Sessions) (key name : Text) : Option Text := (valueOf s key name).bind RegValue.string

theorem own_find (store : Store) (hname : name ≠ []) :
    (own R store.sessions name).find key = textAt store.sessions key name := by
  unfold own textAt valueOf
  rw [if_neg hname]
  cases hvs : store.sessions (mungestr name) with
  | none =>
    rw [Option.getD_none, enumerate_nil]
    rfl
  | some vs =>
    have hperm := R.perm vs
    have hnodup := store.distinct _ vs hvs
    rw [Option.getD_some, find_visible (hperm.length_eq ▸ store.few _ vs hvs)
      ((hperm.map _).nodup_iff.mpr hnodup) (fun v hv => store.short _ vs hvs v (hperm.mem_iff.mp hv)),
      ← lookup_perm hperm.symm hnodup]
    dsimp only [Option.bind_some]
    cases vs.lookup key with
    | none => rfl
    | some value =>
      cases htext : value.text with
      | none => rw [Option.filter_some, htext]; exact htext
      | some text => rw [Option.filter_some, htext]; rfl

theorem loadSsettingsFromImpl_eq (store : Store) : loadSsettingsFromImpl store.sessions name key =
    stringAt store.sessions key (if name = [] then DEFAULT_SESSION_NAME else name) := by
  unfold loadSsettingsFromImpl openSettingsR readSettingS stringAt valueOf
  cases hvs : store.sessions (mungestr (if name = [] then DEFAULT_SESSION_NAME else name)) with
  | none => rfl
  | some vs =>
    dsimp only [Option.bind_some]
    cases hvalue : vs.lookup key with
    | none => rfl
    | some value =>
      cases value with
      | sz text =>
        have hmem : (key, RegValue.sz text) ∈ vs := by
          obtain ⟨l₁, l₂, rfl, -⟩ := List.lookup_eq_some_iff.mp hvalue
          exact List.mem_append_right _ List.mem_cons_self
        exact if_pos (store.short _ vs hvs _ hmem).2
      | dword n => rfl
      | other data => rfl

/-! ## The sessions that are looked at -/

/-- The session and those that its name contains up to a `#`. The empty name has no values of its own. -/
def path (name : Text) : List Text := (if name = [] then [] else [name]) ++ parents name.dropLast

/-- What the loop leaves of the name -/
def leftover (loadingSession : Text) : Text :=
  match _h : strrchr '#' loadingSession with
  | none => loadingSession
  | some before => leftover before
termination_by loadingSession.length
decreasing_by exact strrchr_length _h

/-- The session that `load_ssetting` looks at in the end -/
def lastSession (name : Text) : Text :=
  if leftover name.dropLast = [] then DEFAULT_SESSION_NAME else leftover name.dropLast

theorem leftover_none {s : Text} (h : strrchr '#' s = none) : leftover s = s := by
  rw [leftover]
  split
  · rfl
  · next before hsome =>
    rw [h] at hsome
    cases hsome

theorem leftover_some {s before : Text} (h : strrchr '#' s = some before) : leftover s = leftover before := by
  rw [leftover]
  split
  · next hnone =>
    rw [h] at hnone
    cases hnone
  · next before' hsome =>
    rw [h] at hsome
    cases hsome
    rfl

theorem ne_nil_of_mem_parents {s a : Text} (h : a ∈ parents s) : a ≠ [] := by
  induction s using parents.induct with
  | case1 s hs =>
    rw [parents_none hs] at h
    cases h
  | case2 s before hs ih =>
    rw [parents_some hs] at h
    rcases List.mem_cons.mp h with rfl | h
    · exact List.append_ne_nil_of_right_ne_nil _ (List.cons_ne_nil _ _)
    · exact ih h

theorem loadFromParents_eq (store : Store) (key s : Text) :
    (TmplStore.loadFromParents store.sessions key s).1 =
        (parents s).findSome? (stringAt store.sessions key) ∧
      ((TmplStore.loadFromParents store.sessions key s).1 = none →
        (TmplStore.loadFromParents store.sessions key s).2 = leftover s) := by
  induction s using parents.induct with
  | case1 s hs =>
    rw [parents_none hs, leftover_none hs, TmplStore.loadFromParents]
    split
    · exact ⟨rfl, fun _ => rfl⟩
    · next before hsome =>
      rw [hs] at hsome
      cases hsome
  | case2 s before hs ih =>
    rw [parents_some hs, leftover_some hs, List.findSome?_cons, TmplStore.loadFromParents]
    split
    · next hnone =>
      rw [hs] at hnone
      cases hnone
    · next before' hsome =>
      rw [hs] at hsome
      cases hsome
      have hne : before ++ ['#'] ≠ [] := List.append_ne_nil_of_right_ne_nil _ (List.cons_ne_nil _ _)
      rw [loadSsettingsFromImpl_eq, if_neg hne]
      cases stringAt store.sessions key (before ++ ['#']) with
      | some ret => exact ⟨rfl, fun h => (nomatch h)⟩
      | none => exact ih

/-- The default session, unless it is on the path itself -/
def unlessDefault (name : Text) (value : Option Text) : Option Text :=
  if name ≠ DEFAULT_SESSION_NAME then value else none

theorem firstOf_eq (store : Store) {names : List Text} (h : ∀ a ∈ names, a ≠ []) :
    firstOf R store.sessions names key = names.findSome? (textAt store.sessions key) := by
  unfold firstOf
  induction names with
  | nil => rfl
  | cons a names ih =>
    rw [List.findSome?_cons, List.findSome?_cons, own_find store (h a List.mem_cons_self),
      ih fun b hb => h b (List.mem_cons_of_mem _ hb)]

theorem decimal_length (n : Int32) : (decimal n.toInt).length ≤ 11 := by
  have hle := n.le_toInt
  have hlt := n.toInt_lt
  generalize n.toInt = i at hle hlt
  cases i with
  | ofNat m =>
    have hm : m < 10 ^ 10 := by
      rw [Int.ofNat_eq_natCast] at hlt
      omega
    exact (Nat.toDigits_length 10 m 10 (by decide) hm).trans (by decide)
  | negSucc m =>
    have hm : m + 1 < 10 ^ 10 := by omega
    exact Nat.succ_le_succ (Nat.toDigits_length 10 (m + 1) 10 (by decide) hm)

theorem valueOf_mem {s : Sessions} {value : RegValue} (h : valueOf s key name = some value) :
    ∃ vs, s (mungestr name) = some vs ∧ (key, value) ∈ vs ∧ value.text.isSome := by
  obtain ⟨vs, hvs, hvalue⟩ := Option.bind_eq_some_iff.mp h
  obtain ⟨hlookup, htext⟩ := Option.filter_eq_some_iff.mp hvalue
  obtain ⟨l₁, l₂, rfl, -⟩ := List.lookup_eq_some_iff.mp hlookup
  exact ⟨_, hvs, List.mem_append_right _ List.mem_cons_self, htext⟩

/-- The texts fit the buffer of `IStore::read_setting_s`. -/
theorem textAt_length (store : Store) {text : Text} (h : textAt store.sessions key name = some text) :
    text.length ≤ 1023 := by
  obtain ⟨value, hvalue, htext⟩ := Option.bind_eq_some_iff.mp h
  obtain ⟨vs, hvs, hmem, -⟩ := valueOf_mem hvalue
  cases value with
  | sz s =>
    obtain rfl := Option.some.inj htext
    exact Nat.le_of_succ_le_succ (store.short _ vs hvs _ hmem).2
  | dword n =>
    obtain rfl := Option.some.inj htext
    exact (decimal_length n).trans (by decide)
  | other data => cases htext

/-- What the collected settings have for the key -/
theorem openAndRead_eq (store : Store) {sectionName : Option Text}
    (hfits : Fits (sectionName.getD DEFAULT_SESSION_NAME)) :
    TmplStore.openAndRead R store.sessions sectionName key =
      some (((path (sectionName.getD DEFAULT_SESSION_NAME)).findSome? (textAt store.sessions key)).or
        (unlessDefault (sectionName.getD DEFAULT_SESSION_NAME)
          (textAt store.sessions key DEFAULT_SESSION_NAME))) := by
  generalize hname : sectionName.getD DEFAULT_SESSION_NAME = name at hfits ⊢
  obtain ⟨tree, hopen, hfind⟩ := openSettingsR_spec (R := R) (s := store.sessions) hfits
  have hlast : firstOf R store.sessions (if name ≠ DEFAULT_SESSION_NAME then [DEFAULT_SESSION_NAME] else []) key =
      unlessDefault name (textAt store.sessions key DEFAULT_SESSION_NAME) := by
    unfold unlessDefault
    by_cases hdefault : name ≠ DEFAULT_SESSION_NAME
    · have hne : ∀ a ∈ [DEFAULT_SESSION_NAME], a ≠ [] := fun a ha =>
        List.mem_singleton.mp ha ▸ (by decide)
      rw [if_pos hdefault, if_pos hdefault, firstOf_eq store hne, List.findSome?_singleton]
    · rw [if_neg hdefault, if_neg hdefault]
      rfl
  have hvalue : tree.find key = ((path name).findSome? (textAt store.sessions key)).or
      (unlessDefault name (textAt store.sessions key DEFAULT_SESSION_NAME)) := by
    have hparents : firstOf R store.sessions (parents name.dropLast) key =
        (parents name.dropLast).findSome? (textAt store.sessions key) :=
      firstOf_eq store fun a ha => ne_nil_of_mem_parents ha
    unfold firstOf at hparents hlast
    rw [hfind]
    unfold firstOf ancestors path
    rw [List.findSome?_append, hparents, hlast, List.findSome?_append, Option.or_assoc]
    by_cases hnil : name = []
    · rw [if_pos hnil, own, if_pos hnil]
      rfl
    · rw [if_neg hnil, own_find store hnil, List.findSome?_singleton]
  have hlength : ∀ text, tree.find key = some text → text.length ≤ 1023 := by
    intro text htext
    rw [hvalue, Option.or_eq_some_iff] at htext
    rcases htext with htext | ⟨-, htext⟩
    · obtain ⟨a, -, ha⟩ := List.exists_of_findSome?_eq_some htext
      exact textAt_length store ha
    · unfold unlessDefault at htext
      split at htext
      · exact textAt_length store htext
      · cases htext
  unfold TmplStore.openAndRead TmplStore.readSettingS
  rw [hname, hopen, Option.map_some, ← hvalue]
  cases htree : tree.find key with
  | none => rfl
  | some text => rw [Option.map_some, List.take_of_length_le (hlength text htree)]

/-- What the walk from session to session has for the key -/
theorem loadSsetting_eq (store : Store) {sectionName : Option Text} (hplatform : platformDefaultS key = none)
    (hlen : (sectionName.getD DEFAULT_SESSION_NAME).length < 4096) :
    TmplStore.loadSsetting store.sessions sectionName key none =
      some (((path (sectionName.getD DEFAULT_SESSION_NAME)).findSome? (stringAt store.sessions key)).or
        (unlessDefault (sectionName.getD DEFAULT_SESSION_NAME)
          (stringAt store.sessions key (lastSession (sectionName.getD DEFAULT_SESSION_NAME))))) := by
  unfold TmplStore.loadSsetting
  generalize sectionName.getD DEFAULT_SESSION_NAME = name at hlen ⊢
  obtain ⟨hparents, hleft⟩ := loadFromParents_eq store key name.dropLast
  have hlast : (TmplStore.loadFromParents store.sessions key name.dropLast).1 = none →
      (if name ≠ DEFAULT_SESSION_NAME then
        loadSsettingsFromImpl store.sessions (TmplStore.loadFromParents store.sessions key name.dropLast).2 key
      else none) = unlessDefault name (stringAt store.sessions key (lastSession name)) := by
    intro hnone
    rw [hleft hnone, loadSsettingsFromImpl_eq]
    rfl
  dsimp only
  rw [if_neg (Nat.not_le.mpr hlen), loadSsettingsFromImpl_eq, hplatform]
  unfold path
  rw [List.findSome?_append, ← hparents]
  have hfirst : ∃ missing : Option Text, (missing = none ∨ missing = stringAt store.sessions key (lastSession name) ∧
      name ≠ DEFAULT_SESSION_NAME ∧ (TmplStore.loadFromParents store.sessions key name.dropLast).1 = none) ∧
      stringAt store.sessions key (if name = [] then DEFAULT_SESSION_NAME else name) =
        ((if name = [] then [] else [name]).findSome? (stringAt store.sessions key)).or missing := by
    by_cases hnil : name = []
    · -- the default session is looked at in place of the empty name, and again in the end
      subst hnil
      have hlastDefault : lastSession [] = DEFAULT_SESSION_NAME := if_pos (leftover_none rfl)
      refine ⟨_, Or.inr ⟨rfl, by decide, ?_⟩, ?_⟩
      · rw [hparents, List.dropLast_nil, parents_none rfl]
        rfl
      · rw [if_pos rfl, if_pos rfl, hlastDefault]
        rfl
    · refine ⟨none, Or.inl rfl, ?_⟩
      rw [if_neg hnil, if_neg hnil, List.findSome?_singleton, Option.or_none]
  obtain ⟨missing, hmissing, hfirst⟩ := hfirst
  rw [hfirst]
  cases ((if name = [] then [] else [name]) : List Text).findSome? (stringAt store.sessions key) with
  | some ret => rfl
  | none =>
    rw [Option.none_or, Option.none_or]
    cases hvalue : (TmplStore.loadFromParents store.sessions key name.dropLast).1 with
    | some ret =>
      rw [hvalue] at hmissing
      rcases hmissing with rfl | ⟨-, -, hnone⟩
      · rfl
      · cases hnone
    | none =>
      rw [Option.none_or, hlast hvalue]
      rcases hmissing with rfl | ⟨rfl, hdefault, -⟩
      · cases unlessDefault name (stringAt store.sessions key (lastSession name)) <;> rfl
      · unfold unlessDefault
        rw [if_pos hdefault]
        cases stringAt store.sessions key (lastSession name) <;> rfl

/-! ## When both agree -/

section First

variable {s : Sessions} {names : List Text} {value : RegValue} {text : Text}

theorem findSome_none (h : names.findSome? (valueOf s key) = none) :
    names.findSome? (stringAt s key) = none ∧ names.findSome? (textAt s key) = none := by
  rw [List.findSome?_eq_none_iff] at h
  rw [List.findSome?_eq_none_iff, List.findSome?_eq_none_iff]
  unfold stringAt textAt
  exact ⟨fun a ha => by rw [h a ha]; rfl, fun a ha => by rw [h a ha]; rfl⟩

theorem findSome_textAt (h : names.findSome? (valueOf s key) = some value) :
    names.findSome? (textAt s key) = value.text := by
  obtain ⟨before, a, after, rfl, ha, hbefore⟩ := List.findSome?_eq_some_iff.mp h
  obtain ⟨-, -, -, htext⟩ := valueOf_mem ha
  have hnone := (findSome_none (List.findSome?_eq_none_iff.mpr hbefore)).2
  rw [List.findSome?_append, hnone, Option.none_or, List.findSome?_cons]
  unfold textAt
  rw [ha, Option.bind_some]
  obtain ⟨text, htext⟩ := Option.isSome_iff_exists.mp htext
  rw [htext]

theorem findSome_stringAt (h : names.findSome? (valueOf s key) = some (.sz text)) :
    names.findSome? (stringAt s key) = some text := by
  obtain ⟨before, a, after, rfl, ha, hbefore⟩ := List.findSome?_eq_some_iff.mp h
  have hnone := (findSome_none (List.findSome?_eq_none_iff.mpr hbefore)).1
  rw [List.findSome?_append, hnone, Option.none_or, List.findSome?_cons]
  unfold stringAt
  rw [ha]
  rfl

end First

/-- The first session on the path with a value for the key has a string; or it has a number, and this is the text of
the first string; or there is none, and the last session has the same for the key as the default session. -/
def Agrees (s : Sessions) (name key : Text) : Prop :=
  match (path name).findSome? (valueOf s key) with
  | none => name = DEFAULT_SESSION_NAME ∨ stringAt s key (lastSession name) = textAt s key DEFAULT_SESSION_NAME
  | some (.sz _) => True
  | some value =>
    ((path name).findSome? (stringAt s key)).or (unlessDefault name (stringAt s key (lastSession name))) = value.text

theorem agrees_iff {s : Sessions} :
    ((path name).findSome? (stringAt s key)).or (unlessDefault name (stringAt s key (lastSession name))) =
        ((path name).findSome? (textAt s key)).or (unlessDefault name (textAt s key DEFAULT_SESSION_NAME)) ↔
      Agrees s name key := by
  unfold Agrees
  cases hfirst : (path name).findSome? (valueOf s key) with
  | none =>
    obtain ⟨hstring, htext⟩ := findSome_none hfirst
    dsimp only
    rw [hstring, htext, Option.none_or, Option.none_or]
    unfold unlessDefault
    by_cases hdefault : name = DEFAULT_SESSION_NAME
    · rw [if_neg (not_not_intro hdefault), if_neg (not_not_intro hdefault)]
      exact iff_of_true rfl (Or.inl hdefault)
    · rw [if_pos hdefault, if_pos hdefault]
      exact (or_iff_right hdefault).symm
  | some value =>
    obtain ⟨a, -, ha⟩ := List.exists_of_findSome?_eq_some hfirst
    obtain ⟨-, -, -, htext⟩ := valueOf_mem ha
    rw [findSome_textAt hfirst, Option.or_of_isSome htext]
    cases value with
    | sz text =>
      rw [findSome_stringAt hfirst]
      exact iff_of_true rfl trivial
    | dword n => exact Iff.rfl
    | other data => cases htext

/-- Both look-ups end alike exactly if the name is too long for both, or the name fits also with its escapes and what
is found first agrees. -/
theorem loadSsetting_iff (R : Registry) (store : Store) (sectionName : Option Text) (key : Text)
    (hplatform : platformDefaultS key = none) :
    TmplStore.loadSsetting store.sessions sectionName key none =
        TmplStore.openAndRead R store.sessions sectionName key ↔
      4096 ≤ (sectionName.getD DEFAULT_SESSION_NAME).length ∨
        (Fits (sectionName.getD DEFAULT_SESSION_NAME) ∧
          Agrees store.sessions (sectionName.getD DEFAULT_SESSION_NAME) key) := by
  by_cases hlen : 4096 ≤ (sectionName.getD DEFAULT_SESSION_NAME).length
  · refine iff_of_true ?_ (Or.inl hlen)
    unfold TmplStore.loadSsetting TmplStore.openAndRead TmplStore.openSettingsR
    dsimp only
    rw [if_pos hlen, if_pos hlen]
    rfl
  rw [or_iff_right hlen, loadSsetting_eq store hplatform (Nat.not_le.mp hlen)]
  by_cases hfits : Fits (sectionName.getD DEFAULT_SESSION_NAME)
  · rw [openAndRead_eq store hfits, Option.some_inj, agrees_iff]
    exact (and_iff_right hfits).symm
  · have hne : sectionName.getD DEFAULT_SESSION_NAME ≠ [] := by
      intro hnil
      rw [hnil] at hfits
      exact hfits (by unfold Fits; decide)
    refine iff_of_false ?_ fun h => hfits h.1
    unfold TmplStore.openAndRead
    rw [openSettingsR_none hne hfits]
    exact Option.some_ne_none _

/-- A store with one session that has one string -/
def oneSession (name key value : Text) (hkey : key.length < 1023) (hvalue : value.length < 1024) : Store where
  sessions := Sessions.put (fun _ => none) (mungestr name) (some [(key, .sz value)])
  distinct a vs h := by
    unfold Sessions.put at h
    split at h
    · cases h
      exact List.nodup_singleton key
    · cases h
  few a vs h := by
    unfold Sessions.put at h
    split at h
    · cases h
      exact Nat.succ_pos 9999
    · cases h
  short a vs h := by
    unfold Sessions.put at h
    split at h
    · cases h
      intro v hv
      rw [List.mem_singleton.mp hv]
      exact ⟨hkey, hvalue⟩
    · cases h

def sampleRegistry : Registry := ⟨id, fun vs => List.Perm.refl vs⟩

/-- A session inherits from its group. -/
theorem loadSsetting_group :
    TmplStore.loadSsetting (oneSession "a#".toList "k".toList "v".toList (by decide) (by decide)).sessions
        (some "a#b".toList) "k".toList none =
      TmplStore.openAndRead sampleRegistry
        (oneSession "a#".toList "k".toList "v".toList (by decide) (by decide)).sessions (some "a#b".toList)
        "k".toList := by
  have hparents : parents "a#".toList = ["a#".toList] := by
    have hgroup : strrchr '#' "a#".toList = some "a".toList := rfl
    rw [parents_some hgroup, parents_none rfl]
    rfl
  have hpath : path "a#b".toList = ["a#b".toList, "a#".toList] := congrArg ("a#b".toList :: ·) hparents
  refine (loadSsetting_iff sampleRegistry _ _ _ rfl).mpr (Or.inr ⟨by unfold Fits; decide, ?_⟩)
  unfold Agrees
  rw [Option.getD_some, hpath]
  exact trivial

/-- A session takes a value from a session whose name has one character less. -/
theorem loadSsetting_neighbour :
    TmplStore.loadSsetting (oneSession "ab".toList "k".toList "v".toList (by decide) (by decide)).sessions
        (some "abc".toList) "k".toList none ≠
      TmplStore.openAndRead sampleRegistry
        (oneSession "ab".toList "k".toList "v".toList (by decide) (by decide)).sessions (some "abc".toList)
        "k".toList := by
  have hpath : path "abc".toList = ["abc".toList] := congrArg ("abc".toList :: ·) (parents_none rfl)
  have hlast : lastSession "abc".toList = "ab".toList := by
    have hleft : leftover "abc".toList.dropLast = "ab".toList := leftover_none rfl
    unfold lastSession
    rw [hleft]
    rfl
  rw [loadSsetting_eq _ rfl (by decide), openAndRead_eq _ (by unfold Fits; decide), Option.getD_some, hpath, hlast]
  decide

end PuttyNd.Storage
