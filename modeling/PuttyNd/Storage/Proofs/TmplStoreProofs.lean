import Mathlib.Data.List.Nodup
import Mathlib.Data.List.TakeWhile
import PuttyNd.Storage.Proofs.RegistryProofs

/-!
# Sessions that inherit: writing and reading back

The calls of the writer leave the values of `ownValues` in the key of the session (`saveSession_spec`).
The reader finds those of them that its loop comes to, and else what is inherited.
-/

namespace PuttyNd.Storage

open WinRegStore TmplStore

/-! ## Numbers as text -/

theorem clamp_toInt (v : Int32) : clamp v.toInt = v := by
  have hle := v.le_toInt
  have hlt := v.toInt_lt
  have hin : max (-2 ^ 31) (min (2 ^ 31 - 1) v.toInt) = v.toInt := by omega
  rw [clamp, hin, Int32.ofInt_toInt]

theorem takeWhile_toDigits (n : ℕ) :
    (Nat.toDigits 10 n).takeWhile Char.isDigit = Nat.toDigits 10 n :=
  List.takeWhile_eq_self_iff.mpr fun _ hc => Nat.isDigit_of_mem_toDigits (by omega) (by omega) hc

theorem digits_toDigits (n : ℕ) : digits (Nat.toDigits 10 n) = n := by
  rw [digits, takeWhile_toDigits, Nat.ofDigitChars_ten_toDigits]

theorem atoi_decimal (v : Int32) : atoi (decimal v.toInt) = v := by
  have hspace : ∀ c s, isspace c = false → (c :: s).dropWhile isspace = c :: s := by
    intro c s h
    rw [List.dropWhile_cons, if_neg (by simp [h])]
  conv_rhs => rw [← clamp_toInt v]
  cases v.toInt with
  | ofNat n =>
    show atoi (Nat.toDigits 10 n) = clamp n
    have hdigits : ∀ c ∈ Nat.toDigits 10 n, c.isDigit = true := fun c hc =>
      Nat.isDigit_of_mem_toDigits (by omega) (by omega) hc
    have hvalue := digits_toDigits n
    cases hn : Nat.toDigits 10 n with
    | nil => exact absurd hn Nat.toDigits_ne_nil
    | cons c s =>
      have hc := hdigits c (by rw [hn]; simp)
      rw [hn] at hvalue
      have hs : isspace c = false := by
        by_contra hs
        simp only [Bool.not_eq_false, isspace, Bool.or_eq_true, beq_iff_eq] at hs
        rcases hs with rfl | hs
        · simp at hc
        · simp only [Bool.and_eq_true, decide_eq_true_eq, Char.isDigit, Char.le_def] at hs hc
          have h1 := UInt32.le_iff_toNat_le.mp hs.2
          have h2 := UInt32.le_iff_toNat_le.mp hc.1
          simp at h1 h2
          omega
      unfold atoi
      rw [hspace c s hs]
      split
      · rename_i heq
        cases heq
        simp at hc
      · rename_i heq
        cases heq
        simp at hc
      · rw [hvalue]
  | negSucc n =>
    show atoi ('-' :: Nat.toDigits 10 (n + 1)) = _
    unfold atoi
    rw [hspace '-' _ (by decide)]
    show clamp (-digits (Nat.toDigits 10 (n + 1))) = _
    rw [digits_toDigits]
    rfl

/-! ## What the writer leaves -/

theorem put_put (s : Sessions) (key : Text) (vs vs' : Option Values) :
    (s.put key vs).put key vs' = s.put key vs' := by
  funext a
  unfold Sessions.put
  split <;> rfl

theorem put_self (s : Sessions) (key : Text) (vs : Option Values) : s.put key vs key = vs := by
  simp [Sessions.put]

theorem put_of_ne {s : Sessions} {key a : Text} {vs : Option Values} (h : a ≠ key) :
    s.put key vs a = s a := by
  simp [Sessions.put, h]

theorem setValue_new {vs : Values} {key : Text} {value : RegValue} (h : key ∉ vs.map (·.1)) :
    setValue vs key value = vs ++ [(key, value)] := if_neg h

theorem keys_setValue (vs : Values) (key : Text) (value : RegValue) :
    (setValue vs key value).map (·.1) =
      if key ∈ vs.map (·.1) then vs.map (·.1) else vs.map (·.1) ++ [key] := by
  unfold setValue
  split
  · rw [List.map_map]
    apply List.map_congr_left
    intro v _
    by_cases h : v.1 = key <;> simp [h]
  · simp

/-- The key of the session has the values `vs`. -/
theorem regSetValueEx_put (auto : Bool) (s : Sessions) (hkey key : Text) (vs : Values)
    (value : RegValue) :
    WriteState.regSetValueEx ⟨auto, s.put hkey (some vs)⟩ hkey key value =
      ⟨auto, s.put hkey (some (setValue vs key value))⟩ := by
  simp only [WriteState.regSetValueEx, put_put, put_self, Option.getD_some]

variable {D : DefaultValues} {hd : WriteHandler} {parent : Tree}

/-- What the parent of the handler has. -/
def HasParent (hd : WriteHandler) (parent : Tree) : Prop :=
  ∀ key, hd.parentConf.bind (·.find key) = parent.find key

theorem foldl_write (hp : HasParent hd parent) (s : Sessions) (settings : List Setting) (auto : Bool)
    (vs : Values) (hnodup : (settings.map Setting.key).Nodup)
    (hnew : ∀ w ∈ settings, w.key ∉ vs.map (·.1)) :
    ∃ auto', settings.foldl (Setting.write D (some hd)) ⟨auto, s.put hd.implStoreHandle (some vs)⟩ =
      ⟨auto', s.put hd.implStoreHandle (some (vs ++ storedValues D parent auto settings))⟩ := by
  induction settings generalizing auto vs with
  | nil => exact ⟨auto, by simp [storedValues]⟩
  | cons w settings ih =>
    rw [List.map_cons, List.nodup_cons] at hnodup
    have hrest : ∀ w' ∈ settings, w'.key ∉ vs.map (·.1) := fun w' hw' => hnew w' (by simp [hw'])
    have hskip : ∀ auto, ∃ auto', settings.foldl (Setting.write D (some hd))
        ⟨auto, s.put hd.implStoreHandle (some vs)⟩ =
          ⟨auto', s.put hd.implStoreHandle (some (vs ++ storedValues D parent auto settings))⟩ :=
      fun auto => ih auto vs hnodup.2 hrest
    have hstore : ∀ auto value, ∃ auto', settings.foldl (Setting.write D (some hd))
        (WriteState.regSetValueEx ⟨auto, s.put hd.implStoreHandle (some vs)⟩ hd.implStoreHandle w.key
          value) =
          ⟨auto', s.put hd.implStoreHandle
            (some (vs ++ (w.key, value) :: storedValues D parent auto settings))⟩ := by
      intro auto value
      rw [regSetValueEx_put, setValue_new (hnew w (by simp))]
      obtain ⟨auto', hfold⟩ := ih auto (vs ++ [(w.key, value)]) hnodup.2 (by
        intro w' hw'
        rw [List.map_append, List.mem_append, not_or]
        refine ⟨hrest w' hw', ?_⟩
        have hne : w'.key ≠ w.key := fun heq => hnodup.1 (heq ▸ List.mem_map_of_mem hw')
        simpa using hne)
      exact ⟨auto', by rw [hfold, List.append_assoc, List.singleton_append]⟩
    cases w with
    | str key value =>
      rw [List.foldl_cons, storedValues]
      simp only [Setting.write, writeSettingS, hp key]
      cases hinh : inheritsS D (parent.find key) key value with
      | true =>
        cases hauto : isAutoCmdKey key with
        | true => exact Bool.and_false auto ▸ hskip false
        | false => exact (Bool.and_true auto).symm ▸ hskip auto
      | false =>
        cases hauto : isAutoCmdKey key with
        | true => exact (Bool.or_true auto).symm ▸ hstore true (.sz value)
        | false => exact (Bool.or_false auto).symm ▸ hstore auto (.sz value)
    | int key value =>
      rw [List.foldl_cons, storedValues]
      simp only [Setting.write, writeSettingI, hp key]
      cases hexc : isException auto key with
      | true => exact hstore auto (.dword value)
      | false =>
        cases hinh : inheritsI D (parent.find key) key value with
        | true => exact hskip auto
        | false => exact hstore auto (.dword value)

/-- The values that are written belong to settings. -/
theorem mem_storedValues {settings : List Setting} {auto : Bool} {key : Text} {value : RegValue}
    (h : (key, value) ∈ storedValues D parent auto settings) :
    ∃ w ∈ settings, w.key = key ∧ w.regValue = value ∧
      ∀ text, w = .str key text → inheritsS D (parent.find key) key text = false := by
  induction settings generalizing auto with
  | nil => cases h
  | cons w settings ih =>
    have hrest : ∀ auto, (key, value) ∈ storedValues D parent auto settings →
        ∃ w' ∈ w :: settings, w'.key = key ∧ w'.regValue = value ∧
          ∀ text, w' = .str key text → inheritsS D (parent.find key) key text = false := by
      intro auto h
      obtain ⟨w', hw', hprop⟩ := ih h
      exact ⟨w', by simp [hw'], hprop⟩
    cases w with
    | str key' value' =>
      rw [storedValues] at h
      split at h
      · exact hrest _ h
      · rename_i hinh
        rcases List.mem_cons.mp h with h | h
        · cases h
          refine ⟨.str key value', by simp, rfl, rfl, ?_⟩
          rintro text ⟨⟩
          simpa using hinh
        · exact hrest _ h
    | int key' value' =>
      rw [storedValues] at h
      split at h
      · exact hrest _ h
      · rcases List.mem_cons.mp h with h | h
        · cases h
          refine ⟨.int key value', by simp, rfl, rfl, ?_⟩
          rintro text ⟨⟩
        · exact hrest _ h

theorem keys_storedValues (settings : List Setting) (auto : Bool) :
    ((storedValues D parent auto settings).map (·.1)).Sublist (settings.map Setting.key) := by
  induction settings generalizing auto with
  | nil => exact List.Sublist.refl []
  | cons w settings ih =>
    cases w with
    | str key value =>
      rw [storedValues, List.map_cons]
      split
      · exact (ih _).cons _
      · exact (ih _).cons_cons _
    | int key value =>
      rw [storedValues, List.map_cons]
      split
      · exact (ih _).cons _
      · exact (ih _).cons_cons _

/-! ## What the loop over the values comes to -/

/-- The value fits the buffers and is a string or an integer. -/
def Plain (v : Text × RegValue) : Prop :=
  v.1.length < 1023 ∧ v.2.size ≤ 4096 ∧ v.2.text ≠ none

theorem keys_visible (n : ℕ) {vs : Values} (h : ∀ v ∈ vs, Plain v) :
    (visible n vs).map (·.1) = (vs.take n).map (·.1) := by
  induction n generalizing vs with
  | zero => simp [visible]
  | succ n ih =>
    cases vs with
    | nil => simp [visible]
    | cons v rest =>
      obtain ⟨key, value⟩ := v
      obtain ⟨hkey, hsize, htext⟩ := h (key, value) (by simp)
      have hfit : ¬ (1023 ≤ key.length ∨ 4096 < value.size) :=
        not_or.mpr ⟨Nat.not_le.mpr hkey, Nat.not_lt.mpr hsize⟩
      have hrest : (visible n rest).map (·.1) = (rest.take n).map (·.1) :=
        ih fun v hv => h v (List.mem_cons_of_mem _ hv)
      rw [visible, if_neg hfit]
      cases ht : value.text with
      | none => exact absurd ht htext
      | some text => simp [hrest]

theorem mem_visible {n : ℕ} {vs : Values} (h : ∀ v ∈ vs, Plain v) {key text : Text} {value : RegValue}
    (hmem : (key, value) ∈ vs.take n) (ht : value.text = some text) : (key, text) ∈ visible n vs := by
  induction n generalizing vs with
  | zero => simp at hmem
  | succ n ih =>
    cases vs with
    | nil => simp at hmem
    | cons v rest =>
      obtain ⟨key', value'⟩ := v
      obtain ⟨hkey, hsize, htext⟩ := h (key', value') (by simp)
      have hfit : ¬ (1023 ≤ key'.length ∨ 4096 < value'.size) :=
        not_or.mpr ⟨Nat.not_le.mpr hkey, Nat.not_lt.mpr hsize⟩
      rw [visible, if_neg hfit]
      rw [List.take_succ_cons] at hmem
      rcases List.mem_cons.mp hmem with heq | hmem
      · cases heq
        simp [ht]
      · have hrest := ih (fun v hv => h v (by simp [hv])) hmem
        cases value'.text with
        | none => exact hrest
        | some text' => exact List.mem_cons_of_mem _ hrest

theorem find_of_mem {t : Tree} {key text : Text} (hnodup : (t.map (·.1)).Nodup)
    (h : (key, text) ∈ t) : t.find key = some text := by
  induction t with
  | nil => cases h
  | cons a t ih =>
    rw [List.map_cons, List.nodup_cons] at hnodup
    rcases List.mem_cons.mp h with rfl | h
    · exact List.lookup_cons_self
    · have hne : key ≠ a.1 := fun heq => hnodup.1 (heq ▸ List.mem_map_of_mem h)
      rw [Tree.find, List.lookup_cons, beq_false_of_ne hne]
      exact ih hnodup.2 h

theorem find_of_notMem {t : Tree} {key : Text} (h : key ∉ t.map (·.1)) : t.find key = none := by
  rw [Tree.find, List.lookup_eq_none_iff]
  intro a ha
  have hne : key ≠ a.1 := fun heq => h (heq ▸ List.mem_map_of_mem ha)
  simpa using hne

variable {R : Registry}

/-- A value that is reached is found. -/
theorem find_reached {vs : Values} (h : ∀ v ∈ vs, Plain v) (hnodup : (vs.map (·.1)).Nodup)
    {key text : Text} {value : RegValue} (hmem : (key, value) ∈ vs) (ht : value.text = some text)
    (hreached : Reached R vs key) : (visible 10000 (R.enumerate vs)).find key = some text := by
  have hperm := R.perm vs
  have hplain : ∀ v ∈ R.enumerate vs, Plain v := fun v hv => h v (hperm.mem_iff.mp hv)
  have hkeys : ((R.enumerate vs).map (·.1)).Nodup := (hperm.map _).nodup_iff.mpr hnodup
  obtain ⟨v, hv, hkey⟩ := List.mem_map.mp hreached
  have hsame : v = (key, value) := by
    have hv' := List.mem_of_mem_take hv
    exact List.inj_on_of_nodup_map hkeys hv' (hperm.mem_iff.mpr hmem) hkey
  apply find_of_mem
  · rw [keys_visible _ hplain]
    exact hkeys.sublist ((List.take_sublist _ _).map _)
  · exact mem_visible hplain (hsame ▸ hv) ht

theorem find_unreached {vs : Values} (h : ∀ v ∈ vs, Plain v) {key : Text}
    (hreached : ¬ Reached R vs key) : (visible 10000 (R.enumerate vs)).find key = none := by
  have hplain : ∀ v ∈ R.enumerate vs, Plain v := fun v hv => h v ((R.perm vs).mem_iff.mp hv)
  apply find_of_notMem
  rw [keys_visible _ hplain]
  exact hreached

/-! ## Reading back -/

theorem Setting.read_congr {t t' : Tree} {w : Setting} (h : t.find w.key = t'.find w.key) :
    w.Read D t ↔ w.Read D t' := by
  cases w with
  | str key value =>
    have h' : t.find key = t'.find key := h
    simp only [Setting.Read, readSettingS, h']
  | int key value =>
    have h' : t.find key = t'.find key := h
    simp only [Setting.Read, readSettingI, h']

/-- A setting whose own value is found. -/
theorem Setting.read_own {t : Tree} {w : Setting} (h : t.find w.key = w.regValue.text)
    (hshort : w.Short) : w.Read D t := by
  cases w with
  | str key value =>
    have h' : t.find key = some value := h
    left
    rw [readSettingS, h', Option.map_some, List.take_of_length_le hshort]
  | int key value =>
    have h' : t.find key = some (decimal value.toInt) := h
    left
    intro defvalue
    rw [readSettingI, h']
    exact atoi_decimal value

theorem Setting.read_version {t : Tree} {w : Setting} (h : t.find w.key = some ['2']) :
    w.Read D t ↔ w.Short ∧ w.IsVersion := by
  cases w with
  | str key value =>
    have h' : t.find key = some ['2'] := h
    have hread : readSettingS t key = some ['2'] := by
      rw [readSettingS, h']
      rfl
    simp only [Setting.Read, hread, Setting.Short, Setting.IsVersion, Option.some.injEq, reduceCtorEq,
      false_and, or_false]
    constructor
    · rintro rfl
      exact ⟨by simp, rfl⟩
    · rintro ⟨-, rfl⟩
      rfl
  | int key value =>
    have h' : t.find key = some ['2'] := h
    have hread : ∀ defvalue, readSettingI t key defvalue = DATA_VERSION := by
      intro defvalue
      rw [readSettingI, h']
      show atoi ['2'] = DATA_VERSION
      decide
    have hdef : ¬ ∀ defvalue : Int32, DATA_VERSION = defvalue := by
      intro hall
      exact absurd (hall 0) (by decide)
    simp only [Setting.Read, hread, Setting.Short, Setting.IsVersion, true_and, hdef, false_and,
      or_false, forall_const]
    exact eq_comm

/-- A string that is too long for the reader and that is not inherited is not read back. -/
theorem not_read_long {t : Tree} {key value : Text} (hlong : 1023 < value.length)
    (hinh : inheritsS D (parent.find key) key value = false)
    (hfind : t.find key = none → parent.find key = none) : ¬ (Setting.str key value).Read D t := by
  rintro (hread | ⟨hnone, hdefault⟩)
  · rw [readSettingS, Option.map_eq_some_iff] at hread
    obtain ⟨text, -, htake⟩ := hread
    have hlen := congrArg List.length htake
    rw [List.length_take] at hlen
    omega
  · rw [readSettingS, Option.map_eq_none_iff] at hnone
    rw [hfind hnone] at hinh
    simp [inheritsS, hdefault] at hinh

/-! ## The session that is written -/

/-- What a reader finds once the session is deleted. -/
theorem inherited_spec (s : Sessions) {name : Text} (hfits : Fits name) :
    ∃ parent, openSettingsR R (delSettingsOnly s name) name = some parent ∧
      ∀ k, parent.find k = firstOf R (delSettingsOnly s name) (ancestors name) k := by
  obtain ⟨parent, hopen, hfind⟩ := openSettingsR_spec (R := R) (s := delSettingsOnly s name) hfits
  have hown : own R (delSettingsOnly s name) name = [] := by
    unfold own delSettingsOnly
    rw [put_self]
    simp [enumerate_nil, visible]
  exact ⟨parent, hopen, fun k => by rw [hfind, hown]; rfl⟩

/-- The handle has the key of the session, which has no values yet, and what the session inherits. -/
theorem openSettingsW_spec (s : Sessions) {name : Text} (hname : ∀ c ∈ name, c.toNat < 256)
    (hne : name ≠ []) (hfits : Fits name) :
    ∃ hd, openSettingsW R (delSettingsOnly s name) name =
        some (s.put (mungestr name) (some []), some hd) ∧
      hd.implStoreHandle = mungestr name ∧
      ∀ k, hd.parentConf.bind (·.find k) = firstOf R (delSettingsOnly s name) (ancestors name) k := by
  have hcreated : (delSettingsOnly s name).put (mungestr name)
      (some ((delSettingsOnly s name (mungestr name)).getD [])) = s.put (mungestr name) (some []) := by
    unfold delSettingsOnly
    rw [put_self, put_put]
    rfl
  unfold openSettingsW
  rw [if_neg hne]
  simp only [hcreated]
  by_cases hdefault : name = DEFAULT_SESSION_NAME
  · refine ⟨⟨none, mungestr name⟩, by rw [if_pos hdefault], rfl, ?_⟩
    intro k
    rw [hdefault, ancestors_default]
    rfl
  · have hlen : ¬ 4096 ≤ name.length :=
      Nat.not_le.mpr (Nat.lt_of_le_of_lt (length_mungeFrom false name) hfits)
    have hanc := ancestors_eq hdefault
    have hparent : Fits (parentName name) := fits_ancestors hfits (by rw [hanc]; simp)
    obtain ⟨tree, hopen, hfind⟩ :=
      openSettingsR_spec (R := R) (s := s.put (mungestr name) (some [])) hparent
    have hchanged : ∀ key, key ≠ mungestr name →
        s.put (mungestr name) (some []) key = delSettingsOnly s name key := by
      intro key hkey
      rw [delSettingsOnly, put_of_ne hkey, put_of_ne hkey]
    refine ⟨⟨some tree, mungestr name⟩, ?_, rfl, ?_⟩
    · rw [if_neg hdefault, if_neg hlen]
      unfold parentName at hopen
      cases hhash : strrchr '#' name.dropLast with
      | some before =>
        rw [hhash] at hopen
        simp only [hopen]
        rfl
      | none =>
        rw [hhash] at hopen
        simp only [hopen]
        rfl
    · intro k
      rw [← firstOf_congr hname hchanged, hanc]
      show tree.find k = _
      rw [hfind, firstOf, firstOf, List.findSome?_cons]
      cases (own R (s.put (mungestr name) (some [])) (parentName name)).find k <;> rfl

/-- The values that the writer leaves in the key of the session. -/
theorem saveSession_spec (st : WriteState) {name : Text} (settings : Settings)
    (hname : ∀ c ∈ name, c.toNat < 256) (hne : name ≠ []) (hfits : Fits name)
    (hparent : ∀ k, parent.find k = firstOf R (delSettingsOnly st.sessions name) (ancestors name) k) :
    ∃ auto, saveSession R D st name settings.list =
      some ⟨auto, st.sessions.put (mungestr name)
        (some (ownValues D parent st.autoCmdWritten name settings.list))⟩ := by
  obtain ⟨hd, hopen, hkey, hinh⟩ :=
    openSettingsW_spec (R := R) st.sessions hname hne hfits
  have hp : HasParent hd parent := fun k => by rw [hinh, hparent]
  obtain ⟨auto, hfold⟩ := foldl_write (D := D) hp st.sessions settings.list st.autoCmdWritten []
    settings.distinct (by simp)
  refine ⟨auto, ?_⟩
  unfold saveSession
  rw [hopen]
  rw [hkey] at hfold
  simp only [Option.bind_eq_bind, Option.bind_some, hfold, List.nil_append, closeSettingsW, hkey]
  rw [regSetValueEx_put, ownValues, if_neg hne]

/-! ## When a session is transparent -/

theorem mem_setValue {vs : Values} {key key' : Text} {value value' : RegValue} :
    (key', value') ∈ setValue vs key value ↔
      (key' = key ∧ value' = value) ∨ (key' ≠ key ∧ (key', value') ∈ vs) := by
  unfold setValue
  by_cases h : key ∈ vs.map (·.1)
  · rw [if_pos h, List.mem_map]
    constructor
    · rintro ⟨⟨k, v⟩, hmem, heq⟩
      by_cases hk : k = key
      · simp only [hk, if_true] at heq
        cases heq
        exact Or.inl ⟨rfl, rfl⟩
      · simp only [hk, if_false] at heq
        cases heq
        exact Or.inr ⟨hk, hmem⟩
    · rintro (⟨rfl, rfl⟩ | ⟨hne, hmem⟩)
      · obtain ⟨v, hv, rfl⟩ := List.mem_map.mp h
        exact ⟨v, hv, by simp⟩
      · exact ⟨_, hmem, by simp [hne]⟩
  · rw [if_neg h, List.mem_append, List.mem_singleton]
    constructor
    · rintro (hmem | heq)
      · refine Or.inr ⟨?_, hmem⟩
        rintro rfl
        exact h (List.mem_map_of_mem hmem)
      · cases heq
        exact Or.inl ⟨rfl, rfl⟩
    · rintro (⟨rfl, rfl⟩ | ⟨-, hmem⟩)
      · exact Or.inr rfl
      · exact Or.inl hmem

theorem nodup_setValue {vs : Values} (h : (vs.map (·.1)).Nodup) (key : Text) (value : RegValue) :
    ((setValue vs key value).map (·.1)).Nodup := by
  rw [keys_setValue]
  split
  · exact h
  · rename_i hkey
    exact List.nodup_append.mpr ⟨h, by simp, by
      intro a ha b hb
      obtain rfl : b = key := by simpa using hb
      exact fun heq => hkey (heq ▸ ha)⟩

variable {settings : Settings} {auto : Bool}

variable (auto) in
/-- If no string that is written is too long for the reader, every value of the session is plain. -/
theorem plain_ownValues (h : ∀ w ∈ settings.list, ∀ key value, w = .str key value →
      inheritsS D (parent.find key) key value = false → value.length ≤ 1023) :
    ∀ v ∈ setValue (storedValues D parent auto settings.list) "DataVersion".toList
      (.dword DATA_VERSION), Plain v := by
  rintro ⟨key, value⟩ hv
  rcases mem_setValue.mp hv with ⟨rfl, rfl⟩ | ⟨-, hv⟩
  · exact ⟨by decide, by decide, by simp [RegValue.text]⟩
  · obtain ⟨w, hw, rfl, rfl, hinh⟩ := mem_storedValues hv
    have hkey := settings.short w hw
    refine ⟨by show w.key.length < 1023; omega, ?_, ?_⟩
    · cases w with
      | str key text =>
        have hlen := h _ hw key text rfl (hinh text rfl)
        show text.length + 1 ≤ 4096
        omega
      | int key n =>
        show 4 ≤ 4096
        omega
    · cases w <;> simp [Setting.regValue, RegValue.text]

/-- The values of the session and what it inherits answer a setting as `Answered` says. -/
theorem read_iff_answered {t : Tree} {own : Values}
    (hown : own = setValue (storedValues D parent auto settings.list) "DataVersion".toList
      (.dword DATA_VERSION))
    (hplain : ∀ v ∈ own, Plain v)
    (hfind : ∀ k, t.find k = ((visible 10000 (R.enumerate own)).find k).or (parent.find k))
    (hlong : ∀ w ∈ settings.list, ∀ key value, w = .str key value →
      inheritsS D (parent.find key) key value = false → value.length ≤ 1023)
    {w : Setting} (hw : w ∈ settings.list) : w.Read D t ↔ w.Answered R D parent own := by
  have hnodup : (own.map (·.1)).Nodup :=
    hown ▸ nodup_setValue (settings.distinct.sublist (keys_storedValues _ _)) _ _
  by_cases hreached : Reached R own w.key
  · have hanswered : w.Answered R D parent own ↔
        w.Short ∧ (w.key = "DataVersion".toList → w.IsVersion) := by
      simp [Setting.Answered, hreached]
    rw [hanswered]
    by_cases hversion : w.key = "DataVersion".toList
    · have hmem : (w.key, RegValue.dword DATA_VERSION) ∈ own := by
        rw [hown]
        exact mem_setValue.mpr (Or.inl ⟨hversion, rfl⟩)
      have hvalue : t.find w.key = some ['2'] := by
        have htext : (RegValue.dword DATA_VERSION).text = some ['2'] := by decide
        rw [hfind, find_reached hplain hnodup hmem htext hreached]
        rfl
      rw [Setting.read_version hvalue]
      simp [hversion]
    · obtain ⟨⟨key, value⟩, hv, hkey⟩ := List.mem_map.mp hreached
      have hkey' : key = w.key := hkey
      subst hkey'
      have hmem : (w.key, value) ∈ own := (R.perm own).mem_iff.mp (List.mem_of_mem_take hv)
      rw [hown] at hmem
      rcases mem_setValue.mp hmem with ⟨heq, -⟩ | ⟨-, hstored⟩
      · exact absurd heq hversion
      · obtain ⟨w', hw', hkeys, hval, hinh⟩ := mem_storedValues hstored
        obtain rfl : w' = w := List.inj_on_of_nodup_map settings.distinct hw' hw hkeys
        have hshort : w'.Short := by
          cases w' with
          | str key text => exact hlong _ hw key text rfl (hinh text rfl)
          | int key n => trivial
        have htext : ∃ text, w'.regValue.text = some text := by cases w' <;> exact ⟨_, rfl⟩
        obtain ⟨text, htext⟩ := htext
        have hvalue : t.find w'.key = w'.regValue.text := by
          rw [hfind, find_reached hplain hnodup (hown ▸ hmem) (hval ▸ htext) hreached, htext]
          rfl
        exact iff_of_true (Setting.read_own hvalue hshort) ⟨hshort, fun h => absurd h hversion⟩
  · have hvalue : t.find w.key = parent.find w.key := by
      rw [hfind, find_unreached hplain hreached]
      rfl
    rw [Setting.read_congr hvalue]
    simp [Setting.Answered, hreached]

/-- A string that is too long for the reader and that is written is not answered. -/
theorem not_answered_long {own : Values} {key value : Text} (hlong : 1023 < value.length)
    (hinh : inheritsS D (parent.find key) key value = false) :
    ¬ (Setting.str key value).Answered R D parent own := by
  rintro (⟨-, hshort, -⟩ | ⟨-, hread⟩)
  · exact absurd hshort (Nat.not_le.mpr hlong)
  · exact not_read_long hlong hinh (fun h => h) hread

theorem foldl_write_none (st : WriteState) (settings : List Setting) :
    (settings.foldl (Setting.write D none) st).sessions = st.sessions := by
  induction settings generalizing st with
  | nil => rfl
  | cons w settings ih =>
    rw [List.foldl_cons, ih]
    cases w with
    | str key value =>
      simp only [Setting.write, writeSettingS]
      split <;> rfl
    | int key value => rfl

theorem transparent_empty (R : Registry) (D : DefaultValues) (st : WriteState)
    (settings : List Setting) :
    Transparent R D st [] settings ↔
      ∃ parent, openSettingsR R (delSettingsOnly st.sessions []) [] = some parent ∧
        ∀ w ∈ settings, w.Read D parent := by
  unfold Transparent saveSession openSettingsW
  simp only [if_true, Option.bind_eq_bind, Option.bind_some, closeSettingsW]
  constructor
  · rintro ⟨st', tree, hsave, hopen, hread⟩
    cases hsave
    rw [foldl_write_none] at hopen
    exact ⟨tree, hopen, hread⟩
  · rintro ⟨tree, hopen, hread⟩
    refine ⟨_, tree, rfl, ?_, hread⟩
    rw [foldl_write_none]
    exact hopen

/-- What a reader finds after the session was written: its own values before those that it inherits. -/
theorem openSettingsR_saved (s : Sessions) {name : Text} (hname : ∀ c ∈ name, c.toNat < 256)
    (hne : name ≠ []) (hfits : Fits name) (vs : Values)
    (hparent : ∀ k, parent.find k = firstOf R (delSettingsOnly s name) (ancestors name) k) :
    ∃ tree, openSettingsR R (s.put (mungestr name) (some vs)) name = some tree ∧
      ∀ k, tree.find k = ((visible 10000 (R.enumerate vs)).find k).or (parent.find k) := by
  obtain ⟨tree, hopen, hfind⟩ :=
    openSettingsR_spec (R := R) (s := s.put (mungestr name) (some vs)) hfits
  refine ⟨tree, hopen, ?_⟩
  intro k
  have hchanged : ∀ key, key ≠ mungestr name →
      s.put (mungestr name) (some vs) key = delSettingsOnly s name key := by
    intro key hkey
    rw [delSettingsOnly, put_of_ne hkey, put_of_ne hkey]
  rw [hfind, firstOf_congr hname hchanged, ← hparent, own, if_neg hne, put_self]
  rfl

/-- The run of the writer and the reader. -/
theorem transparent_run (st : WriteState) {name : Text} (settings : Settings)
    (hname : ∀ c ∈ name, c.toNat < 256)
    (hne : name ≠ []) (hfits : Fits name)
    (hparent : ∀ k, parent.find k = firstOf R (delSettingsOnly st.sessions name) (ancestors name) k) :
    ∃ tree,
      (∀ k, tree.find k = ((visible 10000 (R.enumerate
        (ownValues D parent st.autoCmdWritten name settings.list))).find k).or (parent.find k)) ∧
      (Transparent R D st name settings.list ↔ ∀ w ∈ settings.list, w.Read D tree) := by
  obtain ⟨auto, hsave⟩ := saveSession_spec (D := D) st settings hname hne hfits hparent
  obtain ⟨tree, hopen, hfind⟩ := openSettingsR_saved st.sessions hname hne hfits
    (ownValues D parent st.autoCmdWritten name settings.list) hparent
  refine ⟨tree, hfind, ?_⟩
  unfold Transparent
  rw [hsave]
  constructor
  · rintro ⟨st', tree', hst, htree, hread⟩
    cases hst
    rw [hopen] at htree
    cases htree
    exact hread
  · intro hread
    exact ⟨_, tree, rfl, hopen, hread⟩

/-- **When a later reader gets the settings that were written.** -/
theorem transparent_iff (R : Registry) (D : DefaultValues) (st : WriteState) (name : SessionName)
    (settings : Settings) :
    Transparent R D st name settings.list ↔
      Fits name ∧ ∃ parent, openSettingsR R (delSettingsOnly st.sessions name) name = some parent ∧
        ∀ w ∈ settings.list, w.Answered R D parent
          (ownValues D parent st.autoCmdWritten name settings.list) := by
  obtain ⟨name, hname⟩ := name
  by_cases hne : name = []
  · subst hne
    have hreached : ∀ key, ¬ Reached R [] key := by simp [Reached, enumerate_nil]
    have hfits : Fits [] := by
      unfold Fits
      decide
    simp only [transparent_empty, hfits, true_and, Setting.Answered, ownValues, if_true, hreached,
      false_and, false_or, not_false_eq_true]
  · by_cases hfits : Fits name
    · obtain ⟨parent, hinherited, hparent⟩ := inherited_spec (R := R) st.sessions hfits
      obtain ⟨tree, hfind, hrun⟩ :=
        transparent_run (D := D) st settings hname hne hfits hparent
      have hcond : (Fits name ∧ ∃ parent,
          openSettingsR R (delSettingsOnly st.sessions name) name = some parent ∧
            ∀ w ∈ settings.list, w.Answered R D parent
              (ownValues D parent st.autoCmdWritten name settings.list)) ↔
          ∀ w ∈ settings.list, w.Answered R D parent
            (ownValues D parent st.autoCmdWritten name settings.list) := by
        simp [hfits, hinherited]
      rw [hcond, hrun]
      by_cases hlong : ∀ w ∈ settings.list, ∀ key value, w = .str key value →
          inheritsS D (parent.find key) key value = false → value.length ≤ 1023
      · have hown : ownValues D parent st.autoCmdWritten name settings.list =
            setValue (storedValues D parent st.autoCmdWritten settings.list) "DataVersion".toList
              (.dword DATA_VERSION) := if_neg hne
        have hplain := plain_ownValues st.autoCmdWritten hlong
        exact forall₂_congr fun w hw => read_iff_answered hown (hown ▸ hplain) hfind hlong hw
      · -- a string that is too long is written: neither side holds for it
        push Not at hlong
        obtain ⟨w, hw, key, value, rfl, hinh, hlen⟩ := hlong
        apply iff_of_false
        · intro hread
          refine not_read_long hlen hinh ?_ (hread _ hw)
          intro hnone
          rw [hfind, Option.or_eq_none_iff] at hnone
          exact hnone.2
        · intro hanswered
          exact not_answered_long hlen hinh (hanswered _ hw)
    · apply iff_of_false
      · rintro ⟨st', tree, -, hopen, -⟩
        rw [openSettingsR_none hne hfits] at hopen
        cases hopen
      · rintro ⟨hfits', -⟩
        exact hfits hfits'

/-- One string. -/
def oneString (value : Text) : Settings where
  list := [.str ['k'] value]
  distinct := by simp
  short := by simp [Setting.key]

/-- A string of 1024 characters is cut when it is read. -/
theorem transparent_counterexample :
    ¬ ∀ R D st (name : SessionName) (settings : Settings), Transparent R D st name settings.list := by
  intro hall
  let R : Registry := ⟨id, fun vs => List.Perm.refl vs⟩
  let D : DefaultValues := ⟨fun _ => none, fun _ => none⟩
  let st : WriteState := ⟨false, fun _ => none⟩
  let settings := oneString (List.replicate 1024 'x')
  have hname : ∀ c ∈ ['a'], c.toNat < 256 := by simp
  have hfits : Fits ['a'] := by
    unfold Fits
    decide
  obtain ⟨parent, -, hparent⟩ := inherited_spec (R := R) st.sessions hfits
  obtain ⟨tree, hfind, hrun⟩ := transparent_run (D := D) st settings hname (by simp) hfits hparent
  have hread := hrun.mp (hall R D st ⟨['a'], hname⟩ settings) _ (List.mem_singleton.mpr rfl)
  have hnothing : parent.find ['k'] = none := by
    rw [hparent, firstOf, List.findSome?_eq_none_iff]
    intro a _
    have hempty : delSettingsOnly st.sessions ['a'] (mungestr a) = none := by
      simp [delSettingsOnly, Sessions.put, st]
    simp [own, hempty, R, visible, Tree.find]
  have hlen : 1023 < (List.replicate 1024 'x').length := by
    rw [List.length_replicate]
    omega
  have hinh : inheritsS D (parent.find ['k']) ['k'] (List.replicate 1024 'x') = false := by
    rw [hnothing]
    rfl
  exact not_read_long hlen hinh (fun _ => hnothing) hread

end PuttyNd.Storage
