import PuttyNd.Storage.TmplStore

/-!
# The registry: names, values and ancestors

Different sessions have different keys (`mungestr_injective`). A reader finds for each key the value of
the first session of the lineage that shows it (`foldlM_load`).
-/

namespace PuttyNd.Storage

open WinRegStore TmplStore

/-! ## Names -/

theorem hex_injective {m n : ℕ} (hm : m < 16) (hn : n < 16) (h : hex m = hex n) : m = n := by
  have hall : ∀ i < 16, ∀ j < 16, hex i = hex j → i = j := by decide
  exact hall m hm n hn h

theorem mungeChar_plain {candot : Bool} {c : Char} (h : escaped candot c = false) :
    mungeChar candot c = [c] ∧ c ≠ '%' := by
  constructor
  · simp [mungeChar, h]
  · rintro rfl
    simp [escaped] at h

theorem mungeChar_escaped {candot : Bool} {c : Char} (h : escaped candot c = true) :
    mungeChar candot c = ['%', hex (c.toNat / 16), hex (c.toNat % 16)] := by
  simp [mungeChar, h]

theorem mungeChar_append {candot : Bool} {c d : Char} {r r' : Text} (hc : c.toNat < 256)
    (hd : d.toNat < 256) (h : mungeChar candot c ++ r = mungeChar candot d ++ r') :
    c = d ∧ r = r' := by
  cases hec : escaped candot c with
  | false =>
    obtain ⟨hplain, hne⟩ := mungeChar_plain hec
    cases hed : escaped candot d with
    | false =>
      obtain ⟨hplain', -⟩ := mungeChar_plain hed
      rw [hplain, hplain'] at h
      exact ⟨(List.cons.inj h).1, (List.cons.inj h).2⟩
    | true =>
      rw [hplain, mungeChar_escaped hed] at h
      exact absurd (List.cons.inj h).1 hne
  | true =>
    cases hed : escaped candot d with
    | false =>
      obtain ⟨hplain', hne⟩ := mungeChar_plain hed
      rw [hplain', mungeChar_escaped hec] at h
      exact absurd (List.cons.inj h).1.symm hne
    | true =>
      rw [mungeChar_escaped hec, mungeChar_escaped hed] at h
      simp only [List.cons_append, List.nil_append, List.cons.injEq, true_and] at h
      have hhi := hex_injective (by omega) (by omega) h.1
      have hlo := hex_injective (by omega) (by omega) h.2.1
      have hcd : c.toNat = d.toNat := by omega
      exact ⟨Char.toNat_inj.mp hcd, h.2.2⟩

theorem mungeChar_ne_nil (candot : Bool) (c : Char) : mungeChar candot c ≠ [] := by
  unfold mungeChar
  split <;> simp

/-- Two sessions have the same key only if they have the same name. -/
theorem mungeFrom_injective {s t : Text} (hs : ∀ c ∈ s, c.toNat < 256) (ht : ∀ c ∈ t, c.toNat < 256)
    {candot : Bool} (h : mungeFrom candot s = mungeFrom candot t) : s = t := by
  induction s generalizing t candot with
  | nil =>
    cases t with
    | nil => rfl
    | cons d t => exact absurd (List.append_eq_nil_iff.mp h.symm).1 (mungeChar_ne_nil _ _)
  | cons c s ih =>
    cases t with
    | nil => exact absurd (List.append_eq_nil_iff.mp h).1 (mungeChar_ne_nil _ _)
    | cons d t =>
      obtain ⟨hcd, hrest⟩ := mungeChar_append (hs c (by simp)) (ht d (by simp)) h
      rw [hcd, ih (fun a ha => hs a (by simp [ha])) (fun a ha => ht a (by simp [ha])) hrest]

theorem mungestr_injective {s t : Text} (hs : ∀ c ∈ s, c.toNat < 256) (ht : ∀ c ∈ t, c.toNat < 256)
    (h : mungestr s = mungestr t) : s = t := mungeFrom_injective hs ht h

theorem mungeFrom_length_append (candot : Bool) (s t : Text) :
    (mungeFrom candot s).length ≤ (mungeFrom candot (s ++ t)).length := by
  induction s generalizing candot with
  | nil => simp [mungeFrom]
  | cons c s ih => simp [mungeFrom, ih]

theorem length_mungeFrom (candot : Bool) (s : Text) : s.length ≤ (mungeFrom candot s).length := by
  induction s generalizing candot with
  | nil => simp
  | cons c s ih =>
    have hpos := List.length_pos_iff.mpr (mungeChar_ne_nil candot c)
    have hrest := ih true
    rw [mungeFrom, List.length_append, List.length_cons]
    omega

/-! ## The sessions that are read -/

/-- The sessions that the loop over the ancestors loads. -/
def parents (s : Text) : List Text :=
  match _h : strrchr '#' s with
  | none => []
  | some before => (before ++ ['#']) :: parents before
termination_by s.length
decreasing_by exact strrchr_length _h

/-- The sessions that are loaded after the session itself. -/
def ancestors (name : Text) : List Text :=
  parents name.dropLast ++ if name ≠ DEFAULT_SESSION_NAME then [DEFAULT_SESSION_NAME] else []

theorem parents_none {s : Text} (h : strrchr '#' s = none) : parents s = [] := by
  rw [parents]
  split
  · rfl
  · rename_i before hsome
    rw [h] at hsome
    cases hsome

theorem parents_some {s before : Text} (h : strrchr '#' s = some before) :
    parents s = (before ++ ['#']) :: parents before := by
  rw [parents]
  split
  · rename_i hnone
    rw [h] at hnone
    cases hnone
  · rename_i before' hsome
    rw [h] at hsome
    cases hsome
    rfl

theorem strrchr_eq_some {c : Char} {s before : Text} (h : strrchr c s = some before) :
    ∃ rest, s = before ++ c :: rest := by
  induction s generalizing before with
  | nil => cases h
  | cons a s ih =>
    rw [strrchr] at h
    cases hrest : strrchr c s with
    | some before' =>
      rw [hrest] at h
      cases h
      obtain ⟨rest, hs⟩ := ih hrest
      exact ⟨rest, by rw [hs, List.cons_append]⟩
    | none =>
      simp only [hrest] at h
      split at h
      · rename_i hac
        cases h
        exact ⟨s, by rw [hac, List.nil_append]⟩
      · cases h

/-- Each ancestor found by the loop is a part of the name up to a `#`. -/
theorem mem_parents {s a : Text} (h : a ∈ parents s) : ∃ rest, s = a ++ rest := by
  induction s using parents.induct with
  | case1 s hs =>
    rw [parents_none hs] at h
    cases h
  | case2 s before hs ih =>
    obtain ⟨rest, hrest⟩ := strrchr_eq_some hs
    rw [parents_some hs] at h
    rcases List.mem_cons.mp h with rfl | h
    · exact ⟨rest, by rw [hrest, List.append_assoc, List.singleton_append]⟩
    · obtain ⟨rest', hrest'⟩ := ih h
      exact ⟨rest' ++ '#' :: rest, by rw [hrest, ← List.append_assoc, ← hrest']⟩

/-- The parent that the writer opens. -/
def parentName (name : Text) : Text :=
  match strrchr '#' name.dropLast with
  | some before => before ++ ['#']
  | none => DEFAULT_SESSION_NAME

/-- **The ancestors of the reader are the parent of the writer and the ancestors of this parent.** -/
theorem ancestors_eq {name : Text} (h : name ≠ DEFAULT_SESSION_NAME) :
    ancestors name = parentName name :: ancestors (parentName name) := by
  have hdefault : parents DEFAULT_SESSION_NAME.dropLast = [] := parents_none (by decide)
  unfold ancestors parentName
  cases hs : strrchr '#' name.dropLast with
  | none =>
    simp only [parents_none hs, if_pos h, hdefault]
    simp
  | some before =>
    have hne : before ++ ['#'] ≠ DEFAULT_SESSION_NAME := by
      intro heq
      have hmem : '#' ∈ DEFAULT_SESSION_NAME := heq ▸ by simp
      exact absurd hmem (by decide)
    simp [parents_some hs, h, hne]

theorem ancestors_default : ancestors DEFAULT_SESSION_NAME = [] := by
  rw [ancestors, parents_none (by decide)]
  simp

theorem mem_ancestors {name a : Text} (h : a ∈ ancestors name) :
    (∃ rest, rest ≠ [] ∧ name = a ++ rest) ∨ a = DEFAULT_SESSION_NAME := by
  rcases List.mem_append.mp h with h | h
  · left
    obtain ⟨rest, hrest⟩ := mem_parents h
    rcases List.eq_nil_or_concat name with rfl | ⟨init, c, rfl⟩
    · rw [List.dropLast_nil, parents_none rfl] at h
      cases h
    · rw [List.concat_eq_append, List.dropLast_concat] at hrest
      exact ⟨rest ++ [c], by simp, by rw [List.concat_eq_append, hrest, List.append_assoc]⟩
  · right
    split at h
    · simpa using h
    · cases h

/-- The session is not one of its ancestors. -/
theorem ne_of_mem_ancestors {name a : Text} (h : a ∈ ancestors name) : a ≠ name := by
  rintro rfl
  rcases mem_ancestors h with ⟨rest, hne, heq⟩ | rfl
  · exact hne (by simpa using heq)
  · rw [ancestors_default] at h
    cases h

/-! ## What a reader finds -/

/-- What the loop over the values of a key shows: the texts up to the first value that does not fit. -/
def visible : ℕ → Values → Tree
  | 0, _ => []
  | _, [] => []
  | n + 1, (key, value) :: rest =>
    if 1023 ≤ key.length ∨ 4096 < value.size then []
    else
      match value.text with
      | none => visible n rest
      | some text => (key, text) :: visible n rest

theorem find_append (t t' : Tree) (k : Text) :
    Tree.find (t ++ t') k = (t.find k).or (t'.find k) := List.lookup_append

theorem find_loadValues (n : ℕ) (vs : Values) (t : Tree) (k : Text) :
    (loadValues n vs t).find k = (t.find k).or ((visible n vs).find k) := by
  induction n generalizing vs t with
  | zero => simp [loadValues, visible, Tree.find]
  | succ n ih =>
    cases vs with
    | nil => simp [loadValues, visible, Tree.find]
    | cons v rest =>
      obtain ⟨key, value⟩ := v
      rw [loadValues, visible]
      by_cases hfit : 1023 ≤ key.length ∨ 4096 < value.size
      · rw [if_pos hfit, if_pos hfit]
        simp [Tree.find]
      · rw [if_neg hfit, if_neg hfit]
        cases value.text with
        | none => exact ih rest t
        | some text =>
          have hcons : Tree.find ((key, text) :: visible n rest) k =
              (Tree.find [(key, text)] k).or (Tree.find (visible n rest) k) :=
            find_append [(key, text)] (visible n rest) k
          rw [hcons, ← Option.or_assoc]
          cases hkey : t.find key with
          | none =>
            show (loadValues n rest (t ++ [(key, text)])).find k = _
            rw [ih, find_append]
          | some old =>
            show (loadValues n rest t).find k = _
            rw [ih]
            -- the new value is behind the one that the tree has
            by_cases hk : k = key
            · rw [hk, hkey]
              rfl
            · have hother : Tree.find [(key, text)] k = none := by
                rw [Tree.find, List.lookup_cons, beq_false_of_ne hk]
                rfl
              rw [hother, Option.or_none]

/-- The name fits the buffer of `load_settings_to_tree234`. -/
def Fits (name : Text) : Prop := (mungestr name).length < 4096

/-- What a session shows by itself. -/
def own (R : Registry) (s : Sessions) (name : Text) : Tree :=
  if name = [] then [] else visible 10000 (R.enumerate ((s (mungestr name)).getD []))

theorem fits_append {s t : Text} (h : Fits (s ++ t)) : Fits s :=
  Nat.lt_of_le_of_lt (mungeFrom_length_append false s t) h

theorem fits_default : Fits DEFAULT_SESSION_NAME := by
  unfold Fits
  decide

theorem fits_ancestors {name a : Text} (h : Fits name) (ha : a ∈ ancestors name) : Fits a := by
  rcases mem_ancestors ha with ⟨rest, -, rfl⟩ | rfl
  · exact fits_append h
  · exact fits_default

variable {R : Registry} {s s' : Sessions}

theorem enumerate_nil : R.enumerate [] = [] := List.perm_nil.mp (R.perm [])

/-- Loading a session adds what it shows behind what was there. -/
theorem load_spec (name : Text) (h : Fits name) (t : Tree) :
    ∃ t', loadSettingsToTree234 R s name t = some t' ∧
      ∀ k, t'.find k = (t.find k).or ((own R s name).find k) := by
  unfold loadSettingsToTree234 own
  by_cases hname : name = []
  · exact ⟨t, by rw [if_pos hname], by simp [hname, Tree.find]⟩
  · rw [if_neg hname, if_neg (Nat.not_le.mpr h), if_neg hname]
    cases s (mungestr name) with
    | none => exact ⟨t, rfl, by simp [enumerate_nil, visible, Tree.find]⟩
    | some vs => exact ⟨_, rfl, find_loadValues 10000 _ t⟩

/-- What the first session of the list with the key shows. -/
def firstOf (R : Registry) (s : Sessions) (names : List Text) (k : Text) : Option Text :=
  names.findSome? fun name => (own R s name).find k

theorem loadParents_eq (loading : Text) (t : Tree) :
    loadParents R s loading t =
      (parents loading).foldlM (fun t name => loadSettingsToTree234 R s name t) t := by
  induction loading using parents.induct generalizing t with
  | case1 loading hs =>
    rw [parents_none hs, loadParents]
    split
    · rfl
    · rename_i before hsome
      rw [hs] at hsome
      cases hsome
  | case2 loading before hs ih =>
    rw [parents_some hs, loadParents]
    split
    · rename_i hnone
      rw [hs] at hnone
      cases hnone
    · rename_i before' hsome
      rw [hs] at hsome
      cases hsome
      rw [List.foldlM_cons]
      congr 1
      funext t'
      exact ih t'

theorem openSettingsR_eq {name : Text} (h : name.length < 4096) :
    openSettingsR R s name =
      (name :: ancestors name).foldlM (fun t name => loadSettingsToTree234 R s name t) [] := by
  unfold openSettingsR ancestors
  rw [if_neg (Nat.not_le.mpr h), List.foldlM_cons]
  congr 1
  funext t
  rw [List.foldlM_append, loadParents_eq]
  congr 1
  funext t'
  split
  · rw [List.foldlM_cons]
    simp
  · rfl

theorem foldlM_load (names : List Text) (h : ∀ name ∈ names, Fits name) (t : Tree) :
    ∃ t', names.foldlM (fun t name => loadSettingsToTree234 R s name t) t = some t' ∧
      ∀ k, t'.find k = (t.find k).or (firstOf R s names k) := by
  induction names generalizing t with
  | nil => exact ⟨t, rfl, by simp [firstOf]⟩
  | cons name names ih =>
    obtain ⟨t1, hload, hfind⟩ := load_spec (R := R) (s := s) name (h name (by simp)) t
    obtain ⟨t2, hrest, hfind'⟩ := ih (fun a ha => h a (by simp [ha])) t1
    refine ⟨t2, ?_, ?_⟩
    · rw [List.foldlM_cons, hload]
      exact hrest
    · intro k
      rw [hfind', hfind, Option.or_assoc]
      congr 1
      unfold firstOf
      rw [List.findSome?_cons]
      cases (own R s name).find k <;> rfl

/-- **A reader finds the value of the session itself, else that of its nearest ancestor with the key.** -/
theorem openSettingsR_spec {name : Text} (h : Fits name) :
    ∃ t, openSettingsR R s name = some t ∧
      ∀ k, t.find k = ((own R s name).find k).or (firstOf R s (ancestors name) k) := by
  have hlen : name.length < 4096 := Nat.lt_of_le_of_lt (length_mungeFrom false name) h
  obtain ⟨t, hload, hfind⟩ := foldlM_load (R := R) (s := s) (name :: ancestors name) (by
    intro a ha
    rcases List.mem_cons.mp ha with rfl | ha
    · exact h
    · exact fits_ancestors h ha) []
  refine ⟨t, by rw [openSettingsR_eq hlen, hload], ?_⟩
  intro k
  rw [hfind, firstOf, List.findSome?_cons]
  cases (own R s name).find k <;> rfl

theorem openSettingsR_none {name : Text} (hne : name ≠ []) (h : ¬ Fits name) :
    openSettingsR R s name = none := by
  by_cases hlen : name.length < 4096
  · rw [openSettingsR_eq hlen, List.foldlM_cons, loadSettingsToTree234, if_neg hne,
      if_pos (Nat.not_lt.mp h)]
    rfl
  · rw [openSettingsR, if_pos (Nat.not_lt.mp hlen)]

theorem default_bytes : ∀ c ∈ DEFAULT_SESSION_NAME, c.toNat < 256 := by
  intro c hc
  have hall : DEFAULT_SESSION_NAME.all (fun c => Nat.blt c.toNat 256) = true := rfl
  exact Nat.blt_eq.mp (List.all_eq_true.mp hall c hc)

/-- Only the key of the session is not the same: what the ancestors show does not change. -/
theorem firstOf_congr {name : Text} (hname : ∀ c ∈ name, c.toNat < 256)
    (h : ∀ key, key ≠ mungestr name → s' key = s key) (k : Text) :
    firstOf R s' (ancestors name) k = firstOf R s (ancestors name) k := by
  have hown : ∀ a ∈ ancestors name, own R s' a = own R s a := by
    intro a ha
    have hbytes : ∀ c ∈ a, c.toNat < 256 := by
      rcases mem_ancestors ha with ⟨rest, -, rfl⟩ | rfl
      · exact fun c hc => hname c (by simp [hc])
      · exact default_bytes
    have hkey : mungestr a ≠ mungestr name := fun heq =>
      ne_of_mem_ancestors ha (mungestr_injective hbytes hname heq)
    unfold own
    rw [h _ hkey]
  unfold firstOf
  generalize ancestors name = names at hown
  induction names with
  | nil => rfl
  | cons a names ih =>
    rw [List.findSome?_cons, List.findSome?_cons, hown a (by simp),
      ih fun b hb => hown b (by simp [hb])]

end PuttyNd.Storage
