import Mathlib.Data.List.GetD
import Mathlib.Data.List.TakeWhile
import Mathlib.Data.Prod.Lex
import Mathlib.Tactic.Common
import PuttyNd.Settings.Sesslist

/-!
# The sessions of a group

Under `sessioncmp` a group comes before its sessions, and nothing comes between them. The handler is called for all
of them, or up to the limit, if the search for the group ends at its place; otherwise for none.
-/

namespace PuttyNd.Settings

open PuttyNd.Storage LowerBound

variable {S : Strcmp} {a b : Text}

/-! ## The order -/

/-- The special sessions first, then those of the Android folder, then the others -/
def sessionRank (a : Text) : ℕ :=
  if a = DEFAULT_SESSION_NAME then 0
  else
    (if a = GLOBAL_SESSION_NAME then 0
      else (if a = ANDROID_DIR_FOLDER_NAME then 0 else (if inAndroidDir a then 0 else 1) + 1) + 1) + 1

def sessionKey (a : Text) : ℕ ×ₗ Text := toLex (sessionRank a, a)

theorem sessionKey_injective : Function.Injective sessionKey := by
  intro a b h
  exact congrArg (fun k => (ofLex k).2) h

theorem sessionKey_lt : sessionKey a < sessionKey b ↔
    sessionRank a < sessionRank b ∨ sessionRank a = sessionRank b ∧ a < b := Prod.Lex.toLex_lt_toLex

theorem sessioncmp_eq_zero : sessioncmp S a b = 0 ↔ a = b := by
  have hzero := S.eq_zero a b
  unfold sessioncmp
  dsimp only
  split_ifs <;> simp_all

/-- A name that comes before all others, in a comparison and in the rank -/
theorem special_neg {c : Text} {r : ℤ} {m n : ℕ} {X : Prop} (hne : a ≠ b) (hr : r < 0 ↔ m < n ∨ m = n ∧ X) :
    (if a = c then -1 else if b = c then 1 else r) < 0 ↔
      (if a = c then 0 else m + 1) < (if b = c then 0 else n + 1) ∨
      (if a = c then 0 else m + 1) = (if b = c then 0 else n + 1) ∧ X := by
  by_cases ha : a = c
  · have hb : b ≠ c := fun hb => hne (ha.trans hb.symm)
    rw [if_pos ha, if_pos ha, if_neg hb]
    exact iff_of_true (by omega) (.inl (Nat.succ_pos n))
  · rw [if_neg ha, if_neg ha]
    by_cases hb : b = c
    · rw [if_pos hb, if_pos hb]
      refine iff_of_false (by omega) ?_
      rintro (h | ⟨h, -⟩)
      · exact absurd h (Nat.not_lt_zero _)
      · exact absurd h (Nat.succ_ne_zero m)
    · rw [if_neg hb, if_neg hb, hr, Nat.succ_lt_succ_iff, Nat.succ_inj]

theorem folder_neg {x y : Bool} {r : ℤ} {X : Prop} (hr : r < 0 ↔ X) :
    (if x && !y then -1 else if !x && y then 1 else r) < 0 ↔
      (if x = true then 0 else 1) < (if y = true then 0 else 1) ∨
      (if x = true then 0 else 1) = (if y = true then 0 else 1) ∧ X := by
  cases x <;> cases y <;> simp [hr]

theorem sessioncmp_neg : sessioncmp S a b < 0 ↔ sessionKey a < sessionKey b := by
  by_cases heq : a = b
  · subst heq
    rw [sessioncmp_eq_zero.mpr rfl]
    exact iff_of_false (lt_irrefl 0) (lt_irrefl _)
  have hret : S.cmp a b ≠ 0 := fun h => heq ((S.eq_zero a b).mp h)
  rw [sessionKey_lt]
  unfold sessioncmp sessionRank
  dsimp only
  rw [if_neg hret]
  exact special_neg heq (special_neg heq (special_neg heq (folder_neg (S.neg a b))))

theorem sessioncmp_pos : 0 < sessioncmp S a b ↔ sessionKey b < sessionKey a := by
  have hzero := @sessioncmp_eq_zero S a b
  have hneg := @sessioncmp_neg S a b
  rcases lt_trichotomy (sessionKey a) (sessionKey b) with h | h | h
  · have := hneg.mpr h
    exact iff_of_false (by omega) h.asymm
  · have := hzero.mpr (sessionKey_injective h)
    exact iff_of_false (by omega) (by rw [h]; exact lt_irrefl _)
  · have h1 : ¬sessioncmp S a b < 0 := fun h' => h.asymm (hneg.mp h')
    have h2 : sessioncmp S a b ≠ 0 := fun h' => h.ne (congrArg sessionKey (hzero.mp h')).symm
    exact iff_of_true (by omega) h

theorem sessioncmp_le : sessioncmp S a b ≤ 0 ↔ sessionKey a ≤ sessionKey b := by
  rw [← not_lt, ← not_lt, sessioncmp_pos]

/-- The sessions are sorted by a strict total order. -/
theorem sessioncmp_strictTotal (S : Strcmp) : IsStrictTotalOrder Text fun a b => sessioncmp S a b < 0 where
  trichotomous a b hab hba := by
    rw [sessioncmp_neg] at hab hba
    exact sessionKey_injective (le_antisymm (not_lt.mp hba) (not_lt.mp hab))
  irrefl a h := lt_irrefl _ (sessioncmp_neg.mp h)
  trans a b c hab hbc := sessioncmp_neg.mpr ((sessioncmp_neg.mp hab).trans (sessioncmp_neg.mp hbc))

/-! ## The list -/

variable {stored : List Text} {group : Text}

/-- The stored sessions: they have different names, and none is empty. -/
structure IsStored (stored : List Text) : Prop where
  nodup : stored.Nodup
  ne_nil : ∀ name ∈ stored, name ≠ []

theorem mem_getSesslist (h : IsStored stored) :
    a ∈ getSesslist S stored ↔ a ∈ predefinedSessions ∨ a ∈ stored := by
  unfold getSesslist
  rw [List.mem_mergeSort, List.mem_append, List.mem_filter, List.takeWhile_eq_self_iff.mpr (by
    intro name hname
    exact decide_eq_true (h.ne_nil name hname))]
  unfold isPreDefinedSession
  rw [Bool.not_eq_true', decide_eq_false_iff_not]
  tauto

theorem getSesslist_sorted (h : IsStored stored) :
    (getSesslist S stored).Pairwise fun a b => sessionKey a < sessionKey b := by
  have hnodup : (getSesslist S stored).Nodup := by
    unfold getSesslist
    rw [List.Perm.nodup_iff (List.mergeSort_perm _ _), List.nodup_append]
    refine ⟨by decide, (h.nodup.sublist (List.takeWhile_sublist _)).filter _, ?_⟩
    rintro a ha b hb rfl
    have := (List.mem_filter.mp hb).2
    unfold isPreDefinedSession at this
    rw [Bool.not_eq_true', decide_eq_false_iff_not] at this
    exact this ha
  have hsorted : (getSesslist S stored).Pairwise fun a b => sessionKey a ≤ sessionKey b := by
    have := @List.pairwise_mergeSort _ (fun a b => decide (sessioncmp S a b ≤ 0)) (by
      intro a b c hab hbc
      rw [decide_eq_true_iff, sessioncmp_le] at *
      exact hab.trans hbc) (by
      intro a b
      rw [Bool.or_eq_true, decide_eq_true_iff, decide_eq_true_iff, sessioncmp_le, sessioncmp_le]
      exact le_total _ _)
      (predefinedSessions ++ (stored.takeWhile (· ≠ [])).filter fun name => !isPreDefinedSession name)
    refine this.imp fun hab => ?_
    rwa [decide_eq_true_iff, sessioncmp_le] at hab
  exact (hsorted.and hnodup).imp fun hab => lt_of_le_of_ne hab.1 fun heq => hab.2 (sessionKey_injective heq)

/-! ## What is between a group and its sessions -/

theorem strncmp_eq_false : strncmp a group group.length = false ↔ group <+: a := by
  unfold strncmp
  rw [bne_eq_false_iff_eq, List.take_length, List.prefix_iff_eq_take]
  exact eq_comm

theorem inAndroidDir_iff : inAndroidDir a = true ↔ ANDROID_DIR_FOLDER_NAME <+: a := by
  unfold inAndroidDir
  rw [Bool.not_eq_true', strncmp_eq_false]

/-- A string between another and one that continues it continues it, too. -/
theorem prefix_of_between {c : Text} (hab : ¬b < a) (hbc : ¬c < b) (h : a <+: c) : a <+: b := by
  obtain ⟨r, rfl⟩ := h
  induction a generalizing b with
  | nil => exact List.nil_prefix
  | cons x a ih =>
    cases b with
    | nil => exact absurd (List.nil_lt_cons x a) hab
    | cons y b =>
      rw [List.cons_append] at hbc
      rw [List.cons_lt_cons_iff, not_or, not_and] at hab hbc
      have hxy : x = y := le_antisymm (not_lt.mp hab.1) (not_lt.mp hbc.1)
      exact List.cons_prefix_cons.mpr ⟨hxy, ih (hab.2 hxy.symm) (hbc.2 hxy)⟩

/-- The rank of a name with the end of a group's name in it -/
theorem sessionRank_of_hash (h : '#' ∈ a) :
    sessionRank a = (if a = ANDROID_DIR_FOLDER_NAME then 0 else (if inAndroidDir a then 0 else 1) + 1) + 2 := by
  have hdefault : a ≠ DEFAULT_SESSION_NAME := by
    rintro rfl
    exact absurd h (by decide)
  have hglobal : a ≠ GLOBAL_SESSION_NAME := by
    rintro rfl
    exact absurd h (by decide)
  unfold sessionRank
  rw [if_neg hdefault, if_neg hglobal]

/-- No other group is a part of the name of the Android folder. -/
theorem eq_of_prefix_android (hend : '#' ∈ group) (h : group <+: ANDROID_DIR_FOLDER_NAME) :
    group = ANDROID_DIR_FOLDER_NAME := by
  have hname : ANDROID_DIR_FOLDER_NAME = "Android Device".toList ++ ['#'] := by decide
  rw [hname, List.prefix_concat_iff] at h
  rcases h with h | h
  · rw [hname, h]
  · exact absurd (h.subset hend) (by decide)

/-- A name that continues the name of a group has the rank of the group, or the group is the Android folder. -/
theorem sessionRank_of_prefix (hend : '#' ∈ group) (h : group <+: a) (hne : group ≠ ANDROID_DIR_FOLDER_NAME) :
    sessionRank a = sessionRank group := by
  have ha : a ≠ ANDROID_DIR_FOLDER_NAME := by
    rintro rfl
    exact hne (eq_of_prefix_android hend h)
  have hdir : inAndroidDir a = inAndroidDir group := by
    rw [Bool.eq_iff_iff, inAndroidDir_iff, inAndroidDir_iff]
    constructor
    · intro hdir
      rcases le_total ANDROID_DIR_FOLDER_NAME.length group.length with hlen | hlen
      · exact List.prefix_of_prefix_length_le hdir h hlen
      · exact absurd (eq_of_prefix_android hend (List.prefix_of_prefix_length_le h hdir hlen)) hne
    · exact fun hdir => hdir.trans h
  rw [sessionRank_of_hash (h.subset hend), sessionRank_of_hash hend, if_neg ha, if_neg hne, hdir]

/-- The Android folder and what is in it -/
theorem sessionRank_android : sessionRank a = 2 ∨ sessionRank a = 3 ↔ ANDROID_DIR_FOLDER_NAME <+: a := by
  rw [← inAndroidDir_iff]
  constructor
  · intro h
    unfold sessionRank at h
    by_contra hdir
    rw [if_neg hdir] at h
    have hne : a ≠ ANDROID_DIR_FOLDER_NAME := by
      rintro rfl
      exact hdir (by decide)
    rw [if_neg hne] at h
    split_ifs at h <;> simp at h
  · intro h
    have hhash : '#' ∈ a := (inAndroidDir_iff.mp h).subset (by decide)
    rw [sessionRank_of_hash hhash, if_pos h]
    split_ifs
    · exact .inl rfl
    · exact .inr rfl

theorem sessionRank_le_of_sessionKey (h : sessionKey a ≤ sessionKey b) : sessionRank a ≤ sessionRank b := by
  have := not_lt.mpr h
  rw [sessionKey_lt] at this
  exact not_lt.mp fun hlt => this (.inl hlt)

/-- Between a group and one of its sessions there are only sessions of the group. -/
theorem prefix_of_sessionKey {c : Text} (hend : '#' ∈ group) (hgb : sessionKey group ≤ sessionKey b)
    (hbc : sessionKey b ≤ sessionKey c) (h : group <+: c) : group <+: b := by
  have hrank := sessionRank_le_of_sessionKey hgb
  have hrank' := sessionRank_le_of_sessionKey hbc
  by_cases hgroup : group = ANDROID_DIR_FOLDER_NAME
  · subst hgroup
    have hc := sessionRank_android.mpr h
    have hfolder : sessionRank ANDROID_DIR_FOLDER_NAME = 2 := by decide
    exact sessionRank_android.mp (by omega)
  · have heq := sessionRank_of_prefix hend h hgroup
    have hnot := not_lt.mpr hgb
    have hnot' := not_lt.mpr hbc
    rw [sessionKey_lt] at hnot hnot'
    exact prefix_of_between (fun hlt => hnot (.inr ⟨by omega, hlt⟩)) (fun hlt => hnot' (.inr ⟨by omega, hlt⟩)) h

/-- A session of a group is not before it. -/
theorem sessionKey_le_of_isPrefixOf (hend : '#' ∈ group) (h : group <+: a) : sessionKey group ≤ sessionKey a := by
  rw [← not_lt, sessionKey_lt]
  rintro (hlt | ⟨-, hlt⟩)
  · by_cases hgroup : group = ANDROID_DIR_FOLDER_NAME
    · subst hgroup
      have ha := sessionRank_android.mpr h
      have hfolder : sessionRank ANDROID_DIR_FOLDER_NAME = 2 := by decide
      omega
    · have := sessionRank_of_prefix hend h hgroup
      omega
  · exact List.IsPrefix.le h hlt

/-! ## The search -/

/-- The names before the group that are compared give exactly -1. -/
def SearchTested (S : Strcmp) (stored : List Text) (group : Text) : Prop :=
  ∀ it ∈ compared (fun i => decide (sessioncmp S ((getSesslist S stored).getD i []) group < 0)) 0
      (getSesslist S stored).length,
    sessioncmp S ((getSesslist S stored).getD it []) group < 0 →
      sessioncmp S ((getSesslist S stored).getD it []) group = -1

/-- The sessions before the group -/
def beforeGroup (S : Strcmp) (stored : List Text) (group : Text) : List Text :=
  (getSesslist S stored).takeWhile fun a => decide (sessioncmp S a group < 0)

theorem getD_lt_iff (h : IsStored stored) {i : ℕ} (hi : i < (getSesslist S stored).length) :
    sessioncmp S ((getSesslist S stored).getD i []) group < 0 ↔ i < (beforeGroup S stored group).length := by
  have := @getElem_iff_lt_length_takeWhile _ _ (fun a => decide (sessioncmp S a group < 0)) _
    (getSesslist_sorted (S := S) h) (fun a _ b _ hab hb => by
      rw [decide_eq_true_iff, sessioncmp_neg] at *
      exact hab.trans hb) i hi
  rw [decide_eq_true_iff] at this
  rw [List.getD_eq_getElem _ _ hi]
  exact this

theorem lowerBound_eq (h : IsStored stored) (htested : SearchTested S stored group) :
    lowerBoundInSesslist S (getSesslist S stored) group = (beforeGroup S stored group).length := by
  have hlen : (beforeGroup S stored group).length ≤ (getSesslist S stored).length :=
    (List.takeWhile_sublist _).length_le
  have hsame : lowerBoundInSesslist S (getSesslist S stored) group =
      search (fun i => decide (sessioncmp S ((getSesslist S stored).getD i []) group < 0)) 0
        (getSesslist S stored).length := by
    refine search_congr fun i hi => ?_
    rw [decide_eq_decide]
    constructor
    · intro heq
      omega
    · exact htested i hi
  rw [hsame]
  refine search_eq (fun i hi => ?_) (Nat.zero_le _) (by omega)
  rw [decide_eq_true_iff]
  exact getD_lt_iff h (by omega)

theorem lowerBound_lt (h : IsStored stored) (htested : ¬SearchTested S stored group) :
    lowerBoundInSesslist S (getSesslist S stored) group < (beforeGroup S stored group).length := by
  obtain ⟨i, hi, hless, hle⟩ :=
    @search_misled (fun i => decide (sessioncmp S ((getSesslist S stored).getD i []) group < 0))
      (fun i => decide (sessioncmp S ((getSesslist S stored).getD i []) group = -1)) 0
      (getSesslist S stored).length (by
        intro i hi
        rw [decide_eq_true_iff] at *
        omega) (by
        intro hall
        refine htested fun it hit hlt => ?_
        have := hall it hit
        rw [decide_eq_decide] at this
        exact this.mpr hlt)
  rw [decide_eq_true_iff, getD_lt_iff h (by omega)] at hless
  exact lt_of_le_of_lt hle hless

/-! ## The calls -/

variable {σ : Type} {handler : σ → Text → Bool × σ} {s : σ} {n : ℕ} {maxNum : ℤ} {members calls : List Text}

/-- How many of the calls succeed -/
def successes (handler : σ → Text → Bool × σ) : σ → List Text → ℕ
  | _, [] => 0
  | s, a :: calls => (if (handler s a).1 then 1 else 0) + successes handler (handler s a).2 calls

theorem successes_cons (s : σ) (a : Text) (calls : List Text) : successes handler s (a :: calls) =
    (if (handler s a).1 = true then 1 else 0) + successes handler (handler s a).2 calls := rfl

/-- The calls are those of a prefix, which ends where the limit is reached after `n` successes before. -/
structure EndsAtLimit (handler : σ → Text → Bool × σ) (maxNum : ℤ) (s : σ) (n : ℕ) (members calls : List Text) :
    Prop where
  isPrefix : calls <+: members
  before : ∀ b, b <+: calls → b ≠ calls → (n : ℤ) + successes handler s b < maxNum
  full : calls = members ∨ maxNum ≤ n + successes handler s calls

theorem successes_le (s : σ) (calls : List Text) : successes handler s calls ≤ calls.length := by
  induction calls generalizing s with
  | nil => exact Nat.le_refl 0
  | cons a calls ih =>
    have := ih (handler s a).2
    rw [successes_cons, List.length_cons]
    split_ifs <;> omega

/-- Without a limit all of them are called. -/
theorem EndsAtLimit.unlimited (h : EndsAtLimit handler maxNum s n members calls)
    (hmax : (n : ℤ) + members.length < maxNum) : calls = members := by
  rcases h.full with hfull | hlimit
  · exact hfull
  · have := @successes_le _ handler s calls
    have := h.isPrefix.length_le
    omega

theorem EndsAtLimit.nil : EndsAtLimit handler maxNum s n [] [] where
  isPrefix := List.prefix_rfl
  before _ hb hne := absurd (List.prefix_nil.mp hb) hne
  full := .inl rfl

def inGroup (group a : Text) : Bool := group <+: a

theorem inGroup_iff : inGroup group a = true ↔ group <+: a := decide_eq_true_iff

/-- The calls for the names at the front that belong to the group -/
theorem groupLoop_spec (l : List Text) (hn : (n : ℤ) < maxNum) :
    EndsAtLimit handler maxNum s n ((l.takeWhile (inGroup group)).filter (· ≠ group))
      (groupLoop handler group maxNum s n l).2.2 := by
  induction l generalizing s n with
  | nil => exact .nil
  | cons sub l ih =>
    unfold groupLoop
    by_cases heq : sub = group
    · subst heq
      rw [if_pos rfl, List.takeWhile_cons_of_pos (inGroup_iff.mpr List.prefix_rfl),
        List.filter_cons_of_neg (by simp)]
      exact ih hn
    rw [if_neg heq]
    by_cases hsub : group <+: sub
    · have hcmp : ¬strncmp sub group group.length = true := by
        rw [Bool.not_eq_true, strncmp_eq_false]
        exact hsub
      rw [if_neg hcmp, List.takeWhile_cons_of_pos (inGroup_iff.mpr hsub),
        @List.filter_cons_of_pos _ (fun a => decide (a ≠ group)) sub _ (decide_eq_true heq)]
      rcases hcall : handler s sub with ⟨ok, s'⟩
      obtain ⟨k, hcount, hk⟩ : ∃ k : ℕ, (if ok = true then n + 1 else n) = n + k ∧
          (if ok = true then 1 else 0) = k := by
        refine ⟨if ok = true then 1 else 0, ?_, rfl⟩
        split_ifs <;> rfl
      have hsucc : ∀ calls, successes handler s (sub :: calls) = k + successes handler s' calls := by
        intro calls
        rw [successes_cons, hcall, ← hk]
      dsimp only
      rw [hcount]
      by_cases hlimit : maxNum ≤ ((n + k : ℕ) : ℤ)
      · rw [if_pos hlimit]
        refine ⟨List.cons_prefix_cons.mpr ⟨rfl, List.nil_prefix⟩, fun b hb hne => ?_, .inr ?_⟩
        · have hnil : b = [] := by
            cases b with
            | nil => rfl
            | cons c b =>
              obtain ⟨rfl, hb'⟩ := List.cons_prefix_cons.mp hb
              exact absurd (by rw [List.prefix_nil.mp hb']) hne
          rw [hnil]
          unfold successes
          omega
        · rw [hsucc]
          unfold successes
          omega
      · rw [if_neg hlimit]
        obtain ⟨hpre, hbefore, hfull⟩ := @ih s' (n + k) (by omega)
        refine ⟨List.cons_prefix_cons.mpr ⟨rfl, hpre⟩, fun b hb hne => ?_, ?_⟩
        · cases b with
          | nil =>
            unfold successes
            omega
          | cons c b =>
            obtain ⟨rfl, hb'⟩ := List.cons_prefix_cons.mp hb
            have := hbefore b hb' fun h => hne (by rw [h])
            rw [hsucc]
            omega
        · rcases hfull with hfull | hfull
          · exact .inl (by rw [hfull])
          · refine .inr ?_
            show maxNum ≤ (n : ℤ) + successes handler s (sub :: (groupLoop handler group maxNum s' (n + k) l).2.2)
            rw [hsucc]
            omega
    · have hcmp : strncmp sub group group.length = true := by
        rw [← Bool.not_eq_false, strncmp_eq_false]
        exact hsub
      rw [if_pos hcmp, List.takeWhile_cons_of_neg fun h => hsub (inGroup_iff.mp h)]
      exact .nil

/-! ## Groups -/

/-- The sessions of a group, other than itself, in order -/
structure IsGroup (S : Strcmp) (stored : List Text) (group : Text) (members : List Text) : Prop where
  sorted : members.Pairwise fun a b => sessioncmp S a b < 0
  mem (a : Text) : a ∈ members ↔ a ∈ stored ∧ group <+: a ∧ a ≠ group

theorem IsGroup.unique {members' : List Text} (h : IsGroup S stored group members)
    (h' : IsGroup S stored group members') : members = members' := by
  have horder := sessioncmp_strictTotal S
  have hnodup : ∀ {l : List Text}, l.Pairwise (fun a b => sessioncmp S a b < 0) → l.Nodup := by
    intro l hl
    refine List.Pairwise.imp ?_ hl
    rintro a b hab rfl
    exact horder.irrefl a hab
  have hperm : members.Perm members' := by
    rw [List.perm_ext_iff_of_nodup (hnodup h.sorted) (hnodup h'.sorted)]
    exact fun a => (h.mem a).trans (h'.mem a).symm
  exact hperm.eq_of_pairwise (fun a b _ _ hab hba => absurd (horder.trans _ _ _ hab hba) (horder.irrefl a))
    h.sorted h'.sorted

/-- The members that are in the list -/
def listedMembers (S : Strcmp) (stored : List Text) (group : Text) : List Text :=
  (getSesslist S stored).filter fun a => inGroup group a && decide (a ≠ group)

theorem listedMembers_isGroup (S : Strcmp) (h : IsStored stored) (group : Text) :
    IsGroup S (getSesslist S stored) group (listedMembers S stored group) where
  sorted := ((getSesslist_sorted h).filter _).imp fun hab => sessioncmp_neg.mpr hab
  mem a := by
    unfold listedMembers
    rw [List.mem_filter, Bool.and_eq_true, inGroup_iff, decide_eq_true_iff]

/-- What comes from the place of the group on begins with its members. -/
theorem drop_beforeGroup (h : IsStored stored) (hend : '#' ∈ group) :
    ((((getSesslist S stored).drop (beforeGroup S stored group).length).takeWhile (inGroup group)).filter
      (· ≠ group)) = listedMembers S stored group := by
  have hsorted := getSesslist_sorted (S := S) h
  have hsplit : beforeGroup S stored group ++ (getSesslist S stored).drop (beforeGroup S stored group).length =
      getSesslist S stored := by
    have htake : beforeGroup S stored group = (getSesslist S stored).take (beforeGroup S stored group).length :=
      List.prefix_iff_eq_take.mp (List.takeWhile_prefix _)
    nth_rewrite 1 [htake]
    exact List.take_append_drop _ _
  have hfrom : ∀ a ∈ (getSesslist S stored).drop (beforeGroup S stored group).length,
      sessionKey group ≤ sessionKey a := by
    intro a ha
    obtain ⟨i, hi, rfl⟩ := List.getElem_of_mem ha
    rw [List.length_drop] at hi
    rw [List.getElem_drop, ← not_lt, ← sessioncmp_neg (S := S), ← List.getD_eq_getElem _ [], getD_lt_iff h]
    · omega
    · omega
  rw [takeWhile_eq_filter (hsorted.sublist (List.drop_sublist _ _)) (fun a ha b _ hab hb => by
    rw [inGroup_iff] at *
    exact prefix_of_sessionKey hend (hfrom a ha) hab.le hb), List.filter_filter]
  unfold listedMembers
  nth_rewrite 2 [← hsplit]
  rw [List.filter_append]
  have hnone : (beforeGroup S stored group).filter (fun a => inGroup group a && decide (a ≠ group)) = [] := by
    rw [List.filter_eq_nil_iff]
    intro a ha hin
    rw [Bool.and_eq_true, inGroup_iff] at hin
    have hlt := List.mem_takeWhile_imp ha
    rw [decide_eq_true_iff, sessioncmp_neg] at hlt
    exact not_lt.mpr (sessionKey_le_of_isPrefixOf hend hin.1) hlt
  rw [hnone, List.nil_append]
  refine List.filter_congr fun a _ => ?_
  rw [Bool.and_comm]

/-- If the search ends before the group, the handler is not called. -/
theorem groupLoop_misled (h : IsStored stored) (hend : '#' ∈ group) {first : ℕ}
    (hfirst : first < (beforeGroup S stored group).length) (s : σ) :
    (groupLoop handler group maxNum s 0 ((getSesslist S stored).drop first)).2.2 = [] := by
  have hlen : (beforeGroup S stored group).length ≤ (getSesslist S stored).length :=
    (List.takeWhile_sublist _).length_le
  have hlt : sessioncmp S ((getSesslist S stored).getD first []) group < 0 := (getD_lt_iff h (by omega)).mpr hfirst
  rw [List.getD_eq_getElem _ _ (by omega)] at hlt
  rw [List.drop_eq_getElem_cons (by omega)]
  rw [sessioncmp_neg] at hlt
  have hne : (getSesslist S stored)[first] ≠ group := fun heq => by
    rw [heq] at hlt
    exact lt_irrefl _ hlt
  have hcmp : strncmp (getSesslist S stored)[first] group group.length = true := by
    rw [← Bool.not_eq_false, strncmp_eq_false]
    exact fun hpre => not_lt.mpr (sessionKey_le_of_isPrefixOf hend hpre) hlt
  unfold groupLoop
  rw [if_neg hne, if_pos hcmp]

/-- The handler is called for the sessions of the group, in order, up to the limit. -/
def CallsGroup (S : Strcmp) (stored : List Text) (group : Text) : Prop :=
  ∃ members, IsGroup S stored group members ∧
    ∀ (σ : Type) (handler : σ → Text → Bool × σ) (s : σ) (maxNum : ℤ), 0 < maxNum →
      EndsAtLimit handler maxNum s 0 members (forGroupedSessionDo S handler stored group s maxNum).2.2 ∧
      (members.length < maxNum → (forGroupedSessionDo S handler stored group s maxNum).2.2 = members)

theorem forGroupedSessionDo_group (hend : group.getLast? = some '#') (s : σ) (maxNum : ℤ) :
    forGroupedSessionDo S handler stored group s maxNum = groupLoop handler group maxNum s 0
      ((getSesslist S stored).drop (lowerBoundInSesslist S (getSesslist S stored) group)) := by
  have hne : group ≠ [] := by
    rintro rfl
    cases hend
  exact if_pos ⟨hne, hend⟩

/-- If the search ends at the group, the calls are those for its sessions in the list. -/
theorem calls_tested (h : IsStored stored) (hend : group.getLast? = some '#')
    (htested : SearchTested S stored group) (s : σ) (hmax : 0 < maxNum) :
    EndsAtLimit handler maxNum s 0 (listedMembers S stored group)
      (forGroupedSessionDo S handler stored group s maxNum).2.2 := by
  have hcalls : EndsAtLimit handler maxNum s 0 _ (groupLoop handler group maxNum s 0
      ((getSesslist S stored).drop (beforeGroup S stored group).length)).2.2 := groupLoop_spec _ hmax
  rw [drop_beforeGroup h (List.mem_of_getLast? hend)] at hcalls
  rw [forGroupedSessionDo_group hend, lowerBound_eq h htested]
  exact hcalls

theorem calls_misled (h : IsStored stored) (hend : group.getLast? = some '#')
    (htested : ¬SearchTested S stored group) (s : σ) :
    (forGroupedSessionDo S handler stored group s maxNum).2.2 = [] := by
  rw [forGroupedSessionDo_group hend]
  exact groupLoop_misled h (List.mem_of_getLast? hend) (lowerBound_lt h htested) s

/-- The members that are in the list are stored, if the predefined ones are. -/
theorem isGroup_listed (S : Strcmp) (h : IsStored stored)
    (hpre : ∀ a ∈ predefinedSessions, group <+: a → a ≠ group → a ∈ stored) :
    IsGroup S stored group (listedMembers S stored group) where
  sorted := (listedMembers_isGroup S h group).sorted
  mem a := by
    rw [(listedMembers_isGroup S h group).mem, mem_getSesslist h]
    constructor
    · rintro ⟨hpredefined | hstored, hin, hne⟩
      · exact ⟨hpre a hpredefined hin hne, hin, hne⟩
      · exact ⟨hstored, hin, hne⟩
    · rintro ⟨hstored, hin, hne⟩
      exact ⟨.inr hstored, hin, hne⟩

/-- `get_sesslist` sorts by a strict total order; and the handler is called for the sessions of a group if and only
if the search takes each name before the group that it compares for one, and those of the predefined sessions that
belong to the group are stored, or if there are none and the search goes wrong. -/
theorem sesslist_iff (S : Strcmp) (h : IsStored stored) (hend : group.getLast? = some '#') :
    (IsStrictTotalOrder Text (fun a b => sessioncmp S a b < 0) ∧
      (getSesslist S stored).Pairwise (fun a b => sessioncmp S a b < 0) ∧ CallsGroup S stored group) ↔
    SearchTested S stored group ∧ (∀ a ∈ predefinedSessions, group <+: a → a ≠ group → a ∈ stored) ∨
      ¬SearchTested S stored group ∧ ∀ a ∈ stored, group <+: a → a = group := by
  have hlisted := listedMembers_isGroup S h group
  constructor
  · rintro ⟨-, -, members, hgroup, hall⟩
    -- a handler that never succeeds is called for all members
    obtain ⟨-, hcalls⟩ := hall Unit (fun _ _ => (false, ())) () (members.length + (listedMembers S stored group).length + 1)
      (by omega)
    have hcalls := hcalls (by omega)
    by_cases htested : SearchTested S stored group
    · refine .inl ⟨htested, fun a ha hin hne => ?_⟩
      rw [(calls_tested h hend htested () (by omega)).unlimited (by omega)] at hcalls
      have hmem : a ∈ members := by
        rw [← hcalls, hlisted.mem]
        exact ⟨(mem_getSesslist h).mpr (.inl ha), hin, hne⟩
      exact ((hgroup.mem a).mp hmem).1
    · refine .inr ⟨htested, fun a ha hin => ?_⟩
      rw [calls_misled h hend htested] at hcalls
      by_contra hne
      have hmem : a ∈ members := (hgroup.mem a).mpr ⟨ha, hin, hne⟩
      rw [← hcalls] at hmem
      exact absurd hmem List.not_mem_nil
  · intro hcond
    refine ⟨sessioncmp_strictTotal S, (getSesslist_sorted h).imp fun hab => sessioncmp_neg.mpr hab, ?_⟩
    rcases hcond with ⟨htested, hpre⟩ | ⟨htested, hnone⟩
    · refine ⟨_, isGroup_listed S h hpre, fun σ handler s maxNum hmax => ?_⟩
      have hcalls := @calls_tested S stored group σ handler maxNum h hend htested s hmax
      exact ⟨hcalls, fun hlen => hcalls.unlimited (by omega)⟩
    · refine ⟨[], ⟨List.Pairwise.nil, fun a => ?_⟩, fun σ handler s maxNum hmax => ?_⟩
      · refine iff_of_false List.not_mem_nil ?_
        rintro ⟨ha, hin, hne⟩
        exact hne (hnone a ha hin)
      · rw [calls_misled h hend htested]
        exact ⟨.nil, fun _ => rfl⟩

/-! ## Other results of `strcmp` -/

/-- Three results, as one implementation gives them -/
def signStrcmp : Strcmp where
  cmp a b := if a < b then -1 else if a = b then 0 else 1
  eq_zero a b := by
    by_cases hlt : a < b
    · rw [if_pos hlt]
      exact iff_of_false (by decide) hlt.ne
    · rw [if_neg hlt]
      by_cases heq : a = b
      · rw [if_pos heq]
        exact iff_of_true rfl heq
      · rw [if_neg heq]
        exact iff_of_false (by decide) heq
  neg a b := by
    by_cases hlt : a < b
    · rw [if_pos hlt]
      exact iff_of_true (by decide) hlt
    · rw [if_neg hlt]
      refine iff_of_false ?_ hlt
      split_ifs <;> decide

/-- Twice these -/
def doubleStrcmp : Strcmp where
  cmp a b := 2 * signStrcmp.cmp a b
  eq_zero a b := by
    rw [← signStrcmp.eq_zero]
    omega
  neg a b := by
    rw [← signStrcmp.neg]
    omega

/-- The comparison gives exactly -1 if `strcmp` does. -/
theorem sessioncmp_eq_neg_one (hret : S.cmp a b < 0 → S.cmp a b = -1) (h : sessioncmp S a b < 0) :
    sessioncmp S a b = -1 := by
  unfold sessioncmp at *
  dsimp only at *
  generalize S.cmp a b = r at *
  split_ifs at * <;> omega

theorem signStrcmp_tested (stored : List Text) (group : Text) : SearchTested signStrcmp stored group := by
  intro it _ hneg
  refine sessioncmp_eq_neg_one (fun hret => ?_) hneg
  exact if_pos ((signStrcmp.neg _ _).mp hret)

/-- A session before a group, and one of the group -/
def someSessions : List Text := [['a'], ['b', '#', 'c']]

def someGroup : Text := ['b', '#']

theorem someSessions_isStored : IsStored someSessions := ⟨by decide, by decide⟩

theorem sesslist_signStrcmp : CallsGroup signStrcmp someSessions someGroup :=
  ((sesslist_iff signStrcmp someSessions_isStored rfl).mpr
    (.inl ⟨signStrcmp_tested someSessions someGroup, by decide⟩)).2.2

theorem getSesslist_someSessions : getSesslist doubleStrcmp someSessions =
    [DEFAULT_SESSION_NAME, GLOBAL_SESSION_NAME, ANDROID_DIR_FOLDER_NAME, LOCAL_SSH_SESSION_NAME,
      START_LOCAL_SSH_SERVER_NAME, ['a'], ['b', '#', 'c']] := by
  refine List.Perm.eq_of_pairwise (fun a b _ _ hab hba => absurd (hab.trans hba) (lt_irrefl _))
    (getSesslist_sorted someSessions_isStored) ?_ ?_
  · simp only [sessionKey_lt]
    decide +kernel
  · refine (List.mergeSort_perm _ _).trans ?_
    decide

/-- With `strcmp` twice as large, the search takes `a` for one that is not before the group. -/
theorem sesslist_doubleStrcmp : IsStored someSessions ∧ ¬CallsGroup doubleStrcmp someSessions someGroup := by
  refine ⟨someSessions_isStored, ?_⟩
  rintro ⟨members, hgroup, hall⟩
  have hmem : ['b', '#', 'c'] ∈ members := (hgroup.mem _).mpr (by decide)
  have hcalls := (hall Unit (fun _ _ => (false, ())) () (members.length + 1) (by omega)).2 (by omega)
  rw [calls_misled someSessions_isStored rfl ?_ ()] at hcalls
  · rw [← hcalls] at hmem
    exact absurd hmem List.not_mem_nil
  · intro htested
    unfold SearchTested at htested
    rw [getSesslist_someSessions] at htested
    have hcompared : ∀ less : ℕ → Bool, less 3 = true → 5 ∈ compared less 0 7 := by
      intro less hless
      rw [compared, if_neg (by decide), if_pos hless, compared, if_neg (by decide)]
      exact List.mem_cons_of_mem _ List.mem_cons_self
    have hneg := htested 5 (hcompared _ (by decide +kernel)) (by decide +kernel)
    exact absurd hneg (by decide +kernel)

end PuttyNd.Settings
