import Mathlib.Data.List.Perm.Basic
import Mathlib.Data.Nat.Bitwise
import PuttyNd.Settings.Prefs

/-!
# Preference lists are permutations

The words that are read give the known values. A pass over the mapping adds every missing value whose position does
not depend on another missing one; since the bitmap is not changed, no later pass can do better.
-/

namespace PuttyNd.Settings

open Outcome

variable {mapping ms : List KeyValWhere} {conf : Prefs} {r : Reading} {l known : List ℕ} {n v pos : ℕ}
  {s rest : List Char}

/-- The names of a mapping are words, and they and the values are different and small. -/
structure WellFormed (mapping : List KeyValWhere) : Prop where
  names : (mapping.map KeyValWhere.s).Nodup
  values : (mapping.map KeyValWhere.v).Nodup
  small : ∀ m ∈ mapping, m.v < 32
  words : ∀ m ∈ mapping, m.s ≠ [] ∧ ∀ c ∈ m.s, c ≠ ',' ∧ c ≠ NUL

/-! ## Words -/

theorem commaWords_comma : commaWords (',' :: s) = commaWords s := by
  unfold commaWords
  rw [List.splitOn_cons_eq_if_modifyHead, if_pos (beq_self_eq_true ','), List.filter_cons_of_neg (by decide)]

theorem commaWords_dropWhile (s : List Char) : commaWords (s.dropWhile (· == ',')) = commaWords s := by
  induction s with
  | nil => rfl
  | cons c s ih =>
    by_cases hc : c = ','
    · subst hc
      rw [List.dropWhile_cons_of_pos (p := (· == ',')) rfl, ih, commaWords_comma]
    · rw [List.dropWhile_cons_of_neg (p := (· == ',')) (by simpa using hc)]

/-- A word, and what is after its comma -/
theorem commaWords_word (hne : s ≠ []) (hs : ∀ c ∈ s, c ≠ ',') (hrest : rest = [] ∨ rest.head? = some ',') :
    commaWords (s ++ rest) = s :: commaWords rest.tail := by
  have hs' : ∀ c ∈ s, (c == ',') = false := fun c hc => beq_false_of_ne (hs c hc)
  unfold commaWords
  rcases hrest with rfl | hrest
  · rw [List.append_nil, List.splitOn_eq_singleton_of_beq_eq_false hs', List.filter_cons_of_pos (by simpa using hne)]
    rfl
  · obtain ⟨tail, rfl⟩ := List.head?_eq_some_iff.mp hrest
    rw [List.splitOn_eq_splitOnP, List.splitOnP_append_cons_of_forall_mem hs' ',' rfl,
      List.filter_cons_of_pos (by simpa using hne), List.tail_cons, List.splitOn_eq_splitOnP]

/-! ## The bitmap -/

theorem isSeen_eq {seen : ℕ} : isSeen seen v = seen.testBit v := by
  unfold isSeen
  rw [Nat.one_shiftLeft, Nat.and_two_pow]
  cases seen.testBit v with
  | false => simp
  | true => simp

theorem isSeen_or {seen w : ℕ} : isSeen (seen ||| (1 <<< v)) w = true ↔ isSeen seen w = true ∨ w = v := by
  rw [isSeen_eq, isSeen_eq, Nat.testBit_or, Bool.or_eq_true, Nat.one_shiftLeft, Nat.testBit_two_pow,
    decide_eq_true_iff, eq_comm (a := v)]

/-! ## What is in the configuration -/

theorem holds_nil : Holds conf [] := fun _ h => absurd h (Nat.not_lt_zero _)

theorem Holds.concat (h : Holds conf l) : Holds (setInt conf l.length v) (l ++ [v]) := by
  intro i hi
  rw [List.length_append, List.length_singleton] at hi
  unfold setInt
  by_cases hlast : i = l.length
  · rw [hlast, Function.update_self, List.getElem?_concat_length]
  · rw [Function.update_of_ne hlast, List.getElem?_append_left (by omega)]
    exact h i (by omega)

/-- The list of values that is read so far, each once, and the bitmap of them -/
structure Represents (r : Reading) (l : List ℕ) : Prop where
  holds : Holds r.conf l
  length_eq : r.n = l.length
  seen_iff : ∀ v, isSeen r.seen v = true ↔ v ∈ l

theorem represents_nil : Represents ⟨conf, 0, 0⟩ [] := by
  refine ⟨holds_nil, rfl, fun v => ?_⟩
  rw [isSeen_eq, Nat.zero_testBit]
  exact iff_of_false Bool.false_ne_true List.not_mem_nil

theorem Represents.addWord (h : Represents r l) (q : List Char) :
    Represents (addWord mapping r q) ((key2val mapping q).toList.foldl addNew l) := by
  unfold Settings.addWord
  cases key2val mapping q with
  | none => exact h
  | some v =>
    dsimp only [Option.toList_some, List.foldl_cons, List.foldl_nil]
    unfold addNew
    by_cases hv : v ∈ l
    · rw [if_pos hv, if_pos ((h.seen_iff v).mpr hv)]
      exact h
    · rw [if_neg hv, if_neg (mt (h.seen_iff v).mp hv)]
      refine ⟨?_, ?_, fun w => ?_⟩
      · dsimp only
        rw [h.length_eq]
        exact h.holds.concat
      · rw [List.length_append, List.length_singleton]
        exact congrArg (· + 1) h.length_eq
      · rw [isSeen_or, h.seen_iff, List.mem_append, List.mem_singleton]

/-- The words that are left are read. -/
theorem readWords_spec {rounds : ℕ} {p : List Char} (h : Represents r l) (hrounds : p.length < rounds) :
    ∃ r', readWords mapping rounds r p = .ok r' ∧
      Represents r' (((commaWords p).filterMap (key2val mapping)).foldl addNew l) := by
  induction rounds generalizing r l p with
  | zero => exact absurd hrounds (Nat.not_lt_zero _)
  | succ rounds ih =>
    unfold readWords
    dsimp only
    rw [← commaWords_dropWhile]
    have hle : (p.dropWhile (· == ',')).length ≤ p.length := (List.dropWhile_sublist _).length_le
    have hhead : ∀ c ∈ (p.dropWhile (· == ',')).head?, c ≠ ',' := fun c hc => by
      have := List.head?_dropWhile_not (· == ',') p
      rw [Option.mem_def.mp hc] at this
      simpa using this
    generalize p.dropWhile (· == ',') = p' at hle hhead
    by_cases hp : p' = []
    · rw [if_pos hp, hp]
      exact ⟨r, rfl, h⟩
    rw [if_neg hp]
    have hword : p'.takeWhile (· != ',') ≠ [] := by
      obtain ⟨c, tail, rfl⟩ := List.exists_cons_of_ne_nil hp
      have hc : c ≠ ',' := hhead c rfl
      rw [List.takeWhile_cons_of_pos (p := (· != ',')) (by simpa using hc)]
      exact List.cons_ne_nil _ _
    have hplain : ∀ c ∈ p'.takeWhile (· != ','), c ≠ ',' := fun c hc =>
      bne_iff_ne.mp (List.mem_takeWhile_imp (p := (· != ',')) hc)
    have hrest : p'.dropWhile (· != ',') = [] ∨ (p'.dropWhile (· != ',')).head? = some ',' := by
      cases hd : p'.dropWhile (· != ',') with
      | nil => exact Or.inl rfl
      | cons c tail =>
        have := List.head?_dropWhile_not (· != ',') p'
        rw [hd] at this
        exact Or.inr (by simpa using this)
    have hsplit := commaWords_word hword hplain hrest
    rw [List.takeWhile_append_dropWhile] at hsplit
    have hshort : ((p'.dropWhile (· != ',')).tail).length < rounds := by
      have hsum := congrArg List.length (List.takeWhile_append_dropWhile (p := (· != ',')) (l := p'))
      have hpos := List.length_pos_iff.mpr hword
      rw [List.length_append] at hsum
      rw [List.length_tail]
      omega
    obtain ⟨r', hr', hrep⟩ := ih (h.addWord (p'.takeWhile (· != ','))) hshort
    refine ⟨r', hr', ?_⟩
    rw [hsplit]
    cases hvalue : key2val mapping (p'.takeWhile (· != ',')) with
    | none =>
      rw [hvalue] at hrep
      rw [List.filterMap_cons_none hvalue]
      exact hrep
    | some v =>
      rw [hvalue] at hrep
      rw [List.filterMap_cons_some hvalue]
      exact hrep

/-! ## One missing value -/

theorem getInt_of_holds (h : Holds conf l) {i : ℕ} (hi : i < l.length) : getInt conf i = .ok l[i] := by
  unfold getInt
  rw [h i hi, List.getElem?_eq_getElem hi]

theorem findValue_spec {left j : ℕ} (h : Holds conf l) (hsum : j + left = l.length) (hv : v ∈ l.drop j) :
    ∃ k, findValue conf v left j = .ok k ∧ k < l.length := by
  induction left generalizing j with
  | zero =>
    rw [List.drop_of_length_le (by omega)] at hv
    exact absurd hv List.not_mem_nil
  | succ left ih =>
    have hj : j < l.length := by omega
    unfold findValue
    rw [getInt_of_holds h hj, ok_bind]
    by_cases heq : l[j] = v
    · rw [if_pos heq]
      exact ⟨j, rfl, hj⟩
    · rw [if_neg heq]
      rw [List.drop_eq_getElem_cons hj] at hv
      exact ih (by omega) ((List.mem_cons.mp hv).resolve_left fun h => heq h.symm)

/-- Up to `j` the values are in their places, and after it one place up. -/
theorem moveUp_spec {j : ℕ} (hj : j ≤ l.length) (hpos : pos ≤ j) (hlow : ∀ i < j, conf i = l[i]?)
    (hhigh : ∀ i, j ≤ i → i < l.length → conf (i + 1) = l[i]?) : ∃ conf', moveUp conf pos j = .ok conf' ∧
      (∀ i < pos, conf' i = l[i]?) ∧ ∀ i, pos ≤ i → i < l.length → conf' (i + 1) = l[i]? := by
  induction j generalizing conf with
  | zero =>
    obtain rfl : pos = 0 := by omega
    exact ⟨conf, rfl, hlow, hhigh⟩
  | succ j ih =>
    unfold moveUp
    by_cases hstop : j < pos
    · obtain rfl : pos = j + 1 := by omega
      rw [if_pos hstop]
      exact ⟨conf, rfl, hlow, hhigh⟩
    have hj' : j < l.length := by omega
    have hget : getInt conf j = .ok l[j] := by
      unfold getInt
      rw [hlow j (Nat.lt_succ_self j), List.getElem?_eq_getElem hj']
    rw [if_neg hstop, hget, ok_bind]
    refine ih (by omega) (by omega) (fun i hi => ?_) fun i hge hlt => ?_
    · unfold setInt
      rw [Function.update_of_ne (by omega)]
      exact hlow i (by omega)
    · unfold setInt
      by_cases hi : i = j
      · rw [hi, Function.update_self, List.getElem?_eq_getElem hj']
      · rw [Function.update_of_ne (by omega)]
        exact hhigh i (by omega) hlt

theorem insert_holds (h : Holds conf l) (hpos : pos ≤ l.length) : ∃ conf', moveUp conf pos l.length = .ok conf' ∧
    Holds (setInt conf' pos v) (l.take pos ++ v :: l.drop pos) := by
  obtain ⟨conf', hmove, hlow, hhigh⟩ := moveUp_spec le_rfl hpos h fun i hge hlt => absurd hlt (Nat.not_lt.mpr hge)
  refine ⟨conf', hmove, fun i hi => ?_⟩
  have htake : (l.take pos).length = pos := List.length_take_of_le hpos
  rw [List.length_append, List.length_cons, List.length_drop, htake] at hi
  unfold setInt
  rcases Nat.lt_trichotomy i pos with hlt | rfl | hgt
  · rw [Function.update_of_ne (by omega), hlow i hlt, List.getElem?_append_left (by omega),
      List.getElem?_take_of_lt hlt]
  · rw [Function.update_self, List.getElem?_append_right (by omega), htake, Nat.sub_self]
    rfl
  · obtain ⟨k, rfl⟩ : ∃ k, i = k + 1 := ⟨i - 1, by omega⟩
    obtain ⟨d, rfl⟩ : ∃ d, k = pos + d := ⟨k - pos, by omega⟩
    have hindex : pos + d + 1 - pos = d + 1 := by omega
    rw [Function.update_of_ne (by omega), hhigh (pos + d) (by omega) (by omega), List.getElem?_append_right (by omega),
      htake, hindex, List.getElem?_cons_succ, List.getElem?_drop]

/-- A value is missing, and its position does not depend on another missing one. -/
def Addable (known : List ℕ) (m : KeyValWhere) : Prop := m.v ∉ known ∧ ∀ vrel, m.vrel = some vrel → vrel ∈ known

instance (m : KeyValWhere) : Decidable (Addable known m) :=
  inferInstanceAs (Decidable (m.v ∉ known ∧ ∀ vrel, m.vrel = some vrel → vrel ∈ known))

/-- The list has grown from the known values, which the bitmap still stands for. -/
structure Grown (r : Reading) (known l : List ℕ) : Prop where
  holds : Holds r.conf l
  length_eq : r.n = l.length
  seen_iff : ∀ v, isSeen r.seen v = true ↔ v ∈ known
  sublist : known.Sublist l

theorem insertPosition_spec {m : KeyValWhere} (h : Grown r known l) (hm : Addable known m) :
    ∃ pos, insertPosition m r = .ok pos ∧ pos ≤ l.length := by
  unfold insertPosition
  cases hvrel : m.vrel with
  | none =>
    refine ⟨_, rfl, ?_⟩
    split
    · exact h.length_eq.le
    · exact Nat.zero_le _
  | some vrel =>
    have hmem : vrel ∈ l.drop 0 := h.sublist.subset (hm.2 vrel hvrel)
    obtain ⟨k, hk, hlt⟩ := findValue_spec h.holds (Nat.zero_add l.length) hmem
    dsimp only
    rw [h.length_eq, hk, ok_bind, if_pos hlt]
    refine ⟨_, rfl, ?_⟩
    split
    · exact hlt.le
    · exact hlt

theorem addMissing_spec {m : KeyValWhere} (h : Grown r known l) (hsmall : m.v < 32) :
    ∃ r' l', addMissing r m = .ok r' ∧ Grown r' known l' ∧
      l'.Perm (l ++ if Addable known m then [m.v] else []) := by
  unfold addMissing
  rw [if_neg (not_not_intro hsmall)]
  by_cases hv : m.v ∈ known
  · have hnot : ¬Addable known m := fun hm => hm.1 hv
    rw [if_pos ((h.seen_iff m.v).mpr hv), if_neg hnot, List.append_nil]
    exact ⟨r, l, rfl, h, List.Perm.refl l⟩
  rw [if_neg (mt (h.seen_iff m.v).mp hv)]
  have hany : (m.vrel.any fun vrel => !isSeen r.seen vrel) = true ↔ ¬Addable known m := by
    unfold Addable
    rw [and_iff_right hv]
    cases m.vrel with
    | none => simp
    | some vrel =>
      rw [Option.any_some, Bool.not_eq_true', ← Bool.not_eq_true, h.seen_iff]
      simp
  by_cases hm : Addable known m
  · rw [if_neg (mt hany.mp (not_not_intro hm)), if_pos hm]
    obtain ⟨pos, hpos, hle⟩ := insertPosition_spec h hm
    obtain ⟨conf', hmove, hholds⟩ := insert_holds (v := m.v) h.holds hle
    have hperm : (l.take pos ++ m.v :: l.drop pos).Perm (l ++ [m.v]) := by
      have hmiddle := @List.perm_middle _ m.v (l.take pos) (l.drop pos)
      rw [List.take_append_drop] at hmiddle
      exact hmiddle.trans (List.perm_append_singleton m.v l).symm
    rw [hpos, ok_bind, h.length_eq, hmove, ok_bind]
    refine ⟨_, _, rfl, ⟨hholds, ?_, h.seen_iff, ?_⟩, hperm⟩
    · rw [hperm.length_eq, List.length_append, List.length_singleton]
    · refine h.sublist.trans ?_
      have hsub := (List.Sublist.refl (l.take pos)).append (List.sublist_cons_self m.v (l.drop pos))
      rwa [List.take_append_drop] at hsub
  · rw [if_pos (hany.mpr hm), if_neg hm, List.append_nil]
    exact ⟨r, l, rfl, h, List.Perm.refl l⟩

/-! ## All missing values -/

/-- What a pass over a part of the mapping adds -/
def additions (known : List ℕ) (ms : List KeyValWhere) : List ℕ :=
  (ms.filter fun m => Addable known m).map KeyValWhere.v

theorem pass_spec (h : Grown r known l) (hsmall : ∀ m ∈ ms, m.v < 32) : ∃ r' l',
    ms.foldlM addMissing r = .ok r' ∧ Grown r' known l' ∧ l'.Perm (l ++ additions known ms) := by
  induction ms generalizing r l with
  | nil => exact ⟨r, l, rfl, h, (List.append_nil l).symm ▸ List.Perm.refl l⟩
  | cons m ms ih =>
    obtain ⟨r₁, l₁, hr₁, h₁, hperm₁⟩ := addMissing_spec h (hsmall m List.mem_cons_self)
    obtain ⟨r₂, l₂, hr₂, h₂, hperm₂⟩ := ih h₁ fun m' hm' => hsmall m' (List.mem_cons_of_mem _ hm')
    refine ⟨r₂, l₂, ?_, h₂, ?_⟩
    · rw [List.foldlM_cons, hr₁, ok_bind, hr₂]
    · have hsplit : additions known (m :: ms) = (if Addable known m then [m.v] else []) ++ additions known ms := by
        unfold additions
        by_cases hm : Addable known m
        · rw [List.filter_cons_of_pos (by simpa using hm), if_pos hm]
          rfl
        · rw [List.filter_cons_of_neg (by simpa using hm), if_neg hm]
          rfl
      rw [hsplit, ← List.append_assoc]
      exact hperm₂.trans (hperm₁.append_right _)

/-- No missing value depends on another missing one. -/
def Settled (mapping : List KeyValWhere) (known : List ℕ) : Prop :=
  ∀ m ∈ mapping, m.v ∉ known → ∀ vrel, m.vrel = some vrel → vrel ∈ known

/-- With all missing values the list has all values. -/
theorem additions_perm (hwf : WellFormed mapping) (hnodup : known.Nodup)
    (hsub : ∀ v ∈ known, v ∈ mapping.map KeyValWhere.v) (hsettled : Settled mapping known) :
    (known ++ additions known mapping).Perm (mapping.map KeyValWhere.v) := by
  have hadd : (additions known mapping).Sublist (mapping.map KeyValWhere.v) :=
    List.filter_sublist.map KeyValWhere.v
  have hdisjoint : known.Disjoint (additions known mapping) := by
    intro v hv hv'
    obtain ⟨m, hm, rfl⟩ := List.mem_map.mp hv'
    have haddable : Addable known m := by simpa using (List.mem_filter.mp hm).2
    exact haddable.1 hv
  refine (List.perm_ext_iff_of_nodup (List.nodup_append'.mpr ⟨hnodup, hwf.values.sublist hadd, hdisjoint⟩)
    hwf.values).mpr fun v => ?_
  rw [List.mem_append]
  constructor
  · rintro (hv | hv)
    · exact hsub v hv
    · exact hadd.subset hv
  · intro hv
    obtain ⟨m, hm, rfl⟩ := List.mem_map.mp hv
    by_cases hknown : m.v ∈ known
    · exact Or.inl hknown
    · refine Or.inr (List.mem_map_of_mem (List.mem_filter.mpr ⟨hm, ?_⟩))
      exact decide_eq_true ⟨hknown, hsettled m hm hknown⟩

/-- One pass is enough if no missing value depends on another one. -/
theorem addAllMissing_settled {nvals rounds : ℕ} (h : Grown r known l) (hl : l = known) (hwf : WellFormed mapping)
    (hnvals : nvals = mapping.length) (hnodup : known.Nodup) (hsub : ∀ v ∈ known, v ∈ mapping.map KeyValWhere.v)
    (hsettled : Settled mapping known) (hrounds : mapping.length < rounds) :
    ∃ r' l', addAllMissing mapping nvals rounds r = .ok r' ∧ Grown r' known l' ∧
      l'.Perm (mapping.map KeyValWhere.v) := by
  subst hl hnvals
  obtain ⟨rounds, rfl⟩ : ∃ k, rounds = k + 1 := ⟨rounds - 1, by omega⟩
  have hall := additions_perm hwf hnodup hsub hsettled
  have hlength := hall.length_eq
  rw [List.length_append, List.length_map] at hlength
  unfold addAllMissing
  by_cases hmore : r.n < mapping.length
  · obtain ⟨rounds, rfl⟩ : ∃ k, rounds = k + 1 := ⟨rounds - 1, by omega⟩
    obtain ⟨r', l', hr', h', hperm⟩ := pass_spec h hwf.small
    have hperm' := hperm.trans hall
    have hdone : ¬r'.n < mapping.length := by
      rw [h'.length_eq, hperm'.length_eq, List.length_map]
      exact Nat.lt_irrefl _
    rw [if_pos hmore, hr', ok_bind]
    unfold addAllMissing
    rw [if_neg hdone]
    exact ⟨r', l', rfl, h', hperm'⟩
  · rw [if_neg hmore]
    have hnone : additions l mapping = [] := by
      rw [h.length_eq] at hmore
      exact List.length_eq_zero_iff.mp (by omega)
    rw [hnone, List.append_nil] at hall
    exact ⟨r, l, rfl, h, hall⟩

/-- Only known values and additions are ever in the list. -/
theorem addAllMissing_ensures {nvals rounds : ℕ} (h : Grown r known l) (hwf : WellFormed mapping)
    (hl : ∀ v ∈ l, v ∈ known ∨ v ∈ additions known mapping) :
    Ensures (addAllMissing mapping nvals rounds r) fun r' => ∃ l', Grown r' known l' ∧ nvals ≤ l'.length ∧
      ∀ v ∈ l', v ∈ known ∨ v ∈ additions known mapping := by
  induction rounds generalizing r l with
  | zero => exact ensures_error.mpr trivial
  | succ rounds ih =>
    unfold addAllMissing
    by_cases hmore : r.n < nvals
    · obtain ⟨r', l', hr', h', hperm⟩ := pass_spec h hwf.small
      rw [if_pos hmore, hr', ok_bind]
      refine ih h' fun v hv => ?_
      rcases List.mem_append.mp (hperm.mem_iff.mp hv) with hv | hv
      · exact hl v hv
      · exact Or.inr hv
    · rw [if_neg hmore, ensures_ok]
      exact ⟨l, h, h.length_eq ▸ Nat.not_lt.mp hmore, hl⟩

/-! ## The known values -/

theorem nodup_foldl_addNew {vs : List ℕ} (h : l.Nodup) : (vs.foldl addNew l).Nodup := by
  induction vs generalizing l with
  | nil => exact h
  | cons v vs ih =>
    refine ih ?_
    unfold addNew
    by_cases hv : v ∈ l
    · rw [if_pos hv]
      exact h
    · rw [if_neg hv]
      exact List.nodup_append'.mpr ⟨h, List.nodup_singleton v, fun w hw hw' => hv (List.mem_singleton.mp hw' ▸ hw)⟩

theorem mem_foldl_addNew {vs : List ℕ} : v ∈ vs.foldl addNew l ↔ v ∈ l ∨ v ∈ vs := by
  induction vs generalizing l with
  | nil => exact (or_iff_left List.not_mem_nil).symm
  | cons w vs ih =>
    rw [List.foldl_cons, ih, List.mem_cons]
    unfold addNew
    by_cases hw : w ∈ l
    · rw [if_pos hw]
      constructor
      · exact fun h => h.imp_right Or.inr
      · rintro (h | rfl | h)
        · exact Or.inl h
        · exact Or.inl hw
        · exact Or.inr h
    · rw [if_neg hw, List.mem_append, List.mem_singleton, or_assoc]

theorem foldl_addNew_eq {vs : List ℕ} (h : (l ++ vs).Nodup) : vs.foldl addNew l = l ++ vs := by
  induction vs generalizing l with
  | nil => exact (List.append_nil l).symm
  | cons v vs ih =>
    have hv : v ∉ l := fun hv => (List.nodup_append'.mp h).2.2 hv List.mem_cons_self
    have hstep : addNew l v = l ++ [v] := if_neg hv
    rw [List.foldl_cons, hstep, ih (by rwa [← List.append_cons]), ← List.append_cons]

theorem mem_knownValues : v ∈ knownValues mapping s ↔ ∃ w ∈ commaWords s, key2val mapping w = some v := by
  unfold knownValues
  rw [mem_foldl_addNew, List.mem_filterMap]
  exact or_iff_right List.not_mem_nil

theorem key2val_mem {w : List Char} (h : key2val mapping w = some v) : ∃ m ∈ mapping, m.s = w ∧ m.v = v := by
  obtain ⟨m, hm, rfl⟩ := Option.map_eq_some_iff.mp h
  exact ⟨m, List.mem_of_find?_eq_some hm, by simpa using List.find?_some hm, rfl⟩

theorem knownValues_sub : ∀ v ∈ knownValues mapping s, v ∈ mapping.map KeyValWhere.v := by
  intro v hv
  obtain ⟨w, -, hw⟩ := mem_knownValues.mp hv
  obtain ⟨m, hm, -, rfl⟩ := key2val_mem hw
  exact List.mem_map_of_mem hm

theorem knownValues_nodup : (knownValues mapping s).Nodup := nodup_foldl_addNew List.nodup_nil

/-- The words give the list of the known values. -/
theorem gprefs_words (mapping : List KeyValWhere) (text : CString) (conf : Prefs) : ∃ r,
    gprefs mapping text conf = (do
      let r ← addAllMissing mapping mapping.length (mapping.length + 1) r
      return r.conf) ∧
    Grown r (knownValues mapping text.chars) (knownValues mapping text.chars) := by
  obtain ⟨r, hr, hrep⟩ := @readWords_spec mapping _ _ _ _ (@represents_nil conf)
    (Nat.lt_succ_self text.chars.length)
  refine ⟨r, ?_, hrep.holds, hrep.length_eq, hrep.seen_iff, List.Sublist.refl _⟩
  unfold gprefs
  rw [hr, ok_bind]

/-- The string is read as a preference list exactly if no missing value depends on another missing one. -/
theorem correct_iff (hwf : WellFormed mapping) (text : CString) :
    Correct mapping text ↔ Settled mapping (knownValues mapping text.chars) := by
  constructor
  · intro hcorrect m hm hv vrel hvrel
    by_contra hmissing
    obtain ⟨conf', hconf', l, hholds, hperm, -⟩ := hcorrect fun _ => none
    obtain ⟨r, hr, hgrown⟩ := gprefs_words mapping text fun _ => none
    obtain ⟨r', hr', hr''⟩ : ∃ r', addAllMissing mapping mapping.length (mapping.length + 1) r = .ok r' ∧
        r'.conf = conf' := by
      rw [hr] at hconf'
      cases hpass : addAllMissing mapping mapping.length (mapping.length + 1) r with
      | error fault =>
        rw [hpass] at hconf'
        cases hconf'
      | ok r' =>
        rw [hpass] at hconf'
        exact ⟨r', rfl, Except.ok.inj hconf'⟩
    obtain ⟨l', hgrown', hlength, hvalues⟩ := addAllMissing_ensures hgrown hwf (fun v hv => Or.inl hv) r' hr'
    -- the value is neither known nor added, but is one of the first values
    have hmem : m.v ∈ l := hperm.mem_iff.mpr (List.mem_map_of_mem hm)
    obtain ⟨i, hi, hget⟩ := List.mem_iff_getElem.mp hmem
    have hi' : i < l'.length := by
      have hl := hperm.length_eq
      rw [List.length_map] at hl
      omega
    have hsame : l'[i]? = some m.v := by
      rw [← hgrown'.holds i hi', hr'', hholds i hi, List.getElem?_eq_getElem hi, hget]
    rcases hvalues m.v (List.mem_of_getElem? hsame) with h | h
    · exact hv h
    · obtain ⟨m', hm', hsame'⟩ := List.mem_map.mp h
      obtain ⟨hmem', haddable⟩ := List.mem_filter.mp hm'
      obtain rfl : m' = m := List.inj_on_of_nodup_map hwf.values hmem' hm hsame'
      exact hmissing ((of_decide_eq_true haddable).2 vrel hvrel)
  · intro hsettled conf
    obtain ⟨r, hr, hgrown⟩ := gprefs_words mapping text conf
    obtain ⟨r', l', hr', hgrown', hperm⟩ := addAllMissing_settled hgrown rfl hwf rfl knownValues_nodup
      knownValues_sub hsettled (Nat.lt_succ_self mapping.length)
    refine ⟨r'.conf, ?_, l', hgrown'.holds, hperm, hgrown'.sublist⟩
    rw [hr, hr', ok_bind, pure_eq]

/-! ## Writing -/

/-- Words with commas between them, after what is there -/
def joinWords (buf : List Char) (words : List (List Char)) : List Char :=
  words.foldl (fun buf s => buf ++ (if buf.length > 0 then [','] else []) ++ s) buf

theorem joinWords_length_le (words : List (List Char)) (buf : List Char) :
    buf.length ≤ (joinWords buf words).length := by
  induction words generalizing buf with
  | nil => exact le_rfl
  | cons s words ih =>
    refine le_trans ?_ (ih _)
    dsimp only
    rw [List.append_assoc, List.length_append]
    exact Nat.le_add_right _ _

/-- The name of the value at a number -/
def nameAt (mapping : List KeyValWhere) (conf : Prefs) (i : ℕ) : Option (List Char) :=
  (conf i).bind (val2key mapping)

def namesAt (mapping : List KeyValWhere) (conf : Prefs) (is : List ℕ) : List (List Char) :=
  is.filterMap (nameAt mapping conf)

theorem prefsLength_eq {is : List ℕ} (h : ∀ i ∈ is, conf i ≠ none) (buf : List Char) :
    prefsLength mapping conf is buf.length = .ok (joinWords buf (namesAt mapping conf is)).length := by
  unfold namesAt
  induction is generalizing buf with
  | nil => rfl
  | cons i is ih =>
    obtain ⟨v, hv⟩ := Option.ne_none_iff_exists'.mp (h i List.mem_cons_self)
    have hget : getInt conf i = .ok v := by
      unfold getInt
      rw [hv]
    have hrest := fun buf => ih (fun j hj => h j (List.mem_cons_of_mem _ hj)) buf
    unfold prefsLength
    rw [hget, ok_bind]
    cases hname : val2key mapping v with
    | none =>
      have hskip : nameAt mapping conf i = none := by rw [nameAt, hv, Option.bind_some, hname]
      rw [List.filterMap_cons_none hskip]
      exact hrest buf
    | some s =>
      have htake : nameAt mapping conf i = some s := by rw [nameAt, hv, Option.bind_some, hname]
      have hlength : buf.length + (if buf.length > 0 then 1 else 0) + s.length =
          (buf ++ (if buf.length > 0 then [','] else []) ++ s).length := by
        rw [List.length_append, List.length_append]
        split <;> rfl
      rw [List.filterMap_cons_some htake]
      dsimp only
      rw [hlength]
      exact hrest _

theorem writePrefs_eq {is : List ℕ} {maxlen : ℕ} (h : ∀ i ∈ is, conf i ≠ none) (buf : List Char)
    (hfits : (joinWords buf (namesAt mapping conf is)).length ≤ maxlen) :
    writePrefs mapping conf maxlen is buf = .ok (joinWords buf (namesAt mapping conf is)) := by
  unfold namesAt at hfits ⊢
  induction is generalizing buf with
  | nil => rfl
  | cons i is ih =>
    obtain ⟨v, hv⟩ := Option.ne_none_iff_exists'.mp (h i List.mem_cons_self)
    have hget : getInt conf i = .ok v := by
      unfold getInt
      rw [hv]
    have hrest := fun buf => ih (fun j hj => h j (List.mem_cons_of_mem _ hj)) buf
    unfold writePrefs
    rw [hget, ok_bind]
    cases hname : val2key mapping v with
    | none =>
      have hskip : nameAt mapping conf i = none := by rw [nameAt, hv, Option.bind_some, hname]
      rw [List.filterMap_cons_none hskip] at hfits ⊢
      exact hrest buf hfits
    | some s =>
      have htake : nameAt mapping conf i = some s := by rw [nameAt, hv, Option.bind_some, hname]
      rw [List.filterMap_cons_some htake] at hfits ⊢
      have hle : (buf ++ (if buf.length > 0 then [','] else []) ++ s).length ≤ maxlen :=
        le_trans (joinWords_length_le _ _) hfits
      dsimp only
      rw [if_pos hle]
      exact hrest _ hfits

/-- The number that is counted is that of the characters that are written. -/
theorem wprefs_eq (h : ∀ i < mapping.length, conf i ≠ none) :
    wprefs mapping conf = .ok (joinWords [] (namesAt mapping conf (List.range mapping.length))) := by
  have hrange : ∀ i ∈ List.range mapping.length, conf i ≠ none := fun i hi => h i (List.mem_range.mp hi)
  have hlength := @prefsLength_eq mapping conf _ hrange []
  rw [List.length_nil] at hlength
  unfold wprefs
  rw [hlength, ok_bind, writePrefs_eq hrange [] le_rfl, ok_bind, if_pos rfl, pure_eq]

/-! ## Round trips -/

theorem find_of_nodup {β : Type} [DecidableEq β] {f : KeyValWhere → β} (hnodup : (mapping.map f).Nodup)
    {m : KeyValWhere} (hm : m ∈ mapping) : mapping.find? (fun m' => f m' = f m) = some m := by
  cases hfind : mapping.find? (fun m' => f m' = f m) with
  | none =>
    have hnone := List.find?_eq_none.mp hfind m hm
    simp at hnone
  | some m' =>
    have hsame : f m' = f m := by simpa using List.find?_some hfind
    rw [List.inj_on_of_nodup_map hnodup (List.mem_of_find?_eq_some hfind) hm hsame]

theorem val2key_eq (hwf : WellFormed mapping) {m : KeyValWhere} (hm : m ∈ mapping) :
    val2key mapping m.v = some m.s := by
  unfold val2key
  rw [find_of_nodup hwf.values hm]
  rfl

theorem key2val_eq (hwf : WellFormed mapping) {m : KeyValWhere} (hm : m ∈ mapping) :
    key2val mapping m.s = some m.v := by
  unfold key2val
  rw [find_of_nodup hwf.names hm]
  rfl

theorem joinWords_eq {buf : List Char} (hbuf : buf ≠ []) (words : List (List Char)) :
    joinWords buf words = buf ++ words.flatMap (',' :: ·) := by
  induction words generalizing buf with
  | nil => exact (List.append_nil buf).symm
  | cons w words ih =>
    have hstep : joinWords buf (w :: words) = joinWords (buf ++ [','] ++ w) words := by
      unfold joinWords
      rw [List.foldl_cons, if_pos (List.length_pos_iff.mpr hbuf)]
    rw [hstep, ih (List.append_ne_nil_of_left_ne_nil (List.append_ne_nil_of_left_ne_nil hbuf _) _),
      List.flatMap_cons, List.append_assoc, List.append_assoc]
    rfl

theorem joinWords_cons {w : List Char} (hw : w ≠ []) (words : List (List Char)) :
    joinWords [] (w :: words) = w ++ words.flatMap (',' :: ·) := joinWords_eq hw words

/-- The words are read as they were joined. -/
theorem commaWords_joinWords {words : List (List Char)} (h : ∀ w ∈ words, w ≠ [] ∧ ∀ c ∈ w, c ≠ ',') :
    commaWords (joinWords [] words) = words := by
  induction words with
  | nil => rfl
  | cons w words ih =>
    obtain ⟨hne, hplain⟩ := h w List.mem_cons_self
    have hrest := ih fun w' hw' => h w' (List.mem_cons_of_mem _ hw')
    have htail : (words.flatMap (',' :: ·)).tail = joinWords [] words ∧
        (words.flatMap (',' :: ·) = [] ∨ (words.flatMap (',' :: ·)).head? = some ',') := by
      cases words with
      | nil => exact ⟨rfl, Or.inl rfl⟩
      | cons w' words =>
        rw [joinWords_cons (h w' (List.mem_cons_of_mem _ List.mem_cons_self)).1]
        exact ⟨rfl, Or.inr rfl⟩
    rw [joinWords_cons hne, commaWords_word hne hplain htail.2, htail.1, hrest]

theorem mem_joinWords {words : List (List Char)} {buf : List Char} {c : Char} (h : c ∈ joinWords buf words) :
    c ∈ buf ∨ c = ',' ∨ ∃ w ∈ words, c ∈ w := by
  induction words generalizing buf with
  | nil => exact Or.inl h
  | cons w words ih =>
    rcases ih h with h | h | ⟨w', hw', hc⟩
    · rcases List.mem_append.mp h with h | h
      · rcases List.mem_append.mp h with h | h
        · exact Or.inl h
        · split at h
          · exact Or.inr (Or.inl (List.mem_singleton.mp h))
          · exact absurd h List.not_mem_nil
      · exact Or.inr (Or.inr ⟨w, List.mem_cons_self, h⟩)
    · exact Or.inr (Or.inl h)
    · exact Or.inr (Or.inr ⟨w', List.mem_cons_of_mem _ hw', hc⟩)

theorem namesAt_eq (h : Holds conf l) : namesAt mapping conf (List.range l.length) = l.filterMap (val2key mapping) := by
  have hmap : (List.range l.length).map conf = l.map some := by
    refine List.ext_getElem? fun i => ?_
    rw [List.getElem?_map, List.getElem?_map]
    by_cases hi : i < l.length
    · rw [List.getElem?_range hi, Option.map_some, h i hi, List.getElem?_eq_getElem hi]
      rfl
    · rw [List.getElem?_eq_none (by rw [List.length_range]; omega), List.getElem?_eq_none (by omega)]
      rfl
  have hbind : namesAt mapping conf (List.range l.length) =
      ((List.range l.length).map conf).filterMap fun o => o.bind (val2key mapping) := by
    unfold namesAt
    rw [List.filterMap_map]
    rfl
  rw [hbind, hmap, List.filterMap_map]
  rfl

theorem restores (hwf : WellFormed mapping) : Restores mapping := by
  intro conf l old hholds hperm
  have hlength : l.length = mapping.length := by rw [hperm.length_eq, List.length_map]
  have hentry : ∀ v ∈ l, ∃ m ∈ mapping, m.v = v := fun v hv => List.mem_map.mp (hperm.mem_iff.mp hv)
  have hwords : ∀ w ∈ l.filterMap (val2key mapping), w ≠ [] ∧ ∀ c ∈ w, c ≠ ',' ∧ c ≠ NUL := by
    intro w hw
    obtain ⟨v, hv, hname⟩ := List.mem_filterMap.mp hw
    obtain ⟨m, hm, rfl⟩ := hentry v hv
    rw [val2key_eq hwf hm] at hname
    exact Option.some.inj hname ▸ hwf.words m hm
  have hnoNul : ∀ c ∈ joinWords [] (l.filterMap (val2key mapping)), c ≠ NUL := by
    intro c hc
    rcases mem_joinWords hc with hc | rfl | ⟨w, hw, hc⟩
    · exact absurd hc List.not_mem_nil
    · decide
    · exact ((hwords w hw).2 c hc).2
  have hback : ∀ l' : List ℕ, (∀ v ∈ l', ∃ m ∈ mapping, m.v = v) →
      (l'.filterMap (val2key mapping)).filterMap (key2val mapping) = l' := by
    intro l' hl'
    induction l' with
    | nil => rfl
    | cons v l' ih =>
      obtain ⟨m, hm, rfl⟩ := hl' v List.mem_cons_self
      rw [List.filterMap_cons_some (val2key_eq hwf hm), List.filterMap_cons_some (key2val_eq hwf hm),
        ih fun v hv => hl' v (List.mem_cons_of_mem _ hv)]
  have hknown : knownValues mapping (joinWords [] (l.filterMap (val2key mapping))) = l := by
    unfold knownValues
    rw [commaWords_joinWords fun w hw => ⟨(hwords w hw).1, fun c hc => ((hwords w hw).2 c hc).1⟩, hback l hentry]
    exact foldl_addNew_eq (hperm.nodup_iff.mpr hwf.values)
  refine ⟨⟨_, hnoNul⟩, ?_, ?_⟩
  · have hthere : ∀ i < mapping.length, conf i ≠ none := by
      intro i hi
      rw [← hlength] at hi
      rw [hholds i hi, List.getElem?_eq_getElem hi]
      exact Option.some_ne_none _
    rw [wprefs_eq hthere, ← hlength, namesAt_eq hholds]
  · have hsettled : Settled mapping (knownValues mapping (joinWords [] (l.filterMap (val2key mapping)))) := by
      intro m hm hmissing
      rw [hknown] at hmissing
      exact absurd (hperm.mem_iff.mpr (List.mem_map_of_mem hm)) hmissing
    obtain ⟨conf', hconf', l', hholds', hperm', hsub⟩ := (correct_iff hwf ⟨_, hnoNul⟩).mpr hsettled old
    have hsame : l = l' := by
      rw [hknown] at hsub
      exact hsub.eq_of_length (hperm.length_eq.trans hperm'.length_eq.symm)
    exact ⟨conf', hconf', hsame ▸ hholds'⟩

/-! ## The mappings in use -/

/-- No word is empty or has a comma or a NUL in it. -/
theorem words_of_all (h : mapping.all (fun m => !m.s.isEmpty && m.s.all fun c => c != ',' && c != NUL) = true) :
    ∀ m ∈ mapping, m.s ≠ [] ∧ ∀ c ∈ m.s, c ≠ ',' ∧ c ≠ NUL := by
  intro m hm
  obtain ⟨hne, hchars⟩ := Bool.and_eq_true_iff.mp (List.all_eq_true.mp h m hm)
  constructor
  · intro hnil
    rw [hnil] at hne
    exact absurd hne Bool.false_ne_true
  · intro c hc
    obtain ⟨hcomma, hnul⟩ := Bool.and_eq_true_iff.mp (List.all_eq_true.mp hchars c hc)
    exact ⟨bne_iff_ne.mp hcomma, bne_iff_ne.mp hnul⟩

theorem ciphernames_wellFormed : WellFormed ciphernames :=
  ⟨by decide, by decide, by decide, words_of_all rfl⟩

theorem kexnames_wellFormed : WellFormed kexnames :=
  ⟨by decide, by decide, by decide, words_of_all rfl⟩

/-- A cipher never depends on another one. -/
theorem settled_ciphernames : Settled ciphernames known := by
  have hnone : ∀ m ∈ ciphernames, m.vrel = none := by decide
  intro m hm _ vrel hvrel
  rw [hnone m hm] at hvrel
  cases hvrel

/-- The key exchange with RSA depends on the warning. -/
theorem settled_kexnames : Settled kexnames known ↔ KEX_RSA ∈ known ∨ KEX_WARN ∈ known := by
  have hdepends : ∀ m ∈ kexnames, m.vrel = none ∨ m.v = KEX_RSA ∧ m.vrel = some KEX_WARN := by decide
  constructor
  · intro h
    by_cases hrsa : KEX_RSA ∈ known
    · exact Or.inl hrsa
    · have hentry : (⟨"rsa".toList, KEX_RSA, some KEX_WARN, -1⟩ : KeyValWhere) ∈ kexnames := by decide
      exact Or.inr (h _ hentry hrsa KEX_WARN rfl)
  · rintro h m hm hmissing vrel hvrel
    rcases hdepends m hm with hnone | ⟨hv, hwarn⟩
    · rw [hnone] at hvrel
      cases hvrel
    · rw [hv] at hmissing
      rw [← Option.some.inj (hwarn.symm.trans hvrel)]
      exact h.resolve_left hmissing

theorem mem_knownValues_of_wellFormed (hwf : WellFormed mapping) {m : KeyValWhere} (hm : m ∈ mapping) :
    m.v ∈ knownValues mapping s ↔ m.s ∈ commaWords s := by
  rw [mem_knownValues]
  constructor
  · rintro ⟨w, hw, hvalue⟩
    obtain ⟨m', hm', rfl, hsame⟩ := key2val_mem hvalue
    rw [← List.inj_on_of_nodup_map hwf.values hm' hm hsame]
    exact hw
  · intro hw
    exact ⟨m.s, hw, key2val_eq hwf hm⟩

/-- Lists are read and restored as they should exactly if, for key exchanges, one of the words `rsa` and `WARN` is in
the string. -/
theorem prefs_iff (setting : PrefsSetting) (text : CString) :
    Correct setting.mapping text ∧ Restores setting.mapping ↔
      (setting = .kex → "rsa".toList ∈ commaWords text.chars ∨ "WARN".toList ∈ commaWords text.chars) := by
  cases setting with
  | cipher =>
    refine iff_of_true ⟨?_, restores ciphernames_wellFormed⟩ fun h => (nomatch h)
    exact (correct_iff ciphernames_wellFormed text).mpr settled_ciphernames
  | kex =>
    have hrsa : KEX_RSA ∈ knownValues kexnames text.chars ↔ "rsa".toList ∈ commaWords text.chars :=
      mem_knownValues_of_wellFormed kexnames_wellFormed
        (show ⟨"rsa".toList, KEX_RSA, some KEX_WARN, -1⟩ ∈ kexnames by decide)
    have hwarn : KEX_WARN ∈ knownValues kexnames text.chars ↔ "WARN".toList ∈ commaWords text.chars :=
      mem_knownValues_of_wellFormed kexnames_wellFormed
        (show ⟨"WARN".toList, KEX_WARN, none, -1⟩ ∈ kexnames by decide)
    have hcorrect := correct_iff kexnames_wellFormed text
    rw [settled_kexnames, hrsa, hwarn] at hcorrect
    constructor
    · exact fun h _ => hcorrect.mp h.1
    · exact fun h => ⟨hcorrect.mpr (h rfl), restores kexnames_wellFormed⟩

/-- From the empty string no list of all key exchanges is read. -/
theorem kex_emptyString : ¬Correct kexnames emptyString := by
  rw [correct_iff kexnames_wellFormed, settled_kexnames]
  decide

end PuttyNd.Settings
