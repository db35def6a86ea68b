import Mathlib.Data.List.TakeWhile
import Mathlib.Tactic.Common
import PuttyNd.Lib.Fields
import PuttyNd.Psftp.Proxy

/-!
# The entries of the exclusion list

The loop goes through the fields between separators. Of each it only looks at the characters in front that an entry
may have, and takes these for a match if they are the beginning of a text.
-/

namespace PuttyNd.Psftp

open Memory Fields Outcome

variable {hostip : Option (List Char)} {hostname list text t x : List Char} {s e : ℕ} {n : ℤ}

/-! ## What the list means -/

def lower (text : List Char) : List Char := text.map Char.toLower

/-- What an entry with a wildcard at one of its ends, or without one, says of a text -/
def Matches (x text : List Char) : Prop :=
  if x.head? = some '*' then lower x.tail <:+ lower text
  else if x.getLast? = some '*' then lower x.dropLast <+: lower text
  else lower x = lower text

/-- The texts that entries are compared with -/
def texts (hostip : Option (List Char)) (hostname : List Char) : List (List Char) := hostip.toList ++ [hostname]

/-- The field is an entry, and matches. -/
def Excludes (hostip : Option (List Char)) (hostname x : List Char) : Prop :=
  (∀ c ∈ x, isEntryChar c = true) ∧ ∃ text ∈ texts hostip hostname, Matches x text

/-! ## What the loop makes of it -/

/-- The characters in front that an entry may have -/
def leading (x : List Char) : List Char := x.takeWhile isEntryChar

/-- The field is taken for an entry that matches. -/
def Taken (hostip : Option (List Char)) (hostname x : List Char) : Prop :=
  if (leading x).head? = some '*' then ∃ text ∈ texts hostip hostname, lower (leading x).tail <:+ lower text
  else if (leading x).getLast? = some '*' then
    ∃ text ∈ texts hostip hostname, lower (leading x).dropLast <+: lower text
  else ∃ text ∈ texts hostip hostname, lower (leading x) <+: lower text

/-- What follows a wildcard is not longer than the texts that it is compared with, and the list does not begin with
a character that an entry may not have. -/
def Readable (hostip : Option (List Char)) (hostname : List Char) (atStart : Bool) (x : List Char) : Prop :=
  if (leading x).head? = some '*' then
    (∀ ip, hostip = some ip → (leading x).tail.length ≤ ip.length) ∧
      ((∃ ip, hostip = some ip ∧ lower (leading x).tail <:+ lower ip) ∨
        (leading x).tail.length ≤ hostname.length)
  else leading x = [] → atStart = false

/-- Up to the first field that is taken for a match, all can be read, and if there is one, one that comes no earlier
does exclude. -/
def ListRight (hostip : Option (List Char)) (hostname : List Char) : Bool → List (List Char) → Prop
  | _, [] => True
  | atStart, x :: xs => Readable hostip hostname atStart x ∧
    (Taken hostip hostname x ∧ (∃ y ∈ x :: xs, Excludes hostip hostname y) ∨
      ¬Taken hostip hostname x ∧ ListRight hostip hostname false xs)

theorem length_lower (text : List Char) : (lower text).length = text.length := List.length_map _

theorem Excludes.leading_eq (h : Excludes hostip hostname x) : leading x = x :=
  List.takeWhile_eq_self_iff.mpr h.1

/-- A field that excludes is taken for a match. -/
theorem Excludes.taken (h : Excludes hostip hostname x) : Taken hostip hostname x := by
  obtain ⟨-, text, htext, hmatch⟩ := id h
  unfold Taken
  rw [h.leading_eq]
  unfold Matches at hmatch
  split_ifs at hmatch ⊢ with h1 h2
  · exact ⟨text, htext, hmatch⟩
  · exact ⟨text, htext, hmatch⟩
  · exact ⟨text, htext, hmatch ▸ List.prefix_rfl⟩

/-! ## Comparisons -/

theorem strnicmpEq_isPrefixOf (text t rest : List Char) :
    strnicmpEq text (t ++ rest) t.length = true ↔ lower t <+: lower text := by
  unfold strnicmpEq
  rw [if_neg (by omega), beq_iff_eq, Int.toNat_natCast, List.take_left, List.prefix_iff_eq_take, length_lower]
  unfold lower
  rw [List.map_take]
  exact eq_comm

/-- The test of a wildcard, where the pointer is in the text -/
theorem suffixTest_eq (text rest : List Char) (hlist : list.drop (s + 1) = t ++ rest) (he : e = s + 1 + t.length) :
    suffixTest text list s e =
      if t.length ≤ text.length then .ok (decide (lower t <:+ lower text)) else .error .overrun := by
  have hn : (e : ℤ) - s - 1 = t.length := by omega
  unfold suffixTest
  dsimp only
  rw [hn, hlist]
  unfold pointInto
  by_cases hlen : t.length ≤ text.length
  · have hnat : ((text.length : ℤ) - t.length).toNat = text.length - t.length := by omega
    rw [if_pos (by omega), if_pos hlen, hnat]
    have heq : strnicmpEq (text.drop (text.length - t.length)) (t ++ rest) t.length = true ↔
        lower t <:+ lower text := by
      rw [strnicmpEq_isPrefixOf, List.suffix_iff_eq_drop, length_lower, length_lower]
      unfold lower
      rw [List.map_drop]
      constructor
      · intro h
        refine h.eq_of_length ?_
        rw [List.length_map, List.length_drop, List.length_map]
        omega
      · exact fun h => h ▸ List.prefix_rfl
    show Except.ok _ = _
    rw [Except.ok.injEq, ← Bool.coe_iff_coe, heq, decide_eq_true_iff]
  · rw [if_neg (by omega), if_neg hlen]
    rfl

theorem any_texts (f : List Char → Bool) : (hostip.any f || f hostname) = true ↔
    ∃ text ∈ texts hostip hostname, f text = true := by
  unfold texts
  cases hostip with
  | none => simp
  | some ip => simp

/-! ## One field -/

theorem leading_append (x : List Char) : leading x ++ x.dropWhile isEntryChar = x := List.takeWhile_append_dropWhile

theorem leading_star (r : List Char) : leading ('*' :: r) = '*' :: leading r :=
  List.takeWhile_cons_of_pos (by decide)

theorem readable_star (atStart : Bool) (r : List Char) : Readable hostip hostname atStart ('*' :: r) ↔
    (∀ ip, hostip = some ip → (leading r).length ≤ ip.length) ∧
      ((∃ ip, hostip = some ip ∧ lower (leading r) <:+ lower ip) ∨ (leading r).length ≤ hostname.length) := by
  unfold Readable
  rw [leading_star]
  exact Iff.of_eq (if_pos rfl)

theorem taken_star (r : List Char) : Taken hostip hostname ('*' :: r) ↔
    ∃ text ∈ texts hostip hostname, lower (leading r) <:+ lower text := by
  unfold Taken
  rw [leading_star]
  exact Iff.of_eq (if_pos rfl)

/-- The test of a field that begins with a wildcard -/
theorem testEntry_star {r : List Char} (hr : list.drop s = '*' :: r) (atStart : Bool) :
    (Readable hostip hostname atStart ('*' :: r) → ∃ b,
      testEntry hostip hostname list s (s + (leading ('*' :: r)).length) = .ok b ∧
        (b = true ↔ Taken hostip hostname ('*' :: r))) ∧
    (¬Readable hostip hostname atStart ('*' :: r) →
      testEntry hostip hostname list s (s + (leading ('*' :: r)).length) = .error .overrun) := by
  have hhead : list[s]? = some '*' := by
    rw [← List.head?_drop, hr]
    rfl
  have hdrop : list.drop (s + 1) = leading r ++ r.dropWhile isEntryChar := by
    rw [leading_append, ← List.drop_drop, hr]
    rfl
  have htest := fun text => @suffixTest_eq list (leading r) s (s + (leading ('*' :: r)).length) text
    (r.dropWhile isEntryChar) hdrop (by
      rw [leading_star, List.length_cons]
      omega)
  rw [readable_star, taken_star]
  unfold testEntry texts
  rw [if_pos hhead]
  cases hostip with
  | none =>
    by_cases hlen : (leading r).length ≤ hostname.length
    · simp [htest, hlen]
    · simp [htest, hlen]
  | some ip =>
    by_cases hip : (leading r).length ≤ ip.length
    · by_cases hmatch : lower (leading r) <:+ lower ip
      · simp [htest, hip, hmatch]
      · by_cases hlen : (leading r).length ≤ hostname.length
        · simp [htest, hip, hmatch, hlen]
        · simp [htest, hip, hmatch, hlen]
    · simp [htest, hip]

theorem leading_head {r : List Char} (h : r.head? ≠ some '*') : (leading r).head? ≠ some '*' := by
  unfold leading
  cases r with
  | nil => exact h
  | cons c r =>
    by_cases hc : isEntryChar c = true
    · rw [List.takeWhile_cons_of_pos hc]
      exact h
    · rw [List.takeWhile_cons_of_neg hc]
      simp

/-- A comparison with what an entry begins with -/
theorem any_strnicmpEq {r rest : List Char} (hr : r = t ++ rest) :
    ((hostip.any fun ip => strnicmpEq ip r t.length) || strnicmpEq hostname r t.length) = true ↔
      ∃ text ∈ texts hostip hostname, lower t <+: lower text := by
  rw [any_texts (fun text => strnicmpEq text r t.length), hr]
  simp only [strnicmpEq_isPrefixOf]

/-- The test of a field without a wildcard in front -/
theorem testEntry_plain {r : List Char} (hr : list.drop s = r) (hhead : r.head? ≠ some '*')
    (hne : leading r ≠ [] ∨ s ≠ 0 ∧ list[s - 1]? ≠ some '*') : ∃ b,
      testEntry hostip hostname list s (s + (leading r).length) = .ok b ∧
        (b = true ↔ Taken hostip hostname r) := by
  have hstar : list[s]? ≠ some '*' := by
    rw [← List.head?_drop, hr]
    exact hhead
  have hend : s + (leading r).length ≠ 0 := by
    rcases hne with hne | ⟨hs, -⟩
    · have := List.length_pos_iff.mpr hne
      omega
    · omega
  have hsplit : r = leading r ++ r.dropWhile isEntryChar := (leading_append r).symm
  have hlast : list[s + (leading r).length - 1]? = some '*' ↔ (leading r).getLast? = some '*' := by
    by_cases hnil : leading r = []
    · -- what is before the field is a separator
      obtain ⟨-, hbefore⟩ := hne.resolve_left fun h => h hnil
      rw [hnil]
      exact iff_of_false hbefore (by simp)
    · have hlen := List.length_pos_iff.mpr hnil
      have hindex : s + (leading r).length - 1 = s + ((leading r).length - 1) := by omega
      rw [hindex, ← List.getElem?_drop, hr, List.getLast?_eq_getElem?]
      nth_rewrite 1 [hsplit]
      rw [List.getElem?_append_left (by omega)]
  unfold testEntry Taken
  rw [if_neg hstar, if_neg hend, if_neg (leading_head hhead)]
  by_cases hwild : (leading r).getLast? = some '*'
  · rw [if_pos (hlast.mpr hwild), if_pos hwild]
    refine ⟨_, rfl, ?_⟩
    have hnil : leading r ≠ [] := by
      intro hnil
      rw [hnil] at hwild
      cases hwild
    have hn : ((s + (leading r).length : ℕ) : ℤ) - s - 1 = (leading r).dropLast.length := by
      have := List.length_pos_iff.mpr hnil
      rw [List.length_dropLast]
      omega
    have hsplit' : r = (leading r).dropLast ++ ((leading r).getLast hnil :: r.dropWhile isEntryChar) := by
      rw [List.append_cons, List.dropLast_append_getLast, leading_append]
    rw [hn, hr]
    exact any_strnicmpEq hsplit'
  · rw [if_neg fun h => hwild (hlast.mp h), if_neg hwild]
    refine ⟨_, rfl, ?_⟩
    have hn : ((s + (leading r).length : ℕ) : ℤ) - s = (leading r).length := by omega
    rw [hn, hr]
    exact any_strnicmpEq hsplit

/-! ## The loop -/

theorem skipWhile_eq (p : Char → Bool) (list : List Char) (s : ℕ) :
    skipWhile p list s = s + ((list.drop s).takeWhile p).length := rfl

theorem le_skipWhile (p : Char → Bool) (list : List Char) (s : ℕ) : s ≤ skipWhile p list s := Nat.le_add_right _ _

theorem skipWhile_le (p : Char → Bool) (hs : s ≤ list.length) : skipWhile p list s ≤ list.length := by
  have := (List.takeWhile_sublist (l := list.drop s) p).length_le
  rw [List.length_drop] at this
  rw [skipWhile_eq]
  omega

theorem drop_skipWhile (p : Char → Bool) (list : List Char) (s : ℕ) :
    list.drop (skipWhile p list s) = (list.drop s).dropWhile p := by
  unfold skipWhile
  rw [← List.drop_drop]
  nth_rewrite 2 [← @List.takeWhile_append_dropWhile _ p (list.drop s)]
  rw [List.drop_left]

/-- What is right before the place where the separators end -/
theorem before_skipWhile (hstart : s = 0 ∨ ∀ c, list[s]? = some c → isSeparator c = true)
    (hmore : skipWhile isSeparator list s < list.length) (hpos : skipWhile isSeparator list s ≠ 0) :
    ∃ d, list[skipWhile isSeparator list s - 1]? = some d ∧ isSeparator d = true := by
  have hk : skipWhile isSeparator list s = s + ((list.drop s).takeWhile isSeparator).length := rfl
  by_cases hnil : (list.drop s).takeWhile isSeparator = []
  · rw [hnil, List.length_nil] at hk
    obtain hzero | hsep := hstart
    · omega
    · rw [hk] at hmore
      have hdrop : list.drop s = list[s] :: list.drop (s + 1) := List.drop_eq_getElem_cons (by omega)
      rw [hdrop, List.takeWhile_cons_of_pos (hsep _ (List.getElem?_eq_getElem (by omega)))] at hnil
      cases hnil
  · have hlen := List.length_pos_iff.mpr hnil
    have hindex : skipWhile isSeparator list s - 1 =
        s + (((list.drop s).takeWhile isSeparator).length - 1) := by omega
    refine ⟨((list.drop s).takeWhile isSeparator).getLast hnil, ?_,
      List.mem_takeWhile_imp (List.getLast_mem hnil)⟩
    rw [hindex, ← List.getElem?_drop]
    nth_rewrite 1 [← @List.takeWhile_append_dropWhile _ isSeparator (list.drop s)]
    rw [List.getElem?_append_left (by omega), ← List.getLast?_eq_getElem?, List.getLast?_eq_some_getLast]

theorem isSeparator_eq_false {c : Char} (h : isEntryChar c = true) : isSeparator c = false := by
  by_contra hsep
  rw [Bool.not_eq_false] at hsep
  unfold isSeparator isspace at hsep
  simp only [Bool.or_eq_true, Bool.and_eq_true, beq_iff_eq, decide_eq_true_iff] at hsep
  rcases hsep with (rfl | ⟨hlow, hhigh⟩) | rfl
  · exact absurd h (by decide)
  · have hrange : 9 ≤ c.toNat ∧ c.toNat ≤ 13 := ⟨hlow, hhigh⟩
    have hall : ∀ n < 14, 9 ≤ n → isEntryChar (Char.ofNat n) = false := by decide
    have := hall c.toNat (Nat.lt_succ_of_le hrange.2) hrange.1
    rw [Char.ofNat_toNat] at this
    rw [this] at h
    cases h
  · exact absurd h (by decide)

theorem leading_field (r : List Char) : leading (r.takeWhile fun c => !isSeparator c) = leading r := by
  unfold leading
  induction r with
  | nil => rfl
  | cons c r ih =>
    by_cases hc : isEntryChar c = true
    · rw [List.takeWhile_cons_of_pos (by simp [isSeparator_eq_false hc]), List.takeWhile_cons_of_pos hc, ih,
        List.takeWhile_cons_of_pos hc]
    · rw [List.takeWhile_cons_of_neg hc]
      by_cases hsep : isSeparator c = true
      · rw [List.takeWhile_cons_of_neg (by simp [hsep])]
        rfl
      · rw [List.takeWhile_cons_of_pos (by simp [hsep]), List.takeWhile_cons_of_neg hc]

theorem dropWhile_field (r : List Char) : (r.dropWhile isEntryChar).dropWhile (fun c => !isSeparator c) =
    r.dropWhile fun c => !isSeparator c := by
  induction r with
  | nil => rfl
  | cons c r ih =>
    by_cases hc : isEntryChar c = true
    · rw [List.dropWhile_cons_of_pos hc, ih, List.dropWhile_cons_of_pos (by simp [isSeparator_eq_false hc])]
    · rw [List.dropWhile_cons_of_neg hc]

theorem readable_field {atStart : Bool} (r : List Char) :
    Readable hostip hostname atStart (r.takeWhile fun c => !isSeparator c) ↔
      Readable hostip hostname atStart r := by
  unfold Readable
  rw [leading_field]

theorem taken_field (r : List Char) : Taken hostip hostname (r.takeWhile fun c => !isSeparator c) ↔
    Taken hostip hostname r := by
  unfold Taken
  rw [leading_field]

/-- The test of a field where the scan has found it: it fails only if the field cannot be read. -/
theorem testEntry_spec {r : List Char} (hr : list.drop s = r) (hne : r ≠ [])
    (hbefore : s ≠ 0 → ∃ d, list[s - 1]? = some d ∧ isSeparator d = true) :
    (Readable hostip hostname (decide (s = 0)) r → ∃ b,
      testEntry hostip hostname list s (s + (leading r).length) = .ok b ∧ (b = true ↔ Taken hostip hostname r)) ∧
    (¬Readable hostip hostname (decide (s = 0)) r →
      testEntry hostip hostname list s (s + (leading r).length) = .error .overrun) := by
  by_cases hhead : r.head? = some '*'
  · obtain ⟨r', rfl⟩ : ∃ r', r = '*' :: r' := by
      obtain ⟨c, r', rfl⟩ := List.exists_cons_of_ne_nil hne
      exact ⟨r', by rw [Option.some.inj hhead]⟩
    exact testEntry_star hr _
  · have hreadable : Readable hostip hostname (decide (s = 0)) r ↔ leading r ≠ [] ∨ s ≠ 0 := by
      unfold Readable
      rw [if_neg (leading_head hhead), decide_eq_false_iff_not]
      tauto
    have hstar : s ≠ 0 → list[s - 1]? ≠ some '*' := by
      intro hs hstar
      obtain ⟨d, hd, hsep⟩ := hbefore hs
      rw [hstar] at hd
      cases hd
      exact absurd hsep (by decide)
    rw [hreadable]
    constructor
    · intro h
      exact testEntry_plain hr hhead (h.imp_right fun hs => ⟨hs, hstar hs⟩)
    · intro h
      rw [not_or, not_not, not_not] at h
      obtain ⟨hnil, rfl⟩ := h
      have hfirst : list[0]? ≠ some '*' := by
        rw [← List.head?_drop, hr]
        exact hhead
      unfold testEntry
      rw [if_neg hfirst, hnil]
      rfl

/-- The loop gives the answer that the fields give, unless it is misled by one of them. -/
theorem excludeLoop_spec {fuel : ℕ} (hs : s ≤ list.length) (hfuel : list.length < s + fuel)
    (hstart : s = 0 ∨ ∀ c, list[s]? = some c → isSeparator c = true) :
    (∃ r, excludeLoop hostip hostname list fuel s = .ok r ∧
      (r = false ↔ ∃ y ∈ fields isSeparator (list.drop s), Excludes hostip hostname y)) ↔
    ListRight hostip hostname (decide (skipWhile isSeparator list s = 0)) (fields isSeparator (list.drop s)) := by
  induction fuel generalizing s with
  | zero => omega
  | succ fuel ih =>
    have hnone : fields isSeparator (list.drop s) = [] →
        ((∃ r, (.ok true : Except Fault Bool) = .ok r ∧
          (r = false ↔ ∃ y ∈ fields isSeparator (list.drop s), Excludes hostip hostname y)) ↔
        ListRight hostip hostname (decide (skipWhile isSeparator list s = 0))
          (fields isSeparator (list.drop s))) := by
      intro hnil
      rw [hnil]
      exact iff_of_true ⟨true, rfl, by simp⟩ trivial
    unfold excludeLoop
    by_cases hend : list.length ≤ s
    · rw [if_pos hend]
      exact hnone (by rw [List.drop_eq_nil_of_le hend, fields_nil])
    rw [if_neg hend]
    dsimp only
    have hskip := drop_skipWhile isSeparator list s
    have hfields : fields isSeparator (list.drop s) =
        fields isSeparator (list.drop (skipWhile isSeparator list s)) := by
      rw [hskip, fields_dropWhile]
    by_cases hend' : list.length ≤ skipWhile isSeparator list s
    · rw [if_pos hend']
      exact hnone (by rw [hfields, List.drop_eq_nil_of_le hend', fields_nil])
    rw [if_neg hend', hfields]
    obtain ⟨c, r, hr⟩ := List.exists_cons_of_ne_nil fun hnil => hend' (List.drop_eq_nil_iff.mp hnil)
    have hc : isSeparator c = false := by
      rw [hskip] at hr
      have := List.head_dropWhile_not isSeparator (by rw [hr]; exact List.cons_ne_nil _ _)
      simpa only [hr, List.head_cons] using this
    obtain ⟨hreadable, hunreadable⟩ := @testEntry_spec hostip hostname list (skipWhile isSeparator list s) _ hr
      (List.cons_ne_nil c r) (before_skipWhile hstart (by omega))
    have hnext : list.drop (skipWhile (fun c => !isSeparator c) list (skipWhile isEntryChar list
        (skipWhile isSeparator list s))) = (c :: r).dropWhile fun c => !isSeparator c := by
      rw [drop_skipWhile, drop_skipWhile, hr, dropWhile_field]
    have hlen : skipWhile isEntryChar list (skipWhile isSeparator list s) =
        skipWhile isSeparator list s + (leading (c :: r)).length := by
      rw [skipWhile_eq isEntryChar, hr]
      rfl
    rw [← hlen] at hreadable hunreadable
    rw [hr, fields_cons_of_neg hc]
    unfold ListRight
    rw [readable_field, taken_field]
    by_cases hread : Readable hostip hostname (decide (skipWhile isSeparator list s = 0)) (c :: r)
    · obtain ⟨b, htest, hb⟩ := hreadable hread
      rw [htest, ok_bind, and_iff_right hread]
      cases b with
      | true =>
        have htaken := hb.mp rfl
        rw [if_pos rfl, and_iff_right htaken, or_iff_left fun h => h.1 htaken]
        constructor
        · rintro ⟨r', hok, hiff⟩
          cases hok
          exact hiff.mp rfl
        · exact fun hex => ⟨false, rfl, iff_of_true rfl hex⟩
      | false =>
        have htaken : ¬Taken hostip hostname (c :: r) := fun h => Bool.false_ne_true (hb.mpr h)
        have hnot : ¬Excludes hostip hostname ((c :: r).takeWhile fun c => !isSeparator c) := fun h =>
          htaken ((taken_field _).mp h.taken)
        rw [if_neg Bool.false_ne_true, or_iff_right fun h => htaken h.1, and_iff_right htaken]
        simp only [List.mem_cons, exists_eq_or_imp, hnot, false_or]
        have hle : skipWhile (fun c => !isSeparator c) list (skipWhile isEntryChar list
            (skipWhile isSeparator list s)) ≤ list.length :=
          skipWhile_le _ (skipWhile_le _ (skipWhile_le _ hs))
        have hprogress : skipWhile isSeparator list s < skipWhile (fun c => !isSeparator c) list
            (skipWhile isEntryChar list (skipWhile isSeparator list s)) := by
          have h1 := congrArg List.length hnext
          have h2 := congrArg List.length hr
          rw [List.dropWhile_cons_of_pos (by simp [hc]), List.length_drop] at h1
          rw [List.length_drop, List.length_cons] at h2
          have := (List.dropWhile_sublist (l := r) fun c => !isSeparator c).length_le
          omega
        have hfrom := le_skipWhile isSeparator list s
        rw [← hnext, ih hle (by omega) (.inr ?_)]
        · have hto := le_skipWhile isSeparator list (skipWhile (fun c => !isSeparator c) list
            (skipWhile isEntryChar list (skipWhile isSeparator list s)))
          rw [decide_eq_false fun h => by omega]
        · intro d hd
          rw [← List.head?_drop, hnext] at hd
          have := List.head?_dropWhile_not (fun c => !isSeparator c) (c :: r)
          rw [hd] at this
          simpa using this
    · rw [hunreadable hread, error_bind]
      refine iff_of_false ?_ fun h => hread h.1
      rintro ⟨r', hr', -⟩
      cases hr'

/-! ## Destinations -/

/-- The destination is not set aside as local. -/
def NotLocal (addr : Option ProxyAddr) (hostLocal evenLocalhost : Bool) : Prop :=
  addr.any ProxyAddr.isSpecialLocal = false ∧
    (evenLocalhost = true ∨ hostLocal = false ∧ addr.any ProxyAddr.isLocal = false)

/-- The list is read within its bounds and means what it says if and only if, up to the first field that is taken for
a match, each can be read, and one that comes no earlier than that is an entry that matches. -/
theorem proxyForDestination_iff {addr : Option ProxyAddr} {hostLocal evenLocalhost : Bool}
    (hlocal : NotLocal addr hostLocal evenLocalhost) (hostname list : List Char) :
    (∃ r, proxyForDestination addr hostname hostLocal evenLocalhost list = .ok r ∧ (r = false ↔
      ∃ x ∈ fields isSeparator list, Excludes (addr.map ProxyAddr.text) hostname x)) ↔
    ListRight (addr.map ProxyAddr.text) hostname (decide (skipWhile isSeparator list 0 = 0))
      (fields isSeparator list) := by
  have hloop : proxyForDestination addr hostname hostLocal evenLocalhost list =
      excludeLoop (addr.map ProxyAddr.text) hostname list (list.length + 1) 0 := by
    obtain ⟨hspecial, hlocal⟩ := hlocal
    unfold proxyForDestination
    rw [hspecial, if_neg Bool.false_ne_true]
    rcases hlocal with hever | ⟨hhost, haddr⟩
    · rw [hever]
      rfl
    · rw [hhost, haddr, Bool.or_self, Bool.and_false, if_neg Bool.false_ne_true]
  rw [hloop]
  exact excludeLoop_spec (Nat.zero_le _) (by omega) (.inl rfl)

/-- The list `*.org, 10.*` is read as it is meant, for the host `a.org`. -/
theorem proxyForDestination_wildcard : ∃ r,
    proxyForDestination none "a.org".toList false false "*.org, 10.*".toList = .ok r ∧
    (r = false ↔ ∃ x ∈ fields isSeparator "*.org, 10.*".toList, Excludes none "a.org".toList x) := by
  refine (proxyForDestination_iff ⟨rfl, .inr ⟨rfl, rfl⟩⟩ "a.org".toList "*.org, 10.*".toList).mpr ?_
  have hfields : fields isSeparator "*.org, 10.*".toList = ["*.org".toList, "10.*".toList] := by decide
  have htaken : Taken none "a.org".toList "*.org".toList :=
    (taken_star _).mpr ⟨_, List.mem_cons_self, by decide⟩
  have hreadable : Readable none "a.org".toList true "*.org".toList :=
    (readable_star _ _).mpr ⟨fun ip hip => (nomatch hip), .inr (by decide)⟩
  have hexcludes : Excludes none "a.org".toList "*.org".toList :=
    ⟨List.all_eq_true.mp rfl, _, List.mem_cons_self, (if_pos rfl).mpr (by decide)⟩
  rw [hfields]
  exact ⟨hreadable, .inl ⟨htaken, _, List.mem_cons_self, hexcludes⟩⟩

/-- The entry `a` excludes the host `ab` as well. -/
theorem proxyForDestination_prefix : NotLocal none false false ∧
    proxyForDestination none ['a', 'b'] false false ['a'] = .ok false ∧
    ¬∃ x ∈ fields isSeparator ['a'], Excludes none ['a', 'b'] x := by
  refine ⟨⟨rfl, .inr ⟨rfl, rfl⟩⟩, rfl, ?_⟩
  rintro ⟨x, hx, -, text, htext, hmatch⟩
  have hfields : fields isSeparator ['a'] = [['a']] := by decide
  rw [hfields, List.mem_singleton] at hx
  have htexts : texts none ['a', 'b'] = [['a', 'b']] := rfl
  rw [htexts, List.mem_singleton] at htext
  subst hx htext
  exact absurd hmatch (by
    unfold Matches
    decide)

end PuttyNd.Psftp
