import PuttyNd.Psftp.Wildcard

/-!
# Proofs: wildcard matching

The matcher tries each fragment only at the first place where it fits, and the last one also at the end.
By the lemmas on patterns this loses no match, so that the matcher decides the language of every
wildcard that the syntax admits.
-/

namespace PuttyNd.Psftp

open Glob

variable {c a b : UInt8} {m : Bool} {s f f1 f2 r w w' t t' : List UInt8} {items : List ClassItem}
  {p : Part} {ps : List Part}

/-! ## Classes -/

theorem ClassChr.skip (h : ClassChr a s) (r : List UInt8) : skipBackslash (s ++ r) = a :: r := by
  cases h with
  | plain _ _ h3 => simp [skipBackslash, deref, h3]
  | escaped _ => simp [skipBackslash, deref]

theorem ClassChr.deref_ne (h : ClassChr a s) (r : List UInt8) : deref (s ++ r) ≠ CLOSE := by
  cases h with
  | plain _ h2 _ => simpa [deref] using h2
  | escaped _ => simp [deref, BACKSLASH, CLOSE]

theorem wcMatchClass_close : wcMatchClass c m (CLOSE :: r) = .ok (m, r) := by
  rw [wcMatchClass, if_pos (by rfl)]
  rfl

theorem wcMatchClass_chr (h : ClassChr a s) (hr : deref r ≠ MINUS) :
    wcMatchClass c m (s ++ r) = wcMatchClass c (m || c == a) r := by
  have h1 := h.skip r
  rw [wcMatchClass, if_neg (h.deref_ne r)]
  split
  · simp_all
  · rename_i lower f1 h2
    obtain ⟨rfl, rfl⟩ := List.cons.inj (h1.symm.trans h2)
    rw [if_neg hr]

theorem wcMatchClass_range (h : ClassChr a s) (h' : ClassChr b f) :
    wcMatchClass c m (s ++ MINUS :: (f ++ r)) = wcMatchClass c (m || inRange a b c) r := by
  have h1 := h.skip (MINUS :: (f ++ r))
  rw [wcMatchClass, if_neg (h.deref_ne _)]
  split
  · simp_all
  · rename_i lower f1 h2
    obtain ⟨rfl, rfl⟩ := List.cons.inj (h1.symm.trans h2)
    rw [if_pos (by rfl), List.tail_cons, if_neg (h'.deref_ne r)]
    have h3 := h'.skip r
    split
    · simp_all
    · rename_i upper f2 h4
      obtain ⟨rfl, rfl⟩ := List.cons.inj (h3.symm.trans h4)
      rfl

theorem deref_append_close (hr : deref s ≠ MINUS) : deref (s ++ CLOSE :: r) ≠ MINUS := by
  cases s with
  | nil => simp [deref, CLOSE, MINUS]
  | cons x s => exact hr

/-- The loop over a class finds its end, and whether the character is in it. -/
theorem wcMatchClass_spec (h : ClassText items s) (c : UInt8) (m : Bool) (r : List UInt8) :
    wcMatchClass c m (s ++ CLOSE :: r) = .ok (m || items.any (·.has c), r) := by
  induction h generalizing m with
  | nil => simp [wcMatchClass_close]
  | chr h1 h2 h3 ih =>
    rw [List.append_assoc, wcMatchClass_chr h1 (deref_append_close h3), ih]
    simp [ClassItem.has, Bool.or_assoc]
  | range h1 h2 h3 ih =>
    rw [List.append_assoc, List.cons_append, List.append_assoc, wcMatchClass_range h1 h2, ih]
    simp [ClassItem.has, Bool.or_assoc]

/-! ## Fragments -/

theorem PartText.deref_ne (h : PartText p s) (w : List UInt8) :
    deref (s ++ w) ≠ 0 ∧ (deref (s ++ w) = STAR ↔ p = .star) := by
  cases h with
  | chr h1 =>
    simp only [List.mem_cons, List.not_mem_nil, or_false, not_or] at h1
    simp [deref, h1]
  | _ => simp [deref, STAR, QUESTION, BACKSLASH, OPEN]

theorem text_nil (h : Text ps w) : deref w = 0 ↔ ps = [] := by
  cases h with
  | nil => simp [deref]
  | cons h1 h2 => simp [(h1.deref_ne _).1]

/-- A part of a fragment is compared with one character. -/
theorem wcMatchFragment_part (h : PartText p s) {q : UInt8 → Bool} (hp : p.item = .one q)
    (f : List UInt8) (c : UInt8) (t : List UInt8) :
    wcMatchFragment (s ++ f) (c :: t) = if q c then wcMatchFragment f t else .ok none := by
  have hne : ¬ (deref (s ++ f) = 0 ∨ deref (s ++ f) = STAR) := by
    have h1 := h.deref_ne f
    rintro (h2 | h2)
    · exact h1.1 h2
    · rw [h1.2.mp h2] at hp
      cases hp
  rw [wcMatchFragment, if_neg hne]
  cases h with
  | star => cases hp
  | any =>
    cases hp
    rfl
  | @chr a h1 =>
    cases hp
    simp only [List.mem_cons, List.not_mem_nil, or_false, not_or] at h1
    obtain ⟨-, -, h2, h3, h4⟩ := h1
    have hd : deref ([a] ++ f) = a := rfl
    rw [hd, if_neg h4, if_neg h2, if_neg h3]
    by_cases hc : a = c
    · simp [hc]
    · simp [hc, Ne.symm hc]
  | @escaped a h1 =>
    cases hp
    have hd : deref ([BACKSLASH, a] ++ f).tail = a := rfl
    rw [if_pos (by rfl), hd, if_neg h1]
    by_cases hc : a = c
    · simp [hc]
    · simp [hc, Ne.symm hc]
  | @cls items s h1 h2 =>
    cases hp
    have hd : deref ((OPEN :: (s ++ [CLOSE])) ++ f).tail ≠ CARET := by
      cases s with
      | nil => simp [deref, CLOSE, CARET]
      | cons x s => exact h2
    rw [if_neg (by simp [deref, OPEN, BACKSLASH]), if_neg (by simp [deref, OPEN, QUESTION]),
      if_pos (by rfl)]
    simp only [beq_eq_false_iff_ne.mpr hd]
    have h3 := wcMatchClass_spec h1 c false f
    simp only [Bool.false_eq_true, if_false, List.cons_append, List.tail_cons, List.append_assoc,
      List.nil_append, h3]
    by_cases hm : items.any (·.has c) = true <;> simp [hm]
  | @invert items s h1 =>
    cases hp
    have hlist : (OPEN :: CARET :: (s ++ [CLOSE])) ++ f = OPEN :: CARET :: (s ++ CLOSE :: f) := by
      simp
    have hd : (deref (CARET :: (s ++ CLOSE :: f)) == CARET) = true := rfl
    rw [hlist, if_neg (by simp [deref, OPEN, BACKSLASH]), if_neg (by simp [deref, OPEN, QUESTION]),
      if_pos (by rfl)]
    simp only [List.tail_cons, hd, if_true, wcMatchClass_spec h1 c false f]
    by_cases hm : items.any (·.has c) = true <;> simp [hm]

/-- A wildcard is a fragment, and nothing or a star and a wildcard. -/
structure Splits (ps : List Part) (w : List UInt8) (fs : List (UInt8 → Bool)) (ps' : List Part)
    (w' : List UInt8) : Prop where
  items : ps.map Part.item = rigid fs ++ ps'.map Part.item
  rest : ps' = [] ∨ ∃ qs, ps' = .star :: qs
  text : Text ps' w'
  length_le : ps'.length ≤ ps.length
  fragment : ∀ t, wcMatchFragment w t = .ok ((fits fs t).map fun t' => (w', t'))
  nonempty : ps ≠ [] → (∀ qs, ps ≠ .star :: qs) → fs ≠ []

theorem exists_splits (h : Text ps w) : ∃ fs ps' w', Splits ps w fs ps' w' := by
  induction h with
  | nil =>
    refine ⟨[], [], [], rfl, Or.inl rfl, .nil, le_rfl, ?_, by simp⟩
    intro t
    cases t <;> simp [wcMatchFragment, deref, fits]
  | @cons p ps s w h1 h2 ih =>
    obtain ⟨fs, ps', w', ih⟩ := ih
    cases hp : p.item with
    | star =>
      obtain rfl : p = .star := by cases p <;> simp [Part.item] at hp ⊢
      refine ⟨[], .star :: ps, s ++ w, rfl, Or.inr ⟨ps, rfl⟩, .cons h1 h2, le_rfl, ?_, by simp⟩
      intro t
      have hd := (h1.deref_ne w).2.mpr rfl
      cases t <;> simp [wcMatchFragment, hd, fits]
    | one q =>
      refine ⟨q :: fs, ps', w', by simp [hp, ih.items], ih.rest, ih.text,
        ih.length_le.trans (by simp), ?_, by simp⟩
      intro t
      cases t with
      | nil =>
        have hd := h1.deref_ne w
        have hp' : p ≠ .star := by
          rintro rfl
          cases hp
        simp [wcMatchFragment, hd, hp', fits]
      | cons c t =>
        rw [wcMatchFragment_part h1 hp, fits, ih.fragment]
        split_ifs <;> rfl

/-! ## The search -/

/-- Where the fragment fits, the search decides the matching, or leaves it to what follows. -/
theorem found_spec {fs : List (UInt8 → Bool)} {ps' : List Part} (h : Splits ps w fs ps' w')
    (hfit : fits fs t = some t') :
    (∃ r, (if deref w' = 0 ∧ t' ≠ [] then
          (wcMatchFragment w (t.drop t'.length)).map fun r => WcSearch.result r.isSome
        else .ok (.found w' t')) = .ok (.result r) ∧ ps' = [] ∧
      (r = true ↔ Glob.Matches (.star :: (rigid fs ++ ps'.map Part.item)) t)) ∨
    (if deref w' = 0 ∧ t' ≠ [] then
          (wcMatchFragment w (t.drop t'.length)).map fun r => WcSearch.result r.isSome
        else .ok (.found w' t')) = .ok (.found w' t') ∧
      (Glob.Matches (.star :: (rigid fs ++ ps'.map Part.item)) t ↔ Glob.Matches (ps'.map Part.item) t') := by
  rcases h.rest with rfl | ⟨qs, rfl⟩
  · have hw : deref w' = 0 := (text_nil h.text).mpr rfl
    by_cases hnil : t' = []
    · subst hnil
      refine Or.inr ⟨by simp, ?_⟩
      simp only [List.map_nil, List.append_nil]
      rw [matches_last hfit]
      simp [hfit, Glob.Matches.nil]
    · refine Or.inl ⟨_, by rw [if_pos ⟨hw, hnil⟩, h.fragment]; rfl, rfl, ?_⟩
      simp only [List.map_nil, List.append_nil]
      rw [matches_last hfit]
      have hlen := fits_length hfit
      cases hend : fits fs (t.drop t'.length) with
      | none => simp
      | some e =>
        have hlen' := fits_length hend
        rw [List.length_drop] at hlen'
        have : e.length = 0 := by omega
        simp [List.length_eq_zero_iff.mp this]
  · have hw : deref w' ≠ 0 := by simp [text_nil h.text]
    exact Or.inr ⟨by rw [if_neg (by simp [hw])], matches_leftmost hfit⟩

/-- The search for a fragment decides the matching, or leaves it to what follows. -/
theorem wcSearch_spec {fs : List (UInt8 → Bool)} {ps' : List Part} (h : Splits ps w fs ps' w')
    (hfs : fs ≠ []) (ht : 0 ∉ t) :
    (∃ r, wcSearch w t = .ok (.result r) ∧
      (r = true ↔ Glob.Matches (.star :: (rigid fs ++ ps'.map Part.item)) t)) ∨
    ∃ t', wcSearch w t = .ok (.found w' t') ∧ 0 ∉ t' ∧
      (Glob.Matches (.star :: (rigid fs ++ ps'.map Part.item)) t ↔ Glob.Matches (ps'.map Part.item) t') := by
  induction t with
  | nil => exact Or.inl ⟨false, rfl, by simp [not_matches_nil hfs]⟩
  | cons c t ih =>
    have hc : c ≠ 0 := by
      rintro rfl
      simp at ht
    rw [wcSearch, if_neg hc, h.fragment]
    cases hfit : fits fs (c :: t) with
    | none =>
      rw [matches_skip hfit]
      exact ih (by simp_all)
    | some t' =>
      have ht' : 0 ∉ t' := by
        rw [fits_drop hfit]
        exact fun h => ht (List.mem_of_mem_drop h)
      simp only [Option.map_some]
      rcases found_spec h hfit with ⟨r, hr, -, hm⟩ | ⟨hr, hm⟩
      · exact Or.inl ⟨r, hr, hm⟩
      · exact Or.inr ⟨t', hr, ht', hm⟩

/-- What the loop over the stars leaves. -/
theorem skipStars_text (h : Text (.star :: ps) w) :
    ∃ k qs, ps = List.replicate k .star ++ qs ∧ Text qs (skipStars w) ∧ ∀ qs', qs ≠ .star :: qs' := by
  induction ps generalizing w with
  | nil =>
    cases h with
    | cons h1 h2 =>
      cases h1
      cases h2
      exact ⟨0, [], rfl, .nil, by simp⟩
  | cons p ps ih =>
    cases h with
    | @cons _ _ s w h1 h2 =>
      cases h1
      have hskip : skipStars ([STAR] ++ w) = skipStars w := by simp [skipStars]
      rw [hskip]
      by_cases hp : p = .star
      · subst hp
        obtain ⟨k, qs, h3, h4, h5⟩ := ih h2
        exact ⟨k + 1, qs, by rw [h3]; rfl, h4, h5⟩
      · refine ⟨0, p :: ps, rfl, ?_, by simp [hp]⟩
        have hd : deref w ≠ STAR := by
          cases h2 with
          | cons h7 h8 => exact fun h9 => hp ((h7.deref_ne _).2.mp h9)
        have hw : skipStars w = w := by
          cases w with
          | nil => rfl
          | cons x w =>
            have hx : x ≠ STAR := hd
            simp [skipStars, hx]
        rwa [hw]

theorem language_stars (k : ℕ) (ps : List Part) (t : List UInt8) :
    Language (.star :: (List.replicate k .star ++ ps)) t ↔ Language (.star :: ps) t := by
  induction k with
  | zero => exact Iff.rfl
  | succ k ih =>
    rw [← ih]
    exact matches_star_star

/-- The loop decides a wildcard that is empty or begins with a star. -/
theorem wcMatchLoop_spec (h : Text ps w) (hps : ps = [] ∨ ∃ qs, ps = .star :: qs) (ht : 0 ∉ t) :
    ∃ r, wcMatchLoop w t = .ok r ∧ (r = true ↔ Language ps t) := by
  induction hn : ps.length using Nat.strong_induction_on generalizing ps w t with
  | _ n ih =>
    subst hn
    rw [wcMatchLoop]
    rcases hps with rfl | ⟨ps, rfl⟩
    · rw [if_pos ((text_nil h).mpr rfl)]
      exact ⟨_, rfl, by simp [Language, matches_nil]⟩
    · have hstar : deref w = STAR := by
        cases h with
        | cons h1 h2 => exact (h1.deref_ne _).2.mpr rfl
      rw [if_neg (by simp [text_nil h]), dif_pos hstar]
      obtain ⟨k, qs, rfl, h1, h3⟩ := skipStars_text h
      rw [language_stars]
      by_cases hq : qs = []
      · subst hq
        rw [if_pos ((text_nil h1).mpr rfl)]
        exact ⟨true, rfl, by simp [Language, Part.item, matches_all]⟩
      · rw [if_neg (by simpa [text_nil h1] using hq)]
        obtain ⟨fs, ps', w', h5⟩ := exists_splits h1
        have hlang : Language (.star :: qs) t ↔
            Glob.Matches (.star :: (rigid fs ++ ps'.map Part.item)) t := by
          rw [← h5.items]
          rfl
        rcases wcSearch_spec h5 (h5.nonempty hq h3) ht with ⟨r, h6, h7⟩ | ⟨t', h6, h7, h8⟩
        · rw [h6]
          exact ⟨r, rfl, h7.trans hlang.symm⟩
        · rw [h6, hlang, h8]
          exact ih ps'.length (by have := h5.length_le; simp; omega) h5.text h5.rest h7 rfl

/-- **The matcher decides the language of every wildcard that is written as the syntax says, for every
target without NUL.** -/
theorem wcMatch_iff (h : Text ps w) (ht : 0 ∉ t) :
    (wcMatch w t = .ok true ↔ Language ps t) ∧ (¬ Language ps t → wcMatch w t = .ok false) := by
  suffices h1 : ∃ r, wcMatch w t = .ok r ∧ (r = true ↔ Language ps t) by
    obtain ⟨r, h2, h3⟩ := h1
    rw [h2, ← h3]
    cases r <;> simp
  rw [wcMatch, wcMatchInner]
  by_cases hstar : deref w = STAR
  · rw [if_neg (by simpa using hstar)]
    refine wcMatchLoop_spec h ?_ ht
    cases h with
    | nil => exact Or.inl rfl
    | cons h1 h2 => exact Or.inr ⟨_, by rw [(h1.deref_ne _).2.mp hstar]⟩
  · rw [if_pos hstar]
    obtain ⟨fs, ps', w', h1⟩ := exists_splits h
    have hlang : Language ps t ↔ ∃ t', fits fs t = some t' ∧ Language ps' t' := by
      rw [Language, h1.items]
      exact matches_rigid
    rw [h1.fragment, hlang]
    cases hfit : fits fs t with
    | none => exact ⟨false, rfl, by simp⟩
    | some t' =>
      have ht' : 0 ∉ t' := by
        rw [fits_drop hfit]
        exact fun h => ht (List.mem_of_mem_drop h)
      simpa using wcMatchLoop_spec h1.text h1.rest ht'

/-- `*[^a-f-]\*` and `parka*`. -/
theorem wcMatch_iff_parka :
    (wcMatch [42, 91, 94, 97, 45, 102, 45, 93, 92, 42] [112, 97, 114, 107, 97, 42] = .ok true ↔
      Language [.star, .cls true [.range 97 102, .chr 45], .chr 42] [112, 97, 114, 107, 97, 42]) ∧
    (¬ Language [.star, .cls true [.range 97 102, .chr 45], .chr 42] [112, 97, 114, 107, 97, 42] →
      wcMatch [42, 91, 94, 97, 45, 102, 45, 93, 92, 42] [112, 97, 114, 107, 97, 42] = .ok false) := by
  refine wcMatch_iff (.cons .star (.cons (s := [91, 94, 97, 45, 102, 45, 93]) (.invert (s := [97, 45, 102, 45])
    (.range (s := [97]) (.plain ?_ ?_ ?_) (.plain ?_ ?_ ?_)
      (.chr (s := [45]) (.plain ?_ ?_ ?_) .nil ?_)))
    (.cons (.escaped ?_) .nil))) ?_ <;> decide

end PuttyNd.Psftp
