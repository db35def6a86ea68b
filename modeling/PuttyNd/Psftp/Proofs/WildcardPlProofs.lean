import PuttyNd.Psftp.Proofs.WildcardProofs
import PuttyNd.Psftp.Wildcard

/-!
# Proofs: wildcards, and targets with a length

The loops test for the end of the target in two ways. The comparison with `target_end` is right for every
target; the test of the byte is right only if a NUL follows and there is none before.
-/

namespace PuttyNd.Psftp

open Glob

variable {fs : List (UInt8 → Bool)} {w w' t t' : List UInt8} {ps ps' : List Part}
  {is : List (Item UInt8)}

/-! ## When the search stays within the target -/

/-- The first place of a target where a fragment fits, unless there is a NUL at it or before -/
inductive Seek where
  | found (rest : List UInt8)
  | nul
  | beyond

def seek (fs : List (UInt8 → Bool)) : List UInt8 → Seek
  | [] => .beyond
  | c :: t =>
    if c = 0 then .nul
    else
      match fits fs (c :: t) with
      | some rest => .found rest
      | none => seek fs t

/-- Each fragment after a star fits in what is left of the target, before a NUL in it; or there is a NUL
before, and the pattern does not match. -/
def StaysWithin : List (Item UInt8) → List UInt8 → Prop
  | .star :: is, t =>
    match _h : fragment is with
    | ([], rest) => StaysWithin rest t
    | (p :: fs, rest) =>
      match seek (p :: fs) t with
      | .found t' => StaysWithin rest t'
      | .nul => ¬ Glob.Matches (.star :: is) t
      | .beyond => False
  | _, _ => True
termination_by is => is.length
decreasing_by
  · have hlen : (fragment is).2.length ≤ is.length := fragment_length
    rw [_h] at hlen
    exact Nat.lt_succ_of_le hlen
  · have hlen : (fragment is).2.length ≤ is.length := fragment_length
    rw [_h] at hlen
    exact Nat.lt_succ_of_le hlen

/-- The condition for a whole wildcard: its first fragment is compared without a search. -/
def PlOk (is : List (Item UInt8)) (t : List UInt8) : Prop :=
  ∀ t', fits (fragment is).1 t = some t' → StaysWithin (fragment is).2 t'

theorem staysWithin_nil : StaysWithin [] t := by
  unfold StaysWithin
  trivial

theorem staysWithin_star : StaysWithin (.star :: .star :: is) t ↔ StaysWithin (.star :: is) t := by
  rw [StaysWithin]
  rfl

theorem staysWithin_stars (k : ℕ) (ps : List Part) :
    StaysWithin ((.star :: (List.replicate k .star ++ ps) : List Part).map Part.item) t ↔
      StaysWithin ((.star :: ps : List Part).map Part.item) t := by
  induction k with
  | zero => exact Iff.rfl
  | succ k ih =>
    rw [← ih]
    exact staysWithin_star

theorem staysWithin_fragment (hfs : fs ≠ []) (his : is = [] ∨ ∃ is', is = .star :: is') :
    StaysWithin (.star :: (rigid fs ++ is)) t ↔
      match seek fs t with
      | .found t' => StaysWithin is t'
      | .nul => ¬ Glob.Matches (.star :: (rigid fs ++ is)) t
      | .beyond => False := by
  obtain ⟨p, fs, rfl⟩ := List.exists_cons_of_ne_nil hfs
  rw [StaysWithin]
  split
  · rename_i rest h
    rw [fragment_rigid his] at h
    cases h
  · rename_i q qs rest h
    rw [fragment_rigid his] at h
    cases h
    rfl

/-! ## The matching -/

/-- The search ends as `seek` says. -/
theorem wcSearchPl_spec (h : Splits ps w fs ps' w') :
    match seek fs t with
    | .found t' =>
      (∃ r, wcSearchPl w t = some (.ok (.result r)) ∧ ps' = [] ∧
        (r = true ↔ Glob.Matches (.star :: (rigid fs ++ ps'.map Part.item)) t)) ∨
      wcSearchPl w t = some (.ok (.found w' t')) ∧
        (Glob.Matches (.star :: (rigid fs ++ ps'.map Part.item)) t ↔ Glob.Matches (ps'.map Part.item) t')
    | .nul => wcSearchPl w t = some (.ok (.result false))
    | .beyond => wcSearchPl w t = none := by
  induction t with
  | nil => rfl
  | cons c t ih =>
    rw [seek, wcSearchPl]
    by_cases hc : c = 0
    · rw [if_pos hc, if_pos hc]
    · rw [if_neg hc, if_neg hc, h.fragment]
      cases hfit : fits fs (c :: t) with
      | none =>
        rw [matches_skip hfit]
        exact ih
      | some t' =>
        simp only [Option.map_some]
        rcases found_spec h hfit with ⟨r, hr, hps, hm⟩ | ⟨hr, hm⟩
        · refine Or.inl ⟨r, ?_, hps, hm⟩
          rw [← hr]
          split_ifs <;> rfl
        · refine Or.inr ⟨?_, hm⟩
          rw [← hr]
          split_ifs <;> rfl

/-- No byte behind the target is read, and the result is whether the target is in the language. -/
def Decides (r : Option (Except WcError Bool)) (ps : List Part) (t : List UInt8) : Prop :=
  ∃ b, r = some (.ok b) ∧ (b = true ↔ Language ps t)

theorem wcMatchLoopPl_iff (h : Text ps w) (hps : ps = [] ∨ ∃ qs, ps = .star :: qs) :
    Decides (wcMatchLoopPl w t) ps t ↔ StaysWithin (ps.map Part.item) t := by
  induction hn : ps.length using Nat.strong_induction_on generalizing ps w t with
  | _ n ih =>
    subst hn
    rw [wcMatchLoopPl]
    rcases hps with rfl | ⟨ps, rfl⟩
    · rw [if_pos ((text_nil h).mpr rfl)]
      exact iff_of_true ⟨_, rfl, by simp [Language, matches_nil]⟩ staysWithin_nil
    · have hstar : deref w = STAR := by
        cases h with
        | cons h1 h2 => exact (h1.deref_ne _).2.mpr rfl
      rw [if_neg (by simp [text_nil h]), dif_pos hstar]
      obtain ⟨k, qs, rfl, htext, hnostar⟩ := skipStars_text h
      rw [staysWithin_stars]
      by_cases hq : qs = []
      · subst hq
        rw [if_pos ((text_nil htext).mpr rfl)]
        refine iff_of_true ⟨true, rfl, ?_⟩ ?_
        · rw [language_stars]
          simp [Language, Part.item, matches_all]
        · show StaysWithin [.star] t
          rw [StaysWithin]
          exact staysWithin_nil
      · rw [if_neg (by simpa [text_nil htext] using hq)]
        obtain ⟨fs, ps', w', hsplits⟩ := exists_splits htext
        have hfs := hsplits.nonempty hq hnostar
        have hitems : ((.star :: qs : List Part).map Part.item) =
            .star :: (rigid fs ++ ps'.map Part.item) := by
          rw [← hsplits.items]
          rfl
        have hlang : Language (.star :: (List.replicate k .star ++ qs)) t ↔
            Glob.Matches (.star :: (rigid fs ++ ps'.map Part.item)) t := by
          rw [language_stars, ← hitems]
          rfl
        have hrest : ps'.map Part.item = [] ∨ ∃ is', ps'.map Part.item = .star :: is' := by
          rcases hsplits.rest with rfl | ⟨qs', rfl⟩
          · exact Or.inl rfl
          · exact Or.inr ⟨_, rfl⟩
        have hsearch := wcSearchPl_spec (t := t) hsplits
        rw [hitems, staysWithin_fragment hfs hrest]
        unfold Decides
        simp only [hlang]
        cases hseek : seek fs t with
        | found t' =>
          rw [hseek] at hsearch
          rcases hsearch with ⟨r, hr, rfl, hm⟩ | ⟨hr, hm⟩
          · rw [hr]
            exact iff_of_true ⟨r, rfl, hm⟩ staysWithin_nil
          · rw [hr, hm]
            have hlen := hsplits.length_le
            exact ih ps'.length (by simp; omega) hsplits.text hsplits.rest rfl
        | nul =>
          rw [hseek] at hsearch
          rw [hsearch]
          constructor
          · rintro ⟨b, hb, hm⟩ hmatch
            cases hb
            cases hm.mpr hmatch
          · intro hnot
            exact ⟨false, rfl, by simp [hnot]⟩
        | beyond =>
          rw [hseek] at hsearch
          rw [hsearch]
          refine iff_of_false ?_ id
          rintro ⟨b, hb, -⟩
          cases hb

/-- A valid wildcard is matched within the target and as its language says exactly if each search finds
its fragment before a NUL, or ends at a NUL and the target does not match. -/
theorem wcMatchPl_iff (h : Text ps w) (t : List UInt8) :
    Decides (wcMatchPl w t) ps t ↔ PlOk (ps.map Part.item) t := by
  rw [wcMatchPl]
  by_cases hstar : deref w = STAR
  · rw [if_neg (not_not.mpr hstar)]
    cases h with
    | nil => cases hstar
    | @cons p ps s w h1 h2 =>
      obtain rfl := (h1.deref_ne _).2.mp hstar
      rw [wcMatchLoopPl_iff (.cons h1 h2) (Or.inr ⟨_, rfl⟩)]
      constructor
      · rintro hwithin t' ⟨⟩
        exact hwithin
      · intro hok
        exact hok t rfl
  · rw [if_pos hstar]
    obtain ⟨fs, ps', w', hsplits⟩ := exists_splits h
    have hrest : ps'.map Part.item = [] ∨ ∃ is', ps'.map Part.item = .star :: is' := by
      rcases hsplits.rest with rfl | ⟨qs', rfl⟩
      · exact Or.inl rfl
      · exact Or.inr ⟨_, rfl⟩
    unfold PlOk
    rw [hsplits.fragment, hsplits.items, fragment_rigid hrest]
    cases hfit : fits fs t with
    | none =>
      refine iff_of_true ⟨false, rfl, ?_⟩ fun t' ht' => nomatch ht'
      rw [Language, hsplits.items, matches_rigid]
      simp [hfit]
    | some t' =>
      have hlang : Language ps t ↔ Language ps' t' := by
        rw [Language, hsplits.items, matches_rigid]
        constructor
        · rintro ⟨u, hu, hm⟩
          rw [hfit] at hu
          cases hu
          exact hm
        · intro hm
          exact ⟨t', hfit, hm⟩
      have hloop := wcMatchLoopPl_iff (t := t') hsplits.text hsplits.rest
      unfold Decides at hloop ⊢
      simp only [hlang, Option.map_some]
      rw [hloop]
      constructor
      · rintro hwithin u ⟨⟩
        exact hwithin
      · intro hok
        exact hok t' rfl

/-- `*a` -/
theorem text_star_a : Text [.star, .chr 97] [42, 97] := .cons .star (.cons (.chr (by decide)) .nil)

/-- `*a` is found in `ba`. -/
theorem wcMatchPl_iff_found : Decides (wcMatchPl [42, 97] [98, 97]) [.star, .chr 97] [98, 97] := by
  refine (wcMatchPl_iff text_star_a _).mpr ?_
  rintro t' ⟨⟩
  show StaysWithin (.star :: (rigid [(· == 97)] ++ [])) [98, 97]
  rw [staysWithin_fragment (by simp) (Or.inl rfl)]
  exact staysWithin_nil

/-- For `*a`, the byte behind the target `b` is read; and with a NUL before its end, a target that ends
in `a` does not match. -/
theorem beyond_read : Text [.star, .chr 97] [42, 97] ∧ wcMatchPl [42, 97] [98] = none ∧
    wcMatchPl [42, 97] [0, 97] = some (.ok false) ∧ Language [.star, .chr 97] [0, 97] := by
  refine ⟨text_star_a, ?_, ?_, .star [0] (.one (by rfl) .nil)⟩
  · simp [wcMatchPl, wcMatchLoopPl, wcSearchPl, wcMatchFragment, skipStars, deref, STAR, BACKSLASH,
      QUESTION, OPEN]
  · simp [wcMatchPl, wcMatchLoopPl, wcSearchPl, skipStars, deref, STAR]

end PuttyNd.Psftp

/-!
## Proofs: names without wildcards

A backslash escapes the next character unless it is escaped itself, so whether a character is escaped is
told by the number of backslashes before it.
-/

namespace PuttyNd.Psftp

open Glob

variable {c d : UInt8} {s t w : List UInt8}

/-! ## Backslashes in pairs -/

/-- The backslashes at the end are an even number, so a character that followed would not be escaped. -/
def Paired (w : List UInt8) : Prop := (w.reverse.takeWhile (· = BACKSLASH)).length % 2 = 0

instance : Decidable (Paired w) := by
  unfold Paired
  infer_instance

/-- A wildcard character that is not escaped -/
def HasWildcard (w : List UInt8) : Prop :=
  ∃ u c v, w = u ++ c :: v ∧ c ∈ [STAR, QUESTION, OPEN, CLOSE] ∧ Paired u

theorem paired_plain (hc : c ≠ BACKSLASH) : Paired (c :: w) ↔ Paired w := by
  unfold Paired
  rw [List.reverse_cons, List.takeWhile_append]
  split_ifs with hall
  · rw [List.takeWhile_cons_of_neg (by simpa using hc), List.append_nil, hall]
  · exact Iff.rfl

theorem paired_escaped (d : UInt8) : Paired (BACKSLASH :: d :: w) ↔ Paired w := by
  unfold Paired
  rw [List.reverse_cons, List.reverse_cons, List.append_assoc, List.takeWhile_append]
  split_ifs with hall
  · rw [List.length_append, hall, List.singleton_append]
    by_cases hd : d = BACKSLASH
    · rw [hd]
      simp
    · rw [List.takeWhile_cons_of_neg (by simpa using hd)]
      simp
  · exact Iff.rfl

theorem not_paired : ¬ Paired [BACKSLASH] := by decide

theorem hasWildcard_plain (hc : c ≠ BACKSLASH) (h : HasWildcard w) : HasWildcard (c :: w) := by
  obtain ⟨u, a, v, rfl, ha, hu⟩ := h
  exact ⟨c :: u, a, v, rfl, ha, (paired_plain hc).mpr hu⟩

theorem hasWildcard_escaped (d : UInt8) (h : HasWildcard w) : HasWildcard (BACKSLASH :: d :: w) := by
  obtain ⟨u, a, v, rfl, ha, hu⟩ := h
  exact ⟨BACKSLASH :: d :: u, a, v, rfl, ha, (paired_escaped d).mpr hu⟩

/-! ## The two scanners -/

/-- What is reported as a wildcard is one. -/
theorem wcUnescape_none (h : wcUnescape w = none) : HasWildcard w := by
  fun_induction wcUnescape w with
  | case1 => cases h
  | case2 => cases h
  | case3 d w ih => exact hasWildcard_escaped d (ih (Option.map_eq_none_iff.mp h))
  | case4 c w hc hspecial => exact ⟨[], c, w, rfl, by simpa using hspecial, by decide⟩
  | case5 c w hc hspecial ih => exact hasWildcard_plain hc (ih (Option.map_eq_none_iff.mp h))

/-- A name that is not reported as a wildcard is written as the characters of the output. -/
theorem wcUnescape_text (hw : 0 ∉ w) (hpaired : Paired w) (h : wcUnescape w = some s) :
    Text (s.map .chr) w ∧ 0 ∉ s := by
  fun_induction wcUnescape w generalizing s with
  | case1 =>
    cases h
    exact ⟨.nil, List.not_mem_nil⟩
  | case2 => exact absurd hpaired not_paired
  | case3 d w ih =>
    obtain ⟨s, hs, rfl⟩ := Option.map_eq_some_iff.mp h
    simp only [List.mem_cons, not_or] at hw
    obtain ⟨htext, hzero⟩ := ih hw.2.2 ((paired_escaped d).mp hpaired) hs
    refine ⟨.cons (s := [BACKSLASH, d]) (.escaped fun hd => hw.2.1 hd.symm) htext, ?_⟩
    simp only [List.mem_cons, not_or]
    exact ⟨hw.2.1, hzero⟩
  | case4 => cases h
  | case5 c w hc hspecial ih =>
    obtain ⟨s, hs, rfl⟩ := Option.map_eq_some_iff.mp h
    simp only [List.mem_cons, not_or] at hw hspecial
    obtain ⟨htext, hzero⟩ := ih hw.2 ((paired_plain hc).mp hpaired) hs
    have hplain : c ∉ [0, STAR, QUESTION, OPEN, BACKSLASH] := by
      simp only [List.mem_cons, List.not_mem_nil, or_false, not_or]
      exact ⟨fun h => hw.1 h.symm, hspecial.1, hspecial.2.1, hspecial.2.2.1, hc⟩
    refine ⟨.cons (s := [c]) (.chr hplain) htext, ?_⟩
    simp only [List.mem_cons, not_or]
    exact ⟨hw.1, hzero⟩

/-- The language of a name is the name. -/
theorem language_chr : Language (s.map .chr) t ↔ t = s := by
  unfold Language
  induction s generalizing t with
  | nil => exact matches_nil
  | cons c s ih =>
    constructor
    · intro h
      cases h with
      | one hp h => rw [beq_iff_eq.mp hp, ih.mp h]
    · rintro rfl
      exact .one (beq_self_eq_true c) (ih.mpr rfl)

/-- A string without an unpaired backslash at its end that is unescaped matches the output, which is a
string, and no other string; and one that is reported as a wildcard has an unescaped wildcard
character. -/
theorem wcUnescape_spec (hw : 0 ∉ w) (hpaired : Paired w) :
    (∀ s, wcUnescape w = some s → 0 ∉ s ∧ ∀ t, 0 ∉ t → (wcMatch w t = .ok true ↔ t = s)) ∧
    (wcUnescape w = none → HasWildcard w) := by
  refine ⟨fun s hs => ?_, wcUnescape_none⟩
  obtain ⟨htext, hzero⟩ := wcUnescape_text hw hpaired hs
  refine ⟨hzero, fun t ht => ?_⟩
  rw [(wcMatch_iff htext ht).1, language_chr]

/-- `a\*` matches `a*`, but not `ab`. -/
theorem wcUnescape_spec_star :
    wcMatch [97, 92, 42] [97, 42] = .ok true ∧ wcMatch [97, 92, 42] [97, 98] ≠ .ok true := by
  have hspec := ((wcUnescape_spec (w := [97, 92, 42]) (by decide) (by decide)).1 [97, 42] (by decide)).2
  constructor
  · exact (hspec [97, 42] (by decide)).mpr rfl
  · intro hmatch
    exact absurd ((hspec [97, 98] (by decide)).mp hmatch) (by decide)

end PuttyNd.Psftp
