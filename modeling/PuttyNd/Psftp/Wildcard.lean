import Mathlib.Data.Nat.Notation
import Mathlib.Data.UInt
import PuttyNd.Lib.Glob

/-!
# Wildcards (`psftp/wildcard.c`)

A C string is the list of its bytes without the terminating NUL: a pointer into it is the rest of the
list, and the byte that it points to is 0 at the end. The first part is the matching engine, the
second the syntax of the comment at the head of the file.
-/

namespace PuttyNd.Psftp

/-- The byte that a pointer into a string points to. -/
def deref (s : List UInt8) : UInt8 := s.headD 0

/-- `*` -/
def STAR : UInt8 := 42

/-- `-` -/
def MINUS : UInt8 := 45

/-- `?` -/
def QUESTION : UInt8 := 63

/-- `[` -/
def OPEN : UInt8 := 91

/-- The backslash. -/
def BACKSLASH : UInt8 := 92

/-- `]` -/
def CLOSE : UInt8 := 93

/-- `^` -/
def CARET : UInt8 := 94

/-- The errors that are returned, and a failed assertion. -/
inductive WcError where
  | trailingBackslash | unclosedClass | invalidRange | assertion
deriving DecidableEq, Repr

/-- Step over a backslash. -/
def skipBackslash (f : List UInt8) : List UInt8 := if deref f = BACKSLASH then f.tail else f

theorem length_skipBackslash (f : List UInt8) : (skipBackslash f).length ≤ f.length := by
  unfold skipBackslash
  split_ifs <;> simp

/-- `ourchr >= lower && ourchr <= upper`, with the bounds in order. -/
def inRange (lower upper ourchr : UInt8) : Bool :=
  if lower > upper then upper ≤ ourchr && ourchr ≤ lower else lower ≤ ourchr && ourchr ≤ upper

/-- The loop over a character class in `wc_match_fragment`: whether the character `c` is in the class,
and what follows the class. -/
def wcMatchClass (c : UInt8) (isMatched : Bool) (f : List UInt8) :
    Except WcError (Bool × List UInt8) :=
  if deref f = CLOSE then .ok (isMatched, f.tail)
  else
    match _h : skipBackslash f with
    | [] => .error .unclosedClass
    | lower :: f1 =>
      if deref f1 = MINUS then
        if deref f1.tail = CLOSE then .error .invalidRange
        else
          match _h2 : skipBackslash f1.tail with
          | [] => .error .unclosedClass
          | upper :: f2 => wcMatchClass c (isMatched || inRange lower upper c) f2
      else wcMatchClass c (isMatched || c == lower) f1
termination_by f.length
decreasing_by
  · have h3 := length_skipBackslash f
    have h4 := length_skipBackslash f1.tail
    simp only [_h, _h2, List.length_cons, List.length_tail] at h3 h4
    omega
  · have h3 := length_skipBackslash f
    simp only [_h, List.length_cons] at h3
    omega

/-- `wc_match_fragment`: if the fragment at `f` matches at the start of the target, what follows the
fragment and what follows the match. -/
def wcMatchFragment (f : List UInt8) : List UInt8 → Except WcError (Option (List UInt8 × List UInt8))
  | [] => .ok (if deref f = 0 ∨ deref f = STAR then some (f, []) else none)
  | c :: t =>
    if deref f = 0 ∨ deref f = STAR then .ok (some (f, c :: t))
    else if deref f = BACKSLASH then
      if deref f.tail = 0 then .error .trailingBackslash
      else if deref f.tail ≠ c then .ok none
      else wcMatchFragment f.tail.tail t
    else if deref f = QUESTION then wcMatchFragment f.tail t
    else if deref f = OPEN then
      let invert := deref f.tail == CARET
      match wcMatchClass c false (if invert then f.tail.tail else f.tail) with
      | .error e => .error e
      | .ok (isMatched, f) => if invert == isMatched then .ok none else wcMatchFragment f t
    else if deref f ≠ c then .ok none
    else wcMatchFragment f.tail t

/-- What the search for a fragment along the target ends with. -/
inductive WcSearch where
  /-- The fragment was found: what follows it, and what follows the match. -/
  | found (w t : List UInt8)
  /-- The matching is decided. -/
  | result (matched : Bool)
deriving DecidableEq, Repr

/-- The loop `while (*target)` of `wc_match_inner`. -/
def wcSearch (wildcard : List UInt8) : List UInt8 → Except WcError WcSearch
  | [] => .ok (.result false)
  | c :: t =>
    if c = 0 then .ok (.result false)
    else
      match wcMatchFragment wildcard (c :: t) with
      | .error e => .error e
      | .ok none => wcSearch wildcard t
      | .ok (some (w, t')) =>
        if deref w = 0 ∧ t' ≠ [] then
          (wcMatchFragment wildcard ((c :: t).drop t'.length)).map fun r => .result r.isSome
        else .ok (.found w t')

/-- The loop `while (*wildcard == '*')`. -/
def skipStars (wildcard : List UInt8) : List UInt8 := wildcard.dropWhile (· = STAR)

theorem wcMatchClass_length {c : UInt8} {m m' : Bool} {f f' : List UInt8}
    (h : wcMatchClass c m f = .ok (m', f')) : f'.length ≤ f.length := by
  fun_induction wcMatchClass c m f with
  | case1 m f h1 =>
    cases h
    simp
  | case2 m f h1 h2 => cases h
  | case3 m f h1 lower f1 h2 h3 h4 => cases h
  | case4 m f h1 lower f1 h2 h3 h4 h5 => cases h
  | case5 m f h1 lower f1 h2 h3 h4 upper f2 h5 ih =>
    have h6 := length_skipBackslash f
    have h7 := length_skipBackslash f1.tail
    simp only [h2, h5, List.length_cons, List.length_tail] at h6 h7
    have h8 := ih h
    omega
  | case6 m f h1 lower f1 h2 h3 ih =>
    have h6 := length_skipBackslash f
    simp only [h2, List.length_cons] at h6
    have h8 := ih h
    omega

theorem wcMatchFragment_length {f t w t' : List UInt8}
    (h : wcMatchFragment f t = .ok (some (w, t'))) : w.length ≤ f.length := by
  induction t generalizing f with
  | nil =>
    rw [wcMatchFragment] at h
    split_ifs at h
    · cases h
      exact le_rfl
    · cases h
  | cons c t ih =>
    have htail : f.tail.length ≤ f.length := by simp
    have htail2 : f.tail.tail.length ≤ f.length := by
      simp
      omega
    rw [wcMatchFragment] at h
    split_ifs at h
    · cases h
      exact le_rfl
    · cases h
    · exact (ih h).trans htail2
    · exact (ih h).trans htail
    · simp only at h
      split at h
      · cases h
      · rename_i m f' hclass
        have h1 := wcMatchClass_length hclass
        split_ifs at h
        · cases h
        · have h2 := ih h
          split_ifs at h1 <;> omega
    · cases h
    · exact (ih h).trans htail

theorem wcSearch_length {wildcard t w t' : List UInt8}
    (h : wcSearch wildcard t = .ok (.found w t')) : w.length ≤ wildcard.length := by
  induction t with
  | nil => cases h
  | cons c t ih =>
    rw [wcSearch] at h
    split_ifs at h
    · cases h
    · split at h
      · cases h
      · exact ih h
      · rename_i w1 t1 h1
        split_ifs at h
        · cases hr : wcMatchFragment wildcard ((c :: t).drop t1.length) <;>
            simp [hr, Except.map] at h
        · cases h
          exact wcMatchFragment_length h1

theorem length_skipStars {wildcard : List UInt8} (h : deref wildcard = STAR) :
    (skipStars wildcard).length < wildcard.length := by
  cases wildcard with
  | nil => simp [deref, STAR] at h
  | cons c w =>
    have h1 : c = STAR := h
    have h2 : (w.dropWhile (· = STAR)).length ≤ w.length := (List.dropWhile_suffix _).length_le
    simp [skipStars, h1]
    omega

/-- The loop `while (*wildcard)` of `wc_match_inner`. -/
def wcMatchLoop (wildcard target : List UInt8) : Except WcError Bool :=
  if deref wildcard = 0 then .ok target.isEmpty
  else if _hstar : deref wildcard = STAR then
    if deref (skipStars wildcard) = 0 then .ok true
    else
      match _hfound : wcSearch (skipStars wildcard) target with
      | .error e => .error e
      | .ok (.result r) => .ok r
      | .ok (.found w t) => wcMatchLoop w t
  else .error .assertion
termination_by wildcard.length
decreasing_by exact (wcSearch_length _hfound).trans_lt (length_skipStars _hstar)

/-- `wc_match_inner`, with `true` for the result 1 and `false` for 0. -/
def wcMatchInner (wildcard target : List UInt8) : Except WcError Bool :=
  if deref wildcard ≠ STAR then
    match wcMatchFragment wildcard target with
    | .error e => .error e
    | .ok none => .ok false
    | .ok (some (w, t)) => wcMatchLoop w t
  else wcMatchLoop wildcard target

/-- `wc_match`: the target is a C string. -/
def wcMatch (wildcard target : List UInt8) : Except WcError Bool := wcMatchInner wildcard target

/-! ## The syntax -/

/-- An element of a class. -/
inductive ClassItem where
  | chr (c : UInt8)
  | range (lower upper : UInt8)
deriving DecidableEq, Repr

/-- A part of a wildcard. -/
inductive Part where
  | star
  | any
  | chr (c : UInt8)
  | cls (invert : Bool) (items : List ClassItem)
deriving DecidableEq, Repr

/-- The class has the element `c`. -/
def ClassItem.has (c : UInt8) : ClassItem → Bool
  | .chr a => c == a
  | .range a b => inRange a b c

/-- The item of a pattern that a part stands for. -/
def Part.item : Part → Glob.Item UInt8
  | .star => .star
  | .any => .one fun _ => true
  | .chr c => .one (· == c)
  | .cls invert items => .one fun c => items.any (·.has c) != invert

/-- A character in a class is written as itself or behind a backslash. -/
inductive ClassChr : UInt8 → List UInt8 → Prop
  | plain {c : UInt8} : c ≠ 0 → c ≠ CLOSE → c ≠ BACKSLASH → ClassChr c [c]
  | escaped {c : UInt8} : c ≠ 0 → ClassChr c [BACKSLASH, c]

/-- How the elements of a class are written. A minus after a character makes a range. -/
inductive ClassText : List ClassItem → List UInt8 → Prop
  | nil : ClassText [] []
  | chr {c : UInt8} {s r : List UInt8} {items : List ClassItem} :
    ClassChr c s → ClassText items r → deref r ≠ MINUS → ClassText (.chr c :: items) (s ++ r)
  | range {a b : UInt8} {s s' r : List UInt8} {items : List ClassItem} :
    ClassChr a s → ClassChr b s' → ClassText items r →
    ClassText (.range a b :: items) (s ++ MINUS :: (s' ++ r))

/-- How a part is written. A caret at the start of a class inverts it. -/
inductive PartText : Part → List UInt8 → Prop
  | star : PartText .star [STAR]
  | any : PartText .any [QUESTION]
  | chr {c : UInt8} : c ∉ [0, STAR, QUESTION, OPEN, BACKSLASH] → PartText (.chr c) [c]
  | escaped {c : UInt8} : c ≠ 0 → PartText (.chr c) [BACKSLASH, c]
  | cls {items : List ClassItem} {s : List UInt8} : ClassText items s → deref s ≠ CARET →
    PartText (.cls false items) (OPEN :: (s ++ [CLOSE]))
  | invert {items : List ClassItem} {s : List UInt8} : ClassText items s →
    PartText (.cls true items) (OPEN :: CARET :: (s ++ [CLOSE]))

/-- How a wildcard is written. -/
inductive Text : List Part → List UInt8 → Prop
  | nil : Text [] []
  | cons {p : Part} {ps : List Part} {s w : List UInt8} :
    PartText p s → Text ps w → Text (p :: ps) (s ++ w)

/-- The language of a wildcard. -/
def Language (ps : List Part) (target : List UInt8) : Prop := Glob.Matches (ps.map Part.item) target

end PuttyNd.Psftp

/-!
## Wildcards: targets with a length, and names without wildcards (`psftp/wildcard.c`)

A `ptrlen` target is the list of its bytes. Nothing is said of what follows it in memory: a read there is
the result `none`.
-/

namespace PuttyNd.Psftp

/-! ## Matching -/

/-- The loop `while (*target)` of `wc_match_inner`, whose first byte is read before its place is compared
with `target_end`. -/
def wcSearchPl (wildcard : List UInt8) : List UInt8 → Option (Except WcError WcSearch)
  | [] => none
  | c :: t =>
    if c = 0 then some (.ok (.result false))
    else
      match wcMatchFragment wildcard (c :: t) with
      | .error e => some (.error e)
      | .ok none => wcSearchPl wildcard t
      | .ok (some (w, t')) =>
        if deref w = 0 ∧ t' ≠ [] then
          some ((wcMatchFragment wildcard ((c :: t).drop t'.length)).map fun r => .result r.isSome)
        else some (.ok (.found w t'))

theorem wcSearchPl_eq {wildcard t : List UInt8} {r : Except WcError WcSearch}
    (h : wcSearchPl wildcard t = some r) : wcSearch wildcard t = r := by
  induction t with
  | nil => cases h
  | cons c t ih =>
    rw [wcSearchPl] at h
    rw [wcSearch]
    by_cases hc : c = 0
    · rw [if_pos hc] at h ⊢
      exact Option.some.inj h
    · rw [if_neg hc] at h ⊢
      rcases hfragment : wcMatchFragment wildcard (c :: t) with e | _ | ⟨w, t'⟩
      · rw [hfragment] at h
        exact Option.some.inj h
      · rw [hfragment] at h
        exact ih h
      · rw [hfragment] at h
        dsimp only at h ⊢
        split_ifs at h ⊢
        · exact Option.some.inj h
        · exact Option.some.inj h

/-- The loop `while (*wildcard)` of `wc_match_inner`. -/
def wcMatchLoopPl (wildcard target : List UInt8) : Option (Except WcError Bool) :=
  if deref wildcard = 0 then some (.ok target.isEmpty)
  else if _hstar : deref wildcard = STAR then
    if deref (skipStars wildcard) = 0 then some (.ok true)
    else
      match _hfound : wcSearchPl (skipStars wildcard) target with
      | none => none
      | some (.error e) => some (.error e)
      | some (.ok (.result r)) => some (.ok r)
      | some (.ok (.found w t)) => wcMatchLoopPl w t
  else some (.error .assertion)
termination_by wildcard.length
decreasing_by exact (wcSearch_length (wcSearchPl_eq _hfound)).trans_lt (length_skipStars _hstar)

/-- `wc_match_pl` -/
def wcMatchPl (wildcard target : List UInt8) : Option (Except WcError Bool) :=
  if deref wildcard ≠ STAR then
    match wcMatchFragment wildcard target with
    | .error e => some (.error e)
    | .ok none => some (.ok false)
    | .ok (some (w, t)) => wcMatchLoopPl w t
  else wcMatchLoopPl wildcard target

/-! ## Names without wildcards -/

/-- `wc_unescape`, with the output if there is no wildcard character. -/
def wcUnescape : List UInt8 → Option (List UInt8)
  | [] => some []
  | c :: w =>
    if c = BACKSLASH then
      match w with
      | [] => some []
      | d :: w => (wcUnescape w).map (d :: ·)
    else if c = STAR ∨ c = QUESTION ∨ c = OPEN ∨ c = CLOSE then none
    else (wcUnescape w).map (c :: ·)

end PuttyNd.Psftp
