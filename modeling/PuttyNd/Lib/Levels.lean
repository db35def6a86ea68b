import Mathlib.Data.List.Perm.Basic
import Mathlib.Data.Nat.Notation
import PuttyNd.Lib.Marks

/-!
# Reversing runs of levels

Each entry of a list has a level. From the highest level down, the maximal runs of entries with at least that level
are reversed; or of each run only what follows its first entry of exactly that level. What the two have in common is
that an entry with a lower level divides the list.
-/

namespace Levels

variable {α β : Type*}

/-- Each maximal run of entries with a level of at least `t` is reversed. The run that is open is `acc`, in reverse. -/
def reverseRuns (t : ℕ) : List α → List (ℕ × α) → List α
  | acc, [] => acc
  | acc, (l, a) :: rest =>
    if t ≤ l then reverseRuns t (a :: acc) rest else acc ++ a :: reverseRuns t [] rest

/-- A run is only reversed from its first entry of level `t` on. `none` stands for no open run. -/
def flipRuns (t : ℕ) : Option (List α) → List (ℕ × α) → List α
  | none, [] => []
  | some acc, [] => acc
  | none, (l, a) :: rest => if l = t then flipRuns t (some [a]) rest else a :: flipRuns t none rest
  | some acc, (l, a) :: rest =>
    if t ≤ l then flipRuns t (some (a :: acc)) rest else acc ++ a :: flipRuns t none rest

/-- A step for each of `n` levels, from the highest down to `t` -/
def descend (step : ℕ → List (ℕ × α) → List α) (ls : List ℕ) (t : ℕ) : ℕ → List α → List α
  | 0, x => x
  | n + 1, x => step t (ls.zip (descend step ls (t + 1) n x))

/-- All runs are reversed for the levels from `n` down to 1. -/
def reorder (ls : List ℕ) (n : ℕ) (x : List α) : List α := descend (fun t => reverseRuns t []) ls 1 n x

/-- Runs are reversed from their first entry of the level on. -/
def flips (ls : List ℕ) (n : ℕ) (x : List α) : List α := descend (fun t => flipRuns t none) ls 1 n x

/-! ## The condition -/

/-- The list is divided at the entries of one level. -/
def divide (t : ℕ) (ls : List ℕ) : List ℕ × List (ℕ × List ℕ) := Marks.split (· == t) ls

/-- A run with levels of at least `t`. If it has no entry of level `t`, it is reversed once more than flipped, which is
made good by the next level it has; `odd` says that there is such a reversal. Otherwise either it begins with an entry
of level `t`, and the runs between these entries are again such, or it ends with its only one. -/
def Agrees : ℕ → ℕ → Bool → List ℕ → Prop
  | 0, _, _, _ => True
  | n + 1, t, odd, ls =>
    let parts := divide t ls
    if parts.2 = [] then Agrees n (t + 1) (!odd) ls
    else if odd then parts.2 = [(t, [])] ∧ Agrees n (t + 1) false parts.1
    else parts.1 = [] ∧ ∀ p ∈ parts.2, Agrees n (t + 1) false p.2

instance Agrees.decidable : ∀ n t odd ls, Decidable (Agrees n t odd ls)
  | 0, _, _, _ => isTrue trivial
  | n + 1, t, odd, ls =>
    have := fun t odd ls => Agrees.decidable n t odd ls
    inferInstanceAs (Decidable (if (divide t ls).2 = [] then Agrees n (t + 1) (!odd) ls
      else if odd then (divide t ls).2 = [(t, [])] ∧ Agrees n (t + 1) false (divide t ls).1
      else (divide t ls).1 = [] ∧ ∀ p ∈ (divide t ls).2, Agrees n (t + 1) false p.2))

/-- The runs of the whole list agree. -/
def AllAgree (ls : List ℕ) (n : ℕ) : Prop :=
  Agrees n 1 false (divide 0 ls).1 ∧ ∀ p ∈ (divide 0 ls).2, Agrees n 1 false p.2

instance (ls : List ℕ) (n : ℕ) : Decidable (AllAgree ls n) :=
  inferInstanceAs (Decidable (Agrees n 1 false (divide 0 ls).1 ∧
    ∀ p ∈ (divide 0 ls).2, Agrees n 1 false p.2))

/-! ## Steps -/

variable {step : ℕ → List (ℕ × α) → List α} {t l n : ℕ} {ls ls' : List ℕ} {a : α} {x y acc : List α}
  {p q : List (ℕ × α)} {ps : List (ℕ × List ℕ)}

/-- A step for a level moves entries, and not past one of a lower level. -/
structure Local (step : ℕ → List (ℕ × α) → List α) : Prop where
  perm : ∀ t p, (step t p).Perm (p.map Prod.snd)
  divide : ∀ {t l} a p q, l < t → step t (p ++ (l, a) :: q) = step t p ++ a :: step t q

theorem reverseRuns_perm : (reverseRuns t acc p).Perm (acc ++ p.map Prod.snd) := by
  induction p generalizing acc with
  | nil => exact .of_eq (List.append_nil acc).symm
  | cons e p ih =>
    rw [reverseRuns, List.map_cons]
    by_cases ht : t ≤ e.1
    · rw [if_pos ht]
      exact ih.trans List.perm_middle.symm
    · rw [if_neg ht]
      exact (ih.cons e.2).append_left acc

theorem reverseRuns_divide (hl : l < t) :
    reverseRuns t acc (p ++ (l, a) :: q) = reverseRuns t acc p ++ a :: reverseRuns t [] q := by
  induction p generalizing acc with
  | nil => exact if_neg (Nat.not_le.mpr hl)
  | cons e p ih =>
    rw [List.cons_append, reverseRuns, reverseRuns]
    by_cases ht : t ≤ e.1
    · rw [if_pos ht, if_pos ht]
      exact ih
    · rw [if_neg ht, if_neg ht, ih, List.append_assoc, List.cons_append]

theorem local_reverseRuns : Local (α := α) fun t => reverseRuns t [] :=
  ⟨fun _ _ => reverseRuns_perm, fun _ _ _ hl => reverseRuns_divide hl⟩

/-- What is open, in reverse -/
def opened (o : Option (List α)) : List α := o.getD []

theorem flipRuns_perm (o : Option (List α)) : (flipRuns t o p).Perm (opened o ++ p.map Prod.snd) := by
  induction p generalizing o with
  | nil =>
    cases o with
    | none => exact .nil
    | some acc => exact .of_eq (List.append_nil acc).symm
  | cons e p ih =>
    rw [List.map_cons]
    cases o with
    | none =>
      rw [flipRuns]
      by_cases hl : e.1 = t
      · rw [if_pos hl]
        exact ih _
      · rw [if_neg hl]
        exact (ih none).cons e.2
    | some acc =>
      rw [flipRuns]
      by_cases ht : t ≤ e.1
      · rw [if_pos ht]
        exact (ih _).trans List.perm_middle.symm
      · rw [if_neg ht]
        exact ((ih none).cons e.2).append_left acc

theorem flipRuns_divide (hl : l < t) (o : Option (List α)) :
    flipRuns t o (p ++ (l, a) :: q) = flipRuns t o p ++ a :: flipRuns t none q := by
  induction p generalizing o with
  | nil =>
    cases o with
    | none => exact if_neg (Nat.ne_of_lt hl)
    | some acc => exact if_neg (Nat.not_le.mpr hl)
  | cons e p ih =>
    rw [List.cons_append]
    cases o with
    | none =>
      rw [flipRuns, flipRuns]
      by_cases hl : e.1 = t
      · rw [if_pos hl, if_pos hl]
        exact ih _
      · rw [if_neg hl, if_neg hl, ih, List.cons_append]
    | some acc =>
      rw [flipRuns, flipRuns]
      by_cases ht : t ≤ e.1
      · rw [if_pos ht, if_pos ht]
        exact ih _
      · rw [if_neg ht, if_neg ht, ih, List.append_assoc, List.cons_append]

theorem local_flipRuns : Local (α := α) fun t => flipRuns t none :=
  ⟨fun _ _ => flipRuns_perm none, fun _ _ _ hl => flipRuns_divide hl none⟩

/-! ## All steps -/

theorem descend_perm (h : Local step) (hlen : x.length = ls.length) : (descend step ls t n x).Perm x := by
  induction n generalizing t with
  | zero => exact .refl x
  | succ n ih =>
    have hperm := ih (t := t + 1)
    rw [descend]
    refine (h.perm t _).trans ?_
    rw [List.map_snd_zip (Nat.le_of_eq (hperm.length_eq.trans hlen))]
    exact hperm

theorem length_descend (h : Local step) (hlen : x.length = ls.length) : (descend step ls t n x).length = x.length :=
  (descend_perm h hlen).length_eq

/-- An entry of a lower level divides the list for all steps. -/
theorem descend_divide (h : Local step) (hl : l < t) (hlen : x.length = ls.length) :
    descend step (ls ++ l :: ls') t n (x ++ a :: y) = descend step ls t n x ++ a :: descend step ls' t n y := by
  induction n generalizing t with
  | zero => rfl
  | succ n ih =>
    have hlength : ls.length = (descend step ls (t + 1) n x).length := ((length_descend h hlen).trans hlen).symm
    rw [descend, ih (Nat.lt_succ_of_lt hl), List.zip_append hlength, List.zip_cons_cons, h.divide _ _ _ hl]
    rfl

theorem descend_cons (h : Local step) (hl : l < t) :
    descend step (l :: ls') t n (a :: y) = a :: descend step ls' t n y := by
  have hnil : descend step [] t n [] = ([] : List α) := List.perm_nil.mp (descend_perm h rfl)
  have hdivide : descend step ([] ++ l :: ls') t n ([] ++ a :: y) =
      descend step [] t n [] ++ a :: descend step ls' t n y := descend_divide h hl rfl
  rw [hnil] at hdivide
  exact hdivide

/-- Marks at the start of a lower level -/
theorem descend_join (h : Local step) (hps : ∀ p ∈ ps, p.1 < t) (hlen : x.length = ls.length)
    (hy : y.length = (Marks.join ps).length) :
    descend step (ls ++ Marks.join ps) t n (x ++ y) =
      descend step ls t n x ++ descend step (Marks.join ps) t n y := by
  cases ps with
  | nil =>
    have hnil : y = [] := List.length_eq_zero_iff.mp hy
    subst hnil
    have hempty : descend step [] t n [] = ([] : List α) := List.perm_nil.mp (descend_perm h rfl)
    rw [show Marks.join ([] : List (ℕ × List ℕ)) = [] from rfl, hempty, List.append_nil, List.append_nil,
      List.append_nil]
  | cons p ps =>
    have hl : p.1 < t := hps p List.mem_cons_self
    rw [Marks.join_cons] at hy ⊢
    cases y with
    | nil => exact (nomatch hy)
    | cons a y => rw [descend_divide h hl hlen, descend_cons h hl]

/-! ## One run -/

theorem reverseRuns_run (hp : ∀ e ∈ p, t ≤ e.1) : reverseRuns t acc p = (p.map Prod.snd).reverse ++ acc := by
  induction p generalizing acc with
  | nil => rfl
  | cons e p ih =>
    obtain ⟨he, hp⟩ := List.forall_mem_cons.mp hp
    rw [reverseRuns, if_pos he, ih hp, List.map_cons, List.reverse_cons, List.append_assoc]
    rfl

theorem flipRuns_run (hp : ∀ e ∈ p, t ≤ e.1) : flipRuns t (some acc) p = (p.map Prod.snd).reverse ++ acc := by
  induction p generalizing acc with
  | nil => rfl
  | cons e p ih =>
    obtain ⟨he, hp⟩ := List.forall_mem_cons.mp hp
    rw [flipRuns, if_pos he, ih hp, List.map_cons, List.reverse_cons, List.append_assoc]
    rfl

/-- Before the first entry of the level nothing is flipped. -/
theorem flipRuns_skip (hp : ∀ e ∈ p, e.1 ≠ t) : flipRuns t none (p ++ q) = p.map Prod.snd ++ flipRuns t none q := by
  induction p with
  | nil => rfl
  | cons e p ih =>
    obtain ⟨he, hp⟩ := List.forall_mem_cons.mp hp
    rw [List.cons_append, flipRuns, if_neg he, ih hp]
    rfl

theorem mem_zip_left (h : ∀ l ∈ ls, t ≤ l) : ∀ e ∈ ls.zip x, t ≤ e.1 :=
  fun e he => h e.1 (List.of_mem_zip (show (e.1, e.2) ∈ ls.zip x from he)).1

/-- The step for the lowest level reverses the run. -/
theorem reverse_step (hlen : x.length = ls.length) (h : ∀ l ∈ ls, t ≤ l) :
    reverseRuns t [] (ls.zip x) = x.reverse := by
  rw [reverseRuns_run (mem_zip_left h), List.map_snd_zip (Nat.le_of_eq hlen), List.append_nil]

/-- The step for the lowest level flips what follows its first entry. -/
theorem flip_step (hlen : x.length = ls.length) (hlen' : y.length = ls'.length) (hne : ∀ l ∈ ls, l ≠ t)
    (h : ∀ l ∈ ls', t ≤ l) :
    flipRuns t none ((ls ++ t :: ls').zip (x ++ a :: y)) = x ++ (y.reverse ++ [a]) := by
  have hskip : ∀ e ∈ ls.zip x, e.1 ≠ t := fun e he =>
    hne e.1 (List.of_mem_zip (show (e.1, e.2) ∈ ls.zip x from he)).1
  rw [List.zip_append hlen.symm, flipRuns_skip hskip, List.map_snd_zip (Nat.le_of_eq hlen), List.zip_cons_cons,
    flipRuns, if_pos rfl, flipRuns_run (mem_zip_left h), List.map_snd_zip (Nat.le_of_eq hlen')]

theorem flip_step_none (hlen : x.length = ls.length) (hne : ∀ l ∈ ls, l ≠ t) :
    flipRuns t none (ls.zip x) = x := by
  have hskip : ∀ e ∈ ls.zip x, e.1 ≠ t := fun e he =>
    hne e.1 (List.of_mem_zip (show (e.1, e.2) ∈ ls.zip x from he)).1
  have hall := flipRuns_skip (q := []) hskip
  rw [List.append_nil, List.map_snd_zip (Nat.le_of_eq hlen)] at hall
  exact hall.trans (List.append_nil x)

/-! ## When the two agree -/

/-- All runs of `n` levels from `t` on are reversed. -/
abbrev reversed (ls : List ℕ) (t n : ℕ) (x : List α) : List α := descend (fun t => reverseRuns t []) ls t n x

/-- The runs of `n` levels from `t` on are flipped. -/
abbrev flipped (ls : List ℕ) (t n : ℕ) (x : List α) : List α := descend (fun t => flipRuns t none) ls t n x

/-- The levels are some of the `n` levels from `t` on. -/
def Within (t n : ℕ) (ls : List ℕ) : Prop := ∀ l ∈ ls, t ≤ l ∧ l < t + n

/-- For runs with these levels, the condition says that both orders are the same. -/
def Decides (α : Type*) (t n : ℕ) : Prop :=
  ∀ (ls : List ℕ) (x : List α), Within t n ls → x.length = ls.length → x.Nodup →
    (Agrees n t false ls ↔ reversed ls t n x = flipped ls t n x)

/-- Parts after marks of lower levels are decided one by one. -/
theorem decides_join (h : Decides α t n) (hps : ∀ p ∈ ps, p.1 < t ∧ Within t n p.2)
    (hy : y.length = (Marks.join ps).length) (hnodup : y.Nodup) :
    (∀ p ∈ ps, Agrees n t false p.2) ↔ reversed (Marks.join ps) t n y = flipped (Marks.join ps) t n y := by
  induction ps generalizing y with
  | nil =>
    have hnil : y = [] := List.length_eq_zero_iff.mp hy
    subst hnil
    refine iff_of_true (fun _ hp => absurd hp List.not_mem_nil) ?_
    have hR : reversed [] t n ([] : List α) = [] := List.perm_nil.mp (descend_perm local_reverseRuns rfl)
    have hQ : flipped [] t n ([] : List α) = [] := List.perm_nil.mp (descend_perm local_flipRuns rfl)
    exact hR.trans hQ.symm
  | cons p ps ih =>
    obtain ⟨⟨hl, hwithin⟩, hps⟩ := List.forall_mem_cons.mp hps
    rw [Marks.join_cons] at hy ⊢
    cases y with
    | nil => exact (nomatch hy)
    | cons a y =>
      rw [List.length_cons, List.length_cons, List.length_append] at hy
      have hx : (y.take p.2.length).length = p.2.length := by
        rw [List.length_take]
        omega
      have hrest : (y.drop p.2.length).length = (Marks.join ps).length := by
        rw [List.length_drop]
        omega
      have hparts := (List.nodup_cons.mp hnodup).2
      rw [← List.take_append_drop p.2.length y] at hparts
      rw [← List.take_append_drop p.2.length y]
      generalize y.take p.2.length = x at hx hparts ⊢
      generalize y.drop p.2.length = y' at hrest hparts ⊢
      rw [List.nodup_append] at hparts
      unfold reversed flipped
      rw [descend_cons local_reverseRuns hl, descend_cons local_flipRuns hl, List.cons_inj_right,
        descend_join local_reverseRuns (fun q hq => (hps q hq).1) hx hrest,
        descend_join local_flipRuns (fun q hq => (hps q hq).1) hx hrest, List.forall_mem_cons,
        h p.2 x hwithin hx hparts.1, ih hps hrest hparts.2.1]
      constructor
      · rintro ⟨hfirst, hothers⟩
        exact congrArg₂ (· ++ ·) hfirst hothers
      · intro heq
        refine List.append_inj heq ?_
        rw [length_descend local_reverseRuns hx, length_descend local_flipRuns hx]

/-- With a part before the marks -/
theorem decides_append (h : Decides α t n) (hls : Within t n ls) (hps : ∀ p ∈ ps, p.1 < t ∧ Within t n p.2)
    (hx : x.length = ls.length) (hy : y.length = (Marks.join ps).length) (hnodup : (x ++ y).Nodup) :
    (Agrees n t false ls ∧ ∀ p ∈ ps, Agrees n t false p.2) ↔
      reversed (ls ++ Marks.join ps) t n (x ++ y) = flipped (ls ++ Marks.join ps) t n (x ++ y) := by
  rw [List.nodup_append] at hnodup
  unfold reversed flipped
  rw [descend_join local_reverseRuns (fun q hq => (hps q hq).1) hx hy,
    descend_join local_flipRuns (fun q hq => (hps q hq).1) hx hy, h ls x hls hx hnodup.1,
    decides_join h hps hy hnodup.2.1]
  constructor
  · rintro ⟨hfirst, hothers⟩
    exact congrArg₂ (· ++ ·) hfirst hothers
  · intro heq
    refine List.append_inj heq ?_
    rw [length_descend local_reverseRuns hx, length_descend local_flipRuns hx]

theorem Within.next (h : Within t (n + 1) ls) (hne : ∀ l ∈ ls, l ≠ t) : Within (t + 1) n ls := by
  intro l hl
  obtain ⟨hge, hlt⟩ := h l hl
  have hlne := hne l hl
  omega

/-- A list with the excess reversal -/
def flipIf (odd : Bool) (x : List α) : List α := if odd then x.reverse else x

theorem flipIf_reverse (odd : Bool) (x : List α) : flipIf odd x.reverse = flipIf (!odd) x := by
  cases odd with
  | true => exact List.reverse_reverse x
  | false => rfl

/-- A run with an entry of its lowest level -/
theorem agrees_marked {odd : Bool} {g : List ℕ} (hdecides : Decides α (t + 1) n) (hps : ps ≠ [])
    (hwithin : ∀ p ∈ ps, p.1 = t ∧ Within (t + 1) n p.2) (hg : Within (t + 1) n g) (hne : ∀ l ∈ g, l ≠ t)
    (hls : ls = g ++ Marks.join ps) (hge : ∀ l ∈ ls, t ≤ l) (hx : x.length = ls.length) (hnodup : x.Nodup) :
    (if odd then ps = [(t, [])] ∧ Agrees n (t + 1) false g
      else g = [] ∧ ∀ p ∈ ps, Agrees n (t + 1) false p.2) ↔
      flipIf odd (reversed ls (t + 1) n x).reverse = flipped ls t (n + 1) x := by
  have hlower : ∀ p ∈ ps, p.1 < t + 1 ∧ Within (t + 1) n p.2 := fun p hp =>
    ⟨Nat.lt_succ_of_le (Nat.le_of_eq (hwithin p hp).1), (hwithin p hp).2⟩
  cases ps with
  | nil => exact absurd rfl hps
  | cons p ps =>
    have hp : p.1 = t := (hwithin p List.mem_cons_self).1
    rw [hls, Marks.join_cons, hp] at hx hge
    rw [hls, Marks.join_cons, hp]
    rw [List.length_append, List.length_cons] at hx
    have hfirst : (x.take g.length).length = g.length := by
      rw [List.length_take]
      omega
    have hrest : (x.drop g.length).length = (p.2 ++ Marks.join ps).length + 1 := by
      rw [List.length_drop]
      omega
    rw [← List.take_append_drop g.length x] at hnodup ⊢
    generalize x.take g.length = x₀ at hfirst hnodup ⊢
    generalize x.drop g.length = y at hrest hnodup ⊢
    cases y with
    | nil => exact (nomatch hrest)
    | cons a y =>
      have hy : y.length = (p.2 ++ Marks.join ps).length := Nat.succ.inj hrest
      have hlt : t < t + 1 := Nat.lt_succ_self t
      have hR : reversed (g ++ t :: (p.2 ++ Marks.join ps)) (t + 1) n (x₀ ++ a :: y) =
          reversed g (t + 1) n x₀ ++ a :: reversed (p.2 ++ Marks.join ps) (t + 1) n y :=
        descend_divide local_reverseRuns hlt hfirst
      have hQ : flipped (g ++ t :: (p.2 ++ Marks.join ps)) (t + 1) n (x₀ ++ a :: y) =
          flipped g (t + 1) n x₀ ++ a :: flipped (p.2 ++ Marks.join ps) (t + 1) n y :=
        descend_divide local_flipRuns hlt hfirst
      have hstep : flipped (g ++ t :: (p.2 ++ Marks.join ps)) t (n + 1) (x₀ ++ a :: y) =
          flipped g (t + 1) n x₀ ++ ((flipped (p.2 ++ Marks.join ps) (t + 1) n y).reverse ++ [a]) := by
        show flipRuns t none (List.zip _ (flipped _ _ _ _)) = _
        rw [hQ]
        refine flip_step ((length_descend local_flipRuns hfirst).trans hfirst)
          ((length_descend local_flipRuns hy).trans hy) hne fun l hl => ?_
        exact hge l (List.mem_append_right _ (List.mem_cons_of_mem _ hl))
      have hpermR₀ : (reversed g (t + 1) n x₀).Perm x₀ := descend_perm local_reverseRuns hfirst
      have hpermQ₀ : (flipped g (t + 1) n x₀).Perm x₀ := descend_perm local_flipRuns hfirst
      have hpermR : (reversed (p.2 ++ Marks.join ps) (t + 1) n y).Perm y := descend_perm local_reverseRuns hy
      have hpermQ : (flipped (p.2 ++ Marks.join ps) (t + 1) n y).Perm y := descend_perm local_flipRuns hy
      have hjoin : reversed (t :: (p.2 ++ Marks.join ps)) (t + 1) n (a :: y) =
          flipped (t :: (p.2 ++ Marks.join ps)) (t + 1) n (a :: y) ↔
          reversed (p.2 ++ Marks.join ps) (t + 1) n y = flipped (p.2 ++ Marks.join ps) (t + 1) n y := by
        unfold reversed flipped
        rw [descend_cons local_reverseRuns hlt, descend_cons local_flipRuns hlt, List.cons_inj_right]
      obtain ⟨hnodup₀, hnodupY, hapart⟩ := List.nodup_append.mp hnodup
      have hparts := decides_join hdecides hlower (y := a :: y) (by
        rw [Marks.join_cons]
        exact hrest) hnodupY
      rw [Marks.join_cons, hp, hjoin] at hparts
      have hgpart := hdecides g x₀ hg hfirst hnodup₀
      rw [hR, hstep]
      have hempty : y = [] ↔ p :: ps = [(t, [])] := by
        rw [← List.length_eq_zero_iff, hy, List.length_eq_zero_iff, List.append_eq_nil_iff]
        constructor
        · rintro ⟨hpart, hothers⟩
          cases ps with
          | nil => rw [show p = (t, []) from Prod.ext hp hpart]
          | cons q ps => exact (nomatch hothers)
        · intro heq
          obtain ⟨rfl, rfl⟩ := List.cons.inj heq
          exact ⟨rfl, rfl⟩
      generalize reversed g (t + 1) n x₀ = X at hpermR₀ hgpart ⊢
      generalize flipped g (t + 1) n x₀ = X' at hpermQ₀ hgpart ⊢
      generalize reversed (p.2 ++ Marks.join ps) (t + 1) n y = Y at hpermR hparts ⊢
      generalize flipped (p.2 ++ Marks.join ps) (t + 1) n y = Y' at hpermQ hparts ⊢
      cases odd with
      | false =>
        rw [hparts]
        show _ ↔ (X ++ a :: Y).reverse = _
        rw [List.reverse_append, List.reverse_cons]
        by_cases hnil : g = []
        · subst hnil
          have hx₀ : x₀ = [] := List.length_eq_zero_iff.mp hfirst
          subst hx₀
          rw [List.perm_nil.mp hpermR₀, List.perm_nil.mp hpermQ₀]
          show [] = [] ∧ Y = Y' ↔ Y.reverse ++ [a] ++ [] = [] ++ (Y'.reverse ++ [a])
          rw [List.append_nil, List.nil_append, List.append_left_inj, List.reverse_inj]
          exact and_iff_right rfl
        · refine iff_of_false (fun h => hnil h.1) fun heq => ?_
          cases X with
          | nil =>
            have hx₀ : x₀ = [] := List.nil_perm.mp hpermR₀
            rw [hx₀] at hfirst
            exact hnil (List.length_eq_zero_iff.mp hfirst.symm)
          | cons b X =>
            rw [List.reverse_cons, ← List.append_assoc, ← List.append_assoc] at heq
            have hab : b = a := List.singleton_inj.mp (List.append_inj_right' heq rfl)
            exact hapart b (hpermR₀.mem_iff.mp List.mem_cons_self) a List.mem_cons_self hab
      | true =>
        rw [← hempty, hgpart]
        show _ ↔ (X ++ a :: Y).reverse.reverse = _
        rw [List.reverse_reverse]
        constructor
        · rintro ⟨rfl, rfl⟩
          rw [List.perm_nil.mp hpermR, List.perm_nil.mp hpermQ]
          rfl
        · intro heq
          obtain ⟨hXX', hrest'⟩ := List.append_inj heq (hpermR₀.length_eq.trans hpermQ₀.length_eq.symm)
          refine ⟨?_, hXX'⟩
          cases hrev : Y'.reverse with
          | nil =>
            rw [List.reverse_eq_nil_iff.mp hrev] at hpermQ
            exact List.nil_perm.mp hpermQ
          | cons b r =>
            rw [hrev] at hrest'
            have hab : a = b := (List.cons.inj hrest').1
            have hb : b ∈ y := hpermQ.mem_iff.mp (List.mem_reverse.mp (by rw [hrev]; exact List.mem_cons_self))
            rw [← hab] at hb
            exact absurd hb (List.nodup_cons.mp hnodupY).1

/-- The two orders of a run, the first with the excess reversal, are the same exactly under the condition. -/
theorem agrees_iff {odd : Bool} (hls : Within t n ls) (hx : x.length = ls.length) (hnodup : x.Nodup) :
    Agrees n t odd ls ↔ flipIf odd (reversed ls t n x) = flipped ls t n x := by
  induction n generalizing t odd ls x with
  | zero =>
    have hnil : ls = [] := by
      cases ls with
      | nil => rfl
      | cons l ls =>
        obtain ⟨hge, hlt⟩ := hls l List.mem_cons_self
        omega
    subst hnil
    have hx' : x = [] := List.length_eq_zero_iff.mp hx
    subst hx'
    refine iff_of_true trivial ?_
    cases odd with
    | true => rfl
    | false => rfl
  | succ n ih =>
    have hdecides : Decides α (t + 1) n := fun ls x hls hx hnodup => @ih (t + 1) ls x false hls hx hnodup
    have hge : ∀ l ∈ ls, t ≤ l := fun l hl => (hls l hl).1
    obtain ⟨hjoin, hplain, hmarked⟩ := Marks.split_spec (· == t) ls
    have hfirst : ∀ l ∈ (divide t ls).1, l ≠ t := fun l hl => beq_eq_false_iff_ne.mp (hplain l hl)
    have hreversed : reversed ls t (n + 1) x = (reversed ls (t + 1) n x).reverse :=
      reverse_step ((length_descend local_reverseRuns hx).trans hx) hge
    unfold Agrees
    dsimp only
    by_cases hparts : (divide t ls).2 = []
    · have hls' : ls = (divide t ls).1 := by
        have hall := hjoin.symm
        rw [show (Marks.split (· == t) ls).2 = [] from hparts] at hall
        exact hall.trans (List.append_nil _)
      have hne : ∀ l ∈ ls, l ≠ t := by
        rw [hls']
        exact hfirst
      have hflipped : flipped ls t (n + 1) x = flipped ls (t + 1) n x :=
        flip_step_none ((length_descend local_flipRuns hx).trans hx) hne
      rw [if_pos hparts, hreversed, hflipped, flipIf_reverse]
      exact ih (hls.next hne) hx hnodup
    · rw [if_neg hparts]
      have hwithin : ∀ p ∈ (divide t ls).2, p.1 = t ∧ Within (t + 1) n p.2 := by
        intro p hp
        obtain ⟨hmark, hpart⟩ := hmarked p hp
        refine ⟨beq_iff_eq.mp hmark, ?_⟩
        refine Within.next (fun l hl => hls l ?_) fun l hl => beq_eq_false_iff_ne.mp (hpart l hl)
        rw [← hjoin]
        refine List.mem_append_right _ (List.mem_flatMap.mpr ⟨p, hp, List.mem_cons_of_mem _ hl⟩)
      have hzero : Within (t + 1) n (divide t ls).1 := by
        refine Within.next (fun l hl => hls l ?_) hfirst
        rw [← hjoin]
        exact List.mem_append_left _ hl
      have hdivide : ls = (divide t ls).1 ++ Marks.join (divide t ls).2 := hjoin.symm
      rw [hreversed]
      generalize (divide t ls).1 = g at hzero hdivide hfirst ⊢
      generalize (divide t ls).2 = parts at hparts hwithin hdivide ⊢
      exact agrees_marked hdecides hparts hwithin hzero hfirst hdivide hge hx hnodup

/-- The whole list -/
theorem allAgree_iff (hls : ∀ l ∈ ls, l ≤ n) (hx : x.length = ls.length) (hnodup : x.Nodup) :
    AllAgree ls n ↔ reorder ls n x = flips ls n x := by
  obtain ⟨hjoin, hplain, hmarked⟩ := Marks.split_spec (· == 0) ls
  have hdecides : Decides α 1 n := fun ls x hls hx hnodup => @agrees_iff _ 1 n ls x false hls hx hnodup
  have hmem : ∀ l ∈ ls, l ≠ 0 → 1 ≤ l ∧ l < 1 + n := fun l hl hne => by
    have hle := hls l hl
    omega
  have hzero : Within 1 n (divide 0 ls).1 := by
    refine fun l hl => hmem l ?_ (beq_eq_false_iff_ne.mp (hplain l hl))
    rw [← hjoin]
    exact List.mem_append_left _ hl
  have hparts : ∀ p ∈ (divide 0 ls).2, p.1 < 1 ∧ Within 1 n p.2 := by
    intro p hp
    obtain ⟨hmark, hpart⟩ := hmarked p hp
    refine ⟨Nat.lt_succ_of_le (Nat.le_of_eq (beq_iff_eq.mp hmark)), fun l hl => hmem l ?_ ?_⟩
    · rw [← hjoin]
      exact List.mem_append_right _ (List.mem_flatMap.mpr ⟨p, hp, List.mem_cons_of_mem _ hl⟩)
    · exact beq_eq_false_iff_ne.mp (hpart l hl)
  have hdivide : ls = (divide 0 ls).1 ++ Marks.join (divide 0 ls).2 := hjoin.symm
  unfold AllAgree
  generalize (divide 0 ls).1 = g at hzero hdivide ⊢
  generalize (divide 0 ls).2 = ps at hparts hdivide ⊢
  subst hdivide
  rw [List.length_append] at hx
  have hfirst : (x.take g.length).length = g.length := by
    rw [List.length_take]
    omega
  have hrest : (x.drop g.length).length = (Marks.join ps).length := by
    rw [List.length_drop]
    omega
  rw [← List.take_append_drop g.length x] at hnodup ⊢
  exact decides_append hdecides hzero hparts hfirst hrest hnodup

/-! ## Lists that are renamed -/

variable {f : α → β}

theorem reverseRuns_map : reverseRuns t (acc.map f) (p.map fun e => (e.1, f e.2)) = (reverseRuns t acc p).map f := by
  induction p generalizing acc with
  | nil => rfl
  | cons e p ih =>
    rw [List.map_cons, reverseRuns, reverseRuns]
    by_cases ht : t ≤ e.1
    · rw [if_pos ht, if_pos ht, ← ih]
      rfl
    · rw [if_neg ht, if_neg ht, List.map_append, List.map_cons, ← ih]
      rfl

theorem flipRuns_map (o : Option (List α)) :
    flipRuns t (o.map (List.map f)) (p.map fun e => (e.1, f e.2)) = (flipRuns t o p).map f := by
  induction p generalizing o with
  | nil =>
    cases o with
    | none => rfl
    | some acc => rfl
  | cons e p ih =>
    rw [List.map_cons]
    cases o with
    | none =>
      rw [Option.map_none, flipRuns, flipRuns]
      by_cases hl : e.1 = t
      · rw [if_pos hl, if_pos hl, ← ih]
        rfl
      · rw [if_neg hl, if_neg hl, List.map_cons, ← ih]
        rfl
    | some acc =>
      rw [Option.map_some, flipRuns, flipRuns]
      by_cases ht : t ≤ e.1
      · rw [if_pos ht, if_pos ht, ← ih]
        rfl
      · rw [if_neg ht, if_neg ht, List.map_append, List.map_cons, ← ih]
        rfl

theorem zip_map_right (ls : List ℕ) (x : List α) :
    ls.zip (x.map f) = (ls.zip x).map fun e => (e.1, f e.2) := by
  rw [List.zip_map_right]
  rfl

theorem reorder_map : reorder ls n (x.map f) = (reorder ls n x).map f := by
  unfold reorder
  generalize 1 = t
  induction n generalizing t with
  | zero => rfl
  | succ n ih =>
    rw [descend, ih, zip_map_right]
    exact @reverseRuns_map _ _ t [] _ f

theorem flips_map : flips ls n (x.map f) = (flips ls n x).map f := by
  unfold flips
  generalize 1 = t
  induction n generalizing t with
  | zero => rfl
  | succ n ih =>
    rw [descend, ih, zip_map_right]
    exact flipRuns_map none

/-- If two entries can be told apart, the orders are the same for all lists exactly under the condition. -/
theorem orders_iff {c d : α} (hcd : c ≠ d) (hls : ∀ l ∈ ls, l ≤ n) :
    (∀ x : List α, x.length = ls.length → flips ls n x = reorder ls n x) ↔ AllAgree ls n := by
  have hrange := allAgree_iff (x := List.range ls.length) hls List.length_range List.nodup_range
  constructor
  · intro h
    rw [hrange]
    refine List.ext_getElem? fun i => ?_
    -- the entry at a place is told apart from all others
    have hsame : ∀ k : ℕ, (reorder ls n (List.range ls.length)).map (fun j => if j = k then c else d) =
        (flips ls n (List.range ls.length)).map fun j => if j = k then c else d := by
      intro k
      rw [← reorder_map, ← flips_map]
      refine (h _ ?_).symm
      rw [List.length_map, List.length_range]
    cases hi : (reorder ls n (List.range ls.length))[i]? with
    | none =>
      have hnone := congrArg (·[i]?) (hsame 0)
      rw [List.getElem?_map, List.getElem?_map, hi, Option.map_none] at hnone
      exact (Option.map_eq_none_iff.mp hnone.symm).symm
    | some k =>
      have hsome := congrArg (·[i]?) (hsame k)
      rw [List.getElem?_map, List.getElem?_map, hi, Option.map_some, if_pos rfl] at hsome
      obtain ⟨j, hj, hjk⟩ := Option.map_eq_some_iff.mp hsome.symm
      by_cases heq : j = k
      · rw [hj, heq]
      · rw [if_neg heq] at hjk
        exact absurd hjk.symm hcd
  · intro h x hx
    have heq := hrange.mp h
    have hmap : x = (List.range ls.length).map fun i => x.getD i c := by
      refine List.ext_getElem (by rw [List.length_map, List.length_range, hx]) fun i hi hi' => ?_
      rw [List.getElem_map, List.getElem_range, List.getD_eq_getElem?_getD, List.getElem?_eq_getElem hi]
      rfl
    rw [hmap, flips_map, reorder_map, heq]

end Levels
