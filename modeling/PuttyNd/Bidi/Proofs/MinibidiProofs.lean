import Mathlib.Data.List.Induction
import Mathlib.Data.List.TakeWhile
import PuttyNd.Bidi.Minibidi
import PuttyNd.Lib.Levels

/-!
# Proofs: the reversal of levels

`flipThisRun` reverses each run from its first entry of the level on, so that the levels from the highest down are
the flips of the library.
-/

namespace PuttyNd.Bidi

open Memory Levels

variable {levels : List UInt8} {line x y z : List BidiChar} {n t : ℕ}

/-! ## Swapping -/

theorem getD_middle {a : BidiChar} (x y : List BidiChar) : (x ++ a :: y).getD x.length default = a := by
  rw [List.getD_eq_getElem?_getD, List.getElem?_append_right (Nat.le_refl _), Nat.sub_self]
  rfl

theorem set_middle {a b : BidiChar} (x y : List BidiChar) : (x ++ a :: y).set x.length b = x ++ b :: y := by
  rw [List.set_append_right _ _ (Nat.le_refl _), Nat.sub_self]
  rfl

/-- The part between is reversed. -/
theorem swapEnds_spec (y x z : List BidiChar) (hy : y ≠ []) :
    ∃ j, swapEnds (x ++ y ++ z) x.length (x.length + y.length - 1) = (x ++ y.reverse ++ z, j) ∧
      j ≤ x.length + y.length - 1 + 1 := by
  induction y using List.bidirectionalRec generalizing x z with
  | nil => exact absurd rfl hy
  | singleton a =>
    refine ⟨x.length, ?_, by rw [List.length_singleton]; omega⟩
    unfold swapEnds
    rw [if_neg (by rw [List.length_singleton]; omega)]
    rfl
  | cons_append a y b ih =>
    have hk : x.length + (a :: (y ++ [b])).length - 1 = x.length + 1 + y.length := by
      rw [List.length_cons, List.length_append, List.length_singleton]
      omega
    have hline : x ++ a :: (y ++ [b]) ++ z = (x ++ a :: y) ++ b :: z := by
      simp only [List.append_assoc, List.cons_append, List.nil_append]
    have hlength : (x ++ a :: y).length = x.length + 1 + y.length := by
      rw [List.length_append, List.length_cons]
      omega
    have hfirst : ((x ++ a :: y) ++ b :: z).getD x.length default = a := by
      rw [List.append_assoc]
      exact getD_middle x _
    have hlast : ((x ++ a :: y) ++ b :: z).getD (x.length + 1 + y.length) default = b := by
      rw [← hlength]
      exact getD_middle _ z
    have hset : (((x ++ a :: y) ++ b :: z).set (x.length + 1 + y.length) a).set x.length b =
        (x ++ [b]) ++ y ++ a :: z := by
      rw [← hlength, set_middle, List.append_assoc, List.cons_append, set_middle]
      simp only [List.append_assoc, List.cons_append, List.nil_append]
    rw [hk, hline]
    unfold swapEnds
    rw [if_pos (by omega), hfirst, hlast, hset]
    by_cases hnil : y = []
    · subst hnil
      refine ⟨x.length + 1, ?_, by omega⟩
      unfold swapEnds
      rw [if_neg (by rw [List.length_nil]; omega)]
      simp only [List.append_assoc, List.nil_append, List.cons_append, List.reverse_cons, List.reverse_nil]
    · obtain ⟨j, hswap, hj⟩ := ih (x ++ [b]) (a :: z) hnil
      have hpos := List.length_pos_of_ne_nil hnil
      rw [List.length_append, List.length_singleton] at hswap hj
      refine ⟨j, ?_, by omega⟩
      rw [hswap]
      simp only [List.append_assoc, List.nil_append, List.cons_append, List.reverse_cons, List.reverse_append,
        List.reverse_nil]

/-! ## One level -/

/-- The levels with the entries that are there -/
def cells (ls : List UInt8) (x : List BidiChar) : List (ℕ × BidiChar) := (ls.map UInt8.toNat).zip x

/-- An entry of a lower level ends the open run. -/
theorem flipRuns_close {acc : List BidiChar} {q : List (ℕ × BidiChar)} (h : ∀ e ∈ q.head?, e.1 < t) :
    flipRuns t (some acc) q = acc ++ flipRuns t none q := by
  cases q with
  | nil => exact (List.append_nil acc).symm
  | cons e q =>
    have he := h e rfl
    rw [flipRuns, flipRuns, if_neg (Nat.not_le.mpr he), if_neg (Nat.ne_of_lt he)]

theorem flipRuns_append {acc : List BidiChar} {p q : List (ℕ × BidiChar)} (hp : ∀ e ∈ p, t ≤ e.1) :
    flipRuns t (some acc) (p ++ q) = flipRuns t (some ((p.map Prod.snd).reverse ++ acc)) q := by
  induction p generalizing acc with
  | nil => rfl
  | cons e p ih =>
    obtain ⟨he, hp⟩ := List.forall_mem_cons.mp hp
    rw [List.cons_append, flipRuns, if_pos he, ih hp, List.map_cons, List.reverse_cons, List.append_assoc]
    rfl

theorem cells_append {ls ls' : List UInt8} (h : ls.length = x.length) :
    cells (ls ++ ls') (x ++ y) = cells ls x ++ cells ls' y := by
  unfold cells
  rw [List.map_append]
  exact List.zip_append (by rw [List.length_map, h])

theorem mem_cells {ls : List UInt8} {e : ℕ × BidiChar} (he : e ∈ cells ls x) : ∃ l ∈ ls, l.toNat = e.1 :=
  List.mem_map.mp (List.of_mem_zip (show (e.1, e.2) ∈ cells ls x from he)).1

theorem map_snd_cells {ls : List UInt8} (h : ls.length = x.length) : (cells ls x).map Prod.snd = x :=
  List.map_snd_zip (Nat.le_of_eq (by rw [List.length_map, h]))

/-- A list of entries is divided like its levels. -/
theorem exists_append {ls ls' : List UInt8} (h : (ls ++ ls').length = x.length) :
    ∃ y z, x = y ++ z ∧ ls.length = y.length ∧ ls'.length = z.length := by
  rw [List.length_append] at h
  refine ⟨x.take ls.length, x.drop ls.length, (List.take_append_drop _ x).symm, ?_, ?_⟩
  · rw [List.length_take]
    omega
  · rw [List.length_drop]
    omega

/-- From an entry on that is not in a run, the rounds that are left flip the runs that follow. -/
theorem flipLoop_spec {ls ls' : List UInt8} {rounds j : ℕ} (hls : ls.length = x.length)
    (hls' : ls'.length = y.length) (hrounds : ls'.length < rounds)
    (hj : ls' ≠ [] → j < (ls ++ ls').length) :
    flipLoop (ls ++ ls') t rounds (x ++ y) x.length j = .ok (x ++ flipRuns t none (cells ls' y)) := by
  induction rounds generalizing ls ls' x y j with
  | zero => omega
  | succ rounds ih =>
    rw [flipLoop]
    by_cases hend : ls' = []
    · subst hend
      have hy : y = [] := List.length_eq_zero_iff.mp hls'.symm
      subst hy
      rw [List.append_nil, if_neg fun h => absurd h.1 (by omega)]
      rfl
    · have hpos := List.length_pos_of_ne_nil hend
      rw [if_pos ⟨by rw [List.length_append]; omega, hj hend⟩]
      dsimp only
      have hdrop : (ls ++ ls').drop x.length = ls' := by
        rw [← hls]
        exact List.drop_left
      have hstart : findIndexOfRun (ls ++ ls') x.length t =
          x.length + (ls'.takeWhile fun l => t != l.toNat).length := by
        unfold findIndexOfRun
        rw [hdrop]
      have hsplit := List.takeWhile_append_dropWhile (p := fun l : UInt8 => t != l.toNat) (l := ls')
      have hskipped : ∀ l ∈ ls'.takeWhile fun l => t != l.toNat, l.toNat ≠ t := by
        intro l hl
        have hne : (t != l.toNat) = true := List.mem_takeWhile_imp (p := fun l : UInt8 => t != l.toNat) hl
        exact (bne_iff_ne.mp hne).symm
      rw [hstart]
      generalize ls'.takeWhile (fun l => t != l.toNat) = skip at hsplit hskipped ⊢
      have hhead := List.head?_dropWhile_not (fun l : UInt8 => t != l.toNat) ls'
      generalize ls'.dropWhile (fun l => t != l.toNat) = found at hsplit hhead
      subst hsplit
      obtain ⟨y₁, y₂, rfl, hskip, hfound⟩ := exists_append hls'
      have hskipped' : ∀ e ∈ cells skip y₁, e.1 ≠ t := by
        intro e he
        obtain ⟨l, hl, hle⟩ := mem_cells he
        rw [← hle]
        exact hskipped l hl
      rw [cells_append hskip, flipRuns_skip hskipped', map_snd_cells hskip]
      cases found with
      | nil =>
        -- no entry of the level is left
        have hy₂ : y₂ = [] := List.length_eq_zero_iff.mp hfound.symm
        subst hy₂
        rw [List.append_nil] at hrounds hpos ⊢
        have hcount : (ls ++ skip).length = x.length + skip.length := by rw [List.length_append, hls]
        have hrun : endOfRun (ls ++ skip) (x.length + skip.length) t = x.length + skip.length := by
          unfold endOfRun
          rw [List.drop_of_length_le (Nat.le_of_eq hcount)]
          rfl
        rw [hrun]
        unfold swapEnds
        rw [if_neg (by omega)]
        cases rounds with
        | zero => omega
        | succ rounds =>
          rw [flipLoop, if_neg (by omega)]
          exact congrArg _ (by rw [List.append_nil]; exact congrArg _ (List.append_nil y₁).symm)
      | cons l rest =>
        have hl : l.toNat = t := by
          dsimp only [List.head?_cons] at hhead
          exact (bne_eq_false_iff_eq.mp hhead).symm
        cases y₂ with
        | nil => cases hfound
        | cons a y₂ =>
          have hrest : rest.length = y₂.length := Nat.succ.inj hfound
          have hsplit := List.takeWhile_append_dropWhile (p := fun l : UInt8 => decide (t ≤ l.toNat)) (l := rest)
          have hin : ∀ l ∈ rest.takeWhile fun l => decide (t ≤ l.toNat), t ≤ l.toNat := by
            intro l hl
            exact of_decide_eq_true (List.mem_takeWhile_imp (p := fun l : UInt8 => decide (t ≤ l.toNat)) hl)
          have hafter := List.head?_dropWhile_not (fun l : UInt8 => decide (t ≤ l.toNat)) rest
          have hdropped : (ls ++ (skip ++ l :: rest)).drop (x.length + skip.length) = l :: rest := by
            rw [← List.append_assoc]
            exact List.drop_left' (by rw [List.length_append, hls])
          have hrun : endOfRun (ls ++ (skip ++ l :: rest)) (x.length + skip.length) t =
              x.length + skip.length + ((rest.takeWhile fun l => decide (t ≤ l.toNat)).length + 1) := by
            unfold endOfRun
            have hcons : (l :: rest).takeWhile (fun l => decide (t ≤ l.toNat)) =
                l :: rest.takeWhile fun l => decide (t ≤ l.toNat) :=
              List.takeWhile_cons_of_pos (p := fun l : UInt8 => decide (t ≤ l.toNat))
                (decide_eq_true (Nat.le_of_eq hl.symm))
            rw [hdropped, hcons, List.length_cons]
          rw [hrun]
          generalize rest.takeWhile (fun l => decide (t ≤ l.toNat)) = run at hsplit hin ⊢
          generalize rest.dropWhile (fun l => decide (t ≤ l.toNat)) = after at hsplit hafter
          subst hsplit
          obtain ⟨r, w, rfl, hr, hw⟩ := exists_append hrest
          obtain ⟨j', hswap, hj'⟩ := swapEnds_spec (a :: r) (x ++ y₁) w (List.cons_ne_nil a r)
          have hlength : (x ++ y₁).length = x.length + skip.length := by rw [List.length_append, hskip]
          rw [hlength, List.length_cons, ← hr] at hswap hj'
          have hline : x ++ (y₁ ++ a :: (r ++ w)) = x ++ y₁ ++ a :: r ++ w := by
            simp only [List.append_assoc, List.cons_append]
          rw [hline, hswap]
          have hlevels : ls ++ (skip ++ l :: (run ++ after)) = (ls ++ skip ++ l :: run) ++ after := by
            simp only [List.append_assoc, List.cons_append]
          have hnext : (x ++ y₁ ++ (a :: r).reverse).length = x.length + skip.length + (run.length + 1) := by
            rw [List.length_append, hlength, List.length_reverse, List.length_cons, hr]
          have hshorter : after.length < rounds := by
            rw [List.length_append, List.length_cons, List.length_append] at hrounds
            omega
          have hcells : flipRuns t none (cells (l :: (run ++ after)) (a :: (r ++ w))) =
              (a :: r).reverse ++ flipRuns t none (cells after w) := by
            have hcons : cells (l :: (run ++ after)) (a :: (r ++ w)) = (t, a) :: (cells run r ++ cells after w) := by
              rw [← hl, ← cells_append hr]
              rfl
            have hge : ∀ e ∈ cells run r, t ≤ e.1 := by
              intro e he
              obtain ⟨m, hm, hme⟩ := mem_cells he
              rw [← hme]
              exact hin m hm
            rw [hcons, flipRuns, if_pos rfl, flipRuns_append hge, map_snd_cells hr, List.reverse_cons]
            refine flipRuns_close fun e he => ?_
            cases after with
            | nil => cases he
            | cons m after =>
              cases w with
              | nil => cases hw
              | cons b w =>
                rw [← Option.some.inj he]
                dsimp only [List.head?_cons] at hafter
                exact Nat.not_le.mp (of_decide_eq_false hafter)
          have hih := @ih (x ++ y₁ ++ (a :: r).reverse) w (ls ++ skip ++ l :: run) after j' (by
              rw [hnext, List.length_append, List.length_append, List.length_cons, hls]) hw hshorter (by
              intro hne
              have hlast := List.length_pos_of_ne_nil hne
              rw [List.length_append, List.length_append, List.length_append, List.length_cons]
              omega)
          rw [hnext, ← hlevels] at hih
          rw [hcells]
          refine hih.trans (congrArg _ ?_)
          simp only [List.append_assoc]

theorem flipThisRun_eq (h : levels.length = line.length) :
    flipThisRun line levels t = .ok (flipRuns t none (cells levels line)) := by
  have hall : flipLoop ([] ++ levels) t (levels.length + 1) ([] ++ line) 0 0 =
      .ok ([] ++ flipRuns t none (cells levels line)) :=
    flipLoop_spec rfl h (Nat.lt_succ_self _) fun hne => List.length_pos_of_ne_nil hne
  exact hall

/-! ## All levels -/

theorem descend_last {step : ℕ → List (ℕ × BidiChar) → List BidiChar} (ls : List ℕ) (t n : ℕ) (x : List BidiChar) :
    descend step ls t (n + 1) x = descend step ls t n (step (t + n) (ls.zip x)) := by
  induction n generalizing t with
  | zero => rfl
  | succ n ih =>
    rw [descend, ih (t + 1), descend, Nat.add_right_comm t 1 n]
    rfl

/-- The loop of rule L2 is the flips from the highest level down. -/
theorem flipDown_eq (h : levels.length = line.length) :
    flipDown levels n line = .ok (flips (levels.map UInt8.toNat) n line) := by
  induction n generalizing line with
  | zero => rfl
  | succ n ih =>
    have hlength : levels.length = (flipRuns (n + 1) none (cells levels line)).length := by
      have hperm : (flipRuns (n + 1) none (cells levels line)).Perm ((cells levels line).map Prod.snd) :=
        local_flipRuns.perm (n + 1) _
      rw [hperm.length_eq, map_snd_cells h, h]
    unfold flips
    rw [flipDown, flipThisRun_eq h, descend_last, Nat.add_comm 1 n]
    exact ih hlength

theorem le_tempType {l : UInt8} (hl : l ∈ levels) : l.toNat ≤ tempType levels := by
  have hfold : ∀ (ls : List UInt8) (temp : ℕ),
      temp ≤ ls.foldl (fun temp l => if l.toNat > temp then l.toNat else temp) temp ∧
        ∀ l ∈ ls, l.toNat ≤ ls.foldl (fun temp l => if l.toNat > temp then l.toNat else temp) temp := by
    intro ls
    induction ls with
    | nil => exact fun temp => ⟨Nat.le_refl temp, fun l hl => absurd hl List.not_mem_nil⟩
    | cons m ls ih =>
      intro temp
      rw [List.foldl_cons]
      obtain ⟨hle, hall⟩ := ih (if m.toNat > temp then m.toNat else temp)
      have hmax : temp ≤ (if m.toNat > temp then m.toNat else temp) ∧
          m.toNat ≤ (if m.toNat > temp then m.toNat else temp) := by
        by_cases hm : m.toNat > temp
        · rw [if_pos hm]
          exact ⟨Nat.le_of_lt hm, Nat.le_refl _⟩
        · rw [if_neg hm]
          exact ⟨Nat.le_refl _, Nat.not_lt.mp hm⟩
      exact ⟨Nat.le_trans hmax.1 hle, List.forall_mem_cons.mpr ⟨Nat.le_trans hmax.2 hle, hall⟩⟩
  exact (hfold levels _).2 l hl

/-- A character that can be told apart from the default one -/
def someChar : BidiChar := ⟨65, 65, 0⟩

/-- What the loop of rule L2 does is rule L2 for all lines exactly under the condition on the levels. -/
theorem reverseLevels_iff (levels : List UInt8) :
    (∀ line : List BidiChar, line.length = levels.length →
      reverseLevels levels line = .ok (reorder (levels.map UInt8.toNat) (tempType levels) line)) ↔
      AllAgree (levels.map UInt8.toNat) (tempType levels) := by
  have hls : ∀ l ∈ levels.map UInt8.toNat, l ≤ tempType levels := by
    intro l hl
    obtain ⟨m, hm, rfl⟩ := List.mem_map.mp hl
    exact le_tempType hm
  have hiff := orders_iff (c := someChar) (d := default) (by decide) hls
  rw [List.length_map] at hiff
  rw [← hiff]
  refine forall_congr' fun line => forall_congr' fun hline => ?_
  rw [show reverseLevels levels line = _ from flipDown_eq hline.symm]
  exact ⟨fun h => Except.ok.inj h, fun h => congrArg _ h⟩

/-- A number before a character that is written from right to left, in a line that is: the levels are 2, 2 and 1. -/
theorem reverseLevels_number : ¬ ∀ line : List BidiChar, line.length = 3 →
    reverseLevels [2, 2, 1] line = .ok (reorder [2, 2, 1] 2 line) := by
  intro h
  have hflips : flipDown [2, 2, 1] 2 [⟨49, 49, 0⟩, ⟨50, 50, 1⟩, ⟨1488, 1488, 2⟩] =
      .ok (flips [2, 2, 1] 2 [⟨49, 49, 0⟩, ⟨50, 50, 1⟩, ⟨1488, 1488, 2⟩]) := flipDown_eq rfl
  have heq := hflips.symm.trans (h [⟨49, 49, 0⟩, ⟨50, 50, 1⟩, ⟨1488, 1488, 2⟩] rfl)
  exact absurd (Except.ok.inj heq) (by decide)

end PuttyNd.Bidi
