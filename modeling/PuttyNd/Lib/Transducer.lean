import Mathlib.Data.List.Basic
import Mathlib.Tactic.Common

/-!
# Machines that read a stream of symbols and write another

A machine reads one symbol in each step, and what it writes does not depend on where the stream is
divided. What it reads is composed from pieces: a piece is taken over if the machine is back in a known
state after it.
-/

namespace Transducer

variable {σ τ α β : Type*} {step : σ → α → σ × List β}

/-- The state after a list of symbols, and all that is written on the way. -/
def run (step : σ → α → σ × List β) (s : σ) : List α → σ × List β
  | [] => (s, [])
  | a :: as =>
    let next := step s a
    let rest := run step next.1 as
    (rest.1, next.2 ++ rest.2)

@[simp]
theorem run_nil (s : σ) : run step s [] = (s, []) := rfl

theorem run_cons (s : σ) (a : α) (as : List α) : run step s (a :: as) =
    ((run step (step s a).1 as).1, (step s a).2 ++ (run step (step s a).1 as).2) := rfl

theorem run_append (s : σ) (as bs : List α) : run step s (as ++ bs) =
    ((run step (run step s as).1 bs).1, (run step s as).2 ++ (run step (run step s as).1 bs).2) := by
  induction as generalizing s with
  | nil => simp
  | cons a as ih => simp only [List.cons_append, run_cons, ih, List.append_assoc]

/-- What a step keeps, if it meets the condition, a run keeps. -/
theorem run_fst_eq_foldl (s : σ) (as : List α) :
    (run step s as).1 = as.foldl (fun s a => (step s a).1) s := by
  induction as generalizing s with
  | nil => rfl
  | cons a as ih => rw [run_cons, List.foldl_cons, ih]

/-- A machine with more state writes the same as one that a view of its state drives. -/
theorem run_map {step' : τ → α → τ × List β} (view : σ → τ)
    (h : ∀ s a, step' (view s) a = (view (step s a).1, (step s a).2)) (s : σ) (as : List α) :
    run step' (view s) as = (view (run step s as).1, (run step s as).2) := by
  induction as generalizing s with
  | nil => rfl
  | cons a as ih => rw [run_cons, run_cons, h, ih]

/-- From `s` the piece is read as the data, and the machine is then in `s'`. -/
def Reads (step : σ → α → σ × List β) (s : σ) (piece : List α) (data : List β) (s' : σ) : Prop :=
  run step s piece = (s', data)

variable {s s' s'' : σ} {piece piece' : List α} {data data' : List β}

theorem Reads.nil (s : σ) : Reads step s [] [] s := rfl

theorem Reads.append (h : Reads step s piece data s') (h' : Reads step s' piece' data' s'') :
    Reads step s (piece ++ piece') (data ++ data') s'' := by
  unfold Reads at *
  rw [run_append, h, h']

theorem Reads.cons {a : α} {out : List β} (hstep : step s a = (s', out))
    (h : Reads step s' piece data s'') : Reads step s (a :: piece) (out ++ data) s'' := by
  unfold Reads at *
  rw [run_cons, hstep, h]

theorem Reads.silent {a : α} (hstep : step s a = (s', [])) (h : Reads step s' piece data s'') :
    Reads step s (a :: piece) data s'' := h.cons hstep

/-- Symbols that are each written as a piece that brings the machine back. -/
theorem Reads.flatMap {code : β → List α} (h : ∀ b, Reads step s (code b) [b] s) (data : List β) :
    Reads step s (data.flatMap code) data s := by
  induction data with
  | nil => exact .nil s
  | cons b data ih =>
    rw [List.flatMap_cons]
    exact (h b).append ih

/-- A machine that holds symbols back: they and the next one are decoded as what it writes and what it then
holds back. -/
def Decodes (step : σ → α → σ × List β) (Holds : σ → List α → Prop) (decode : List α → List β) : Prop :=
  ∀ s pending a, Holds s pending → ∃ pending', Holds (step s a).1 pending' ∧
    ∀ rest, decode (pending ++ a :: rest) = (step s a).2 ++ decode (pending' ++ rest)

theorem Decodes.run {Holds : σ → List α → Prop} {decode : List α → List β} {pending : List α}
    (h : Decodes step Holds decode) (as : List α) (hs : Holds s pending) :
    ∃ pending', Holds (run step s as).1 pending' ∧
      ∀ rest, decode (pending ++ (as ++ rest)) = (run step s as).2 ++ decode (pending' ++ rest) := by
  induction as generalizing s pending with
  | nil => exact ⟨pending, hs, fun rest => rfl⟩
  | cons a as ih =>
    obtain ⟨pending₁, hs₁, hstep⟩ := h s pending a hs
    obtain ⟨pending₂, hs₂, hrun⟩ := ih hs₁
    refine ⟨pending₂, hs₂, fun rest => ?_⟩
    rw [List.cons_append, hstep, hrun, run_cons, List.append_assoc]

end Transducer

/-!
## Scanners

A step of a scanner looks at the symbols that are there, and takes some of them or finds that it has to see
more. If seeing more does not change a step that was possible, then a stream may be scanned in pieces: what is
left of one is put before the next.
-/

namespace Scanner

variable {σ α β : Type*} {step : σ → List α → Option (ℕ × σ × List β)}

/-- A step takes at least one of the symbols, and is the same when more of them are there. -/
structure Incremental (step : σ → List α → Option (ℕ × σ × List β)) : Prop where
  progress {s : σ} {p : List α} {n : ℕ} {s' : σ} {out : List β} :
    p ≠ [] → step s p = some (n, s', out) → 0 < n ∧ n ≤ p.length
  stable {s : σ} {p : List α} {r : ℕ × σ × List β} (q : List α) :
    p ≠ [] → step s p = some r → step s (p ++ q) = some r

/-- The scanner makes steps in the stream until nothing is left or it has to see more. -/
inductive Scans (step : σ → List α → Option (ℕ × σ × List β)) :
    σ → List α → σ → List α → List β → Prop
  | stop {s : σ} {p : List α} : p = [] ∨ step s p = none → Scans step s p s p []
  | next {s s' s'' : σ} {p rest : List α} {n : ℕ} {out out' : List β} :
    p ≠ [] → step s p = some (n, s', out) → Scans step s' (p.drop n) s'' rest out' →
    Scans step s p s'' rest (out ++ out')

variable {s s' s'' : σ} {p q rest rest' : List α} {out out' : List β}

theorem Scans.unique (h : Scans step s p s' rest out) (h' : Scans step s p s'' rest' out') :
    s' = s'' ∧ rest = rest' ∧ out = out' := by
  induction h generalizing out' with
  | stop hstop =>
    cases h' with
    | stop _ => exact ⟨rfl, rfl, rfl⟩
    | next hp hs _ =>
      rcases hstop with hnil | hnone
      · exact absurd hnil hp
      · rw [hnone] at hs
        cases hs
  | next hp hs _ ih =>
    cases h' with
    | stop hstop =>
      rcases hstop with hnil | hnone
      · exact absurd hnil hp
      · rw [hnone] at hs
        cases hs
    | next _ hs' hrest =>
      rw [hs] at hs'
      cases hs'
      obtain ⟨h1, h2, h3⟩ := ih hrest
      exact ⟨h1, h2, by rw [h3]⟩

/-- What is left of one piece is put before the next. -/
theorem Scans.append (hstep : Incremental step) (h : Scans step s p s' rest out)
    (h' : Scans step s' (rest ++ q) s'' rest' out') :
    Scans step s (p ++ q) s'' rest' (out ++ out') := by
  induction h with
  | stop _ => exact h'
  | @next s s₁ s₂ p rest n out₁ out₂ hp hs _ ih =>
    have hn : n ≤ p.length := (hstep.progress hp hs).2
    have hrest := ih h'
    rw [← List.drop_append_of_le_length hn] at hrest
    rw [List.append_assoc]
    exact .next (List.append_ne_nil_of_left_ne_nil hp q) (hstep.stable q hp hs) hrest

/-- From related states a step takes and writes the same, and leads to related states. -/
def Respects (step : σ → List α → Option (ℕ × σ × List β)) (R : σ → σ → Prop) : Prop :=
  ∀ s t p, R s t →
    match step s p with
    | none => step t p = none
    | some (n, s', out) => ∃ t', step t p = some (n, t', out) ∧ R s' t'

theorem Scans.related {R : σ → σ → Prop} (hR : Respects step R) {t : σ} (hst : R s t)
    (h : Scans step s p s' rest out) : ∃ t', Scans step t p t' rest out ∧ R s' t' := by
  induction h generalizing t with
  | @stop s p hstop =>
    refine ⟨t, .stop ?_, hst⟩
    rcases hstop with hnil | hnone
    · exact .inl hnil
    · have := hR s t p hst
      rw [hnone] at this
      exact .inr this
  | @next s _ _ p _ _ _ _ hp hs _ ih =>
    have := hR s t p hst
    rw [hs] at this
    obtain ⟨t', ht, hst'⟩ := this
    obtain ⟨t'', hrest, hst''⟩ := ih hst'
    exact ⟨t'', .next hp ht hrest, hst''⟩

end Scanner
