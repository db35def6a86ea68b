import PuttyNd.Lib.Outcome

/-!
# Runs of steps that may fail, with a condition on each step
-/

namespace Runs

open Outcome

variable {σ τ ε : Type} {step : σ → τ → Except ε σ} {P : σ → τ → Prop}

/-- Each step of the run meets the condition, in the state in which it is made. -/
def AllSteps (step : σ → τ → Except ε σ) (P : σ → τ → Prop) (s : σ) : List τ → Prop
  | [] => True
  | e :: events => P s e ∧
    match step s e with
    | .error _ => True
    | .ok s' => AllSteps step P s' events

variable {Inv : σ → Prop} {s : σ} {events : List τ}

/-- What each step keeps, if it meets the condition, holds after every run. -/
theorem ensures_run (hstep : ∀ s e, Inv s → P s e → Ensures (step s e) Inv) (h : Inv s)
    (hall : AllSteps step P s events) : Ensures (events.foldlM step s) Inv := by
  induction events generalizing s with
  | nil => exact ensures_ok.mpr h
  | cons e events ih =>
    obtain ⟨he, hrest⟩ := hall
    rw [List.foldlM_cons]
    intro s'' hs''
    cases hs : step s e with
    | error f =>
      rw [hs] at hs''
      cases hs''
    | ok s' =>
      rw [hs] at hs'' hrest
      exact ih (hstep s e h he s' hs) hrest s'' hs''

/-- If each step that meets the condition succeeds, so does a run of them. -/
theorem succeeds_run (hstep : ∀ s e, Inv s → P s e → Succeeds (step s e) Inv) (h : Inv s)
    (hall : AllSteps step P s events) : Succeeds (events.foldlM step s) Inv := by
  induction events generalizing s with
  | nil => exact ⟨s, rfl, h⟩
  | cons e events ih =>
    obtain ⟨he, hrest⟩ := hall
    obtain ⟨s', hs, h'⟩ := hstep s e h he
    rw [hs] at hrest
    rw [List.foldlM_cons, hs]
    exact ih h' hrest

/-! ## Steps that do not fail -/

section Total

variable {step : σ → τ → σ} {Good : σ → Prop}

/-- Each step of the run meets the condition, in the state in which it is made. -/
def Meets (step : σ → τ → σ) (P : σ → τ → Prop) (s : σ) : List τ → Prop
  | [] => True
  | e :: events => P s e ∧ Meets step P (step s e) events

instance Meets.decidable [∀ s e, Decidable (P s e)] :
    ∀ (s : σ) (events : List τ), Decidable (Meets step P s events)
  | _, [] => isTrue trivial
  | s, e :: events =>
    have := Meets.decidable (step s e) events
    inferInstanceAs (Decidable (P s e ∧ Meets step P (step s e) events))

theorem meets_concat {e : τ} : Meets step P s (events ++ [e]) ↔
    Meets step P s events ∧ P (events.foldl step s) e := by
  induction events generalizing s with
  | nil => exact and_comm
  | cons e' events ih =>
    rw [List.cons_append, List.foldl_cons]
    unfold Meets
    rw [ih, and_assoc]

/-- Each state that the run reaches is good. -/
def Always (step : σ → τ → σ) (Good : σ → Prop) (s : σ) (events : List τ) : Prop :=
  ∀ reached, reached <+: events → Good (reached.foldl step s)

theorem always_cons {e : τ} : Always step Good s (e :: events) ↔
    Good s ∧ Always step Good (step s e) events := by
  constructor
  · intro h
    refine ⟨h [] (List.nil_prefix), fun reached hreached => ?_⟩
    exact h (e :: reached) ((List.prefix_cons_inj e).mpr hreached)
  · intro h reached hreached
    cases reached with
    | nil => exact h.1
    | cons e' reached =>
      obtain ⟨rfl, hrest⟩ := List.cons_prefix_cons.mp hreached
      exact h.2 reached hrest

/-- What every step keeps holds after a run. -/
theorem invariant_run (hstep : ∀ s e, Inv s → Inv (step s e)) (h : Inv s) :
    Inv (events.foldl step s) := by
  induction events generalizing s with
  | nil => exact h
  | cons e events ih => exact ih (hstep s e h)

/-- What each step keeps, if it meets the condition, holds in all states that are reached. -/
theorem always_of_meets (hgood : ∀ s, Inv s → Good s) (hkept : ∀ s e, Inv s → P s e → Inv (step s e))
    (h : Inv s) (hmeets : Meets step P s events) : Always step Good s events := by
  induction events generalizing s with
  | nil =>
    intro reached hreached
    rw [List.prefix_nil.mp hreached]
    exact hgood s h
  | cons e events ih =>
    rw [always_cons]
    exact ⟨hgood s h, ih (hkept s e h hmeets.1) hmeets.2⟩

/-- If good states are those of an invariant, and a step keeps the invariant exactly if it meets the
condition, then the runs through good states are those whose steps meet it. -/
theorem always_iff_meets (hgood : ∀ s, Inv s → Good s)
    (hkept : ∀ s e, Inv s → P s e → Inv (step s e))
    (honly : ∀ s e, Inv s → Good (step s e) → P s e) (h : Inv s) :
    Always step Good s events ↔ Meets step P s events := by
  induction events generalizing s with
  | nil =>
    refine ⟨fun _ => trivial, fun _ reached hreached => ?_⟩
    rw [List.prefix_nil.mp hreached]
    exact hgood s h
  | cons e events ih =>
    rw [always_cons]
    constructor
    · intro hall
      have he := honly s e h (hall.2 [] List.nil_prefix)
      exact ⟨he, (ih (hkept s e h he)).mp hall.2⟩
    · intro hmeets
      exact ⟨hgood s h, (ih (hkept s e h hmeets.1)).mpr hmeets.2⟩

end Total

end Runs
