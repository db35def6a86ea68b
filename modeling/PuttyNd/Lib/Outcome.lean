import Mathlib.Data.List.Basic

/-!
# Computations that may fail

Rules for computations in `Except ε`. `Ensures r P` says that `r` establishes `P` if it succeeds;
`Succeeds r P` says that it does succeed, and establishes `P`. Both have a rule for each way in which
computations are composed.
-/

namespace Outcome

variable {ε : Type*} {α β : Type}

@[simp] theorem ok_bind (a : α) (f : α → Except ε β) : (Except.ok a >>= f) = f a := rfl

@[simp] theorem error_bind (e : ε) (f : α → Except ε β) : (Except.error e >>= f) = .error e := rfl

@[simp] theorem pure_eq (a : α) : (pure a : Except ε α) = .ok a := rfl

theorem bind_eq_ok {x : Except ε α} {f : α → Except ε β} {b : β} :
    x >>= f = .ok b ↔ ∃ a, x = .ok a ∧ f a = .ok b := by
  cases x with
  | error e =>
    constructor
    · exact fun h => (nomatch h)
    · exact fun ⟨_, ha, _⟩ => (nomatch ha)
  | ok a =>
    constructor
    · exact fun h => ⟨a, rfl, h⟩
    · rintro ⟨_, ha, hf⟩
      cases ha
      exact hf

/-- If `r` succeeds, its result satisfies `P`. -/
def Ensures (r : Except ε α) (P : α → Prop) : Prop := ∀ a, r = .ok a → P a

/-- `r` succeeds with a result that satisfies `P`. -/
def Succeeds (r : Except ε α) (P : α → Prop) : Prop := ∃ a, r = .ok a ∧ P a

section Ensures

variable {r : Except ε α} {f : α → Except ε β} {P P' : α → Prop} {Q : β → Prop}

@[simp] theorem ensures_ok {a : α} : Ensures (.ok a : Except ε α) P ↔ P a :=
  ⟨fun h => h a rfl, fun h b hb => by cases hb; exact h⟩

@[simp] theorem ensures_error {e : ε} : Ensures (.error e : Except ε α) P ↔ True :=
  ⟨fun _ => trivial, fun _ a ha => by cases ha⟩

theorem Ensures.mono (h : Ensures r P) (hPP : ∀ a, P a → P' a) : Ensures r P' :=
  fun a ha => hPP a (h a ha)

theorem Ensures.bind (h : Ensures r P) (hf : ∀ a, P a → Ensures (f a) Q) : Ensures (r >>= f) Q := by
  cases r with
  | error e => simp
  | ok a => exact hf a (h a rfl)

/-- What each round keeps holds after a loop. -/
theorem Ensures.foldlM {γ : Type} {f : α → γ → Except ε α} {l : List γ} {a : α}
    (hf : ∀ b, ∀ c ∈ l, P b → Ensures (f b c) P) (h : P a) : Ensures (l.foldlM f a) P := by
  induction l generalizing a with
  | nil => exact ensures_ok.mpr h
  | cons c l ih =>
    rw [List.foldlM_cons]
    refine (hf a c List.mem_cons_self h).bind ?_
    intro b hb
    exact ih (fun b d hd => hf b d (List.mem_cons_of_mem c hd)) hb

end Ensures

section Succeeds

variable {r : Except ε α} {f : α → Except ε β} {P P' : α → Prop} {Q : β → Prop}

@[simp] theorem succeeds_ok {a : α} : Succeeds (.ok a : Except ε α) P ↔ P a :=
  ⟨fun ⟨_, hb, h⟩ => by cases hb; exact h, fun h => ⟨a, rfl, h⟩⟩

@[simp] theorem succeeds_error {e : ε} : Succeeds (.error e : Except ε α) P ↔ False :=
  ⟨fun ⟨_, ha, _⟩ => (nomatch ha), False.elim⟩

theorem Succeeds.mono (h : Succeeds r P) (hPP : ∀ a, P a → P' a) : Succeeds r P' := by
  obtain ⟨a, ha, hp⟩ := h
  exact ⟨a, ha, hPP a hp⟩

theorem Succeeds.bind (h : Succeeds r P) (hf : ∀ a, P a → Succeeds (f a) Q) :
    Succeeds (r >>= f) Q := by
  obtain ⟨a, rfl, hp⟩ := h
  exact hf a hp

theorem Succeeds.ensures (h : Succeeds r P) : Ensures r P := by
  obtain ⟨a, rfl, hp⟩ := h
  exact ensures_ok.mpr hp

/-- What is known of a result in case of success holds of the result of a computation that
succeeds. -/
theorem Succeeds.and_ensures (h : Succeeds r P) (h' : Ensures r P') :
    Succeeds r fun a => P a ∧ P' a := by
  obtain ⟨a, rfl, hp⟩ := h
  exact ⟨a, rfl, hp, h' a rfl⟩

/-- A loop succeeds if each round does, where `P` says what holds before the rounds that are left. -/
theorem Succeeds.foldlM {γ : Type} {f : α → γ → Except ε α} {P : List γ → α → Prop} {l : List γ} {a : α}
    (hf : ∀ c l b, P (c :: l) b → Succeeds (f b c) (P l)) (h : P l a) :
    Succeeds (l.foldlM f a) (P []) := by
  induction l generalizing a with
  | nil => exact succeeds_ok.mpr h
  | cons c l ih =>
    rw [List.foldlM_cons]
    exact (hf c l a h).bind fun b hb => ih hb

end Succeeds

end Outcome
