import Mathlib.Data.Nat.Notation

/-!
# Machines with a stack of things to do

A step of such a machine does the first thing on the stack and may put others in its place, or ends
in a fault; it can be observed. `Exec` relates a state and a stack to the observations, the last
state and the fault of the computation, and `run` computes them. A `Contract` gives each thing to do a
precondition and a postcondition; what a step puts on the stack may be assumed to keep its own, so
that things that call each other are dealt with one step at a time. `Reach` are the states that a
transition system reaches, with the rule that an invariant is shown for one step at a time.
-/

/-- A machine with states `σ`, things to do `τ`, faults `ε` and observations `ω`. -/
structure Machine (σ τ ε ω : Type*) where
  step : σ → τ → Except ε (σ × List τ)
  observe : σ → τ → List ω

namespace Machine

variable {σ τ ε ω : Type*} (m : Machine σ τ ε ω)

/-- The computation from the state `s` and the stack `ts`. -/
inductive Exec : σ → List τ → List ω → σ → Option ε → Prop
  | nil {s : σ} : Exec s [] [] s none
  | fault {s : σ} {t : τ} {ts : List τ} {e : ε} :
    m.step s t = .error e → Exec s (t :: ts) (m.observe s t) s (some e)
  | step {s s' s'' : σ} {t : τ} {new ts : List τ} {os : List ω} {r : Option ε} :
    m.step s t = .ok (s', new) → Exec s' (new ++ ts) os s'' r →
    Exec s (t :: ts) (m.observe s t ++ os) s'' r

/-- The computation from `s` and `ts`, if it makes at most `n` steps. -/
def run : ℕ → σ → List τ → Option (List ω × σ × Option ε)
  | _, s, [] => some ([], s, none)
  | 0, _, _ :: _ => none
  | n + 1, s, t :: ts =>
    match m.step s t with
    | .error e => some (m.observe s t, s, some e)
    | .ok (s', new) => (run n s' (new ++ ts)).map fun r => (m.observe s t ++ r.1, r.2)

variable {m}

section Exec

variable {s s' s'' : σ} {t : τ} {ts ts' : List τ} {os os' : List ω} {r r' : Option ε}

/-- A step that is not observed. -/
theorem Exec.silent {new : List τ} (h : m.step s t = .ok (s', new)) (ho : m.observe s t = [])
    (h' : m.Exec s' (new ++ ts) os s'' r) : m.Exec s (t :: ts) os s'' r := by
  have := Exec.step h h'
  rwa [ho] at this

/-- A computation has one result. -/
theorem Exec.unique (h : m.Exec s ts os s' r) (h' : m.Exec s ts os' s'' r') :
    os = os' ∧ s' = s'' ∧ r = r' := by
  induction h generalizing os' with
  | nil =>
    cases h'
    exact ⟨rfl, rfl, rfl⟩
  | fault h1 =>
    cases h' with
    | fault h2 =>
      rw [h1] at h2
      cases h2
      exact ⟨rfl, rfl, rfl⟩
    | step h2 _ =>
      rw [h1] at h2
      cases h2
  | step h1 _ ih =>
    cases h' with
    | fault h2 =>
      rw [h1] at h2
      cases h2
    | step h2 h3 =>
      rw [h1] at h2
      cases h2
      obtain ⟨h4, h5, h6⟩ := ih h3
      exact ⟨by rw [h4], h5, h6⟩

/-- The things to do are done in sequence. -/
theorem Exec.append (h : m.Exec s ts os s' none) (h' : m.Exec s' ts' os' s'' r) :
    m.Exec s (ts ++ ts') (os ++ os') s'' r := by
  generalize hr : (none : Option ε) = r0 at h
  induction h with
  | nil => exact h'
  | fault _ => cases hr
  | step h1 _ ih =>
    rw [List.cons_append, List.append_assoc]
    refine .step h1 ?_
    rw [← List.append_assoc]
    exact ih h' hr

theorem exec_of_run {n : ℕ} (h : m.run n s ts = some (os, s', r)) : m.Exec s ts os s' r := by
  induction n generalizing s ts os with
  | zero =>
    cases ts with
    | nil =>
      simp only [run, Option.some.injEq, Prod.mk.injEq] at h
      obtain ⟨rfl, rfl, rfl⟩ := h
      exact .nil
    | cons t ts => simp [run] at h
  | succ n ih =>
    cases ts with
    | nil =>
      simp only [run, Option.some.injEq, Prod.mk.injEq] at h
      obtain ⟨rfl, rfl, rfl⟩ := h
      exact .nil
    | cons t ts =>
      rw [run] at h
      cases hstep : m.step s t with
      | error e =>
        simp only [hstep, Option.some.injEq, Prod.mk.injEq] at h
        obtain ⟨rfl, rfl, rfl⟩ := h
        exact .fault hstep
      | ok p =>
        obtain ⟨s1, new⟩ := p
        simp only [hstep, Option.map_eq_some_iff, Prod.mk.injEq] at h
        obtain ⟨⟨os1, s2, r2⟩, h1, rfl, rfl, rfl⟩ := h
        exact .step hstep (ih h1)

end Exec

variable (m)

/-- In the computation from the state `s` and the stack `ts`, the machine comes to do `x` in `s'`. -/
inductive Visits : σ → List τ → σ → τ → Prop
  | here {s : σ} {t : τ} {ts : List τ} : Visits s (t :: ts) s t
  | step {s s' s'' : σ} {t x : τ} {new ts : List τ} :
    m.step s t = .ok (s', new) → Visits s' (new ++ ts) s'' x → Visits s (t :: ts) s'' x

/-- What the machine comes to do in at most `n` steps. -/
def visited : ℕ → σ → List τ → List (σ × τ)
  | _, _, [] => []
  | 0, _, _ :: _ => []
  | n + 1, s, t :: ts =>
    (s, t) :: match m.step s t with
      | .error _ => []
      | .ok (s', new) => visited n s' (new ++ ts)

variable {m}

theorem Visits.mem_visited {n : ℕ} {s s' : σ} {x : τ} {ts : List τ} (h : m.Visits s ts s' x)
    {r : List ω × σ × Option ε} (hn : m.run n s ts = some r) : (s', x) ∈ m.visited n s ts := by
  induction h generalizing n r with
  | @here s t ts =>
    cases n with
    | zero => simp [run] at hn
    | succ n => simp [visited]
  | step h1 _ ih =>
    cases n with
    | zero => simp [run] at hn
    | succ n =>
      simp only [run, h1, Option.map_eq_some_iff] at hn
      obtain ⟨r', hr, -⟩ := hn
      simp [visited, h1, ih hr]

section Contract

/-- The things `ts` can be done one after the other from a state, and then `Q` holds. -/
def Seq (Pre : τ → σ → Prop) (Post : τ → σ → σ → Prop) : List τ → (σ → Prop) → σ → Prop
  | [], Q, s => Q s
  | t :: ts, Q, s => Pre t s ∧ ∀ s', Post t s s' → Seq Pre Post ts Q s'

variable {Guard : σ → τ → Prop} {Pre : τ → σ → Prop} {Post : τ → σ → σ → Prop} {Q Q' : σ → Prop}

theorem Seq.append {ts l : List τ} {s : σ} (h : Seq Pre Post ts Q s)
    (h' : ∀ s', Q s' → Seq Pre Post l Q' s') : Seq Pre Post (ts ++ l) Q' s := by
  induction ts generalizing s with
  | nil => exact h' s h
  | cons t ts ih => exact ⟨h.1, fun s' hs' => ih (h.2 s' hs')⟩

variable (m Guard Pre Post)

/-- Every step that is allowed by `Guard` leaves things to do that establish its postcondition. -/
structure Contract : Prop where
  step : ∀ s t s' new, Pre t s → Guard s t → m.step s t = .ok (s', new) →
    Seq Pre Post new (Post t s) s'

variable {m Guard Pre Post} {s s' : σ} {ts : List τ} {os : List ω}

/-- A computation whose steps are all allowed ends as the contract says. -/
theorem Contract.exec (hc : Contract m Guard Pre Post) (h : m.Exec s ts os s' none)
    (hg : ∀ s' x, m.Visits s ts s' x → Guard s' x) (hs : Seq Pre Post ts Q s) : Q s' := by
  generalize hr : (none : Option ε) = r at h
  induction h with
  | nil => exact hs
  | fault _ => cases hr
  | step h1 _ ih =>
    refine ih (fun s' x hx => hg s' x (.step h1 hx)) ?_ hr
    exact (hc.step _ _ _ _ hs.1 (hg _ _ .here) h1).append hs.2

/-- A fault occurs only in a step whose precondition holds. -/
theorem Contract.exec_fault (hc : Contract m Guard Pre Post) {e : ε}
    (h : m.Exec s ts os s' (some e)) (hg : ∀ s' x, m.Visits s ts s' x → Guard s' x)
    (hs : Seq Pre Post ts Q s) :
    ∃ x, Pre x s' ∧ m.Visits s ts s' x ∧ m.step s' x = .error e := by
  generalize hr : some e = r at h
  induction h with
  | nil => cases hr
  | fault h1 =>
    cases hr
    exact ⟨_, hs.1, .here, h1⟩
  | step h1 _ ih =>
    obtain ⟨x, hx1, hx2, hx3⟩ := ih (fun s' x hx => hg s' x (.step h1 hx))
      ((hc.step _ _ _ _ hs.1 (hg _ _ .here) h1).append hs.2) hr
    exact ⟨x, hx1, .step h1 hx2, hx3⟩

end Contract

end Machine

/-- The states that are reached from the states `init` by the transitions `next`. -/
inductive Reach {σ : Type*} (init : σ → Prop) (next : σ → σ → Prop) : σ → Prop
  | init {s : σ} : init s → Reach init next s
  | step {s s' : σ} : Reach init next s → next s s' → Reach init next s'

namespace Reach

variable {σ : Type*} {init : σ → Prop} {next : σ → σ → Prop} {Inv : σ → Prop}

/-- What holds initially and is kept by every transition holds in every reached state. -/
theorem invariant (hinit : ∀ s, init s → Inv s) (hnext : ∀ s s', Inv s → next s s' → Inv s')
    {s : σ} (h : Reach init next s) : Inv s := by
  induction h with
  | init h => exact hinit _ h
  | step _ h ih => exact hnext _ _ ih h

end Reach
