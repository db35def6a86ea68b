import Mathlib.Data.List.Basic
import Mathlib.Tactic.Common

/-!
# Codecs that know where their values end

A value is written as a list of symbols, and read from the front of a source. A source that runs out of
data has an error from then on, and what is read from it is no longer meant. Two codecs one after the
other are a codec of pairs.
-/

namespace PuttyNd.Lib

/-- What is left to be read, and whether the data has run out. -/
@[ext]
structure Source (σ : Type*) where
  data : List σ
  err : Bool
deriving DecidableEq, Repr

variable {σ α β : Type*}

/-- A way to write values and to read them back. -/
structure Codec (σ α : Type*) where
  put : α → List σ
  get : Source σ → α × Source σ
  get_put : ∀ a rest, get ⟨put a ++ rest, false⟩ = (a, ⟨rest, false⟩)
  get_part : ∀ a part, part.IsPrefix (put a) → part ≠ put a → (get ⟨part, false⟩).2.err = true
  get_err : ∀ src, src.err = true → (get src).2.err = true
  get_length : ∀ src, (get src).2.data.length ≤ src.data.length

namespace Codec

/-- A part of two lists is a part of the first, or goes beyond it. -/
theorem part_append {l r part : List σ} (hp : part.IsPrefix (l ++ r)) (hne : part ≠ l ++ r) :
    (part.IsPrefix l ∧ part ≠ l) ∨ ∃ m, part = l ++ m ∧ m.IsPrefix r ∧ m ≠ r := by
  obtain ⟨s, hs⟩ := hp
  rcases List.append_eq_append_iff.mp hs with ⟨u, rfl, rfl⟩ | ⟨u, rfl, rfl⟩
  · cases u with
    | nil =>
      refine Or.inr ⟨[], by simp, List.nil_prefix, ?_⟩
      rintro rfl
      simp at hne
    | cons a u => exact Or.inl ⟨List.prefix_append _ _, by simp⟩
  · refine Or.inr ⟨u, rfl, List.prefix_append _ _, fun h => hne ?_⟩
    rw [← h]

/-- The codec that writes nothing. -/
def unit : Codec σ Unit where
  put _ := []
  get src := ((), src)
  get_put _ _ := rfl
  get_part _ _ hp hne := absurd (List.prefix_nil.mp hp) hne
  get_err _ h := h
  get_length _ := Nat.le_refl _

/-- One codec after the other. -/
def pair (c : Codec σ α) (d : Codec σ β) : Codec σ (α × β) where
  put x := c.put x.1 ++ d.put x.2
  get src := (((c.get src).1, (d.get (c.get src).2).1), (d.get (c.get src).2).2)
  get_put x rest := by
    rw [List.append_assoc, c.get_put]
    simp only [d.get_put]
  get_part x part hp hne := by
    rcases part_append hp hne with ⟨h1, h2⟩ | ⟨m, rfl, h1, h2⟩
    · exact d.get_err _ (c.get_part _ _ h1 h2)
    · rw [c.get_put]
      exact d.get_part _ _ h1 h2
  get_err src h := d.get_err _ (c.get_err src h)
  get_length src := Nat.le_trans (d.get_length _) (c.get_length src)

/-- A codec for values that are represented by others. -/
def imap (c : Codec σ α) (f : β → α) (g : α → β) (h : ∀ b, g (f b) = b) : Codec σ β where
  put b := c.put (f b)
  get src := (g (c.get src).1, (c.get src).2)
  get_put b rest := by
    rw [c.get_put]
    simp only [h]
  get_part b part hp hne := c.get_part _ _ hp hne
  get_err src h := c.get_err src h
  get_length src := c.get_length src

end Codec

end PuttyNd.Lib

/-!
## Readers of a format

A format says which lists of symbols mean a value. A reader accepts it if from a source it takes such a
list when the source begins with one, and has an error otherwise. What is behind the list makes no
difference, so that it does not matter how much of it has arrived.
-/

namespace PuttyNd.Lib

variable {σ α β : Type*}

structure Accepts (get : Source σ → α × Source σ) (format : α → List σ → Prop) : Prop where
  latch : ∀ src, src.err = true → (get src).2.err = true
  complete : ∀ a w rest, format a w → get ⟨w ++ rest, false⟩ = (a, ⟨rest, false⟩)
  sound : ∀ data, (get ⟨data, false⟩).2.err = false → ∃ w,
    data = w ++ (get ⟨data, false⟩).2.data ∧ format (get ⟨data, false⟩).1 w

namespace Accepts

variable {get : Source σ → α × Source σ} {format : α → List σ → Prop}

/-- The data have run out, or they begin with a piece of the format. -/
theorem cases (h : Accepts get format) (data : List σ) :
    (get ⟨data, false⟩).2.err = true ∨
      ∃ a w rest, data = w ++ rest ∧ format a w ∧ get ⟨data, false⟩ = (a, ⟨rest, false⟩) := by
  by_cases herr : (get ⟨data, false⟩).2.err = true
  · exact Or.inl herr
  · have herr : (get ⟨data, false⟩).2.err = false := by simpa using herr
    obtain ⟨w, hdata, hw⟩ := h.sound data herr
    exact Or.inr ⟨_, w, _, hdata, hw, Prod.ext rfl (Source.ext rfl herr)⟩

/-- A value that is made from the one that was read. -/
theorem map (h : Accepts get format) (f : α → β) :
    Accepts (fun src => (f (get src).1, (get src).2)) (fun b w => ∃ a, b = f a ∧ format a w) where
  latch src herr := h.latch src herr
  complete b w rest hw := by
    obtain ⟨a, rfl, hw⟩ := hw
    simp only [h.complete a w rest hw]
  sound data herr := by
    obtain ⟨w, hdata, hw⟩ := h.sound data herr
    exact ⟨w, hdata, _, rfl, hw⟩

/-- One reader after the other; what the second reads depends on the value of the first. -/
theorem bind {next : α → Source σ → β × Source σ} {format' : α → β → List σ → Prop}
    (h : Accepts get format) (hnext : ∀ a, Accepts (next a) (format' a)) :
    Accepts (fun src => next (get src).1 (get src).2)
      (fun b w => ∃ a w₁ w₂, w = w₁ ++ w₂ ∧ format a w₁ ∧ format' a b w₂) where
  latch src herr := (hnext _).latch _ (h.latch src herr)
  complete b w rest hw := by
    obtain ⟨a, w₁, w₂, rfl, hw₁, hw₂⟩ := hw
    rw [List.append_assoc]
    simp only [h.complete a w₁ _ hw₁, (hnext a).complete b w₂ rest hw₂]
  sound data herr := by
    rcases h.cases data with herr' | ⟨a, w₁, rest, hdata, hw₁, hget⟩
    · rw [(hnext _).latch _ herr'] at herr
      contradiction
    · simp only [hget] at herr ⊢
      obtain ⟨w₂, hrest, hw₂⟩ := (hnext a).sound rest herr
      refine ⟨w₁ ++ w₂, ?_, a, w₁, w₂, rfl, hw₁, hw₂⟩
      rw [List.append_assoc, ← hrest]
      exact hdata

/-- A reader that reads nothing. -/
theorem pure (a : α) : Accepts (σ := σ) (fun src => (a, src)) (fun b w => b = a ∧ w = []) where
  latch _ herr := herr
  complete b w rest hw := by
    obtain ⟨rfl, rfl⟩ := hw
    rfl
  sound data _ := ⟨[], rfl, rfl, rfl⟩

theorem ite {get' : Source σ → α × Source σ} {format' : α → List σ → Prop} (c : Prop) [Decidable c]
    (h : Accepts get format) (h' : Accepts get' format') :
    Accepts (fun src => if c then get src else get' src)
      (fun a w => if c then format a w else format' a w) := by
  by_cases hc : c
  · simpa only [if_pos hc] using h
  · simpa only [if_neg hc] using h'

theorem congr {format' : α → List σ → Prop} (h : Accepts get format)
    (hformat : ∀ a w, format a w ↔ format' a w) : Accepts get format' := by
  have heq : format = format' := by
    funext a w
    exact propext (hformat a w)
  exact heq ▸ h

end Accepts

end PuttyNd.Lib
