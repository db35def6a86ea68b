import Mathlib.Data.List.Basic
import Mathlib.Data.Int.Notation
import Mathlib.Tactic.Common

/-!
# Nothing is accepted twice

What is accepted has a time at which it expires. It is not accepted while it is remembered, and not after
it has expired. If it is forgotten only then, it is accepted once, since the clock does not go back.
-/

namespace ReplayWindow

variable {κ : Type*}

/-- What was accepted, all different, is remembered or has expired. -/
structure Guards (expires : κ → ℤ) (accepted : List κ) (remembered : κ → Prop) (now : ℤ) : Prop where
  nodup : accepted.Nodup
  covered : ∀ k ∈ accepted, remembered k ∨ expires k < now

variable {expires : κ → ℤ} {accepted : List κ} {remembered remembered' : κ → Prop} {now now' : ℤ}

theorem Guards.nil : Guards expires [] remembered now := ⟨List.nodup_nil, by simp⟩

theorem Guards.later (h : Guards expires accepted remembered now) (hle : now ≤ now') :
    Guards expires accepted remembered now' := by
  refine ⟨h.nodup, fun k hk => ?_⟩
  rcases h.covered k hk with hrem | hexp
  · exact .inl hrem
  · exact .inr (by omega)

/-- Only what has expired may be forgotten. -/
theorem Guards.forget (h : Guards expires accepted remembered now)
    (hkept : ∀ k, remembered k → remembered' k ∨ expires k < now) :
    Guards expires accepted remembered' now := by
  refine ⟨h.nodup, fun k hk => ?_⟩
  rcases h.covered k hk with hrem | hexp
  · exact hkept k hrem
  · exact .inr hexp

/-- What is not remembered and has not expired was not accepted before. -/
theorem Guards.accept {k : κ} (h : Guards expires accepted remembered now) (hnew : ¬ remembered k)
    (hvalid : now ≤ expires k) (hkept : ∀ k', remembered k' → remembered' k' ∨ expires k' < now)
    (hadded : remembered' k) : Guards expires (accepted ++ [k]) remembered' now := by
  have hfresh : k ∉ accepted := by
    intro hk
    rcases h.covered k hk with hrem | hexp
    · exact hnew hrem
    · omega
  refine ⟨?_, fun k' hk' => ?_⟩
  · rw [List.nodup_append]
    refine ⟨h.nodup, by simp, ?_⟩
    rintro a ha b hb rfl
    exact hfresh (List.mem_singleton.mp hb ▸ ha)
  · rcases List.mem_append.mp hk' with hk' | hk'
    · exact (h.forget hkept).covered k' hk'
    · exact .inl (List.mem_singleton.mp hk' ▸ hadded)

end ReplayWindow
