import PuttyNd.Ecc.Curves
import PuttyNd.Mpint.Proofs.MontyProofs

/-!
# Proofs: the exponents of the ladders
-/

namespace PuttyNd.Ecc

open Mpint Words Lib.Ladder

variable {u : ℕ} {n : MpInt u}

theorem exponentBit_eq (n : MpInt u) (j : ℕ) : exponentBit n j = (val n).testBit j := by
  rw [exponentBit, mpGetBit_spec, Nat.testBit_eq_decide_div_mod_eq]

theorem val_lt_maxBits (n : MpInt u) : val n < 2 ^ mpMaxBits n := by
  unfold mpMaxBits
  rw [Nat.mul_comm]
  exact val_lt

section Spec

variable {α : Type} {add : α → α → Option α} {double : α → α} {B twoB : α} {Is : ℕ → α → Prop} {Ok : ℕ → Prop}
  (hone : Is 1 B) (htwo : Is 2 twoB)
  (hadd : ∀ j P Q, Ok j → Is (kept (val n) (j + 1)) P → Is (kept (val n) (j + 1) + 1) Q →
    ∃ S, add P Q = some S ∧ Is (2 * kept (val n) (j + 1) + 1) S)
  (hdouble : ∀ k P, Is k P → Is (2 * k) (double P))
include hone htwo hadd hdouble

theorem multiply_spec (hn : 0 < val n) (hok : ∀ j < mpMaxBits n, Ok j) :
    ∃ P, multiply add double B twoB n = some P ∧ Is (val n) P :=
  ladder_spec hone htwo hadd hdouble hn (val_lt_maxBits n) (fun j _ => exponentBit_eq n j) hok

theorem multiply_none
    (hfail : ∀ j P Q, ¬ Ok j → Is (kept (val n) (j + 1)) P → Is (kept (val n) (j + 1) + 1) Q → add P Q = none)
    (hok : ¬ ∀ j < mpMaxBits n, Ok j) : multiply add double B twoB n = none :=
  ladder_none hone htwo hadd hdouble hfail (val_lt_maxBits n) (fun j _ => exponentBit_eq n j) hok

end Spec

end PuttyNd.Ecc
