import Mathlib.Data.List.Basic

/-!
# Base64

A text in groups of four characters. Each group but the last is three bytes; a last group that ends with one or two
paddings is two bytes or one.
-/

namespace Base64

/-- The padding -/
def pad : UInt8 := 61

/-- The number of a character -/
def value (c : UInt8) : Option ℕ :=
  if 65 ≤ c ∧ c ≤ 90 then some (c.toNat - 65)
  else if 97 ≤ c ∧ c ≤ 122 then some (c.toNat - 71)
  else if 48 ≤ c ∧ c ≤ 57 then some (c.toNat + 4)
  else if c = 43 then some 62
  else if c = 47 then some 63
  else none

/-- The text is well formed, and stands for the bytes. Bits after the last byte are of no account. -/
inductive Decodes : List UInt8 → List UInt8 → Prop where
  | nil : Decodes [] []
  | one {a b : UInt8} {v w : ℕ} : value a = some v → value b = some w →
      Decodes [a, b, pad, pad] [UInt8.ofNat ((v * 64 + w) / 16)]
  | two {a b c : UInt8} {v w x : ℕ} : value a = some v → value b = some w → value c = some x →
      Decodes [a, b, c, pad] [UInt8.ofNat (((v * 64 + w) * 64 + x) / 1024), UInt8.ofNat (((v * 64 + w) * 64 + x) / 4)]
  | group {a b c d : UInt8} {v w x y : ℕ} {text bytes : List UInt8} : value a = some v → value b = some w →
      value c = some x → value d = some y → Decodes text bytes →
      Decodes (a :: b :: c :: d :: text)
        (UInt8.ofNat ((((v * 64 + w) * 64 + x) * 64 + y) / 65536) ::
          UInt8.ofNat ((((v * 64 + w) * 64 + x) * 64 + y) / 256) ::
          UInt8.ofNat (((v * 64 + w) * 64 + x) * 64 + y) :: bytes)

/-- A character of the alphabet or a padding -/
def IsChar (c : UInt8) : Prop := (value c).isSome ∨ c = pad

variable {c : UInt8} {v : ℕ} {text bytes bytes' : List UInt8}

theorem value_lt (h : value c = some v) : v < 64 := by
  unfold value at h
  split_ifs at h with h1 h2 h3 h4 h5
  · have := UInt8.le_iff_toNat_le.mp h1.2
    rw [← Option.some.inj h]
    exact Nat.lt_of_le_of_lt (Nat.sub_le_sub_right this 65) (by decide)
  · have := UInt8.le_iff_toNat_le.mp h2.2
    rw [← Option.some.inj h]
    exact Nat.lt_of_le_of_lt (Nat.sub_le_sub_right this 71) (by decide)
  · have := UInt8.le_iff_toNat_le.mp h3.2
    rw [← Option.some.inj h]
    exact Nat.lt_of_le_of_lt (Nat.add_le_add_right this 4) (by decide)
  · rw [← Option.some.inj h]
    decide
  · rw [← Option.some.inj h]
    decide

end Base64
