import Mathlib.Algebra.GroupWithZero.Nat
import Mathlib.Data.List.Rotate

/-!
# Circular lists

A queue in an array of fixed size whose first element is somewhere in the array: rotated so that it
starts there, the array is the elements of the queue and then the free places. What is put behind the
elements may have to be copied in two parts.
-/

namespace PuttyNd.Lib

variable {α : Type*}

/-- The elements from the position `pos` on are overwritten by `src`. -/
def memcpy (dst : List α) (pos : ℕ) (src : List α) : List α :=
  dst.take pos ++ src ++ dst.drop (pos + src.length)

theorem length_memcpy {dst src : List α} {pos : ℕ} (h : pos + src.length ≤ dst.length) :
    (memcpy dst pos src).length = dst.length := by
  simp only [memcpy, List.length_append, List.length_take, List.length_drop]
  omega

/-- `src` is copied to the position `pos`, as far as there is room, and then to the front. -/
def memcpyRing (dst : List α) (pos : ℕ) (src : List α) : List α :=
  let first := min src.length (dst.length - pos)
  memcpy (memcpy dst pos (src.take first)) 0 (src.drop first)

theorem length_memcpyRing {dst src : List α} {pos : ℕ} (hpos : pos ≤ dst.length)
    (h : src.length ≤ dst.length) : (memcpyRing dst pos src).length = dst.length := by
  unfold memcpyRing
  have hfirst : (memcpy dst pos (src.take (min src.length (dst.length - pos)))).length = dst.length := by
    apply length_memcpy
    rw [List.length_take]
    omega
  rw [length_memcpy, hfirst]
  rw [List.length_drop, hfirst]
  omega

/-- Seen from `pos`, the first elements are overwritten. -/
theorem rotate_memcpyRing {dst src : List α} {pos : ℕ} (hpos : pos < dst.length)
    (h : src.length ≤ dst.length) :
    (memcpyRing dst pos src).rotate pos = src ++ (dst.rotate pos).drop src.length := by
  have hrotate : dst.rotate pos = dst.drop pos ++ dst.take pos :=
    List.rotate_eq_drop_append_take hpos.le
  rw [List.rotate_eq_drop_append_take (by rw [length_memcpyRing hpos.le h]; exact hpos.le), hrotate]
  by_cases hroom : src.length ≤ dst.length - pos
  · have hmin : min src.length (dst.length - pos) = src.length := min_eq_left hroom
    have hone : memcpyRing dst pos src = dst.take pos ++ (src ++ dst.drop (pos + src.length)) := by
      simp [memcpyRing, hmin, memcpy]
    have hlen : (dst.take pos).length = pos := by
      rw [List.length_take]
      omega
    rw [hone, List.drop_left' hlen, List.take_left' hlen, List.drop_append_of_le_length (by simpa),
      List.drop_drop, List.append_assoc]
  · have hmin : min src.length (dst.length - pos) = dst.length - pos := min_eq_right (by omega)
    -- the part that does not fit goes to the front, over the first of the old elements there
    obtain ⟨a, b, rfl, ha⟩ : ∃ a b, src = a ++ b ∧ a.length = dst.length - pos :=
      ⟨src.take (dst.length - pos), src.drop (dst.length - pos), by simp, by
        rw [List.length_take]
        omega⟩
    rw [List.length_append] at hroom h
    have hfirst : memcpy dst pos a = dst.take pos ++ a := by
      rw [memcpy, List.drop_eq_nil_of_le (by omega), List.append_nil]
    have htwo : memcpyRing dst pos (a ++ b) = (b ++ (dst.take pos).drop b.length) ++ a := by
      rw [memcpyRing, hmin, List.take_left' ha, List.drop_left' ha, hfirst, memcpy]
      simp only [List.take_zero, List.nil_append, Nat.zero_add, List.append_assoc]
      rw [List.drop_append_of_le_length]
      rw [List.length_take]
      omega
    have hlen : (b ++ (dst.take pos).drop b.length).length = pos := by
      simp only [List.length_append, List.length_drop, List.length_take]
      omega
    rw [htwo, List.drop_left' hlen, List.take_left' hlen, List.append_assoc]
    congr 2
    have hnil : (dst.drop pos).drop (dst.length - pos + b.length) = [] :=
      List.drop_eq_nil_of_le (by simp)
    have hover : dst.length - pos + b.length - (dst.drop pos).length = b.length := by
      rw [List.length_drop]
      omega
    rw [List.length_append, ha, List.drop_append, hnil, hover, List.nil_append]

/-- What is read from the position `pos` on, in two parts if it goes around. -/
def readRing (raw : List α) (pos n : ℕ) : List α :=
  let first := min n (raw.length - pos)
  (raw.drop pos).take first ++ raw.take (n - first)

theorem readRing_eq {raw : List α} {pos n : ℕ} (hpos : pos ≤ raw.length) (hn : n ≤ raw.length) :
    readRing raw pos n = (raw.rotate pos).take n := by
  rw [List.rotate_eq_drop_append_take hpos, readRing, List.take_append, List.length_drop,
    List.take_take]
  by_cases h : n ≤ raw.length - pos
  · have hmin : min n (raw.length - pos) = n := min_eq_left h
    simp only [hmin, Nat.sub_self, List.take_zero, List.append_nil, Nat.sub_eq_zero_of_le h,
      Nat.zero_min]
  · have hmin : min n (raw.length - pos) = raw.length - pos := min_eq_right (by omega)
    simp only [hmin]
    congr 1
    · rw [List.take_of_length_le (by simp), List.take_of_length_le (by simp; omega)]
    · congr 1
      omega

/-- The array `raw` holds the queue `l`, which starts at `pos`. -/
def Holds (raw : List α) (pos : ℕ) (l : List α) : Prop := l <+: raw.rotate pos

theorem Holds.length {raw l : List α} {pos : ℕ} (h : Holds raw pos l) : l.length ≤ raw.length := by
  have hle := List.IsPrefix.length_le h
  rwa [List.length_rotate] at hle

/-- Reading gives the first elements of the queue. -/
theorem Holds.read {raw l : List α} {pos n : ℕ} (h : Holds raw pos l) (hpos : pos ≤ raw.length)
    (hn : n ≤ l.length) : readRing raw pos n = l.take n := by
  obtain ⟨free, hfree⟩ := h
  have hle : l.length ≤ raw.length := Holds.length ⟨free, hfree⟩
  rw [readRing_eq hpos (Nat.le_trans hn hle), ← hfree, List.take_append_of_le_length hn]

/-- The first elements of the queue are dropped. -/
theorem Holds.drop {raw l : List α} {pos : ℕ} (h : Holds raw pos l) (n : ℕ) (hn : n ≤ l.length) :
    Holds raw (pos + n) (l.drop n) := by
  obtain ⟨free, hfree⟩ := h
  refine ⟨free ++ l.take n, ?_⟩
  rw [← List.rotate_rotate, ← hfree, List.rotate_eq_drop_append_take (by simp; omega),
    List.drop_append_of_le_length hn, List.take_append_of_le_length hn, List.append_assoc]

/-- What is copied behind the queue is put to its end. -/
theorem Holds.put {raw l src : List α} {pos : ℕ} (h : Holds raw pos l)
    (hsrc : l.length + src.length ≤ raw.length) (hraw : 0 < raw.length) :
    Holds (memcpyRing raw ((pos + l.length) % raw.length) src) pos (l ++ src) := by
  obtain ⟨free, hfree⟩ := h
  have hlen := congrArg List.length hfree
  rw [List.length_append, List.length_rotate] at hlen
  have hmod := Nat.mod_lt (pos + l.length) hraw
  have hlast : (memcpyRing raw ((pos + l.length) % raw.length) src).rotate (pos + l.length) =
      src ++ (free.drop src.length ++ l) := by
    have hold : raw.rotate (pos + l.length) = free ++ l := by
      rw [← List.rotate_rotate, ← hfree, List.rotate_append_length_eq]
    have hle : src.length ≤ raw.length := by omega
    have hrot := rotate_memcpyRing hmod hle
    have hsame := List.rotate_mod (memcpyRing raw ((pos + l.length) % raw.length) src) (pos + l.length)
    rw [length_memcpyRing hmod.le hle] at hsame
    rw [← hsame, hrot, List.rotate_mod, hold, List.drop_append_of_le_length (by omega)]
  refine ⟨free.drop src.length, ?_⟩
  have hback : ∀ {x y : List α}, x.rotate l.length = y → x.length = raw.length →
      x = y.rotate (raw.length - l.length) := by
    rintro x y rfl hx
    rw [List.rotate_rotate, Nat.add_sub_cancel' (by omega), ← hx, List.rotate_length]
  rw [← List.rotate_rotate] at hlast
  rw [hback hlast (by rw [List.length_rotate, length_memcpyRing hmod.le (by omega)])]
  have hsplit : raw.length - l.length = (src ++ free.drop src.length).length := by
    rw [List.length_append, List.length_drop]
    omega
  rw [hsplit, ← List.append_assoc src, List.rotate_append_length_eq, List.append_assoc]

end PuttyNd.Lib
