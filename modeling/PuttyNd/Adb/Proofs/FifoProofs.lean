import PuttyNd.Adb.Fifo

/-!
# The ring buffer is a queue

`Queue b l` says that the buffer holds the bytes `l`. Each operation does to `l` what its name says,
wherever the indices are.
-/

namespace PuttyNd.Adb

open Lib

/-- The buffer has the size `2 ^ p` and holds the bytes `l`. -/
structure Queue (b : KfifoBuffer) (p : ℕ) (l : List UInt8) : Prop where
  power : p ≤ 26
  size : b.sizeM = UInt32.ofNat (2 ^ p)
  mask : b.maskM = UInt32.ofNat (2 ^ p) - 1
  raw : b.rawM.length = 2 ^ p
  write : b.writeIndexM = b.readIndexM + UInt32.ofNat l.length
  holds : Holds b.rawM b.readIndexM.toNat l

namespace Queue

variable {b : KfifoBuffer} {p : ℕ} {l : List UInt8}

theorem pow_le (h : Queue b p l) : 2 ^ p ≤ 67108864 := Nat.pow_le_pow_right (by omega) h.power

theorem length_le (h : Queue b p l) : l.length ≤ 2 ^ p := h.raw ▸ h.holds.length

theorem toNat_size (h : Queue b p l) : b.sizeM.toNat = 2 ^ p := by
  have hle := h.pow_le
  rw [h.size, UInt32.toNat_ofNat_of_lt' (by simp only [UInt32.size]; omega)]

theorem toNat_length (h : Queue b p l) : (UInt32.ofNat l.length).toNat = l.length := by
  have hle := h.pow_le
  have hlen := h.length_le
  rw [UInt32.toNat_ofNat_of_lt' (by simp only [UInt32.size]; omega)]

/-- The mask takes the remainder. -/
theorem toNat_mask (h : Queue b p l) (i : UInt32) : (i &&& b.maskM).toNat = i.toNat % 2 ^ p := by
  have hle := h.pow_le
  have hpos := Nat.two_pow_pos p
  have hmask : b.maskM.toNat = 2 ^ p - 1 := by
    rw [h.mask, UInt32.toNat_sub_of_le]
    · rw [UInt32.toNat_ofNat_of_lt' (by simp only [UInt32.size]; omega)]
      rfl
    · rw [UInt32.le_iff_toNat_le, UInt32.toNat_ofNat_of_lt' (by simp only [UInt32.size]; omega)]
      exact hpos
  rw [UInt32.toNat_and, hmask, Nat.and_two_pow_sub_one_eq_mod]

/-- The indices wrap around at a multiple of the size. -/
theorem mod_pow (h : Queue b p l) (n : ℕ) : n % 2 ^ 32 % 2 ^ p = n % 2 ^ p :=
  Nat.mod_mod_of_dvd n (Nat.pow_dvd_pow 2 (Nat.le_trans h.power (by omega)))

theorem used (h : Queue b p l) : b.writeIndexM - b.readIndexM = UInt32.ofNat l.length := by
  rw [h.write, UInt32.add_comm, UInt32.add_sub_cancel]

theorem toNat_unused (h : Queue b p l) : b.unusedSize.toNat = 2 ^ p - l.length := by
  rw [KfifoBuffer.unusedSize, h.used, UInt32.toNat_sub_of_le, h.toNat_size, h.toNat_length]
  rw [UInt32.le_iff_toNat_le, h.toNat_size, h.toNat_length]
  exact h.length_le

theorem left (b : KfifoBuffer) : b.sizeM - b.writeIndexM + b.readIndexM = b.unusedSize := by
  unfold KfifoBuffer.unusedSize
  grind

theorem toNat_write (h : Queue b p l) :
    b.writeIndexM.toNat % 2 ^ p = (b.readIndexM.toNat + l.length) % b.rawM.length := by
  rw [h.write, UInt32.toNat_add, h.toNat_length, h.mod_pow, h.raw]

theorem toNat_toEnd (h : Queue b p l) (i : UInt32) :
    (b.sizeM - (i &&& b.maskM)).toNat = b.rawM.length - i.toNat % 2 ^ p := by
  have hlt := Nat.mod_lt i.toNat (Nat.two_pow_pos p)
  rw [UInt32.toNat_sub_of_le, h.toNat_size, h.toNat_mask, h.raw]
  rw [UInt32.le_iff_toNat_le, h.toNat_size, h.toNat_mask]
  exact hlt.le

theorem toNat_min (m n : UInt32) : (if m < n then m else n).toNat = min m.toNat n.toNat := by
  by_cases hlt : m < n
  · rw [if_pos hlt]
    have := UInt32.lt_iff_toNat_lt.mp hlt
    omega
  · rw [if_neg hlt]
    have := UInt32.lt_iff_toNat_lt.not.mp hlt
    omega

theorem getLen (h : Queue b p l) (theLen : UInt32) :
    (if theLen < b.writeIndexM - b.readIndexM then theLen else b.writeIndexM - b.readIndexM).toNat =
      min theLen.toNat l.length := by
  rw [toNat_min, h.used, h.toNat_length]

/-- `peek` gives the first bytes. -/
theorem peek (h : Queue b p l) (theLen : UInt32) : b.peek theLen = l.take theLen.toNat := by
  have hlen := h.length_le
  have hmod := Nat.mod_lt b.readIndexM.toNat (Nat.two_pow_pos p)
  have hread : b.peek theLen =
      readRing b.rawM (b.readIndexM.toNat % 2 ^ p) (min theLen.toNat l.length) := by
    simp only [KfifoBuffer.peek, readRing]
    generalize hget : (if theLen < b.writeIndexM - b.readIndexM then theLen
      else b.writeIndexM - b.readIndexM) = getLen
    have hgetLen : getLen.toNat = min theLen.toNat l.length := hget ▸ h.getLen theLen
    generalize hfirst : (if getLen < b.sizeM - (b.readIndexM &&& b.maskM) then getLen
      else b.sizeM - (b.readIndexM &&& b.maskM)) = firstPartLen
    have hfirstLen : firstPartLen.toNat =
        min (min theLen.toNat l.length) (b.rawM.length - b.readIndexM.toNat % 2 ^ p) := by
      rw [← hfirst, toNat_min, h.toNat_toEnd, hgetLen]
    have hrest : (getLen - firstPartLen).toNat = getLen.toNat - firstPartLen.toNat := by
      rw [UInt32.toNat_sub_of_le]
      rw [UInt32.le_iff_toNat_le, hfirstLen, hgetLen]
      exact Nat.min_le_left _ _
    rw [hrest, hfirstLen, hgetLen, h.toNat_mask]
  have hholds : Holds b.rawM (b.readIndexM.toNat % 2 ^ p) l := by
    unfold Holds
    rw [← h.raw, List.rotate_mod]
    exact h.holds
  rw [hread, hholds.read (h.raw ▸ hmod.le) (Nat.min_le_right _ _), ← List.take_take, List.take_length]

/-- `commitRead` drops the first bytes. -/
theorem commitRead (h : Queue b p l) {theLen : UInt32} (hlen : theLen.toNat ≤ l.length) :
    Queue (b.commitRead theLen) p (l.drop theLen.toNat) := by
  refine ⟨h.power, h.size, h.mask, h.raw, ?_, ?_⟩
  · have hle := h.pow_le
    have hlength := h.length_le
    show b.writeIndexM = b.readIndexM + theLen + UInt32.ofNat (l.drop theLen.toNat).length
    have hsplit : UInt32.ofNat l.length = theLen + UInt32.ofNat (l.length - theLen.toNat) := by
      rw [← UInt32.toNat_inj, UInt32.toNat_add, h.toNat_length,
        UInt32.toNat_ofNat_of_lt' (by simp only [UInt32.size]; omega), Nat.mod_eq_of_lt (by omega)]
      omega
    rw [List.length_drop, h.write, hsplit, UInt32.add_assoc]
  · show Holds b.rawM (b.readIndexM + theLen).toNat (l.drop theLen.toNat)
    unfold Holds
    rw [← List.rotate_mod, h.raw, UInt32.toNat_add, h.mod_pow, ← h.raw, List.rotate_mod]
    exact h.holds.drop _ hlen

/-- `get` takes the first bytes. -/
theorem get (h : Queue b p l) (theLen : UInt32) :
    (b.get theLen).2 = l.take theLen.toNat ∧ Queue (b.get theLen).1 p (l.drop theLen.toNat) := by
  refine ⟨h.peek theLen, ?_⟩
  have hget := h.getLen theLen
  have hcommit := h.commitRead (hget ▸ Nat.min_le_right _ _)
  rw [hget] at hcommit
  have hdrop : l.drop (min theLen.toNat l.length) = l.drop theLen.toNat := by
    by_cases hle : theLen.toNat ≤ l.length
    · rw [Nat.min_eq_left hle]
    · rw [Nat.min_eq_right (by omega), List.drop_length, List.drop_eq_nil_of_le (by omega)]
  rw [hdrop] at hcommit
  exact hcommit

/-- `putn` puts the data to the end if there is room for all of it. -/
theorem putn (h : Queue b p l) {buf : List UInt8} (hbuf : l.length + buf.length ≤ 2 ^ p) :
    Queue (b.putn buf).1 p (l ++ buf) := by
  have hle := h.pow_le
  have hmod := Nat.mod_lt b.writeIndexM.toNat (Nat.two_pow_pos p)
  have htoNat : (UInt32.ofNat buf.length).toNat = buf.length :=
    UInt32.toNat_ofNat_of_lt' (by simp only [UInt32.size]; omega)
  have hroom : ¬ UInt32.ofNat buf.length > b.sizeM - b.writeIndexM + b.readIndexM := by
    rw [left, gt_iff_lt, UInt32.lt_iff_toNat_lt, h.toNat_unused, htoNat]
    omega
  have hraw : (b.putn buf).1 = { b with
      rawM := memcpyRing b.rawM ((b.readIndexM.toNat + l.length) % b.rawM.length) buf
      writeIndexM := b.writeIndexM + UInt32.ofNat buf.length } := by
    unfold KfifoBuffer.putn
    rw [if_neg hroom]
    simp only
    generalize hfirst : (if UInt32.ofNat buf.length < b.sizeM - (b.writeIndexM &&& b.maskM) then
      UInt32.ofNat buf.length else b.sizeM - (b.writeIndexM &&& b.maskM)) = firstPartLen
    have hfirstLen : firstPartLen.toNat =
        min buf.length (b.rawM.length - b.writeIndexM.toNat % 2 ^ p) := by
      rw [← hfirst, toNat_min, h.toNat_toEnd, htoNat]
    have hrest : (buf.drop firstPartLen.toNat).take
        (UInt32.ofNat buf.length - firstPartLen).toNat = buf.drop firstPartLen.toNat := by
      rw [UInt32.toNat_sub_of_le, htoNat, List.take_of_length_le (by rw [List.length_drop])]
      rw [UInt32.le_iff_toNat_le, hfirstLen, htoNat]
      exact Nat.min_le_left _ _
    rw [hrest, hfirstLen, h.toNat_mask, h.toNat_write]
    rfl
  rw [hraw]
  have hpos : 0 < b.rawM.length := h.raw ▸ Nat.two_pow_pos p
  refine ⟨h.power, h.size, h.mask, ?_, ?_, ?_⟩
  · show (memcpyRing b.rawM _ buf).length = 2 ^ p
    rw [length_memcpyRing (Nat.mod_lt _ hpos).le (by rw [h.raw]; omega), h.raw]
  · show b.writeIndexM + UInt32.ofNat buf.length = b.readIndexM + UInt32.ofNat (l ++ buf).length
    rw [h.write, List.length_append, UInt32.ofNat_add, UInt32.add_assoc]
  · exact h.holds.put (by rw [h.raw]; exact hbuf) hpos

/-- `put` puts what fits. -/
theorem put (h : Queue b p l) {buf : List UInt8} (hbuf : buf.length < 2 ^ 32) :
    b.put buf = b.putn (buf.take (2 ^ p - l.length)) := by
  have hle := h.pow_le
  have hlen := h.length_le
  have htoNat : (UInt32.ofNat buf.length).toNat = buf.length := UInt32.toNat_ofNat_of_lt' hbuf
  have hfits : (if UInt32.ofNat buf.length < b.sizeM - b.writeIndexM + b.readIndexM then
      UInt32.ofNat buf.length else b.sizeM - b.writeIndexM + b.readIndexM) =
      UInt32.ofNat (buf.take (2 ^ p - l.length)).length := by
    rw [← UInt32.toNat_inj, toNat_min, left, h.toNat_unused, htoNat, List.length_take,
      UInt32.toNat_ofNat_of_lt' (by simp only [UInt32.size]; omega), Nat.min_comm]
  have hroom : ¬ UInt32.ofNat (buf.take (2 ^ p - l.length)).length >
      b.sizeM - b.writeIndexM + b.readIndexM := by
    rw [left, gt_iff_lt, UInt32.lt_iff_toNat_lt, h.toNat_unused, List.length_take,
      UInt32.toNat_ofNat_of_lt' (by simp only [UInt32.size]; omega)]
    omega
  have hput : (UInt32.ofNat (buf.take (2 ^ p - l.length)).length).toNat = min (2 ^ p - l.length) buf.length := by
    rw [List.length_take, UInt32.toNat_ofNat_of_lt' (by simp only [UInt32.size]; omega)]
  unfold KfifoBuffer.put KfifoBuffer.putn
  rw [if_neg hroom]
  simp only [hfits]
  generalize UInt32.ofNat (buf.take (2 ^ p - l.length)).length = putLen at hput
  generalize hfirst : (if putLen < b.sizeM - (b.writeIndexM &&& b.maskM) then putLen
    else b.sizeM - (b.writeIndexM &&& b.maskM)) = firstPartLen
  have hfirstLe : firstPartLen.toNat ≤ putLen.toNat := by
    rw [← hfirst, toNat_min]
    exact Nat.min_le_left _ _
  have hrest : (putLen - firstPartLen).toNat = putLen.toNat - firstPartLen.toNat := by
    rw [UInt32.toNat_sub_of_le]
    rw [UInt32.le_iff_toNat_le]
    exact hfirstLe
  have htake : (buf.take (2 ^ p - l.length)).take firstPartLen.toNat = buf.take firstPartLen.toNat := by
    rw [List.take_take, Nat.min_eq_left (by omega)]
  have hdrop : ((buf.take (2 ^ p - l.length)).drop firstPartLen.toNat).take (putLen - firstPartLen).toNat =
      (buf.drop firstPartLen.toNat).take (putLen - firstPartLen).toNat := by
    rw [List.drop_take, List.take_take, hrest, Nat.min_eq_left (by omega)]
  rw [htake, hdrop]

theorem toNat_used (h : Queue b p l) : b.size.toNat = l.length := by
  unfold KfifoBuffer.size
  rw [h.used, h.toNat_length]

theorem toNat_getLen (h : Queue b p l) (theLen : UInt32) : (b.getLen theLen).toNat = min theLen.toNat l.length :=
  h.getLen theLen

theorem lt_used_iff (h : Queue b p l) (theLen : UInt32) :
    theLen > b.writeIndexM - b.readIndexM ↔ l.length < theLen.toNat := by
  rw [gt_iff_lt, UInt32.lt_iff_toNat_lt, h.used, h.toNat_length]

/-- The number that `putn` returns is not 0 if there is room. -/
theorem putn_fits (h : Queue b p l) {buf : List UInt8} (hbuf : l.length + buf.length ≤ 2 ^ p) :
    (b.putn buf).2.toNat = buf.length := by
  have hle := h.pow_le
  have htoNat : (UInt32.ofNat buf.length).toNat = buf.length :=
    UInt32.toNat_ofNat_of_lt' (by simp only [UInt32.size]; omega)
  have hroom : ¬ UInt32.ofNat buf.length > b.sizeM - b.writeIndexM + b.readIndexM := by
    rw [left, gt_iff_lt, UInt32.lt_iff_toNat_lt, h.toNat_unused, htoNat]
    omega
  unfold KfifoBuffer.putn
  rw [if_neg hroom]
  exact htoNat

theorem putn_full (h : Queue b p l) {buf : List UInt8} (hlt : buf.length < 2 ^ 32)
    (hbuf : 2 ^ p < l.length + buf.length) : b.putn buf = (b, 0) := by
  have hlength := h.length_le
  have htoNat : (UInt32.ofNat buf.length).toNat = buf.length := UInt32.toNat_ofNat_of_lt' hlt
  have hroom : UInt32.ofNat buf.length > b.sizeM - b.writeIndexM + b.readIndexM := by
    rw [left, gt_iff_lt, UInt32.lt_iff_toNat_lt, h.toNat_unused, htoNat]
    omega
  unfold KfifoBuffer.putn
  rw [if_pos hroom]

/-- Where all of the data is there, `peekn` is `peek`. -/
theorem peekn_fits (h : Queue b p l) {theLen : UInt32} (hlen : theLen.toNat ≤ l.length) :
    b.peekn theLen = (theLen, b.peek theLen) := by
  have hroom : ¬ theLen > b.writeIndexM - b.readIndexM := by
    rw [h.lt_used_iff]
    omega
  have hget : (if theLen < b.writeIndexM - b.readIndexM then theLen else b.writeIndexM - b.readIndexM) =
      theLen := by
    rw [← UInt32.toNat_inj, h.getLen, Nat.min_eq_left hlen]
  unfold KfifoBuffer.peekn KfifoBuffer.peek
  rw [if_neg hroom]
  simp only [hget]

theorem peekn_short (h : Queue b p l) {theLen : UInt32} (hlen : l.length < theLen.toNat) :
    b.peekn theLen = (0, []) := by
  unfold KfifoBuffer.peekn
  rw [if_pos ((h.lt_used_iff theLen).mpr hlen)]

/-- `getn` is `peekn` and then `commitRead`. -/
theorem getn_fits (h : Queue b p l) {theLen : UInt32} (hlen : theLen.toNat ≤ l.length) (theBuffer : Bool) :
    b.getn theBuffer theLen = (b.commitRead theLen, theLen, if theBuffer then b.peek theLen else []) := by
  have hroom : ¬ theLen > b.writeIndexM - b.readIndexM := by
    rw [h.lt_used_iff]
    omega
  have hpeek := h.peekn_fits hlen
  unfold KfifoBuffer.peekn at hpeek
  rw [if_neg hroom] at hpeek
  unfold KfifoBuffer.getn
  rw [if_neg hroom, ← (Prod.mk.inj hpeek).2]
  rfl

theorem getn_short (h : Queue b p l) {theLen : UInt32} (hlen : l.length < theLen.toNat) (theBuffer : Bool) :
    b.getn theBuffer theLen = (b, 0, []) := by
  unfold KfifoBuffer.getn
  rw [if_pos ((h.lt_used_iff theLen).mpr hlen)]

/-- A new buffer is empty. -/
theorem new_clamp (theSizePower : ℤ) :
    let sizePower := if theSizePower < 10 then 10 else if theSizePower > 26 then 26 else theSizePower
    Queue (KfifoBuffer.new theSizePower) sizePower.toNat [] := by
  intro sizePower
  have hle : sizePower ≤ 26 := by
    show (if theSizePower < 10 then 10 else if theSizePower > 26 then 26 else theSizePower) ≤ 26
    split_ifs <;> omega
  exact ⟨by omega, rfl, rfl, List.length_replicate, rfl, List.nil_prefix⟩

theorem new {theSizePower : ℤ} (h1 : 10 ≤ theSizePower) (h2 : theSizePower ≤ 26) :
    Queue (KfifoBuffer.new theSizePower) theSizePower.toNat [] := by
  have hclamp := new_clamp theSizePower
  rw [if_neg (by omega), if_neg (by omega)] at hclamp
  exact hclamp

end Queue

end PuttyNd.Adb

/-!
## The ring buffer refines the bounded queue

Every call does to the ring buffer what it does to the queue, so every sequence of calls does. The indices
may wrap around any number of times, as `Queue` is about them modulo the size.
-/

namespace PuttyNd.Adb

namespace Fifo

variable {q : Fifo}

@[simp] theorem contents_empty : empty.contents = [] := rfl

theorem contents_write (hread : q.read ≤ q.written.length) (bytes : List UInt8) :
    (q.write bytes).contents = q.contents ++ bytes :=
  List.drop_append_of_le_length hread

theorem contents_skip (n : ℕ) : (q.skip n).contents = q.contents.drop n := by
  unfold contents skip
  rw [List.drop_drop]

theorem length_contents (q : Fifo) : q.contents.length = q.written.length - q.read := List.length_drop

end Fifo

/-- The ring buffer holds what was put and not yet read. -/
structure Refines (b : KfifoBuffer) (p : ℕ) (q : Fifo) : Prop where
  queue : Queue b p q.contents
  read : q.read ≤ q.written.length

namespace Refines

variable {b : KfifoBuffer} {p : ℕ} {q : Fifo}

theorem skip (h : Refines b p q) {b' : KfifoBuffer} {n : ℕ} (hn : n ≤ q.contents.length)
    (hqueue : Queue b' p (q.contents.drop n)) : Refines b' p (q.skip n) := by
  have hread := h.read
  rw [Fifo.length_contents] at hn
  refine ⟨?_, ?_⟩
  · rw [Fifo.contents_skip]
    exact hqueue
  · show q.read + n ≤ q.written.length
    omega

theorem write (h : Refines b p q) {b' : KfifoBuffer} {bytes : List UInt8}
    (hqueue : Queue b' p (q.contents ++ bytes)) : Refines b' p (q.write bytes) := by
  have hread := h.read
  refine ⟨?_, ?_⟩
  · rw [Fifo.contents_write hread]
    exact hqueue
  · show q.read ≤ (q.written ++ bytes).length
    rw [List.length_append]
    omega

/-- The queue takes what `peek` shows. -/
theorem take (h : Refines b p q) (theLen : UInt32) :
    (b.getLen theLen).toNat = (q.contents.take theLen.toNat).length ∧ b.peek theLen = q.contents.take theLen.toNat := by
  rw [h.queue.toNat_getLen, List.length_take]
  exact ⟨rfl, h.queue.peek theLen⟩

theorem put (h : Refines b p q) {buf : List UInt8} (hbuf : q.contents.length + buf.length ≤ 2 ^ p) :
    Refines (b.putn buf).1 p (q.write buf) ∧ (b.putn buf).2.toNat = buf.length :=
  ⟨h.write (h.queue.putn hbuf), h.queue.putn_fits hbuf⟩

/-- Each call does the same to the ring buffer and to the queue. -/
theorem call (h : Refines b p q) {op : Op} (hop : b.Permits op) :
    Refines (b.call op).1 p (q.call (2 ^ p) op).1 ∧
      ((b.call op).2.1.toNat, (b.call op).2.2) = (q.call (2 ^ p) op).2 := by
  have hcap := h.queue.length_le
  cases op with
  | put theBuffer =>
    have hfits : q.contents.length + (theBuffer.take (2 ^ p - q.contents.length)).length ≤ 2 ^ p := by
      rw [List.length_take]
      omega
    obtain ⟨hqueue, hcount⟩ := h.put hfits
    show Refines (b.put theBuffer).1 p _ ∧ ((b.put theBuffer).2.toNat, _) = _
    rw [h.queue.put hop]
    exact ⟨hqueue, Prod.ext hcount rfl⟩
  | putn theBuffer =>
    show Refines (b.putn theBuffer).1 p _ ∧ ((b.putn theBuffer).2.toNat, _) = _
    by_cases hfits : q.contents.length + theBuffer.length ≤ 2 ^ p
    · obtain ⟨hqueue, hcount⟩ := h.put hfits
      rw [Fifo.call, if_pos hfits]
      exact ⟨hqueue, Prod.ext hcount rfl⟩
    · rw [Fifo.call, if_neg hfits, h.queue.putn_full hop (by omega)]
      exact ⟨h, rfl⟩
  | get theBuffer theLen =>
    obtain ⟨hcount, hbytes⟩ := h.take theLen
    have hle : (b.getLen theLen).toNat ≤ q.contents.length := by
      rw [h.queue.toNat_getLen]
      exact Nat.min_le_right _ _
    have hskip := h.skip hle (h.queue.commitRead hle)
    rw [hcount] at hskip
    refine ⟨hskip, Prod.ext hcount ?_⟩
    show (if theBuffer = true then b.peek theLen else []) = _
    rw [hbytes]
    rfl
  | getn theBuffer theLen =>
    show Refines (b.getn theBuffer theLen).1 p _ ∧ _
    by_cases hfits : theLen.toNat ≤ q.contents.length
    · rw [Fifo.call, if_pos hfits, KfifoBuffer.call, h.queue.getn_fits hfits]
      refine ⟨h.skip hfits (h.queue.commitRead hfits), Prod.ext rfl ?_⟩
      show (if theBuffer = true then b.peek theLen else []) = _
      rw [h.queue.peek]
    · rw [Fifo.call, if_neg hfits, KfifoBuffer.call, h.queue.getn_short (by omega)]
      exact ⟨h, rfl⟩
  | peek theLen =>
    obtain ⟨hcount, hbytes⟩ := h.take theLen
    exact ⟨h, Prod.ext hcount hbytes⟩
  | peekn theLen =>
    refine ⟨?_, ?_⟩
    · by_cases hfits : theLen.toNat ≤ q.contents.length
      · rw [Fifo.call, if_pos hfits]
        exact h
      · rw [Fifo.call, if_neg hfits]
        exact h
    · show ((b.peekn theLen).1.toNat, (b.peekn theLen).2) = _
      by_cases hfits : theLen.toNat ≤ q.contents.length
      · rw [Fifo.call, if_pos hfits, h.queue.peekn_fits hfits, h.queue.peek]
      · rw [Fifo.call, if_neg hfits, h.queue.peekn_short (by omega)]
        rfl
  | commitRead theLen =>
    have hle : theLen.toNat ≤ q.contents.length := by
      rw [← h.queue.toNat_used]
      exact UInt32.le_iff_toNat_le.mp hop
    exact ⟨h.skip hle (h.queue.commitRead hle), rfl⟩

theorem calls (h : Refines b p q) {ops : List Op} (hops : b.PermitsAll ops) :
    Refines (b.calls ops).1 p (q.calls (2 ^ p) ops).1 ∧ (b.calls ops).2 = (q.calls (2 ^ p) ops).2 := by
  induction ops generalizing b q with
  | nil => exact ⟨h, rfl⟩
  | cons op ops ih =>
    obtain ⟨hcall, hresult⟩ := h.call hops.1
    obtain ⟨hrest, hresults⟩ := ih hcall hops.2
    refine ⟨hrest, ?_⟩
    show (_, _) :: ((b.call op).1.calls ops).2 = _ :: ((q.call (2 ^ p) op).1.calls (2 ^ p) ops).2
    rw [hresult, hresults]

end Refines

/-- What holds of a ring buffer that keeps the contents of the queue `q`. -/
structure KeepsFifo (b : KfifoBuffer) (capacity : ℕ) (q : Fifo) : Prop where
  used : b.size.toNat = q.contents.length
  total : b.size.toNat + b.unusedSize.toNat = capacity
  le : b.size.toNat ≤ capacity
  /-- Nothing is put where the room is too small for all of it. -/
  noRoom : ∀ theBuffer : List UInt8, theBuffer.length < 2 ^ 32 → b.unusedSize.toNat < theBuffer.length →
    b.putn theBuffer = (b, 0)
  /-- Nothing is taken where there is too little. -/
  noData : ∀ theBuffer theLen, b.size < theLen → b.getn theBuffer theLen = (b, 0, []) ∧ b.peekn theLen = (0, [])
  /-- What `peek` shows is there to be committed, and `get` is `peek` and `commitRead`. -/
  peekCommit : ∀ theLen, b.Permits (.commitRead (b.getLen theLen)) ∧
    b.getInto true theLen = (b.commitRead (b.getLen theLen), b.getLen theLen, b.peek theLen)

theorem Refines.keepsFifo {b : KfifoBuffer} {p : ℕ} {q : Fifo} (h : Refines b p q) : KeepsFifo b (2 ^ p) q := by
  have hcap := h.queue.length_le
  have hused := h.queue.toNat_used
  have hunused := h.queue.toNat_unused
  refine ⟨hused, by omega, by omega, ?_, ?_, ?_⟩
  · intro theBuffer hlt hroom
    exact h.queue.putn_full hlt (by omega)
  · intro theBuffer theLen hdata
    have hshort : q.contents.length < theLen.toNat := by
      rw [← hused]
      exact UInt32.lt_iff_toNat_lt.mp hdata
    exact ⟨h.queue.getn_short hshort theBuffer, h.queue.peekn_short hshort⟩
  · intro theLen
    refine ⟨?_, rfl⟩
    show b.getLen theLen ≤ b.size
    rw [UInt32.le_iff_toNat_le, hused, h.queue.toNat_getLen]
    exact Nat.min_le_right _ _

/-- For every size and every sequence of calls, the ring buffer returns what the bounded queue returns, and
keeps its contents. -/
theorem calls_fifo (theSizePower : ℤ) (ops : List Op) (hops : (KfifoBuffer.new theSizePower).PermitsAll ops) :
    let capacity := (KfifoBuffer.new theSizePower).sizeM.toNat
    ((KfifoBuffer.new theSizePower).calls ops).2 = (Fifo.empty.calls capacity ops).2 ∧
      KeepsFifo ((KfifoBuffer.new theSizePower).calls ops).1 capacity (Fifo.empty.calls capacity ops).1 := by
  have hnew := Queue.new_clamp theSizePower
  have hempty : Refines (KfifoBuffer.new theSizePower) _ Fifo.empty := ⟨hnew, Nat.le_refl 0⟩
  obtain ⟨hrefines, hresults⟩ := hempty.calls hops
  rw [hnew.toNat_size]
  exact ⟨hresults, hrefines.keepsFifo⟩

/-- A call that finds too little, one that skips, and one that reads the rest -/
theorem calls_fifo_rest :
    ((KfifoBuffer.new 0).calls
      [.put [1, 2, 3], .getn true 4, .get false 1, .peek 1, .commitRead 1, .get true 9]).2 =
      [(3, []), (0, []), (1, []), (1, [2]), (1, []), (1, [3])] := by
  refine (calls_fifo 0 _ ?_).1.trans rfl
  refine ⟨?_, trivial, trivial, trivial, ?_, trivial, trivial⟩
  · show 3 < 2 ^ 32
    omega
  · show (1 : UInt32) ≤ KfifoBuffer.size _
    decide

end PuttyNd.Adb
