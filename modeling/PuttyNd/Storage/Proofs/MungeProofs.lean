import Mathlib.Tactic.Common
import PuttyNd.Storage.Munge
import PuttyNd.Storage.Proofs.RegistryProofs

/-!
# Names are found again

Both decoders give back what is escaped as well as what is not, so that different sessions have different files
and keys. The names of a file are not kept away from `.` and `..`, and a name that fills the buffer has no NUL.
-/

namespace PuttyNd.Storage

open WinRegStore

variable {s t : Text} {c : Char} {outlen : ℤ}

/-! ## Characters -/

theorem hexValue_hex {n : ℕ} (h : n < 16) : hexValue (hex n) = n := by
  have hall : ∀ i < 16, hexValue (hex i) = i := by decide
  exact hall n h

theorem unmungeChar_hex (hc : c.toNat < 256) : unmungeChar (hex (c.toNat / 16)) (hex (c.toNat % 16)) = c := by
  have hvalue : hexValue (hex (c.toNat / 16)) * 16 + hexValue (hex (c.toNat % 16)) = (c.toNat : ℤ) := by
    rw [hexValue_hex (by omega), hexValue_hex (by omega)]
    omega
  unfold unmungeChar
  rw [hvalue]
  have hmod : ((c.toNat : ℤ) % 256).toNat = c.toNat := by omega
  rw [hmod, Char.ofNat_toNat]

theorem unmungestr_plain (hc : c ≠ '%') (s : Text) :
    FileStore.unmungestr (c :: s) = c :: FileStore.unmungestr s := by
  rw [FileStore.unmungestr.eq_def]
  split
  · rename_i heq
    exact absurd (List.cons.inj heq).1 hc
  · rename_i heq
    rw [(List.cons.inj heq).1, (List.cons.inj heq).2]
  · rename_i heq
    cases heq

/-- What stands for a character, in both encodings -/
def CodeOf (c : Char) (code : Text) : Prop :=
  code = [c] ∧ c ≠ '%' ∨ code = ['%', hex (c.toNat / 16), hex (c.toNat % 16)]

theorem CodeOf.unmungestr {code : Text} (h : CodeOf c code) (hc : c.toNat < 256) (s : Text) :
    FileStore.unmungestr (code ++ s) = c :: FileStore.unmungestr s := by
  rcases h with ⟨rfl, hne⟩ | rfl
  · exact unmungestr_plain hne s
  · have hcode : FileStore.unmungestr ('%' :: hex (c.toNat / 16) :: hex (c.toNat % 16) :: s) =
        unmungeChar (hex (c.toNat / 16)) (hex (c.toNat % 16)) :: FileStore.unmungestr s := rfl
    rw [List.cons_append, List.cons_append, List.cons_append, List.nil_append, hcode, unmungeChar_hex hc]

theorem fileStore_codeOf (c : Char) : CodeOf c (FileStore.mungeChar c) := by
  unfold FileStore.mungeChar
  by_cases h : FileStore.safe c = true
  · rw [if_pos h]
    refine .inl ⟨rfl, ?_⟩
    rintro rfl
    exact absurd h (by decide)
  · rw [if_neg h]
    exact .inr rfl

theorem winRegStore_codeOf (candot : Bool) (c : Char) : CodeOf c (WinRegStore.mungeChar candot c) := by
  cases h : escaped candot c with
  | false => exact .inl (mungeChar_plain h)
  | true => exact .inr (mungeChar_escaped h)

/-! ## Names -/

theorem unmungestr_flatMap (hs : ∀ c ∈ s, c.toNat < 256) :
    FileStore.unmungestr (s.flatMap FileStore.mungeChar) = s := by
  induction s with
  | nil => rfl
  | cons c s ih =>
    rw [List.flatMap_cons, (fileStore_codeOf c).unmungestr (hs c List.mem_cons_self),
      ih fun d hd => hs d (List.mem_cons_of_mem c hd)]

theorem unmungestr_mungeFrom (hs : ∀ c ∈ s, c.toNat < 256) (candot : Bool) :
    FileStore.unmungestr (mungeFrom candot s) = s := by
  induction s generalizing candot with
  | nil => rfl
  | cons c s ih =>
    unfold mungeFrom
    rw [(winRegStore_codeOf candot c).unmungestr (hs c List.mem_cons_self),
      ih (fun d hd => hs d (List.mem_cons_of_mem c hd)) true]

theorem fileStore_mungestr (hne : s ≠ []) : FileStore.mungestr s = s.flatMap FileStore.mungeChar := by
  unfold FileStore.mungestr
  rw [if_neg hne]

/-- Each character of the name of a file is safe, or a percent sign. -/
theorem safe_of_mem_mungestr {d : Char} (hs : ∀ c ∈ s, c.toNat < 256) (hne : s ≠ [])
    (hd : d ∈ FileStore.mungestr s) : FileStore.safe d = true ∨ d = '%' := by
  rw [fileStore_mungestr hne] at hd
  obtain ⟨c, hc, hdc⟩ := List.mem_flatMap.mp hd
  have hhex : ∀ n < 16, FileStore.safe (hex n) = true := by decide
  have hlt := hs c hc
  unfold FileStore.mungeChar at hdc
  by_cases h : FileStore.safe c = true
  · rw [if_pos h, List.mem_singleton] at hdc
    exact .inl (hdc ▸ h)
  · rw [if_neg h] at hdc
    rcases List.mem_cons.mp hdc with rfl | hdc
    · exact .inr rfl
    rcases List.mem_cons.mp hdc with rfl | hdc
    · exact .inl (hhex _ (by omega))
    · rw [List.mem_singleton] at hdc
      rw [hdc]
      exact .inl (hhex _ (by omega))

/-- A name is its own file name if it is not escaped, and no other name has that file. -/
theorem mungestr_eq_iff {name : Text} (hs : ∀ c ∈ s, c.toNat < 256) (hne : s ≠ [])
    (hname : name.flatMap FileStore.mungeChar = name) (hback : FileStore.unmungestr name = name) :
    FileStore.mungestr s = name ↔ s = name := by
  rw [fileStore_mungestr hne]
  constructor
  · intro h
    rw [← unmungestr_flatMap hs, h, hback]
  · rintro rfl
    exact hname

/-! ## The buffer -/

/-- One character, and then what the rest gives as far as there is room -/
theorem cons_take {rest written : Text} (c : Char) (hpos : 0 < outlen)
    (h : 0 < outlen - 1 → written = rest.take (outlen - 1).toNat) :
    (c :: if outlen - 1 = 0 then [] else written) = (c :: rest).take outlen.toNat := by
  obtain ⟨k, hk⟩ : ∃ k : ℕ, outlen.toNat = k + 1 := ⟨outlen.toNat - 1, by omega⟩
  rw [hk, List.take_succ_cons]
  by_cases hlast : outlen - 1 = 0
  · have hzero : k = 0 := by omega
    rw [if_pos hlast, hzero, List.take_zero]
  · have hrest : (outlen - 1).toNat = k := by omega
    rw [if_neg hlast, h (by omega), hrest]

/-- The registry decoder writes what the other one gives, and a NUL, as far as there is room for it. -/
theorem unmungestr_eq_take (hpos : 0 < outlen) (t : Text) :
    WinRegStore.unmungestr t outlen = (FileStore.unmungestr t ++ ['\x00']).take outlen.toNat := by
  induction t using FileStore.unmungestr.induct generalizing outlen with
  | case1 a b s ih => exact cons_take (unmungeChar a b) hpos fun h => ih h
  | case2 c s hc ih =>
    rw [WinRegStore.unmungestr.eq_2 _ _ _ hc, FileStore.unmungestr.eq_2 _ _ hc, List.cons_append]
    exact cons_take c hpos fun h => ih h
  | case3 =>
    obtain ⟨k, hk⟩ : ∃ k : ℕ, outlen.toNat = k + 1 := ⟨outlen.toNat - 1, by omega⟩
    rw [hk, WinRegStore.unmungestr, FileStore.unmungestr, List.nil_append, List.take_succ_cons, List.take_nil]

theorem unmungestr_ne_nil (t : Text) (outlen : ℤ) : WinRegStore.unmungestr t outlen ≠ [] := by
  rw [WinRegStore.unmungestr.eq_def]
  split
  · exact List.cons_ne_nil _ _
  · exact List.cons_ne_nil _ _
  · exact List.cons_ne_nil _ _

/-- What is written is a string that fits. -/
def WritesString (written : Text) (outlen : ℤ) : Prop :=
  (written.length : ℤ) ≤ outlen ∧ '\x00' ∈ written

theorem writesString_iff (t : Text) (outlen : ℤ) : WritesString (WinRegStore.unmungestr t outlen) outlen ↔
    0 < outlen ∧ (((FileStore.unmungestr t).length : ℤ) < outlen ∨
      '\x00' ∈ (FileStore.unmungestr t).take outlen.toNat) := by
  by_cases hpos : 0 < outlen
  · unfold WritesString
    rw [unmungestr_eq_take hpos, List.length_take, List.take_append, List.mem_append]
    constructor
    · rintro ⟨-, hmem | hmem⟩
      · exact ⟨hpos, .inr hmem⟩
      · refine ⟨hpos, .inl ?_⟩
        have hlen := List.length_pos_of_mem hmem
        rw [List.length_take] at hlen
        omega
    · rintro ⟨-, hshort | hmem⟩
      · refine ⟨by omega, .inr ?_⟩
        rw [List.take_of_length_le (by rw [List.length_singleton]; omega)]
        exact List.mem_singleton_self _
      · exact ⟨by omega, .inl hmem⟩
  · refine iff_of_false ?_ fun h => hpos h.1
    rintro ⟨hlen, -⟩
    have := List.length_pos_iff.mpr (unmungestr_ne_nil t outlen)
    omega

/-! ## Sessions -/

/-- A name that a session can have: there are bytes in it, and no NUL. -/
structure IsName (s : Text) : Prop where
  ne_nil : s ≠ []
  bytes : ∀ c ∈ s, c.toNat < 256
  no_nul : '\x00' ∉ s

/-- For all names and encoded strings, decoding gives the name back, names have different files and keys, and the
names of files are made of safe characters. Moreover a file is not a directory, and a string is written within
the buffer, if and only if the name is not made of one or two dots and the string is shorter than the buffer, or
has an escaped NUL in it. -/
theorem munge_iff {other : Text} {size : ℤ} (hs : IsName s) (hother : IsName other) (hsize : s.length < size) :
    (FileStore.unmungestr (FileStore.mungestr s) = s ∧
      WinRegStore.unmungestr (WinRegStore.mungestr s) size = s ++ ['\x00'] ∧
      (FileStore.mungestr s = FileStore.mungestr other → s = other) ∧
      (WinRegStore.mungestr s = WinRegStore.mungestr other → s = other) ∧
      (∀ c ∈ FileStore.mungestr s, FileStore.safe c = true ∨ c = '%') ∧
      (FileStore.mungestr s ≠ ['.'] ∧ FileStore.mungestr s ≠ ['.', '.']) ∧
      WritesString (WinRegStore.unmungestr t outlen) outlen) ↔
    (s ≠ ['.'] ∧ s ≠ ['.', '.']) ∧
      0 < outlen ∧ (((FileStore.unmungestr t).length : ℤ) < outlen ∨
        '\x00' ∈ (FileStore.unmungestr t).take outlen.toNat) := by
  have hfile : FileStore.unmungestr (FileStore.mungestr s) = s := by
    rw [fileStore_mungestr hs.ne_nil, unmungestr_flatMap hs.bytes]
  have hfile' : FileStore.unmungestr (FileStore.mungestr other) = other := by
    rw [fileStore_mungestr hother.ne_nil, unmungestr_flatMap hother.bytes]
  have hkey : WinRegStore.unmungestr (WinRegStore.mungestr s) size = s ++ ['\x00'] := by
    unfold WinRegStore.mungestr
    rw [unmungestr_eq_take (by omega), unmungestr_mungeFrom hs.bytes, List.take_of_length_le]
    rw [List.length_append, List.length_singleton]
    omega
  rw [writesString_iff]
  have hone := @mungestr_eq_iff s ['.'] hs.bytes hs.ne_nil rfl rfl
  have htwo := @mungestr_eq_iff s ['.', '.'] hs.bytes hs.ne_nil rfl rfl
  constructor
  · rintro ⟨-, -, -, -, -, ⟨h1, h2⟩, hwrites⟩
    exact ⟨⟨fun h => h1 (hone.mpr h), fun h => h2 (htwo.mpr h)⟩, hwrites⟩
  · rintro ⟨⟨h1, h2⟩, hwrites⟩
    refine ⟨hfile, hkey, fun h => ?_, fun h => ?_, fun c hc => ?_, ⟨?_, ?_⟩, hwrites⟩
    · rw [← hfile, h, hfile']
    · exact mungestr_injective hs.bytes hother.bytes h
    · exact safe_of_mem_mungestr hs.bytes hs.ne_nil hc
    · exact fun h => h1 (hone.mp h)
    · exact fun h => h2 (htwo.mp h)

theorem isName_git : IsName ['g', 'i', 't'] where
  ne_nil := List.cons_ne_nil _ _
  bytes c hc := by
    rcases List.mem_cons.mp hc with rfl | hc
    · decide
    rcases List.mem_cons.mp hc with rfl | hc
    · decide
    · exact List.mem_singleton.mp hc ▸ by decide
  no_nul := by decide

theorem isName_dot : IsName ['.'] where
  ne_nil := List.cons_ne_nil _ _
  bytes c hc := List.mem_singleton.mp hc ▸ by decide
  no_nul := by decide

/-- The session `git` has its own file, and `a%20b` is written with its NUL into four bytes. -/
theorem munge_git : (['g', 'i', 't'] ≠ ['.'] ∧ ['g', 'i', 't'] ≠ ['.', '.']) ∧
    FileStore.mungestr ['g', 'i', 't'] ≠ ['.'] ∧
    WritesString (WinRegStore.unmungestr "a%20b".toList 4) 4 := by
  have hcond : (['g', 'i', 't'] ≠ ['.'] ∧ ['g', 'i', 't'] ≠ ['.', '.']) ∧ (0 : ℤ) < 4 ∧
      (((FileStore.unmungestr "a%20b".toList).length : ℤ) < 4 ∨
        '\x00' ∈ (FileStore.unmungestr "a%20b".toList).take (4 : ℤ).toNat) := by decide
  obtain ⟨-, -, -, -, -, hfile, hwrites⟩ :=
    (munge_iff isName_git isName_dot (by decide : (3 : ℤ) < 4)).mpr hcond
  exact ⟨hcond.1, hfile.1, hwrites⟩

/-- The session `.` would have the directory itself as its file, and a string of two characters leaves no room for
a NUL in two bytes. -/
theorem munge_dot : IsName ['.'] ∧ FileStore.mungestr ['.'] = ['.'] ∧
    WinRegStore.unmungestr ['a', 'b'] 2 = ['a', 'b'] := ⟨isName_dot, rfl, rfl⟩

end PuttyNd.Storage
