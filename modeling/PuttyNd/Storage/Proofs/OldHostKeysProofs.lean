import Mathlib.Data.List.GetD
import Mathlib.Data.List.TakeWhile
import PuttyNd.Storage.OldHostKeys
import PuttyNd.Storage.Proofs.RegistryProofs

/-!
# When an old host key is converted safely

The conversion writes as many characters as the new format of the stored value has, whatever was allocated for
the key. A number without digits makes it read in front of the buffer, unless enough groups are before it.
-/

namespace PuttyNd.Storage.WinRegStore

open Memory Numerals Outcome

variable {buf otherstr pre rest : Text} {q p n left i : ℕ} {c : Char} {key : Text}

/-! ## Buffers -/

theorem charAt_eq {i : ℤ} (hge : 0 ≤ i) (hlt : i < buf.length) : charAt buf i = .ok (buf.getD i.toNat '\x00') :=
  if_pos ⟨hge, hlt⟩

theorem charAt_ok {i : ℤ} (h : charAt buf i = .ok c) : 0 ≤ i ∧ c = buf.getD i.toNat '\x00' := by
  unfold charAt at h
  split at h
  · rename_i hi
    exact ⟨hi.1, (Except.ok.inj h).symm⟩
  · exact nomatch h

theorem setChar_eq (h : i < buf.length) : setChar buf i c = .ok (buf.set i c) := if_pos h

theorem setChar_ok {buf' : Text} (h : setChar buf i c = .ok buf') : i < buf.length ∧ buf'.length = buf.length := by
  unfold setChar at h
  split at h
  · rename_i hi
    rw [← Except.ok.inj h, List.length_set]
    exact ⟨hi, rfl⟩
  · exact nomatch h

theorem setChar_append {d : Char} (hp : p = pre.length) :
    setChar (pre ++ d :: rest) p c = .ok (pre ++ c :: rest) := by
  rw [hp, setChar_eq (by simp)]
  simp

theorem strcspnAt_eq (h : q + beforeSlash (buf.drop q) < buf.length) :
    strcspnAt buf q '/' = .ok (beforeSlash (buf.drop q)) := if_pos h

theorem strcspnAt_ok (h : strcspnAt buf q '/' = .ok n) :
    n = beforeSlash (buf.drop q) ∧ q + beforeSlash (buf.drop q) < buf.length := by
  unfold strcspnAt at h
  dsimp only at h
  split at h
  · rename_i hlt
    exact ⟨(Except.ok.inj h).symm, hlt⟩
  · exact nomatch h

/-- Characters up to the NUL of the key are compared. -/
theorem strcmp_eq (hkey : '\x00' ∉ key) (hlen : key.length < buf.length) :
    strcmp buf key = .ok (decide (stringIn buf = key)) := by
  induction key generalizing buf with
  | nil =>
    cases buf with
    | nil => exact absurd hlen (Nat.lt_irrefl 0)
    | cons a buf =>
      refine congrArg Except.ok ?_
      unfold stringIn
      rw [List.takeWhile_cons]
      by_cases ha : a = '\x00'
      · simp [ha]
      · simp [ha]
  | cons c key ih =>
    cases buf with
    | nil => exact absurd hlen (Nat.not_lt_zero _)
    | cons a buf =>
      have hc : c ≠ '\x00' := fun h => hkey (h ▸ List.mem_cons_self)
      have ih := @ih buf (fun h => hkey (List.mem_cons_of_mem c h)) (Nat.lt_of_succ_lt_succ hlen)
      rw [strcmp]
      unfold stringIn at ih ⊢
      rw [List.takeWhile_cons]
      by_cases ha : a = c
      · rw [if_pos ha, ih, ha]
        simp [hc]
      · rw [if_neg ha]
        by_cases ha0 : a = '\x00'
        · simp [ha0]
        · simp [ha0, ha]

/-! ## Digits -/

/-- The digits of the number at `q` -/
def digitAt (buf : Text) (q : ℕ) (j : ℕ) : Char := buf.getD (q + xor3 j).toNat '\x00'

theorem xor3_bounds (j : ℕ) : 0 ≤ xor3 j ∧ xor3 j ≤ j + 3 := by
  unfold xor3
  omega

theorem charAt_digit {j : ℕ} (h : q + j + 3 < buf.length) : charAt buf (q + xor3 j) = .ok (digitAt buf q j) := by
  obtain ⟨hge, hle⟩ := xor3_bounds j
  exact charAt_eq (by omega) (by omega)

theorem trimZeros_eq (hbuf : q + n + 2 < buf.length) (hfirst : 0 < n ∨ 4 ≤ q) :
    trimZeros buf q n = .ok (significant (digitAt buf q) '0' n) := by
  induction n with
  | zero =>
    have hq : 4 ≤ q := hfirst.resolve_left (Nat.lt_irrefl 0)
    have hx : xor3 (-1) = -4 := rfl
    rw [trimZeros, hx, charAt_eq (by omega) (by omega)]
    rfl
  | succ n ih =>
    rw [trimZeros, charAt_digit (by omega), ok_bind]
    cases n with
    | zero => exact if_neg fun h => absurd h.2 (by decide)
    | succ n =>
      unfold significant
      by_cases h : digitAt buf q (n + 1) = '0'
      · rw [if_pos h, if_pos ⟨h, by omega⟩]
        exact ih (by omega) (.inl (Nat.succ_pos n))
      · rw [if_neg h, if_neg fun h' => h h'.1]

/-- If a number has no digits, a character in front of it is read. -/
theorem trimZeros_ok {m : ℕ} (h : trimZeros buf q n = .ok m) :
    m = significant (digitAt buf q) '0' n ∧ (0 < n ∨ 4 ≤ q) := by
  induction n generalizing m with
  | zero =>
    rw [trimZeros, bind_eq_ok] at h
    obtain ⟨c, hc, hm⟩ := h
    have hx : xor3 (-1) = -4 := rfl
    have hge := (charAt_ok hc).1
    rw [hx] at hge
    exact ⟨(Except.ok.inj hm).symm, .inr (by omega)⟩
  | succ n ih =>
    rw [trimZeros, bind_eq_ok] at h
    obtain ⟨c, hc, hm⟩ := h
    have hdigit : c = digitAt buf q n := (charAt_ok hc).2
    refine ⟨?_, .inl (Nat.succ_pos n)⟩
    cases n with
    | zero =>
      rw [if_neg fun h => absurd h.2 (by decide)] at hm
      exact (Except.ok.inj hm).symm
    | succ n =>
      unfold significant
      by_cases h : digitAt buf q (n + 1) = '0'
      · rw [if_pos h]
        rw [if_pos ⟨hdigit.trans h, by omega⟩] at hm
        exact (ih hm).1
      · rw [if_neg h]
        rw [if_neg fun h' => h (hdigit ▸ h'.1)] at hm
        exact (Except.ok.inj hm).symm

theorem moveDigits_ok {otherstr' : Text} (h : moveDigits buf q p n left otherstr = .ok otherstr') :
    otherstr'.length = otherstr.length := by
  induction left generalizing otherstr with
  | zero => rw [← Except.ok.inj h]
  | succ left ih =>
    rw [moveDigits, bind_eq_ok] at h
    obtain ⟨c, -, h⟩ := h
    rw [bind_eq_ok] at h
    obtain ⟨otherstr'', hset, h⟩ := h
    rw [ih h, (setChar_ok hset).2]

theorem getElem_numeral {α : Type} {digit : ℕ → α} (h : i < (numeral digit n).length) :
    (numeral digit n)[i] = digit (n - 1 - i) := by
  induction n generalizing i with
  | zero => exact absurd h (Nat.not_lt_zero i)
  | succ n ih =>
    cases i with
    | zero => rfl
    | succ i =>
      have hlt : i < (numeral digit n).length := Nat.lt_of_succ_lt_succ h
      show (numeral digit n)[i] = _
      rw [ih hlt]
      congr 1
      omega

/-- The digits are moved from the one that comes last on. -/
theorem moveDigits_eq {mid post : Text} (hbuf : q + n + 2 < buf.length) (hmid : mid.length = left) (hle : left ≤ n) :
    moveDigits buf q pre.length n left (pre ++ (mid ++ post)) =
      .ok (pre ++ ((numeral (digitAt buf q) n).take left ++ post)) := by
  induction left generalizing mid post with
  | zero =>
    rw [List.length_eq_zero_iff.mp hmid]
    rfl
  | succ left ih =>
    have hne : mid ≠ [] := fun h => by simp [h] at hmid
    obtain ⟨mid, a, rfl⟩ := (List.eq_nil_or_concat mid).resolve_left hne
    rw [List.concat_eq_append] at hmid ⊢
    rw [List.length_append, List.length_singleton, Nat.add_right_cancel_iff] at hmid
    have hpos : pre.length + (n - 1 - (n - (left + 1))) = (pre ++ mid).length := by
      rw [List.length_append]
      omega
    have hlist : pre ++ (mid ++ [a] ++ post) = (pre ++ mid) ++ a :: post := by simp
    have htake : (numeral (digitAt buf q) n).take (left + 1) =
        (numeral (digitAt buf q) n).take left ++ [digitAt buf q (n - (left + 1))] := by
      rw [List.take_succ_eq_append_getElem (by rw [length_numeral]; omega), getElem_numeral]
      congr 3
      omega
    rw [moveDigits, charAt_digit (by omega), ok_bind, hlist, hpos, setChar_append rfl, ok_bind, List.append_assoc,
      ih hmid (by omega), htake, List.append_assoc]
    rfl

/-! ## One number -/

/-- The number at `q` in the new format -/
def newNumber (buf : Text) (q : ℕ) : Text :=
  '0' :: 'x' :: (numeral (digitAt buf q) (significantDigits (buf.drop q)) ++
    if (afterGroups (buf.drop q)).head? = some '\x00' then [] else [','])

def nextNumber (buf : Text) (q : ℕ) : ℕ :=
  q + beforeSlash (buf.drop q) / 4 * 4 + if (afterGroups (buf.drop q)).head? = some '\x00' then 0 else 1

theorem digitAt_drop : (fun j : ℕ => (buf.drop q).getD (xor3 j).toNat '\x00') = digitAt buf q := by
  funext j
  have hidx : (q + xor3 j).toNat = q + (xor3 j).toNat := by
    have hge := (xor3_bounds j).1
    omega
  unfold digitAt
  rw [hidx, List.getD_eq_getElem?_getD, List.getD_eq_getElem?_getD, List.getElem?_drop]

theorem significantDigits_drop :
    significantDigits (buf.drop q) = significant (digitAt buf q) '0' (beforeSlash (buf.drop q)) := by
  unfold significantDigits
  rw [digitAt_drop]

theorem length_newNumber : (newNumber buf q).length = newLength (buf.drop q) := by
  unfold newNumber newLength
  split <;> simp <;> omega

theorem drop_nextNumber : buf.drop (nextNumber buf 0) = secondNumber buf := by
  unfold nextNumber secondNumber afterGroups
  rw [List.drop_zero, Nat.zero_add]
  split
  · rfl
  · rw [List.drop_drop]

theorem afterGroups_head (hlt : q + beforeSlash (buf.drop q) < buf.length) :
    (afterGroups (buf.drop q)).head? = some (buf.getD (q + beforeSlash (buf.drop q) / 4 * 4) '\x00') := by
  unfold afterGroups
  rw [List.drop_drop, List.head?_drop, List.getD_eq_getElem?_getD, List.getElem?_eq_getElem (by omega)]
  rfl

/-- A number is converted if there is room for its new format and the NUL. -/
theorem convertNumber_eq (hbuf : q + beforeSlash (buf.drop q) + 2 < buf.length)
    (hfirst : 0 < beforeSlash (buf.drop q) ∨ 4 ≤ q) (hroom : newLength (buf.drop q) < rest.length) :
    convertNumber buf ⟨pre ++ rest, pre.length, q⟩ =
      .ok ⟨pre ++ newNumber buf q ++ '\x00' :: rest.drop (newLength (buf.drop q) + 1),
        (pre ++ newNumber buf q).length, nextNumber buf q⟩ := by
  have hhead := @afterGroups_head buf q (by omega)
  have hsig : significantDigits (buf.drop q) ≤ beforeSlash (buf.drop q) := significant_le _ _
  have hnum : (numeral (digitAt buf q) (significantDigits (buf.drop q))).length = significantDigits (buf.drop q) :=
    length_numeral
  have hroom' : 2 + significantDigits (buf.drop q) +
      (if (afterGroups (buf.drop q)).head? = some '\x00' then 0 else 1) < rest.length := hroom
  obtain ⟨a, rest, rfl⟩ := List.exists_cons_of_length_pos (Nat.zero_lt_of_lt hroom)
  rw [List.length_cons] at hroom'
  obtain ⟨b, rest, rfl⟩ := @List.exists_cons_of_length_pos _ rest (by omega)
  rw [List.length_cons] at hroom'
  -- The digits are moved over the first characters of what is left.
  obtain ⟨mid, post, rfl, hmid⟩ : ∃ mid post, rest = mid ++ post ∧ mid.length = significantDigits (buf.drop q) :=
    ⟨_, _, (List.take_append_drop (significantDigits (buf.drop q)) rest).symm, by
      rw [List.length_take]
      omega⟩
  rw [List.length_append, hmid] at hroom'
  have hx : pre ++ '0' :: b :: (mid ++ post) = (pre ++ ['0']) ++ b :: (mid ++ post) := by simp
  have hp : pre ++ ['0'] ++ 'x' :: (mid ++ post) = (pre ++ ['0', 'x']) ++ (mid ++ post) := by simp
  have hlen : pre.length + 2 = (pre ++ ['0', 'x']).length := by simp
  have hend : pre ++ ['0', 'x'] ++ (numeral (digitAt buf q) (significantDigits (buf.drop q)) ++ post) =
      (pre ++ ['0', 'x'] ++ numeral (digitAt buf q) (significantDigits (buf.drop q))) ++ post := by simp
  have hlen' : pre.length + 2 + significantDigits (buf.drop q) =
      (pre ++ ['0', 'x'] ++ numeral (digitAt buf q) (significantDigits (buf.drop q))).length := by
    rw [List.length_append, hnum, ← hlen]
  unfold convertNumber
  dsimp only
  rw [setChar_append rfl, ok_bind, hx, setChar_append (by simp), ok_bind, strcspnAt_eq (by omega), ok_bind,
    trimZeros_eq hbuf hfirst, ok_bind, ← significantDigits_drop, hp, hlen, moveDigits_eq (by omega) hmid le_rfl,
    ok_bind, List.take_of_length_le (le_of_eq hnum), ← hlen, hlen', hend,
    charAt_eq (by omega) (by omega), ok_bind]
  have hdrop (k : ℕ) : (a :: b :: (mid ++ post)).drop (2 + significantDigits (buf.drop q) + k) = post.drop k := by
    have hsum : 2 + significantDigits (buf.drop q) + k = mid.length + k + 2 := by omega
    rw [hsum, List.drop_succ_cons, List.drop_succ_cons, List.drop_append, List.drop_of_length_le (by omega),
      List.nil_append, Nat.add_sub_cancel_left]
  have hcast : (↑(q + beforeSlash (buf.drop q) / 4 * 4) : ℤ).toNat = q + beforeSlash (buf.drop q) / 4 * 4 :=
    Int.toNat_natCast _
  rw [hcast]
  unfold newNumber nextNumber newLength
  rw [hhead] at hroom' ⊢
  by_cases hc : buf.getD (q + beforeSlash (buf.drop q) / 4 * 4) '\x00' = '\x00'
  · rw [if_neg (not_not_intro hc)]
    simp only [if_pos (congrArg some hc), Nat.add_zero] at hroom' ⊢
    obtain ⟨d, post, rfl⟩ := @List.exists_cons_of_length_pos _ post (by omega)
    rw [setChar_append rfl, ok_bind, hdrop 1]
    simp
  · have hsome : ¬some (buf.getD (q + beforeSlash (buf.drop q) / 4 * 4) '\x00') = some '\x00' :=
      fun h => hc (Option.some.inj h)
    rw [if_pos hc]
    simp only [if_neg hsome] at hroom' ⊢
    obtain ⟨d, post, rfl⟩ := @List.exists_cons_of_length_pos _ post (by omega)
    rw [List.length_cons] at hroom'
    obtain ⟨e, post, rfl⟩ := @List.exists_cons_of_length_pos _ post (by omega)
    have hcomma (done : Text) : done ++ ',' :: e :: post = (done ++ [',']) ++ e :: post := by simp
    have hlast : (pre ++ ['0', 'x'] ++ numeral (digitAt buf q) (significantDigits (buf.drop q))).length + 1 =
        (pre ++ ['0', 'x'] ++ numeral (digitAt buf q) (significantDigits (buf.drop q)) ++ [',']).length := by
      rw [@List.length_append _ _ [',']]
      rfl
    have htwo : 2 + significantDigits (buf.drop q) + 1 + 1 = 2 + significantDigits (buf.drop q) + 2 := rfl
    rw [setChar_append rfl, ok_bind, hcomma, hlast, setChar_append rfl, ok_bind, htwo, hdrop 2]
    simp

/-- What is known if a number was converted -/
theorem convertNumber_ok {s' : Conversion} (h : convertNumber buf ⟨otherstr, p, q⟩ = .ok s') :
    (0 < beforeSlash (buf.drop q) ∨ 4 ≤ q) ∧ s'.p = p + newLength (buf.drop q) ∧ s'.q = nextNumber buf q ∧
      s'.p < s'.otherstr.length ∧ s'.otherstr.length = otherstr.length := by
  unfold convertNumber at h
  dsimp only at h
  obtain ⟨o1, h1, h⟩ := bind_eq_ok.mp h
  obtain ⟨o2, h2, h⟩ := bind_eq_ok.mp h
  obtain ⟨nd, hnd, h⟩ := bind_eq_ok.mp h
  obtain ⟨rfl, hlt⟩ := strcspnAt_ok hnd
  obtain ⟨sig, hsig, h⟩ := bind_eq_ok.mp h
  obtain ⟨rfl, hfirst⟩ := trimZeros_ok hsig
  obtain ⟨o3, h3, h⟩ := bind_eq_ok.mp h
  obtain ⟨c, hc, h⟩ := bind_eq_ok.mp h
  obtain ⟨-, rfl⟩ := charAt_ok hc
  have hlen : o3.length = otherstr.length := by rw [moveDigits_ok h3, (setChar_ok h2).2, (setChar_ok h1).2]
  have hcast : (↑(q + beforeSlash (buf.drop q) / 4 * 4) : ℤ).toNat = q + beforeSlash (buf.drop q) / 4 * 4 :=
    Int.toNat_natCast _
  rw [hcast] at h
  refine ⟨hfirst, ?_⟩
  unfold newLength nextNumber
  rw [afterGroups_head hlt, significantDigits_drop]
  by_cases hc : buf.getD (q + beforeSlash (buf.drop q) / 4 * 4) '\x00' = '\x00'
  · rw [if_neg (not_not_intro hc)] at h
    obtain ⟨o4, h4, h⟩ := bind_eq_ok.mp h
    obtain ⟨hroom, hlen4⟩ := setChar_ok h4
    simp only [if_pos (congrArg some hc)]
    cases Except.ok.inj h
    dsimp only
    exact ⟨by omega, rfl, by omega, by omega⟩
  · have hsome : ¬some (buf.getD (q + beforeSlash (buf.drop q) / 4 * 4) '\x00') = some '\x00' :=
      fun h => hc (Option.some.inj h)
    rw [if_pos hc] at h
    obtain ⟨o4, h4, h⟩ := bind_eq_ok.mp h
    obtain ⟨o5, h5, h⟩ := bind_eq_ok.mp h
    obtain ⟨-, hlen4⟩ := setChar_ok h4
    obtain ⟨hroom, hlen5⟩ := setChar_ok h5
    simp only [if_neg hsome]
    cases Except.ok.inj h
    dsimp only
    exact ⟨by omega, rfl, by omega, by omega⟩

/-! ## Both numbers -/

theorem beforeSlash_cons {a : Char} {s : Text} (h : 0 < beforeSlash (a :: s)) :
    a ≠ '\x00' ∧ beforeSlash (a :: s) = beforeSlash s + 1 := by
  unfold beforeSlash at h ⊢
  rw [List.takeWhile_cons] at h ⊢
  split at h
  · rename_i ha
    rw [if_pos ha]
    exact ⟨(of_decide_eq_true ha).2, rfl⟩
  · exact absurd h (Nat.lt_irrefl 0)

/-- Without a whole group, the second number starts at the second character. -/
theorem secondNumber_small (hpos : 0 < beforeSlash buf) (hlt : beforeSlash buf < 4) :
    nextNumber buf 0 = 1 ∧ beforeSlash (secondNumber buf) = beforeSlash buf - 1 := by
  cases buf with
  | nil => exact absurd hpos (Nat.lt_irrefl 0)
  | cons a s =>
    obtain ⟨ha, hs⟩ := beforeSlash_cons hpos
    have hgroups : afterGroups (a :: s) = a :: s := by
      unfold afterGroups
      rw [Nat.div_eq_of_lt hlt, Nat.zero_mul, List.drop_zero]
    have hhead : ¬(a :: s).head? = some '\x00' := fun h => ha (Option.some.inj h)
    unfold nextNumber secondNumber
    rw [List.drop_zero, hgroups, if_neg hhead, if_neg hhead, Nat.div_eq_of_lt hlt, hs]
    exact ⟨rfl, rfl⟩

/-- The NUL ends every number. -/
theorem beforeSlash_le {old garbage : Text} : beforeSlash (old ++ '\x00' :: garbage) ≤ old.length := by
  induction old with
  | nil => exact Nat.le_of_not_lt fun h => (beforeSlash_cons h).1 rfl
  | cons a old ih =>
    by_cases h : 0 < beforeSlash (a :: (old ++ '\x00' :: garbage))
    · rw [List.cons_append, (beforeSlash_cons h).2]
      exact Nat.succ_le_succ ih
    · exact Nat.le_trans (Nat.le_of_not_lt h) (Nat.zero_le _)

theorem add_beforeSlash_le {old garbage : Text} (hbuf : buf = old ++ '\x00' :: garbage) (hq : q ≤ old.length) :
    q + beforeSlash (buf.drop q) ≤ old.length := by
  have hle := @beforeSlash_le (old.drop q) garbage
  rw [hbuf, List.drop_append_of_le_length hq]
  rw [List.length_drop] at hle
  omega

theorem nextNumber_le {old garbage : Text} (hbuf : buf = old ++ '\x00' :: garbage) :
    nextNumber buf 0 ≤ old.length := by
  have hle : 0 + beforeSlash (buf.drop 0) ≤ old.length := add_beforeSlash_le hbuf (Nat.zero_le _)
  have hlen : buf.length = old.length + garbage.length + 1 := by
    rw [hbuf, List.length_append, List.length_cons]
    rfl
  unfold nextNumber
  rw [afterGroups_head (by omega)]
  by_cases heq : 0 + beforeSlash (buf.drop 0) / 4 * 4 = old.length
  · have hend : buf.getD old.length '\x00' = '\x00' := by
      rw [hbuf, List.getD_append_right _ _ _ _ le_rfl, Nat.sub_self]
      rfl
    rw [heq, hend, if_pos rfl]
    exact Nat.le_refl _
  · split <;> omega

theorem convert_eq {old garbage : Text} (hbuf : buf = old ++ '\x00' :: garbage) (hgarbage : 3 ≤ garbage.length)
    (hfirst : 2 ≤ beforeSlash buf)
    (hroom : newLength buf + newLength (secondNumber buf) < otherstr.length) :
    convert buf otherstr = .ok (newNumber buf 0 ++ newNumber buf (nextNumber buf 0) ++
      '\x00' :: otherstr.drop (newLength buf + newLength (secondNumber buf) + 1)) := by
  have hlen : buf.length = old.length + garbage.length + 1 := by
    rw [hbuf, List.length_append, List.length_cons]
    rfl
  have hle := add_beforeSlash_le hbuf (Nat.zero_le _)
  have hle' := add_beforeSlash_le hbuf (nextNumber_le hbuf)
  have hsecond : 0 < beforeSlash (buf.drop (nextNumber buf 0)) ∨ 4 ≤ nextNumber buf 0 := by
    by_cases hlt : beforeSlash buf < 4
    · rw [drop_nextNumber, (secondNumber_small (by omega) hlt).2]
      exact .inl (by omega)
    · refine .inr ?_
      unfold nextNumber
      rw [List.drop_zero]
      omega
  have hnew := @length_newNumber buf 0
  have hnum := @convertNumber_eq buf [] otherstr 0 (by omega) (.inl (Nat.lt_of_lt_of_le Nat.zero_lt_two hfirst))
    (by rw [List.drop_zero]; omega)
  rw [List.drop_zero] at hnew hnum
  unfold convert
  rw [List.nil_append, List.nil_append, List.length_nil] at hnum
  have hnum' := @convertNumber_eq buf (newNumber buf 0) ('\x00' :: otherstr.drop (newLength buf + 1))
    (nextNumber buf 0) (by omega) hsecond (by
      rw [drop_nextNumber, List.length_cons, List.length_drop]
      omega)
  rw [hnum, ok_bind, hnum', ok_bind, drop_nextNumber, List.drop_succ_cons, List.drop_drop]
  have hsum : newLength buf + 1 + newLength (secondNumber buf) =
      newLength buf + newLength (secondNumber buf) + 1 := by omega
  rw [hsum]

theorem length_convert {otherstr' : Text} (h : convert buf otherstr = .ok otherstr') :
    otherstr'.length = otherstr.length := by
  unfold convert at h
  obtain ⟨s, hs, h⟩ := bind_eq_ok.mp h
  obtain ⟨s', hs', h⟩ := bind_eq_ok.mp h
  obtain ⟨-, -, -, -, hlen⟩ := convertNumber_ok hs
  obtain ⟨-, -, -, -, hlen'⟩ := convertNumber_ok hs'
  rw [← Except.ok.inj h, hlen', hlen]

theorem convert_ok {otherstr' : Text} (h : convert buf otherstr = .ok otherstr') :
    2 ≤ beforeSlash buf ∧ newLength buf + newLength (secondNumber buf) < otherstr.length := by
  unfold convert at h
  obtain ⟨s, hs, h⟩ := bind_eq_ok.mp h
  obtain ⟨s', hs', -⟩ := bind_eq_ok.mp h
  obtain ⟨hfirst, hp, hq, -, hlen⟩ := convertNumber_ok hs
  obtain ⟨hfirst', hp', -, hroom, hlen'⟩ := convertNumber_ok hs'
  rw [hq, drop_nextNumber] at hfirst' hp'
  rw [List.drop_zero] at hfirst hp
  refine ⟨?_, by omega⟩
  by_contra hlt
  obtain ⟨hnext, hsecond⟩ := @secondNumber_small buf (by omega) (by omega)
  omega

/-! ## The old format -/

variable {words exponent modulus : List (Fin (16 ^ 4))}

theorem digitOf_ne (v j : ℕ) : digitOf 16 v j ≠ '/' ∧ digitOf 16 v j ≠ '\x00' := by
  have h : ∀ d < 16, d.digitChar ≠ '/' ∧ d.digitChar ≠ '\x00' := by decide
  exact h _ (Nat.mod_lt _ (by decide))

theorem length_oldBignum : (oldBignum words).length = 4 * words.length := by
  unfold oldBignum
  induction words with
  | nil => rfl
  | cons w words ih =>
    rw [List.flatMap_cons, List.length_append, length_numeral, ih, List.length_cons]
    omega

theorem beforeSlash_numeral {v : ℕ} (s : Text) :
    beforeSlash (numeral (digitOf 16 v) n ++ s) = n + beforeSlash s := by
  induction n with
  | zero => rw [Nat.zero_add]; rfl
  | succ n ih =>
    have hne := digitOf_ne v n
    have hcons : beforeSlash (digitOf 16 v n :: (numeral (digitOf 16 v) n ++ s)) =
        beforeSlash (numeral (digitOf 16 v) n ++ s) + 1 := by
      unfold beforeSlash
      rw [List.takeWhile_cons, if_pos (decide_eq_true hne)]
      rfl
    rw [numeral, List.cons_append, hcons, ih]
    omega

theorem beforeSlash_oldBignum (s : Text) : beforeSlash (oldBignum words ++ s) = 4 * words.length + beforeSlash s := by
  unfold oldBignum
  induction words with
  | nil => rw [List.length_nil, Nat.mul_zero, Nat.zero_add]; rfl
  | cons w words ih =>
    rw [List.flatMap_cons, List.append_assoc, beforeSlash_numeral, ih, List.length_cons]
    omega

theorem bignumValue_cons (w : Fin (16 ^ 4)) : bignumValue (w :: words) = w.val + 16 ^ 4 * bignumValue words := rfl

theorem bignumValue_lt : bignumValue words < 16 ^ (4 * words.length) := by
  induction words with
  | nil => exact Nat.zero_lt_one
  | cons w words ih =>
    have hw := w.isLt
    have hpow : 16 ^ (4 * (words.length + 1)) = 16 ^ 4 * 16 ^ (4 * words.length) := by
      rw [← Nat.pow_add]
      congr 1
      omega
    rw [bignumValue_cons, List.length_cons, hpow]
    have hle : 16 ^ 4 * (bignumValue words + 1) ≤ 16 ^ 4 * 16 ^ (4 * words.length) := Nat.mul_le_mul_left _ ih
    omega

/-- The digits are where they are looked for. -/
theorem getD_oldBignum (s : Text) {j : ℕ} (hj : j < 4 * words.length) :
    (oldBignum words ++ s).getD (xor3 j).toNat '\x00' = digitOf 16 (bignumValue words) j := by
  induction words generalizing j with
  | nil => exact absurd hj (Nat.not_lt_zero j)
  | cons w words ih =>
    have hcons : oldBignum (w :: words) ++ s = numeral (digitOf 16 w.val) 4 ++ (oldBignum words ++ s) := by
      unfold oldBignum
      rw [List.flatMap_cons, List.append_assoc]
    rw [hcons, bignumValue_cons]
    by_cases hlt : j < 4
    · have hidx : (xor3 j).toNat = 3 - j := by
        unfold xor3
        omega
      have hin : 3 - j < (numeral (digitOf 16 w.val) 4).length := by
        rw [length_numeral]
        omega
      have hback : 4 - 1 - (3 - j) = j := by omega
      rw [hidx, List.getD_append _ _ _ _ hin, List.getD_eq_getElem _ _ hin, getElem_numeral, hback,
        digitOf_add_mul (by decide) hlt]
    · have hidx : (xor3 j).toNat = 4 + (xor3 (j - 4 : ℕ)).toNat := by
        unfold xor3
        omega
      have hsum : j = 4 + (j - 4) := by omega
      rw [List.length_cons] at hj
      rw [hidx, List.getD_append_right _ _ _ _ (by rw [length_numeral]; omega), length_numeral,
        Nat.add_sub_cancel_left, ih (by omega)]
      conv_rhs => rw [hsum]
      rw [digitOf_add_mul_pow (by decide) w.isLt]

/-- A number in the old format, which a slash or the NUL follows -/
theorem newNumber_oldBignum {s : Text} (hbuf : buf.drop q = oldBignum words ++ c :: s) (hc : c = '/' ∨ c = '\x00')
    (hne : words ≠ []) :
    newNumber buf q = '0' :: 'x' :: (Nat.toDigits 16 (bignumValue words) ++ if c = '\x00' then [] else [',']) ∧
      nextNumber buf q = q + 4 * words.length + if c = '\x00' then 0 else 1 := by
  have hpos : 0 < words.length := List.length_pos_of_ne_nil hne
  have hstop : beforeSlash (c :: s) = 0 := by
    unfold beforeSlash
    rw [List.takeWhile_cons, if_neg]
    · rfl
    · rcases hc with rfl | rfl <;> decide
  have hbefore : beforeSlash (buf.drop q) = 4 * words.length := by
    rw [hbuf, beforeSlash_oldBignum, hstop]
    rfl
  have hgroups : 4 * words.length / 4 * 4 = 4 * words.length := by omega
  have hafter : afterGroups (buf.drop q) = c :: s := by
    unfold afterGroups
    rw [hbefore, hgroups, hbuf, ← length_oldBignum, List.drop_left]
  have hdigit : ∀ j < 4 * words.length, digitAt buf q j = digitOf 16 (bignumValue words) j := by
    intro j hj
    rw [← digitAt_drop, hbuf]
    exact getD_oldBignum _ hj
  have hhead : (c :: s).head? = some '\x00' ↔ c = '\x00' := by simp
  have hsig : significantDigits (buf.drop q) =
      significant (digitOf 16 (bignumValue words)) '0' (4 * words.length) := by
    rw [significantDigits_drop, hbefore]
    exact significant_congr _ _ hdigit
  have hnum : numeral (digitAt buf q) (significantDigits (buf.drop q)) = Nat.toDigits 16 (bignumValue words) := by
    rw [hsig, ← numeral_significant (by decide) (le_refl 16) (by omega) bignumValue_lt]
    exact numeral_congr fun j hj => hdigit j (Nat.lt_of_lt_of_le hj (significant_le _ _))
  unfold newNumber nextNumber
  simp only [hnum, hafter, hhead, hbefore, hgroups, and_self]

/-- What an old key is converted to -/
theorem newFormat_oldFormat {s : Text} (hbuf : buf = oldFormat exponent modulus ++ '\x00' :: s) (he : exponent ≠ [])
    (hm : modulus ≠ []) :
    newNumber buf 0 ++ newNumber buf (nextNumber buf 0) =
      newFormat (bignumValue exponent) (bignumValue modulus) := by
  have hbuf' : buf.drop 0 = oldBignum exponent ++ '/' :: (oldBignum modulus ++ '\x00' :: s) := by
    rw [List.drop_zero, hbuf, oldFormat, List.append_assoc, List.cons_append]
  obtain ⟨hnum, hnext⟩ := newNumber_oldBignum hbuf' (.inl rfl) he
  have hsecond : buf.drop (nextNumber buf 0) = oldBignum modulus ++ '\x00' :: s := by
    rw [hnext, if_neg (by decide), Nat.zero_add, ← List.drop_drop, ← length_oldBignum]
    rw [List.drop_zero] at hbuf'
    rw [hbuf', List.drop_left]
    rfl
  rw [hnum, (newNumber_oldBignum hsecond (.inr rfl) hm).1, if_neg (by decide), if_pos rfl, List.append_nil]
  unfold newFormat
  simp

/-! ## Names and queries -/

variable {hostname keytype name : Text} {port : Int32} {values : HostKeyValues} {value : RegValue}

theorem length_mungeFrom_le (candot : Bool) (s : Text) : (mungeFrom candot s).length ≤ 3 * s.length := by
  induction s generalizing candot with
  | nil => exact Nat.zero_le _
  | cons c s ih =>
    have hc : (mungeChar candot c).length ≤ 3 := by
      unfold mungeChar
      split <;> simp
    have hs := ih true
    rw [mungeFrom, List.length_append, List.length_cons]
    omega

theorem length_decimal (n : Int32) : (decimal n.toInt).length ≤ 11 := by
  have hlt := n.toInt_lt
  have hge := n.le_toInt
  cases h : n.toInt with
  | ofNat m =>
    show (Nat.toDigits 10 m).length ≤ 11
    have hm : (m : ℤ) < 2 ^ 31 := by
      rw [h] at hlt
      exact hlt
    rw [Nat.length_toDigits_le_iff (by decide) (by decide)]
    omega
  | negSucc m =>
    show (Nat.toDigits 10 (m + 1)).length + 1 ≤ 11
    rw [h, Int.negSucc_eq] at hge
    have hlen : (Nat.toDigits 10 (m + 1)).length ≤ 10 := by
      rw [Nat.length_toDigits_le_iff (by decide) (by decide)]
      omega
    omega

/-- The name of a value fits the buffer. -/
theorem hostkeyRegname_eq : hostkeyRegname hostname port keytype = .ok (regname hostname port keytype) := by
  refine if_pos ?_
  have hmunge := length_mungeFrom_le false hostname
  have hdec := length_decimal port
  unfold regname mungestr
  simp only [List.length_append, List.length_cons]
  omega

theorem colon_not_mem_decimal (n : ℤ) : ':' ∉ decimal n := by
  have hdigits (m : ℕ) : ':' ∉ Nat.toDigits 10 m := fun h =>
    absurd (Nat.isDigit_of_mem_toDigits (by decide) (by decide) h) (by decide)
  cases n with
  | ofNat m => exact hdigits m
  | negSucc m =>
    intro h
    rcases List.mem_cons.mp h with h | h
    · exact absurd h (by decide)
    · exact hdigits _ h

theorem justhost_eq : (regname hostname port "rsa".toList).drop (1 + strcspn (regname hostname port "rsa".toList) ':') =
    mungestr hostname := by
  have hname : regname hostname port "rsa".toList = ("rsa@".toList ++ decimal port.toInt) ++ ':' :: mungestr hostname := by
    unfold regname
    simp
  have hstop : strcspn (regname hostname port "rsa".toList) ':' = ("rsa@".toList ++ decimal port.toInt).length := by
    unfold strcspn
    rw [hname, List.takeWhile_append_of_pos]
    · rw [List.takeWhile_cons_of_neg (by decide), List.append_nil]
    · intro a ha
      refine bne_iff_ne.mpr ?_
      rintro rfl
      rcases List.mem_append.mp ha with ha | ha
      · exact absurd ha (by decide)
      · exact colon_not_mem_decimal _ ha
  rw [hstop, hname, Nat.add_comm, ← List.drop_drop, List.drop_left]
  rfl

theorem length_valueData : (valueData value).length = value.size := by
  cases value with
  | sz s => exact List.length_append
  | dword n => rfl
  | other data => exact List.length_map _

theorem length_regQueryValueEx (readlen : ℕ) (h : readlen ≤ buf.length) :
    (regQueryValueEx values name readlen buf).2.length = buf.length := by
  unfold regQueryValueEx
  split
  · rfl
  · split
    · rw [List.length_append, length_valueData, List.length_drop]
      omega
    · rfl

theorem regQueryValueEx_none (readlen : ℕ) (h : values name = none) :
    regQueryValueEx values name readlen buf = (.otherError, buf) := by
  unfold regQueryValueEx
  rw [h]

theorem regQueryValueEx_ne (readlen : ℕ) (h : values name ≠ none) :
    (regQueryValueEx values name readlen buf).1 ≠ .otherError := by
  unfold regQueryValueEx
  split
  · rename_i hnone
    exact absurd hnone h
  · split
    · exact fun h => (nomatch h)
    · exact fun h => (nomatch h)

theorem regQueryValueEx_success (readlen : ℕ) {buf' : Text}
    (h : regQueryValueEx values name readlen buf = (.success true, buf')) : ∃ old, values name = some (.sz old) := by
  unfold regQueryValueEx at h
  split at h
  · exact nomatch h
  · rename_i value hvalue
    rw [hvalue]
    cases value with
    | sz old => exact ⟨old, rfl⟩
    | dword n => split at h <;> exact nomatch h
    | other data => split at h <;> exact nomatch h

theorem regQueryValueEx_sz (readlen : ℕ) {old : Text} (h : values name = some (.sz old)) :
    regQueryValueEx values name readlen buf =
      if old.length + 1 ≤ readlen then (.success true, old ++ '\x00' :: buf.drop (old.length + 1))
      else (.moreData, buf) := by
  unfold regQueryValueEx
  rw [h]
  dsimp only [RegValue.size, valueData]
  rw [List.append_assoc, List.singleton_append]
  rfl

/-! ## The check -/

variable {store : Option HostKeyValues} {mem : Allocated key}

theorem compareKey_eq (hkey : '\x00' ∉ key) (hlen : otherstr.length = 1 + key.length) (ret : Ret) :
    compareKey key ret otherstr values = .ok
      (match ret with
        | .moreData => 2
        | .success true => if stringIn otherstr = key then 0 else 2
        | _ => 1, some values) := by
  unfold compareKey
  rw [strcmp_eq hkey (by omega), ok_bind]
  cases ret with
  | otherError => rfl
  | moreData => rfl
  | success sz =>
    cases sz with
    | false => rfl
    | true =>
      by_cases h : stringIn otherstr = key
      · simp only [decide_eq_true h, if_pos h, if_true]
      · simp only [decide_eq_false h, if_neg h, Bool.false_eq_true, if_false]

theorem length_query : (regQueryValueEx values name (1 + key.length) mem.otherstr).2.length = 1 + key.length := by
  rw [length_regQueryValueEx _ (le_of_eq mem.otherstrSize.symm), mem.otherstrSize]

/-- Without an old key nothing is changed. -/
theorem verifyHostKey_other (hkey : '\x00' ∉ key) (h : ∀ old, ¬ConsultsOld store hostname port keytype old) :
    ∃ result, verifyHostKey store hostname port keytype key mem = .ok (result, store) := by
  unfold verifyHostKey
  rw [hostkeyRegname_eq, ok_bind]
  cases store with
  | none => exact ⟨1, rfl⟩
  | some values =>
    dsimp only
    split
    · rename_i hother
      obtain ⟨herror, rfl⟩ := hother
      have hnone : values (regname hostname port "rsa".toList) = none := by
        by_contra hne
        exact regQueryValueEx_ne _ hne herror
      unfold verifyOldstyle
      rw [justhost_eq]
      dsimp only
      split
      · rename_i oldstyle hquery
        obtain ⟨old, hold⟩ := regQueryValueEx_success _ hquery
        exact absurd ⟨values, rfl, rfl, hnone, hold⟩ (h old)
      · rw [ok_bind]
        dsimp only
        rw [compareKey_eq hkey length_query]
        exact ⟨_, rfl⟩
    · rw [compareKey_eq hkey length_query]
      exact ⟨_, rfl⟩

/-- An old key is converted if it is not longer than the key. -/
theorem verifyHostKey_old (hkey : '\x00' ∉ key) {old : Text} (hrsa : keytype = "rsa".toList)
    (hnew : values (regname hostname port keytype) = none) (hold : values (mungestr hostname) = some (.sz old)) :
    verifyHostKey (some values) hostname port keytype key mem =
      if old.length ≤ key.length then
        convert (old ++ '\x00' :: mem.oldstyle.drop (old.length + 1)) mem.otherstr >>= fun otherstr =>
          .ok (if stringIn otherstr = key then
            (0, some (regSetValueEx values (regname hostname port keytype) (.sz (stringIn otherstr))))
            else (2, some values))
      else .ok (2, some values) := by
  unfold verifyHostKey verifyOldstyle
  rw [hostkeyRegname_eq, ok_bind]
  dsimp only
  subst hrsa
  rw [regQueryValueEx_none _ hnew, if_pos ⟨rfl, rfl⟩, justhost_eq, regQueryValueEx_sz _ hold]
  by_cases hlen : old.length ≤ key.length
  · rw [if_pos hlen, if_pos (by omega)]
    dsimp only
    cases hconvert : convert (old ++ '\x00' :: mem.oldstyle.drop (old.length + 1)) mem.otherstr with
    | error e => rfl
    | ok otherstr =>
      have hsize : otherstr.length = 1 + key.length := by rw [length_convert hconvert, mem.otherstrSize]
      simp only [ok_bind]
      rw [strcmp_eq hkey (by omega), ok_bind]
      by_cases hsame : stringIn otherstr = key
      · rw [if_pos (decide_eq_true hsame), ok_bind, if_pos hsame]
        dsimp only
        rw [compareKey_eq hkey hsize]
        dsimp only
        rw [if_pos hsame]
      · rw [if_neg fun h => hsame (of_decide_eq_true h), ok_bind, if_neg hsame]
        dsimp only
        rw [compareKey_eq hkey hsize]
        dsimp only
        rw [if_neg hsame]
  · rw [if_neg hlen, if_neg (by omega)]
    dsimp only
    rw [ok_bind]
    dsimp only
    rw [compareKey_eq hkey mem.otherstrSize]

/-- The string that an old key is converted to -/
theorem stringIn_newFormat (e m : ℕ) (s : Text) : stringIn (newFormat e m ++ '\x00' :: s) = newFormat e m := by
  have hdigits (v : ℕ) : ∀ c ∈ Nat.toDigits 16 v, c ≠ '\x00' := by
    intro c hc
    rw [← numeral_significant (by decide) (le_refl 16) (Nat.succ_pos v) (Nat.lt_pow_self (by decide) |>.trans
      (Nat.pow_lt_pow_right (by decide) (Nat.lt_succ_self v)))] at hc
    obtain ⟨i, hi, rfl⟩ := List.mem_iff_getElem.mp hc
    rw [getElem_numeral]
    exact (digitOf_ne _ _).2
  unfold stringIn
  rw [List.takeWhile_append_of_pos]
  · rw [List.takeWhile_cons_of_neg (by decide), List.append_nil]
  · intro c hc
    refine decide_eq_true ?_
    unfold newFormat at hc
    simp only [List.mem_cons, List.mem_append] at hc
    rcases hc with rfl | rfl | hc | rfl | rfl | rfl | hc
    · decide
    · decide
    · exact hdigits _ c hc
    · decide
    · decide
    · decide
    · exact hdigits _ c hc

/-- What is asked of the check when an old key is looked at -/
theorem verifiesSafely_old (hkey : '\x00' ∉ key) {old : Text} (hrsa : keytype = "rsa".toList)
    (hnew : values (regname hostname port keytype) = none) (hold : values (mungestr hostname) = some (.sz old)) :
    VerifiesSafely (some values) hostname port keytype key mem ↔ OldKeyFits old key mem.oldstyle := by
  have hverify := @verifyHostKey_old key hostname keytype port values mem hkey old hrsa hnew hold
  unfold VerifiesSafely OldKeyFits
  dsimp only
  rw [hverify]
  by_cases hlen : old.length ≤ key.length
  · rw [if_pos hlen, if_pos hlen]
    constructor
    · rintro ⟨result, store', h, -⟩
      obtain ⟨otherstr, hconvert, -⟩ := bind_eq_ok.mp h
      obtain ⟨hfirst, hroom⟩ := convert_ok hconvert
      rw [mem.otherstrSize] at hroom
      exact ⟨hfirst, by omega⟩
    · rintro ⟨hfirst, hroom⟩
      have hgarbage : 3 ≤ (mem.oldstyle.drop (old.length + 1)).length := by
        rw [List.length_drop, mem.oldstyleSize]
        omega
      rw [convert_eq rfl hgarbage hfirst (by rw [mem.otherstrSize]; omega), ok_bind]
      generalize hr : (if stringIn _ = key then _ else _ : ℕ × Option HostKeyValues) = r
      refine ⟨r.1, r.2, rfl, ?_⟩
      intro values' exponent modulus hstore _ he hm _ hold'
      cases hstore
      rw [hold] at hold'
      cases hold'
      rw [newFormat_oldFormat rfl he hm, stringIn_newFormat] at hr
      by_cases hsame : newFormat (bignumValue exponent) (bignumValue modulus) = key
      · rw [if_pos hsame, hsame] at hr
        rw [if_pos hsame.symm, ← hr]
        exact ⟨rfl, rfl⟩
      · rw [if_neg hsame] at hr
        rw [if_neg fun h => hsame h.symm, ← hr]
  · rw [if_neg hlen, if_neg hlen]
    constructor
    · rintro ⟨result, store', h, hwell⟩ exponent modulus he hm rfl hsame
      have hwell := hwell values exponent modulus rfl hrsa he hm hnew hold
      rw [if_pos hsame] at hwell
      cases Except.ok.inj h
      exact absurd hwell.1 (by decide)
    · intro h
      refine ⟨2, some values, rfl, ?_⟩
      intro values' exponent modulus hstore _ he hm _ hold'
      cases hstore
      rw [hold] at hold'
      cases hold'
      rw [if_neg (h exponent modulus he hm rfl)]

/-- The check is safe exactly if every old key that is looked at fits. -/
theorem verifiesSafely_iff (store : Option HostKeyValues) (hostname : Text) (port : Int32) (keytype : Text)
    (key : { s : Text // '\x00' ∉ s }) (mem : Allocated key.val) :
    VerifiesSafely store hostname port keytype key.val mem ↔
      ∀ old, ConsultsOld store hostname port keytype old → OldKeyFits old key.val mem.oldstyle := by
  by_cases h : ∃ old, ConsultsOld store hostname port keytype old
  · obtain ⟨old, values, rfl, hrsa, hnew, hold⟩ := h
    rw [verifiesSafely_old key.property hrsa hnew hold]
    constructor
    · rintro hfits old' ⟨values', hstore, -, -, hold'⟩
      cases hstore
      rw [hold] at hold'
      cases hold'
      exact hfits
    · intro hall
      exact hall old ⟨values, rfl, hrsa, hnew, hold⟩
  · have hnone : ∀ old, ¬ConsultsOld store hostname port keytype old := fun old hold => h ⟨old, hold⟩
    refine iff_of_true ?_ fun old hold => absurd hold (hnone old)
    obtain ⟨result, hresult⟩ := @verifyHostKey_other key hostname keytype port store mem key.property hnone
    refine ⟨result, store, hresult, ?_⟩
    intro values exponent modulus hstore hrsa _ _ hnew hold
    exact absurd ⟨values, hstore, hrsa, hnew, hold⟩ (hnone _)

/-- An old key with longer numbers than those of the key is written past the end of `otherstr`. -/
theorem longerKey_overrun : ¬∀ (store : Option HostKeyValues) (hostname : Text) (port : Int32) (keytype : Text)
    (key : { s : Text // '\x00' ∉ s }) (mem : Allocated key.val),
    VerifiesSafely store hostname port keytype key.val mem := by
  intro h
  let key : Text := "0x3,0x123".toList
  let mem : Allocated key := ⟨List.replicate 10 'a', List.replicate 20 'a', rfl, rfl⟩
  let values : HostKeyValues := fun name => if name = ['h'] then some (.sz "ffff/ffff".toList) else none
  have hsafe := h (some values) ['h'] 22 "rsa".toList ⟨key, by decide⟩ mem
  have hold : values (mungestr ['h']) = some (.sz "ffff/ffff".toList) := by decide
  have hfits := (verifiesSafely_old (by decide) rfl (by decide) hold).mp hsafe
  unfold OldKeyFits at hfits
  rw [if_pos (by decide)] at hfits
  exact absurd hfits.2 (by decide)

end PuttyNd.Storage.WinRegStore
