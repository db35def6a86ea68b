import PuttyNd.Settings.Maps

/-!
# Maps are read back as they were written

A pair is written as the escaped key and value, and each field of the string is read as one pair. For port
forwardings both sides translate a pair, and undo each other if the letter `D` marks the dynamic ones only.
-/

namespace PuttyNd.Settings

open CInt Outcome

variable {primary : MapSetting} {out s rest : List Char} {val : Option ℕ} {size : ℕ} {e : CString × CString}
  {entries : List (CString × CString)}

/-! ## What is written -/

def escape (s : List Char) : List Char := s.flatMap fun c => if special c then ['\\', c] else [c]

/-- A pair in the string -/
def record (e : CString × CString) : List Char := escape e.1.chars ++ '=' :: escape e.2.chars

/-- The records after those that are there -/
def records (out : List Char) : List (CString × CString) → List Char
  | [] => out
  | e :: entries => records ((if out ≠ [] then out ++ [','] else out) ++ record e) entries

theorem escape_cons {c : Char} : escape (c :: s) = (if special c then ['\\', c] else [c]) ++ escape s :=
  List.flatMap_cons

/-- The characters are in the buffer if they fit. -/
def fitting (size : ℕ) (out : List Char) : Except Fault (List Char) :=
  if out.length ≤ size then .ok out else .error .overrun

theorem fitting_bind {next : List Char} {f : List Char → Except Fault (List Char)}
    (hle : out.length ≤ next.length) (hf : out.length ≤ size → f out = fitting size next) :
    (fitting size out >>= f) = fitting size next := by
  unfold fitting at hf ⊢
  by_cases hout : out.length ≤ size
  · rw [if_pos hout, ok_bind]
    exact hf hout
  · rw [if_neg hout, error_bind, if_neg fun hnext => hout (hle.trans hnext)]

theorem ok_eq_fitting (h : out.length ≤ size) : (.ok out : Except Fault (List Char)) = fitting size out :=
  (if_pos h).symm

theorem writeChar_eq {c : Char} : writeChar size out c = fitting size (out ++ [c]) := by
  unfold writeChar fitting
  rw [List.length_append, List.length_singleton]
  rfl

theorem length_le_append (s : List Char) : out.length ≤ (out ++ s).length := by
  rw [List.length_append]
  exact Nat.le_add_right _ _

theorem writeEscaped_eq (q : List Char) (h : out.length ≤ size) :
    writeEscaped size out q = fitting size (out ++ escape q) := by
  induction q generalizing out with
  | nil =>
    unfold writeEscaped
    rw [show escape [] = [] from rfl, List.append_nil]
    exact ok_eq_fitting h
  | cons c q ih =>
    unfold writeEscaped
    have hchar : ∀ out' : List Char, out'.length ≤ size → (writeChar size out' c >>= fun out => writeEscaped size out q) =
        fitting size (out' ++ c :: escape q) := by
      intro out' _
      have hcons : out' ++ c :: escape q = out' ++ [c] ++ escape q := List.append_cons out' c (escape q)
      rw [writeChar_eq, hcons]
      exact fitting_bind (length_le_append _) fun hout => ih hout
    rw [escape_cons]
    cases hc : special c with
    | true =>
      rw [if_pos rfl, if_pos rfl, writeChar_eq]
      refine fitting_bind ?_ fun hout => ?_
      · simp only [List.length_append, List.length_cons, List.length_nil]
        omega
      · have hcons : out ++ (['\\', c] ++ escape q) = out ++ ['\\'] ++ c :: escape q := List.append_cons _ _ _
        rw [hcons]
        exact hchar _ hout
    | false =>
      rw [if_neg Bool.false_ne_true, if_neg Bool.false_ne_true, ok_bind]
      exact hchar out h

theorem length_le_records (entries : List (CString × CString)) : out.length ≤ (records out entries).length := by
  induction entries generalizing out with
  | nil => exact le_rfl
  | cons e entries ih =>
    refine le_trans ?_ ih
    by_cases hout : out ≠ []
    · rw [if_pos hout, List.append_assoc]
      exact length_le_append _
    · rw [if_neg hout]
      exact length_le_append _

theorem writePairs_eq (entries : List (CString × CString)) (h : out.length ≤ size) :
    writePairs primary true size out entries = fitting size (records out (entries.map (storedPair primary))) := by
  induction entries generalizing out with
  | nil => exact ok_eq_fitting h
  | cons e entries ih =>
    unfold writePairs
    rw [List.map_cons, records]
    dsimp only
    generalize storedPair primary e = pair
    have hpair : ∀ out' : List Char, out'.length ≤ size → (do
        let out ← writeEscaped size out' pair.1.chars
        let out ← writeChar size out '='
        let out ← writeEscaped size out pair.2.chars
        writePairs primary true size out entries) =
          fitting size (records (out' ++ record pair) (entries.map (storedPair primary))) := by
      intro out' hout'
      have hle := @length_le_records (out' ++ record pair) (entries.map (storedPair primary))
      have hrecord : out' ++ escape pair.1.chars ++ ['='] ++ escape pair.2.chars = out' ++ record pair := by
        unfold record
        rw [List.append_assoc, List.append_assoc]
        rfl
      rw [writeEscaped_eq _ hout']
      refine fitting_bind (le_trans ?_ hle) fun hkey => ?_
      · unfold record
        rw [← List.append_assoc]
        exact length_le_append _
      rw [writeChar_eq]
      refine fitting_bind (le_trans ?_ hle) fun hequals => ?_
      · rw [← hrecord]
        exact length_le_append _
      rw [writeEscaped_eq _ hequals, hrecord]
      exact fitting_bind hle fun hout => ih hout
    by_cases hout : out ≠ []
    · rw [if_pos hout, if_pos hout, writeChar_eq]
      refine fitting_bind (le_trans ?_ (length_le_records _)) fun hcomma => ?_
      · exact length_le_append _
      · exact hpair _ hcomma
    · rw [if_neg hout, if_neg hout, ok_bind]
      exact hpair out h

/-! ## The size of the buffer -/

theorem length_escape (s : List Char) : s.length ≤ (escape s).length ∧ (escape s).length ≤ 2 * s.length := by
  induction s with
  | nil => exact ⟨le_rfl, le_rfl⟩
  | cons c s ih =>
    obtain ⟨hle, hge⟩ := ih
    rw [escape_cons, List.length_append, List.length_cons]
    split
    · simp only [List.length_cons, List.length_nil]
      omega
    · rw [List.length_singleton]
      omega

theorem length_replaceFirst {c d : Char} (s : List Char) : (replaceFirst c d s).length = s.length := by
  induction s with
  | nil => rfl
  | cons a s ih =>
    unfold replaceFirst
    split
    · rfl
    · rw [List.length_cons, List.length_cons, ih]

/-- A record takes at most the room that is counted for it, and at least half of it. -/
theorem length_record (primary : MapSetting) (e : CString × CString) :
    1 + (record (storedPair primary e)).length ≤ 2 + 2 * (e.1.chars.length + e.2.chars.length) ∧
      2 + 2 * (e.1.chars.length + e.2.chars.length) ≤ 2 * (1 + (record (storedPair primary e)).length) := by
  unfold record storedPair
  rw [List.length_append, List.length_cons]
  split
  · next h =>
    have hkey := length_escape (storedKey e.1).chars
    have hlength : (storedKey e.1).chars.length = e.1.chars.length := length_replaceFirst e.1.chars
    have hvalue : e.2.chars.length = 1 := by
      rw [h.2]
      rfl
    have hempty : (escape emptyString.chars).length = 0 := rfl
    dsimp only
    omega
  · have hkey := length_escape e.1.chars
    have hvalue := length_escape e.2.chars
    omega

/-- The records after the first one -/
def moreRecords (entries : List (CString × CString)) : List Char := entries.flatMap fun e => ',' :: record e

theorem records_of_ne (h : out ≠ []) : records out entries = out ++ moreRecords entries := by
  induction entries generalizing out with
  | nil => exact (List.append_nil out).symm
  | cons e entries ih =>
    have hne : out ++ [','] ++ record e ≠ [] := by
      rw [List.append_assoc]
      exact List.append_ne_nil_of_left_ne_nil h _
    unfold moreRecords at ih ⊢
    rw [records, if_pos h, ih hne, List.flatMap_cons, List.append_assoc, List.append_assoc]
    rfl

theorem records_cons : records [] (e :: entries) = record e ++ moreRecords entries := by
  have hne : record e ≠ [] := List.append_ne_nil_of_right_ne_nil _ (List.cons_ne_nil _ _)
  rw [records, if_neg (not_not_intro rfl), List.nil_append, records_of_ne hne]

theorem length_moreRecords (primary : MapSetting) (entries : List (CString × CString)) :
    (moreRecords (entries.map (storedPair primary))).length ≤
        (entries.map fun e => 2 + 2 * (e.1.chars.length + e.2.chars.length)).sum ∧
      (entries.map fun e => 2 + 2 * (e.1.chars.length + e.2.chars.length)).sum ≤
        2 * (moreRecords (entries.map (storedPair primary))).length := by
  unfold moreRecords
  induction entries with
  | nil => exact ⟨le_rfl, le_rfl⟩
  | cons e entries ih =>
    have hrecord := length_record primary e
    rw [List.map_cons, List.map_cons, List.flatMap_cons, List.sum_cons, List.length_append, List.length_cons]
    omega

/-- The string with its NUL -/
theorem length_records (primary : MapSetting) (m : StrMap) :
    (records [] (m.entries.map (storedPair primary))).length + 1 ≤ countedLength m ∧
      countedLength m ≤ 2 * ((records [] (m.entries.map (storedPair primary))).length + 1) + 1 := by
  unfold countedLength
  cases m.entries with
  | nil => exact ⟨le_rfl, (by decide : 1 ≤ 2 * 1 + 1)⟩
  | cons e entries =>
    have hrecord := length_record primary e
    have hmore := length_moreRecords primary entries
    rw [List.map_cons, List.map_cons, records_cons, List.sum_cons, List.length_append]
    omega

theorem bufferLen_eq (m : StrMap) : bufferLen m = toInt32 (countedLength m) := by
  have hfold : ∀ (entries : List (CString × CString)) (a : ℕ),
      entries.foldl (fun len e => toInt32 (len + (2 + 2 * (e.1.chars.length + e.2.chars.length) : ℕ))) (toInt32 a) =
        toInt32 ((a + (entries.map fun e => 2 + 2 * (e.1.chars.length + e.2.chars.length)).sum : ℕ)) := by
    intro entries
    induction entries with
    | nil =>
      intro a
      rw [List.foldl_nil, List.map_nil, List.sum_nil, Nat.add_zero]
    | cons e entries ih =>
      intro a
      rw [List.foldl_cons, toInt32_add, ← Int.natCast_add, ih, List.map_cons, List.sum_cons, Nat.add_assoc]
  exact hfold m.entries 1

theorem escape_noNul (h : ∀ c ∈ s, c ≠ NUL) : ∀ c ∈ escape s, c ≠ NUL := by
  intro c hc
  obtain ⟨a, ha, hca⟩ := List.mem_flatMap.mp hc
  split at hca
  · rcases List.mem_cons.mp hca with rfl | hca
    · decide
    · exact List.mem_singleton.mp hca ▸ h a ha
  · exact List.mem_singleton.mp hca ▸ h a ha

theorem record_noNul (e : CString × CString) : ∀ c ∈ record e, c ≠ NUL := by
  intro c hc
  rcases List.mem_append.mp hc with hc | hc
  · exact escape_noNul e.1.noNul c hc
  · rcases List.mem_cons.mp hc with rfl | hc
    · decide
    · exact escape_noNul e.2.noNul c hc

theorem records_noNul (entries : List (CString × CString)) (h : ∀ c ∈ out, c ≠ NUL) :
    ∀ c ∈ records out entries, c ≠ NUL := by
  induction entries generalizing out with
  | nil => exact h
  | cons e entries ih =>
    refine ih fun c hc => ?_
    rcases List.mem_append.mp hc with hc | hc
    · split at hc
      · rcases List.mem_append.mp hc with hc | hc
        · exact h c hc
        · exact List.mem_singleton.mp hc ▸ (by decide)
      · exact h c hc
    · exact record_noNul e c hc

/-- The string that is written -/
def written (primary : MapSetting) (m : StrMap) : CString :=
  ⟨records [] (m.entries.map (storedPair primary)), records_noNul _ fun _ hc => absurd hc List.not_mem_nil⟩

theorem takeWhile_noNul (h : ∀ c ∈ s, c ≠ NUL) : (s ++ NUL :: rest).takeWhile (· != NUL) = s := by
  rw [List.takeWhile_append_of_pos fun c hc => bne_iff_ne.mpr (h c hc),
    List.takeWhile_cons_of_neg (by simp), List.append_nil]

theorem CString.eq_of_chars {s t : CString} (h : s.chars = t.chars) : s = t := by
  cases s
  cases t
  cases h
  rfl

/-- A string is read back from a buffer up to its NUL. -/
theorem ofBuffer_append (s : CString) (rest : List Char) : CString.ofBuffer (s.chars ++ NUL :: rest) = s :=
  CString.eq_of_chars (takeWhile_noNul s.noNul)

/-- The map is written exactly if the size of the buffer fits an `int`. -/
theorem wmap_spec (primary : MapSetting) (m : StrMap) :
    if countedLength m < 2 ^ 31 then wmap primary true m = .ok (written primary m)
    else ∀ text, wmap primary true m ≠ .ok text := by
  obtain ⟨hle, hge⟩ := length_records primary m
  have hwritten : (written primary m).chars = records [] (m.entries.map (storedPair primary)) := rfl
  unfold wmap newBuffer
  rw [bufferLen_eq]
  split
  · next hfits =>
    have hlen : toInt32 (countedLength m) = countedLength m := toInt32_of_fits (by omega) (by omega)
    rw [hlen, if_pos (Int.natCast_nonneg _), ok_bind, Int.toNat_natCast, writePairs_eq _ (Nat.zero_le _)]
    unfold fitting
    rw [if_pos (by omega), ok_bind, writeChar, if_pos (by omega), ok_bind, pure_eq]
    exact congrArg Except.ok (ofBuffer_append (written primary m) [])
  · next hfits =>
    intro text
    by_cases hneg : 0 ≤ toInt32 (countedLength m)
    · -- the number went round: the buffer is smaller than half of what is written
      have hsize : ((2 ^ 32 : ℕ) : ℤ) = 4294967296 := rfl
      have hsmall : (toInt32 (countedLength m)).toNat < (records [] (m.entries.map (storedPair primary))).length := by
        unfold toInt32 at hneg ⊢
        rw [Int.bmod_def, hsize] at hneg ⊢
        split at hneg
        · next hlow =>
          rw [if_pos hlow]
          omega
        · omega
      rw [if_pos hneg, ok_bind, writePairs_eq _ (Nat.zero_le _)]
      unfold fitting
      rw [if_neg (Nat.not_le.mpr hsmall), error_bind]
      exact fun h => (nomatch h)
    · rw [if_neg hneg, error_bind]
      exact fun h => (nomatch h)

/-! ## What is read -/

theorem readField_comma : readField (',' :: rest) out val = .ok (',' :: rest, out, val) := by
  rw [readField.eq_def]
  exact if_pos rfl

theorem readField_equals : readField ('=' :: rest) out val = readField rest (out ++ [NUL]) (some (out.length + 1)) := by
  rw [readField.eq_def]
  dsimp only
  rw [if_neg (by decide), if_pos rfl]

theorem readField_backslash {c : Char} :
    readField ('\\' :: c :: rest) out val = readField rest (out ++ [c]) val := by
  rw [readField.eq_def]
  dsimp only
  rw [if_neg (by decide), if_neg (by decide), if_pos rfl]

theorem readField_plain {c : Char} (hc : special c = false) :
    readField (c :: rest) out val = readField rest (out ++ [c]) val := by
  unfold special at hc
  simp only [Bool.or_eq_false_iff, beq_eq_false_iff_ne] at hc
  obtain ⟨⟨hequals, hcomma⟩, hslash⟩ := hc
  rw [readField.eq_def]
  dsimp only
  rw [if_neg hcomma, if_neg hequals, if_neg hslash]

theorem readField_escape (s : List Char) :
    readField (escape s ++ rest) out val = readField rest (out ++ s) val := by
  induction s generalizing out with
  | nil => rw [show escape [] = [] from rfl, List.nil_append, List.append_nil]
  | cons c s ih =>
    rw [escape_cons]
    cases hc : special c with
    | true =>
      rw [if_pos rfl]
      show readField ('\\' :: c :: (escape s ++ rest)) out val = _
      rw [readField_backslash, ih, List.append_assoc]
      rfl
    | false =>
      rw [if_neg Bool.false_ne_true]
      show readField (c :: (escape s ++ rest)) out val = _
      rw [readField_plain hc, ih, List.append_assoc]
      rfl

theorem readField_record (hrest : rest = [] ∨ rest.head? = some ',') : readField (record e ++ rest) [] none =
    .ok (rest, e.1.chars ++ NUL :: e.2.chars, some (e.1.chars.length + 1)) := by
  unfold record
  rw [List.append_assoc, readField_escape, List.nil_append, List.cons_append, readField_equals,
    readField_escape, List.append_assoc]
  rcases hrest with rfl | hrest
  · rfl
  · cases rest with
    | nil => cases hrest
    | cons c rest =>
      obtain rfl := Option.some.inj hrest
      rw [readField_comma]
      rfl

/-- The pair that is put into the map for a record -/
def loadedPair (primary : MapSetting) (e : CString × CString) : CString × CString :=
  if primary = .portfwd ∧ 'D' ∈ e.1.chars then (dynamicKey e.1, dynamicValue) else e

theorem ofBuffer_chars (s : CString) : CString.ofBuffer s.chars = s :=
  CString.eq_of_chars (List.takeWhile_eq_self_iff.mpr fun c hc => bne_iff_ne.mpr (s.noNul c hc))

theorem setPair_record {m : StrMap} : setPair primary m (e.1.chars ++ NUL :: e.2.chars) (some (e.1.chars.length + 1)) =
    m.setStrStr (loadedPair primary e).1 (loadedPair primary e).2 := by
  have hdrop : (e.1.chars ++ NUL :: e.2.chars).drop (e.1.chars.length + 1) = e.2.chars := by
    rw [List.append_cons]
    exact List.drop_left' (by rw [List.length_append, List.length_singleton])
  unfold setPair loadedPair
  rw [Option.getD_some, hdrop, ofBuffer_append, ofBuffer_chars]
  dsimp only
  split <;> rfl

/-- All records are put into the map. -/
def loadAll (primary : MapSetting) (m : StrMap) (entries : List (CString × CString)) : StrMap :=
  entries.foldl (fun m e => m.setStrStr (loadedPair primary e).1 (loadedPair primary e).2) m

theorem readFields_records {rounds : ℕ} {m : StrMap} (hrounds : entries.length < rounds) :
    readFields primary rounds m (records [] entries) = .ok (loadAll primary m entries) := by
  induction entries generalizing rounds m with
  | nil =>
    obtain ⟨rounds, rfl⟩ : ∃ n, rounds = n + 1 := ⟨rounds - 1, by omega⟩
    exact if_pos rfl
  | cons e entries ih =>
    rw [List.length_cons] at hrounds
    obtain ⟨rounds, rfl⟩ : ∃ n, rounds = n + 1 := ⟨rounds - 1, by omega⟩
    have hne : records [] (e :: entries) ≠ [] := by
      rw [records_cons]
      exact List.append_ne_nil_of_left_ne_nil (List.append_ne_nil_of_right_ne_nil _ (List.cons_ne_nil _ _)) _
    have hnext : moreRecords entries = [] ∧ records [] entries = [] ∨
        moreRecords entries = ',' :: records [] entries := by
      cases entries with
      | nil => exact Or.inl ⟨rfl, rfl⟩
      | cons e' entries =>
        rw [records_cons]
        exact Or.inr List.flatMap_cons
    have hhead : moreRecords entries = [] ∨ (moreRecords entries).head? = some ',' :=
      hnext.imp And.left fun h => by rw [h, List.head?_cons]
    unfold readFields
    rw [if_neg hne, records_cons, readField_record hhead, ok_bind]
    dsimp only
    rw [setPair_record]
    have hrest : (if (moreRecords entries).head? = some ',' then (moreRecords entries).tail
        else moreRecords entries) = records [] entries := by
      rcases hnext with ⟨hmore, hrecords⟩ | hmore
      · rw [hmore, hrecords]
        rfl
      · rw [hmore]
        rfl
    rw [hrest]
    exact ih (by omega)

theorem length_le_records_nil (entries : List (CString × CString)) :
    entries.length ≤ (records [] entries).length := by
  have hmore : ∀ entries : List (CString × CString), entries.length ≤ (moreRecords entries).length := by
    intro entries
    unfold moreRecords
    induction entries with
    | nil => exact le_rfl
    | cons e entries ih =>
      rw [List.flatMap_cons, List.length_append, List.length_cons, List.length_cons]
      omega
  cases entries with
  | nil => exact le_rfl
  | cons e entries =>
    have hrest := hmore entries
    rw [records_cons, record, List.length_append, List.length_append, List.length_cons, List.length_cons]
    omega

theorem clear_eq (m : StrMap) : m.clear = StrMap.empty := by
  have hentries := StrMap.clearEntries_eq m.entries
  unfold StrMap.clear StrMap.empty
  simp only [hentries]

/-- What is read from the string that was written, into any map -/
theorem gppmap_written (primary : MapSetting) (m old : StrMap) :
    gppmap primary old (some (written primary m)) =
      .ok (true, loadAll primary StrMap.empty (m.entries.map (storedPair primary))) := by
  have hrounds := length_le_records_nil (m.entries.map (storedPair primary))
  unfold gppmap
  dsimp only
  rw [clear_eq]
  unfold written
  dsimp only
  rw [readFields_records (Nat.lt_succ_of_le hrounds), ok_bind, pure_eq]

/-! ## Round trips -/

/-- A pair that is written and read -/
def translate (primary : MapSetting) (e : CString × CString) : CString × CString :=
  loadedPair primary (storedPair primary e)

theorem mem_insertPair {key v : CString} (h : e ∈ StrMap.insertPair entries key v) :
    e = (key, v) ∨ e ∈ entries := by
  unfold StrMap.insertPair at h
  split at h
  · obtain ⟨e', he', heq⟩ := List.mem_map.mp h
    split at heq
    · exact Or.inl heq.symm
    · exact Or.inr (heq ▸ he')
  · rcases List.mem_append.mp h with h | h
    · exact Or.inr h
    · exact Or.inl (List.mem_singleton.mp h)

/-- Only pairs that were read are in the map. -/
theorem mem_loadAll {m : StrMap} (h : e ∈ (loadAll primary m entries).entries) :
    e ∈ m.entries ∨ ∃ e' ∈ entries, loadedPair primary e' = e := by
  induction entries generalizing m with
  | nil => exact Or.inl h
  | cons a entries ih =>
    rcases ih h with h | ⟨e', he', heq⟩
    · rcases mem_insertPair h with rfl | h
      · exact Or.inr ⟨a, List.mem_cons_self, rfl⟩
      · exact Or.inl h
    · exact Or.inr ⟨e', List.mem_cons_of_mem _ he', heq⟩

/-- Pairs with new keys are appended. -/
theorem loadAll_eq {m : StrMap} (hnodup : ((entries.map (loadedPair primary)).map (·.1)).Nodup)
    (hnew : ∀ e ∈ entries.map (loadedPair primary), e.1 ∉ m.entries.map (·.1)) :
    (loadAll primary m entries).entries = m.entries ++ entries.map (loadedPair primary) := by
  induction entries generalizing m with
  | nil => exact (List.append_nil _).symm
  | cons e entries ih =>
    rw [List.map_cons, List.map_cons, List.nodup_cons] at hnodup
    rw [List.map_cons] at hnew
    have hset : (m.setStrStr (loadedPair primary e).1 (loadedPair primary e).2).entries =
        m.entries ++ [loadedPair primary e] := if_neg (hnew _ List.mem_cons_self)
    have hrest := @ih (m.setStrStr (loadedPair primary e).1 (loadedPair primary e).2) hnodup.2 (by
      intro e' he'
      rw [hset, List.map_append, List.mem_append, not_or]
      refine ⟨hnew e' (List.mem_cons_of_mem _ he'), fun hsame => ?_⟩
      have hkey : e'.1 = (loadedPair primary e).1 := List.mem_singleton.mp hsame
      exact hnodup.1 (hkey ▸ List.mem_map_of_mem he'))
    rw [hset, List.append_assoc] at hrest
    exact hrest

theorem replaceFirst_of_notMem {c d : Char} (h : c ∉ s) : replaceFirst c d (s ++ c :: rest) = s ++ d :: rest := by
  induction s with
  | nil => exact if_pos rfl
  | cons a s ih =>
    obtain ⟨ha, hs⟩ := not_or.mp (mt List.mem_cons.mpr h)
    have hrest := ih hs
    rw [List.cons_append, replaceFirst, if_neg fun hac => ha hac.symm, hrest]
    rfl

/-- A dynamic forwarding is marked by the letter, and the mark is taken back. -/
theorem translate_dynamic (hform : ForwardingForm e) (hvalue : e.2 = dynamicValue) :
    translate .portfwd e = e := by
  obtain ⟨family, hfamily, type, htype, source, hkey, hlocal⟩ := hform
  obtain rfl := hlocal hvalue
  have hfamily : 'L' ∉ family ∧ 'D' ∉ family := by
    simp only [List.mem_cons, List.not_mem_nil, or_false] at hfamily
    rcases hfamily with rfl | rfl | rfl <;> decide
  have hstored : (storedKey e.1).chars = family ++ 'D' :: source := by
    unfold storedKey
    dsimp only
    rw [hkey, replaceFirst_of_notMem hfamily.1]
  have hmarked : 'D' ∈ (storedKey e.1).chars := by
    rw [hstored]
    exact List.mem_append_right _ List.mem_cons_self
  have hback : dynamicKey (storedKey e.1) = e.1 := by
    refine CString.eq_of_chars ?_
    unfold dynamicKey
    dsimp only
    rw [hstored, replaceFirst_of_notMem hfamily.2, hkey]
  have hpair : storedPair .portfwd e = (storedKey e.1, emptyString) := if_pos ⟨rfl, hvalue⟩
  unfold translate loadedPair
  rw [hpair, if_pos ⟨rfl, hmarked⟩, hback, ← hvalue]

theorem translate_plain (h : primary = .portfwd → e.2 ≠ dynamicValue ∧ 'D' ∉ e.1.chars) :
    translate primary e = e := by
  have hpair : storedPair primary e = e := if_neg fun hdynamic => (h hdynamic.1).1 hdynamic.2
  unfold translate
  rw [hpair]
  exact if_neg fun hmarked => (h hmarked.1).2 hmarked.2

/-- Each forwarding that is not dynamic has no `D` in its key. -/
def Unmarked (primary : MapSetting) (m : StrMap) : Prop :=
  primary = .portfwd → ∀ e ∈ m.entries, e.2 ≠ dynamicValue → 'D' ∉ e.1.chars

/-- A forwarding that is not dynamic is lost if its key has the letter. -/
theorem not_mem_loadAll {m : StrMap} (hvalue : e.2 ≠ dynamicValue) (hmarked : 'D' ∈ e.1.chars) :
    e ∉ (loadAll .portfwd StrMap.empty (m.entries.map (storedPair .portfwd))).entries := by
  intro he
  rcases mem_loadAll he with h | ⟨e', -, heq⟩
  · exact List.not_mem_nil h
  · unfold loadedPair at heq
    split at heq
    · exact hvalue (heq ▸ rfl)
    · next hnot => exact hnot ⟨rfl, heq ▸ hmarked⟩

theorem not_roundTrips {m old : StrMap} (he : e ∈ m.entries) (hvalue : e.2 ≠ dynamicValue)
    (hmarked : 'D' ∈ e.1.chars) : ¬RoundTrips .portfwd m old := by
  rintro ⟨text, htext, m', hm', hsame⟩
  have hwmap := wmap_spec .portfwd m
  split at hwmap
  · obtain rfl := Except.ok.inj (hwmap.symm.trans htext)
    rw [gppmap_written] at hm'
    obtain rfl := (Prod.mk.inj (Except.ok.inj hm')).2
    exact not_mem_loadAll hvalue hmarked ((hsame e).mpr he)
  · exact hwmap text htext

/-- A map is restored exactly if the size of its buffer fits an `int` and, for port forwardings, no key but that of a
dynamic one has the letter `D`. -/
theorem roundTrips_iff (primary : MapSetting) (m old : StrMap)
    (hform : primary = .portfwd → ∀ e ∈ m.entries, ForwardingForm e) :
    RoundTrips primary m old ↔ countedLength m < 2 ^ 31 ∧ Unmarked primary m := by
  have hwmap := wmap_spec primary m
  constructor
  · intro h
    constructor
    · by_contra hlong
      rw [if_neg hlong] at hwmap
      obtain ⟨text, htext, -⟩ := h
      exact hwmap text htext
    · rintro rfl e he hvalue hmarked
      exact not_roundTrips he hvalue hmarked h
  · rintro ⟨hlen, hunmarked⟩
    rw [if_pos hlen] at hwmap
    refine ⟨_, hwmap, _, gppmap_written primary m old, fun e => ?_⟩
    have hid : (m.entries.map (storedPair primary)).map (loadedPair primary) = m.entries := by
      rw [List.map_map]
      refine (List.map_congr_left fun e he => ?_).trans (List.map_id m.entries)
      show translate primary e = e
      by_cases hdynamic : primary = .portfwd ∧ e.2 = dynamicValue
      · obtain ⟨rfl, hvalue⟩ := hdynamic
        exact translate_dynamic (hform rfl e he) hvalue
      · refine translate_plain fun hprimary => ?_
        have hvalue : e.2 ≠ dynamicValue := fun hvalue => hdynamic ⟨hprimary, hvalue⟩
        exact ⟨hvalue, hunmarked hprimary e he hvalue⟩
    have hload : (loadAll primary StrMap.empty (m.entries.map (storedPair primary))).entries = m.entries := by
      have hall := @loadAll_eq primary (m.entries.map (storedPair primary)) StrMap.empty (by rw [hid]; exact m.distinct)
        fun e he => List.not_mem_nil
      rw [hall, hid]
      rfl
    rw [hload]

/-- A map with one pair -/
def onePair (key val : CString) : StrMap := ⟨[(key, val)], List.nodup_singleton key⟩

def sampleKey : CString := ⟨"4Llocalhost:80".toList, noNul_of_all rfl⟩

theorem sampleKey_form : ForwardingForm (sampleKey, dynamicValue) :=
  ⟨['4'], by decide, 'L', by decide, "localhost:80".toList, rfl, fun _ => rfl⟩

/-- A dynamic forwarding is restored, in place of what was there. -/
theorem roundTrips_dynamic : RoundTrips .portfwd (onePair sampleKey dynamicValue) (onePair sampleKey emptyString) :=
  (roundTrips_iff .portfwd _ _ fun _ e he => by
    rw [show e = (sampleKey, dynamicValue) from List.mem_singleton.mp he]
    exact sampleKey_form).mpr
    ⟨by decide, fun _ e he hvalue => absurd (congrArg Prod.snd (List.mem_singleton.mp he)) hvalue⟩

def hostKey : CString := ⟨"LDESKTOP:80".toList, noNul_of_all rfl⟩

def hostValue : CString := ⟨"host:80".toList, noNul_of_all rfl⟩

/-- A forwarding from a host with the letter in its name becomes a dynamic one. -/
theorem roundTrips_host : ForwardingForm (hostKey, hostValue) ∧
    ¬RoundTrips .portfwd (onePair hostKey hostValue) StrMap.empty :=
  ⟨⟨[], by decide, 'L', by decide, "DESKTOP:80".toList, rfl, fun h => absurd h (by decide)⟩,
    not_roundTrips (e := (hostKey, hostValue)) List.mem_cons_self (by decide) (by decide)⟩

end PuttyNd.Settings
