import Mathlib.Tactic.IntervalCases
import PuttyNd.Terminal.Utf8

/-!
# What the translation yields

Between two bytes the state stands for the bytes of a sequence that is not complete yet, and these are decoded
with the next byte. So the translation decodes as the reference does, but for the line separators: the character
that they become is less than 0xA0 and is replaced.
-/

namespace PuttyNd.Terminal

open Memory Psftp Transducer

variable {unitabCtrl : ℕ → ℕ} {separator n : ℕ} {b lead : UInt8} {cont rest bytes : List UInt8}

/-! ## Masks -/

theorem mask_lead : ∀ c < 256, ¬c < 0x80 → (c &&& 0xe0 = 0xc0 ↔ 0xC0 ≤ c ∧ c < 0xE0) ∧
    (c &&& 0xf0 = 0xe0 ↔ 0xE0 ≤ c ∧ c < 0xF0) ∧ (c &&& 0xf8 = 0xf0 ↔ 0xF0 ≤ c ∧ c < 0xF8) ∧
    (c &&& 0xfc = 0xf8 ↔ 0xF8 ≤ c ∧ c < 0xFC) ∧ (c &&& 0xfe = 0xfc ↔ 0xFC ≤ c ∧ c < 0xFE) := by
  decide +kernel

theorem mask_continuation : ∀ c < 256, (c &&& 0xC0 = 0x80 ↔ 0x80 ≤ c ∧ c < 0xC0) := by decide +kernel

theorem isContinuation_iff : isContinuation b = true ↔ b.toNat &&& 0xC0 = 0x80 := by
  rw [mask_continuation b.toNat b.toNat_lt]
  exact decide_eq_true_iff

theorem following_le (h : following b = some n) : 1 ≤ n ∧ n ≤ 5 := by
  unfold following at h
  split_ifs at h <;> cases h <;> decide

/-- The first byte as case 0 reads it -/
theorem translateFirst_eq (s : UtfState) (h : ¬b.toNat < 0x80) : translateFirst unitabCtrl s b.toNat =
    match following b with
    | none => (s, some UCSERR)
    | some n => (⟨n, sequenceValue n b [], n⟩, none) := by
  obtain ⟨h1, h2, h3, h4, h5⟩ := mask_lead b.toNat b.toNat_lt h
  unfold translateFirst following
  rw [if_neg h]
  simp only [h1, h2, h3, h4, h5]
  split_ifs <;> simp only [sequenceValue, List.foldl_nil]
  · exact congrArg (fun v => ((⟨1, v, 1⟩ : UtfState), (none : Option ℕ))) (Nat.and_two_pow_sub_one_eq_mod _ 5)
  · exact congrArg (fun v => ((⟨2, v, 2⟩ : UtfState), (none : Option ℕ))) (Nat.and_two_pow_sub_one_eq_mod _ 4)
  · exact congrArg (fun v => ((⟨3, v, 3⟩ : UtfState), (none : Option ℕ))) (Nat.and_two_pow_sub_one_eq_mod _ 3)
  · exact congrArg (fun v => ((⟨4, v, 4⟩ : UtfState), (none : Option ℕ))) (Nat.and_two_pow_sub_one_eq_mod _ 2)
  · exact congrArg (fun v => ((⟨5, v, 5⟩ : UtfState), (none : Option ℕ))) (Nat.and_two_pow_sub_one_eq_mod _ 1)

theorem sequenceValue_append : sequenceValue n lead (cont ++ [b]) =
    (sequenceValue n lead cont <<< 6) ||| (b.toNat &&& 0x3f) := by
  have hlow : b.toNat &&& 0x3f = b.toNat % 64 := Nat.and_two_pow_sub_one_eq_mod _ 6
  have hlt : b.toNat % 64 < 2 ^ 6 := Nat.mod_lt _ (by decide)
  rw [hlow, ← Nat.shiftLeft_add_eq_or_of_lt hlt, Nat.shiftLeft_eq]
  exact List.foldl_append

/-! ## The chain of tests -/

theorem overlong_iff {c : ℕ} (hn : 1 ≤ n ∧ n ≤ 5) : overlong n c ↔ c < leastValue n := by
  obtain ⟨hpos, hle⟩ := hn
  unfold overlong
  interval_cases n <;> simp only [leastValue] <;> omega

/-- The line separators are taken for controls. -/
theorem finishSequence_eq {c : ℕ} (hn : 1 ≤ n ∧ n ≤ 5) : finishSequence n c =
    if c < leastValue n then some UCSERR else yields 0xFFFD c := by
  have herr : UCSERR = 0xD961 := rfl
  unfold finishSequence yields
  by_cases hover : c < leastValue n
  · rw [if_pos ((overlong_iff hn).mpr hover), if_pos hover]
    decide
  rw [if_neg (mt (overlong_iff hn).mp hover), if_neg hover]
  dsimp only
  by_cases hsep : lineSeparator c
  · rw [if_pos (show c = 0x2028 ∨ c = 0x2029 from hsep), if_pos hsep]
    decide
  rw [if_neg (show ¬(c = 0x2028 ∨ c = 0x2029) from hsep), if_neg hsep]
  by_cases hcontrol : c < 0xA0
  · rw [if_pos hcontrol, if_pos hcontrol]
    decide
  rw [if_neg hcontrol, if_neg hcontrol]
  by_cases hsurrogate : 0xD800 ≤ c ∧ c < 0xE000
  · rw [if_pos hsurrogate, if_pos (Or.inl hsurrogate)]
    decide
  rw [if_neg hsurrogate]
  by_cases hlarge : c > 0x10FFFF
  · have herror : (0xD800 ≤ c ∧ c < 0xE000) ∨ c = 0xFFFE ∨ c = 0xFFFF ∨ c > 0x10FFFF := by omega
    rw [if_pos hlarge, if_pos herror]
    decide
  rw [if_neg hlarge]
  by_cases htag : 0xE0000 ≤ c ∧ c ≤ 0xE007F
  · rw [if_pos htag, if_neg (by omega), if_pos (Or.inr htag)]
  rw [if_neg htag]
  by_cases hnull : c = 0xFEFF
  · rw [if_pos hnull, if_neg (by omega), if_pos (Or.inl hnull)]
  rw [if_neg hnull]
  by_cases hlast : c = 0xFFFE ∨ c = 0xFFFF
  · rw [if_pos hlast, if_pos (by omega)]
  · rw [if_neg hlast, if_neg (by omega), if_neg (by omega)]

/-! ## The reference decoder -/

/-- The bytes after the first one of a sequence, as far as they are there -/
def Continues (cont : List UInt8) : Prop := ∀ b ∈ cont, isContinuation b = true

theorem not_ascii (h : following lead = some n) : ¬lead.toNat < 0x80 := by
  unfold following at h
  split_ifs at h <;> omega

/-- What a sequence that is complete yields -/
def sequenceYields (separator n : ℕ) (lead : UInt8) (cont : List UInt8) : Option ℕ :=
  if sequenceValue n lead cont < leastValue n then some UCSERR else yields separator (sequenceValue n lead cont)

theorem takeWhile_continues (hall : Continues cont) (hlen : cont.length ≤ n)
    (hrest : cont.length = n ∨ ∀ b ∈ rest.head?, isContinuation b = false) :
    ((cont ++ rest).take n).takeWhile isContinuation = cont := by
  rw [List.take_append, List.take_of_length_le hlen, List.takeWhile_append_of_pos hall]
  rcases hrest with rfl | hrest
  · rw [Nat.sub_self, List.take_zero, List.takeWhile_nil, List.append_nil]
  · cases rest with
    | nil => rw [List.take_nil, List.takeWhile_nil, List.append_nil]
    | cons b rest =>
      have hb : isContinuation b = false := hrest b rfl
      cases hm : n - cont.length with
      | zero => rw [List.take_zero, List.takeWhile_nil, List.append_nil]
      | succ m => rw [List.take_succ_cons, List.takeWhile_cons_of_neg (Bool.eq_false_iff.mp hb), List.append_nil]

theorem decodeUtf8_complete (hlead : following lead = some n) (hall : Continues cont) (hlen : cont.length = n) :
    decodeUtf8 unitabCtrl separator (lead :: (cont ++ rest)) =
      (sequenceYields separator n lead cont).toList ++ decodeUtf8 unitabCtrl separator rest := by
  rw [decodeUtf8, if_neg (not_ascii hlead), hlead]
  dsimp only
  rw [takeWhile_continues hall hlen.le (Or.inl hlen), if_pos hlen, List.drop_left' hlen]
  rfl

theorem decodeUtf8_cut (hlead : following lead = some n) (hall : Continues cont) (hlen : cont.length < n)
    (hb : isContinuation b = false) :
    decodeUtf8 unitabCtrl separator (lead :: (cont ++ b :: rest)) =
      UCSERR :: decodeUtf8 unitabCtrl separator (b :: rest) := by
  rw [decodeUtf8, if_neg (not_ascii hlead), hlead]
  dsimp only
  have hcut : ∀ b' ∈ (b :: rest).head?, isContinuation b' = false := fun b' hb' => Option.some.inj hb' ▸ hb
  have hmore : ¬(cont ++ b :: rest).length = cont.length := by
    rw [List.length_append, List.length_cons]
    omega
  rw [takeWhile_continues hall hlen.le (Or.inr hcut), if_neg hlen.ne, if_neg hmore, List.drop_left]

theorem decodeUtf8_pending (hlead : following lead = some n) (hall : Continues cont) (hlen : cont.length < n) :
    decodeUtf8 unitabCtrl separator (lead :: cont) = [] := by
  have hstop : ((cont ++ []).take n).takeWhile isContinuation = cont :=
    takeWhile_continues hall hlen.le (Or.inr fun b hb => absurd hb (Option.not_mem_none b))
  rw [List.append_nil] at hstop
  rw [decodeUtf8, if_neg (not_ascii hlead), hlead]
  dsimp only
  rw [hstop, if_neg hlen.ne, if_pos rfl]

theorem decodeUtf8_ascii (h : b.toNat < 0x80) : decodeUtf8 unitabCtrl separator (b :: rest) =
    asciiChar unitabCtrl b.toNat :: decodeUtf8 unitabCtrl separator rest := by
  rw [decodeUtf8, if_pos h]

theorem decodeUtf8_stray (h : ¬b.toNat < 0x80) (hnone : following b = none) :
    decodeUtf8 unitabCtrl separator (b :: rest) = UCSERR :: decodeUtf8 unitabCtrl separator rest := by
  rw [decodeUtf8, if_neg h, hnone]

/-! ## Byte by byte -/

/-- One byte of the data, also if it is put back -/
def feed (unitabCtrl : ℕ → ℕ) (s : UtfState) (b : UInt8) : UtfState × List ℕ :=
  let r := translate unitabCtrl s b.toNat
  match r.2.2 with
  | none => (r.1, r.2.1.toList)
  | some c =>
    let again := translate unitabCtrl r.1 c
    (again.1, r.2.1.toList ++ again.2.1.toList)

theorem feed_of_none {s : UtfState} (h : (translate unitabCtrl s b.toNat).2.2 = none) : feed unitabCtrl s b =
    ((translate unitabCtrl s b.toNat).1, (translate unitabCtrl s b.toNat).2.1.toList) := by
  unfold feed
  dsimp only
  rw [h]

theorem feed_of_some {s : UtfState} {c : ℕ} (h : (translate unitabCtrl s b.toNat).2.2 = some c) :
    feed unitabCtrl s b =
      let again := translate unitabCtrl (translate unitabCtrl s b.toNat).1 c
      (again.1, (translate unitabCtrl s b.toNat).2.1.toList ++ again.2.1.toList) := by
  unfold feed
  dsimp only
  rw [h]

theorem feed_first {s : UtfState} (hs : s.utfState = 0) : feed unitabCtrl s b =
    ((translateFirst unitabCtrl s b.toNat).1, (translateFirst unitabCtrl s b.toNat).2.toList) := by
  unfold feed translate
  rw [if_pos hs]

theorem feed_putBack {s : UtfState} (hs : s.utfState ≠ 0) (hb : isContinuation b = false) :
    feed unitabCtrl s b = ((feed unitabCtrl { s with utfState := 0 } b).1,
      UCSERR :: (feed unitabCtrl { s with utfState := 0 } b).2) := by
  have hmask : b.toNat &&& 0xC0 ≠ 0x80 := mt isContinuation_iff.mpr (Bool.eq_false_iff.mp hb)
  have hback : translate unitabCtrl s b.toNat = ({ s with utfState := 0 }, some UCSERR, some b.toNat) := by
    unfold translate translateNext
    rw [if_neg hs, if_pos hmask]
  rw [feed_first (s := { s with utfState := 0 }) rfl]
  unfold feed
  rw [hback]
  rfl

theorem feed_continuation {s : UtfState} (hs : s.utfState ≠ 0) (hb : isContinuation b = true) :
    feed unitabCtrl s b =
      let s' : UtfState := ⟨s.utfState - 1, (s.utfChar <<< 6) ||| (b.toNat &&& 0x3f), s.utfSize⟩
      if s'.utfState ≠ 0 then (s', []) else (s', (finishSequence s'.utfSize s'.utfChar).toList) := by
  unfold feed translate translateNext
  rw [if_neg hs, if_neg (not_not_intro (isContinuation_iff.mp hb))]
  dsimp only
  split_ifs <;> rfl

/-- The bytes that the state stands for -/
def Pending (s : UtfState) : List UInt8 → Prop
  | [] => s.utfState = 0
  | lead :: cont => ∃ n, following lead = some n ∧ Continues cont ∧ cont.length < n ∧
      s = ⟨n - cont.length, sequenceValue n lead cont, n⟩

theorem decodeUtf8_of_pending {s : UtfState} (h : Pending s bytes) :
    decodeUtf8 unitabCtrl separator bytes = [] := by
  cases bytes with
  | nil => rw [decodeUtf8]
  | cons lead cont =>
    obtain ⟨n, hlead, hall, hlen, -⟩ := h
    exact decodeUtf8_pending hlead hall hlen

theorem feed_decodes_first {s : UtfState} (hs : s.utfState = 0) (b : UInt8) :
    ∃ pending, Pending (feed unitabCtrl s b).1 pending ∧ ∀ rest, decodeUtf8 unitabCtrl 0xFFFD (b :: rest) =
      (feed unitabCtrl s b).2 ++ decodeUtf8 unitabCtrl 0xFFFD (pending ++ rest) := by
  rw [feed_first hs]
  by_cases hascii : b.toNat < 0x80
  · refine ⟨[], ?_, fun rest => ?_⟩
    · unfold translateFirst
      rw [if_pos hascii]
      exact hs
    · unfold translateFirst
      rw [if_pos hascii]
      exact decodeUtf8_ascii hascii
  rw [translateFirst_eq s hascii]
  cases hfollowing : following b with
  | none => exact ⟨[], hs, fun rest => decodeUtf8_stray hascii hfollowing⟩
  | some n =>
    have hpos : 1 ≤ n := (following_le hfollowing).1
    exact ⟨[b], ⟨n, hfollowing, fun _ h => absurd h List.not_mem_nil, hpos, rfl⟩, fun rest => rfl⟩

/-- A byte is decoded after those that are pending. -/
theorem feed_decodes : Decodes (feed unitabCtrl) Pending (decodeUtf8 unitabCtrl 0xFFFD) := by
  intro s pending b hs
  cases pending with
  | nil => exact feed_decodes_first hs b
  | cons lead cont =>
    obtain ⟨n, hlead, hall, hlen, rfl⟩ := hs
    have hstate : n - cont.length ≠ 0 := by omega
    cases hb : isContinuation b with
    | false =>
      rw [feed_putBack hstate hb]
      dsimp only
      obtain ⟨pending, hpending, hdecode⟩ := @feed_decodes_first unitabCtrl ⟨0, sequenceValue n lead cont, n⟩ rfl b
      refine ⟨pending, hpending, fun rest => ?_⟩
      rw [List.cons_append, decodeUtf8_cut hlead hall hlen hb, hdecode rest]
      rfl
    | true =>
      have hall' : Continues (cont ++ [b]) := by
        intro b' hb'
        rcases List.mem_append.mp hb' with hb' | hb'
        · exact hall b' hb'
        · exact List.mem_singleton.mp hb' ▸ hb
      rw [feed_continuation hstate hb, ← sequenceValue_append]
      dsimp only
      by_cases hmore : n - cont.length - 1 ≠ 0
      · rw [if_pos hmore]
        refine ⟨lead :: (cont ++ [b]), ⟨n, hlead, hall', ?_, ?_⟩, fun rest => ?_⟩
        · rw [List.length_append, List.length_singleton]
          omega
        · rw [List.length_append, List.length_singleton, Nat.sub_sub]
        · rw [List.cons_append, List.cons_append, List.append_assoc]
          rfl
      · rw [if_neg hmore]
        have hcomplete : (cont ++ [b]).length = n := by
          rw [List.length_append, List.length_singleton]
          omega
        refine ⟨[], not_not.mp hmore, fun rest => ?_⟩
        rw [List.cons_append, List.append_cons, decodeUtf8_complete hlead hall' hcomplete,
          finishSequence_eq (following_le hlead)]
        rfl

/-! ## The input loop -/

theorem translate_again {s : UtfState} {c c' : ℕ} (h : (translate unitabCtrl s c).2.2 = some c') :
    (translate unitabCtrl (translate unitabCtrl s c).1 c').2.2 = none := by
  have hstate : (translate unitabCtrl s c).1.utfState = 0 := by
    unfold translate translateNext at h ⊢
    by_cases hs : s.utfState = 0
    · rw [if_pos hs] at h
      cases h
    · rw [if_neg hs] at h ⊢
      by_cases hmask : c &&& 0xC0 ≠ 0x80
      · rw [if_pos hmask]
      · rw [if_neg hmask] at h
        dsimp only at h
        split_ifs at h
  generalize (translate unitabCtrl s c).1 = s' at hstate
  unfold translate
  rw [if_pos hstate]

/-- What the loop does with the next byte, in one or two rounds -/
theorem termOutLoop_byte {rounds : ℕ} {term : Input} {chars : List UInt8}
    (hdata : chars ++ term.inbuf.contents = b :: rest) : ∃ inbuf chars' spare, chars' ++ inbuf.contents = rest ∧
      termOutLoop unitabCtrl (rounds + 1 + 1) term chars none = do
        let later ← termOutLoop unitabCtrl (rounds + spare) ⟨(feed unitabCtrl term.utf b).1, inbuf⟩ chars' none
        return (later.1, (feed unitabCtrl term.utf b).2 ++ later.2) := by
  have hmore : chars.length > 0 ∨ (none : Option ℕ) ≠ none ∨ term.inbuf.size > 0 := by
    have hlen := congrArg List.length hdata
    rw [List.length_append, List.length_cons, ← Bufchain.size_eq] at hlen
    omega
  obtain ⟨inbuf, chars', hinbuf, hchars, hrest⟩ : ∃ inbuf chars',
      inbuf = (if chars = [] then term.inbuf.consume (term.inbuf.front.take localbufSize).length else term.inbuf) ∧
      b :: chars' = (if chars = [] then term.inbuf.front.take localbufSize else chars) ∧
      chars' ++ inbuf.contents = rest := by
    by_cases hchars : chars = []
    · rw [if_pos hchars, if_pos hchars]
      rw [hchars, List.nil_append] at hdata
      have hne : term.inbuf.front.take localbufSize ≠ [] := by
        rw [ne_eq, List.take_eq_nil_iff, not_or]
        exact ⟨by decide, Bufchain.front_ne_nil (hdata ▸ List.cons_ne_nil b rest)⟩
      have hprefix : term.inbuf.front.take localbufSize <+: b :: rest :=
        hdata ▸ (List.take_prefix _ _).trans Bufchain.front_prefix
      obtain ⟨c, chars', hfront⟩ := List.exists_cons_of_ne_nil hne
      rw [hfront] at hprefix ⊢
      obtain ⟨rfl, tail, rfl⟩ := List.cons_prefix_cons.mp hprefix
      refine ⟨_, chars', rfl, rfl, ?_⟩
      rw [Bufchain.contents_consume, hdata, List.length_cons, List.drop_succ_cons, List.drop_left]
    · rw [if_neg hchars, if_neg hchars]
      obtain ⟨c, chars', rfl⟩ := List.exists_cons_of_ne_nil hchars
      obtain ⟨rfl, rfl⟩ := List.cons_eq_cons.mp hdata
      exact ⟨_, chars', rfl, rfl, rfl⟩
  rw [termOutLoop, if_pos hmore]
  dsimp only
  rw [← hinbuf, ← hchars]
  dsimp only [List.headD_cons, List.tail_cons]
  cases hback : (translate unitabCtrl term.utf b.toNat).2.2 with
  | none =>
    rw [feed_of_none hback]
    exact ⟨inbuf, chars', 1, hrest, rfl⟩
  | some c =>
    have hagain := translate_again hback
    rw [feed_of_some hback]
    refine ⟨inbuf, chars', 0, hrest, ?_⟩
    rw [termOutLoop, if_pos (Or.inr (Or.inl (Option.some_ne_none c)))]
    dsimp only
    rw [hagain, Nat.add_zero]
    cases termOutLoop unitabCtrl rounds ⟨(translate unitabCtrl (translate unitabCtrl term.utf b.toNat).1 c).1, inbuf⟩
        chars' none with
    | error fault => rfl
    | ok later => exact congrArg (fun out => Except.ok (later.1, out)) (List.append_assoc _ _ _).symm

theorem termOutLoop_eq (data : List UInt8) {rounds : ℕ} {term : Input} {chars : List UInt8}
    (hdata : chars ++ term.inbuf.contents = data) (hrounds : 2 * data.length < rounds) :
    ∃ inbuf, inbuf.contents = [] ∧ termOutLoop unitabCtrl rounds term chars none =
      .ok (⟨(run (feed unitabCtrl) term.utf data).1, inbuf⟩, (run (feed unitabCtrl) term.utf data).2) := by
  induction data generalizing rounds term chars with
  | nil =>
    obtain ⟨rfl, hempty⟩ := List.append_eq_nil_iff.mp hdata
    obtain ⟨rounds, rfl⟩ : ∃ m, rounds = m + 1 := ⟨rounds - 1, by omega⟩
    have hnone : ¬(([] : List UInt8).length > 0 ∨ (none : Option ℕ) ≠ none ∨ term.inbuf.size > 0) := by
      rw [Bufchain.contents_eq_nil.mp hempty]
      simp
    refine ⟨term.inbuf, hempty, ?_⟩
    rw [termOutLoop, if_neg hnone, run_nil]
  | cons b rest ih =>
    rw [List.length_cons] at hrounds
    obtain ⟨rounds, rfl⟩ : ∃ m, rounds = m + 1 + 1 := ⟨rounds - 2, by omega⟩
    obtain ⟨inbuf, chars', spare, hrest, hround⟩ := @termOutLoop_byte unitabCtrl b rest rounds term chars hdata
    have hrounds' : 2 * rest.length < rounds + spare := by omega
    obtain ⟨inbuf', hempty, hrun⟩ := @ih _ ⟨(feed unitabCtrl term.utf b).1, inbuf⟩ chars' hrest hrounds'
    refine ⟨inbuf', hempty, ?_⟩
    rw [hround, hrun, run_cons]
    rfl

theorem termDataAll_eq (chunks : List (List UInt8)) {term : Input} (hempty : term.inbuf.contents = []) :
    ∃ inbuf, termDataAll unitabCtrl term chunks =
      .ok (⟨(run (feed unitabCtrl) term.utf chunks.flatten).1, inbuf⟩,
        (run (feed unitabCtrl) term.utf chunks.flatten).2) := by
  induction chunks generalizing term with
  | nil => exact ⟨term.inbuf, rfl⟩
  | cons data chunks ih =>
    have hadd : [] ++ (term.inbuf.add data).contents = data := by
      rw [Bufchain.contents_add, hempty, List.nil_append, List.nil_append]
    have hrounds : 2 * data.length < 2 * (term.inbuf.add data).size + 1 := by
      rw [Bufchain.size_eq, ← List.nil_append (Bufchain.contents _), hadd]
      exact Nat.lt_succ_self _
    obtain ⟨inbuf, hinbuf, hdata⟩ := @termOutLoop_eq unitabCtrl data _
      { term with inbuf := term.inbuf.add data } [] hadd hrounds
    obtain ⟨inbuf', hchunks⟩ := @ih ⟨(run (feed unitabCtrl) term.utf data).1, inbuf⟩ hinbuf
    refine ⟨inbuf', ?_⟩
    unfold termDataAll termData termOut
    rw [hdata, List.flatten_cons, run_append]
    dsimp only [bind, Except.bind]
    rw [hchunks]
    rfl

theorem termDataAll_initialInput (chunks : List (List UInt8)) :
    ∃ term, termDataAll unitabCtrl initialInput chunks =
      .ok (term, decodeUtf8 unitabCtrl 0xFFFD chunks.flatten) := by
  obtain ⟨inbuf, hdata⟩ := @termDataAll_eq unitabCtrl chunks initialInput rfl
  have hempty : Pending initialInput.utf [] := rfl
  obtain ⟨pending, hpending, hrun⟩ := (@feed_decodes unitabCtrl).run chunks.flatten hempty
  have hdecode := hrun []
  rw [List.append_nil, List.append_nil, List.nil_append, decodeUtf8_of_pending hpending,
    List.append_nil] at hdecode
  rw [hdecode]
  exact ⟨_, hdata⟩

/-! ## The line separators -/

/-- The bytes start with those of a separator. -/
def StartsSeparator (bytes : List UInt8) : Prop := [0xE2, 0x80, 0xA8] <+: bytes ∨ [0xE2, 0x80, 0xA9] <+: bytes

theorem hasSeparator_nil : ¬HasSeparator [] := by
  unfold HasSeparator
  simp

theorem hasSeparator_cons : HasSeparator (b :: rest) ↔ StartsSeparator (b :: rest) ∨ HasSeparator rest := by
  unfold HasSeparator StartsSeparator
  rw [List.infix_cons_iff, List.infix_cons_iff]
  exact or_or_or_comm

theorem StartsSeparator.head (h : StartsSeparator (b :: rest)) : b = 0xE2 := by
  rcases h with h | h <;> exact (List.cons_prefix_cons.mp h).1.symm

theorem hasSeparator_cons_of_ne (hb : b ≠ 0xE2) : HasSeparator (b :: rest) ↔ HasSeparator rest := by
  rw [hasSeparator_cons]
  exact or_iff_right fun h => hb h.head

theorem hasSeparator_append (hall : Continues cont) : HasSeparator (cont ++ rest) ↔ HasSeparator rest := by
  induction cont with
  | nil => rfl
  | cons b cont ih =>
    have hb : b ≠ 0xE2 := by
      rintro rfl
      exact absurd (hall _ List.mem_cons_self) (by decide)
    rw [List.cons_append, hasSeparator_cons_of_ne hb]
    exact ih fun b' hb' => hall b' (List.mem_cons_of_mem _ hb')

theorem following_eq_two (h : following lead = some 2) : 0xE0 ≤ lead.toNat ∧ lead.toNat < 0xF0 := by
  unfold following at h
  split_ifs at h <;> first | assumption | cases h

theorem continues_range (hall : Continues cont) (hb : b ∈ cont) : 0x80 ≤ b.toNat ∧ b.toNat < 0xC0 :=
  of_decide_eq_true (hall b hb)

/-- Two bytes after the first one -/
theorem sequenceValue_two {x y : UInt8} :
    sequenceValue 2 lead [x, y] = (lead.toNat % 16 * 64 + x.toNat % 64) * 64 + y.toNat % 64 := rfl

theorem two_of_lineSeparator (hn : 1 ≤ n ∧ n ≤ 5) (hlen : cont.length = n)
    (hshort : ¬sequenceValue n lead cont < leastValue n) (hsep : lineSeparator (sequenceValue n lead cont)) :
    n = 2 := by
  obtain ⟨hpos, hle⟩ := hn
  unfold lineSeparator at hsep
  by_cases hone : n = 1
  · subst hone
    obtain ⟨x, rfl⟩ := List.length_eq_one_iff.mp hlen
    have hvalue : sequenceValue 1 lead [x] = lead.toNat % 32 * 64 + x.toNat % 64 := rfl
    omega
  · by_contra htwo
    have hleast : 0x10000 ≤ leastValue n := by
      have hn : n = 3 ∨ n = 4 ∨ n = 5 := by omega
      rcases hn with rfl | rfl | rfl <;> decide
    omega

/-- The sequences of the separators, in the shortest form -/
theorem startsSeparator_complete (hlead : following lead = some n) (hall : Continues cont)
    (hlen : cont.length = n) : StartsSeparator (lead :: (cont ++ rest)) ↔
      ¬sequenceValue n lead cont < leastValue n ∧ lineSeparator (sequenceValue n lead cont) := by
  constructor
  · intro h
    obtain rfl := h.head
    obtain rfl : n = 2 := (Option.some.inj hlead).symm
    obtain ⟨x, y, rfl⟩ := List.length_eq_two.mp hlen
    rcases h with h | h
    · obtain ⟨hx, htail⟩ := List.cons_prefix_cons.mp (List.cons_prefix_cons.mp h).2
      obtain ⟨hy, -⟩ := List.cons_prefix_cons.mp htail
      rw [← hx, ← hy]
      decide
    · obtain ⟨hx, htail⟩ := List.cons_prefix_cons.mp (List.cons_prefix_cons.mp h).2
      obtain ⟨hy, -⟩ := List.cons_prefix_cons.mp htail
      rw [← hx, ← hy]
      decide
  · rintro ⟨hshort, hsep⟩
    obtain rfl := two_of_lineSeparator (following_le hlead) hlen hshort hsep
    obtain ⟨x, y, rfl⟩ := List.length_eq_two.mp hlen
    obtain ⟨hlow, hhigh⟩ := following_eq_two hlead
    obtain ⟨hx, hx'⟩ := continues_range (b := x) hall List.mem_cons_self
    obtain ⟨hy, hy'⟩ := continues_range (b := y) hall (List.mem_cons_of_mem _ List.mem_cons_self)
    unfold lineSeparator at hsep
    rw [sequenceValue_two] at hsep
    have hlead' : lead = 0xE2 := UInt8.toNat_inj.mp (show lead.toNat = 0xE2 by omega)
    have hx'' : x = 0x80 := UInt8.toNat_inj.mp (show x.toNat = 0x80 by omega)
    have hy'' : y = 0xA8 ∨ y = 0xA9 := by
      rcases hsep with hsep | hsep
      · exact Or.inl (UInt8.toNat_inj.mp (show y.toNat = 0xA8 by omega))
      · exact Or.inr (UInt8.toNat_inj.mp (show y.toNat = 0xA9 by omega))
    rw [hlead', hx'']
    rcases hy'' with rfl | rfl
    · exact Or.inl (List.prefix_append [0xE2, 0x80, 0xA8] rest)
    · exact Or.inr (List.prefix_append [0xE2, 0x80, 0xA9] rest)

/-- A sequence that is cut short is not that of a separator. -/
theorem not_startsSeparator (hlead : following lead = some n) (hlen : cont.length < n)
    (hrest : ∀ b ∈ rest.head?, isContinuation b = false) : ¬StartsSeparator (lead :: (cont ++ rest)) := by
  intro h
  obtain rfl := h.head
  obtain rfl : n = 2 := (Option.some.inj hlead).symm
  have htwo : ∃ x y tail, cont ++ rest = x :: y :: tail ∧ isContinuation x = true ∧ isContinuation y = true := by
    rcases h with ⟨tail, h⟩ | ⟨tail, h⟩
    · exact ⟨0x80, 0xA8, tail, (List.cons_eq_cons.mp h).2.symm, by decide, by decide⟩
    · exact ⟨0x80, 0xA9, tail, (List.cons_eq_cons.mp h).2.symm, by decide, by decide⟩
  obtain ⟨x, y, tail, htwo, hx, hy⟩ := htwo
  cases cont with
  | nil =>
    rw [List.nil_append] at htwo
    subst htwo
    exact Bool.false_ne_true ((hrest x rfl).symm.trans hx)
  | cons b cont =>
    obtain rfl : cont = [] := List.length_eq_zero_iff.mp (by rw [List.length_cons] at hlen; omega)
    obtain ⟨rfl, rfl⟩ := List.cons_eq_cons.mp htwo
    exact Bool.false_ne_true ((hrest y rfl).symm.trans hy)

/-- The bytes after the first one, as many as there are and at most `n` -/
theorem exists_continues (n : ℕ) (rest : List UInt8) : ∃ cont tail, rest = cont ++ tail ∧ Continues cont ∧
    (cont.length = n ∨ cont.length < n ∧ ∀ b ∈ tail.head?, isContinuation b = false) := by
  induction n generalizing rest with
  | zero => exact ⟨[], rest, rfl, fun _ h => absurd h List.not_mem_nil, Or.inl rfl⟩
  | succ n ih =>
    cases rest with
    | nil => exact ⟨[], [], rfl, fun _ h => absurd h List.not_mem_nil,
        Or.inr ⟨Nat.succ_pos n, fun b hb => absurd hb (Option.not_mem_none b)⟩⟩
    | cons b rest =>
      cases hb : isContinuation b with
      | false => exact ⟨[], b :: rest, rfl, fun _ h => absurd h List.not_mem_nil,
          Or.inr ⟨Nat.succ_pos n, fun b' hb' => Option.some.inj hb' ▸ hb⟩⟩
      | true =>
        obtain ⟨cont, tail, rfl, hall, hlen⟩ := ih rest
        refine ⟨b :: cont, tail, rfl, List.forall_mem_cons.mpr ⟨hb, hall⟩, ?_⟩
        rw [List.length_cons]
        exact hlen.imp (congrArg _) (And.imp_left Nat.succ_lt_succ)

theorem sequenceYields_append_eq_iff {l l' : List ℕ} :
    (sequenceYields 0xFFFD n lead cont).toList ++ l = (sequenceYields NEL n lead cont).toList ++ l' ↔
      ¬(¬sequenceValue n lead cont < leastValue n ∧ lineSeparator (sequenceValue n lead cont)) ∧ l = l' := by
  unfold sequenceYields yields
  by_cases hover : sequenceValue n lead cont < leastValue n
  · rw [if_pos hover, if_pos hover, List.append_cancel_left_eq]
    exact (and_iff_right fun h => h.1 hover).symm
  rw [if_neg hover, if_neg hover]
  by_cases hsep : lineSeparator (sequenceValue n lead cont)
  · rw [if_pos hsep, if_pos hsep]
    constructor
    · intro h
      exact absurd (List.cons_eq_cons.mp h).1 (by decide)
    · intro h
      exact absurd ⟨hover, hsep⟩ h.1
  · rw [if_neg hsep, if_neg hsep, List.append_cancel_left_eq]
    exact (and_iff_right fun h => hsep h.2).symm

theorem decodeUtf8_eq_iff (bytes : List UInt8) :
    decodeUtf8 unitabCtrl 0xFFFD bytes = decodeUtf8 unitabCtrl NEL bytes ↔ ¬HasSeparator bytes := by
  induction hlength : bytes.length using Nat.strongRecOn generalizing bytes with
  | ind length ih =>
  cases bytes with
  | nil =>
    rw [decodeUtf8, decodeUtf8]
    exact iff_of_true rfl hasSeparator_nil
  | cons b rest =>
    rw [List.length_cons] at hlength
    by_cases hascii : b.toNat < 0x80
    · have hb : b ≠ 0xE2 := by
        rintro rfl
        exact absurd hascii (by decide)
      rw [decodeUtf8_ascii hascii, decodeUtf8_ascii hascii, List.cons_inj_right, hasSeparator_cons_of_ne hb]
      exact ih _ (by omega) rest rfl
    cases hlead : following b with
    | none =>
      have hb : b ≠ 0xE2 := by
        rintro rfl
        cases hlead
      rw [decodeUtf8_stray hascii hlead, decodeUtf8_stray hascii hlead, List.cons_inj_right,
        hasSeparator_cons_of_ne hb]
      exact ih _ (by omega) rest rfl
    | some n =>
      obtain ⟨cont, tail, rfl, hall, hlen⟩ := exists_continues n rest
      rw [List.length_append] at hlength
      rw [hasSeparator_cons, hasSeparator_append hall]
      rcases hlen with hlen | ⟨hlen, htail⟩
      · rw [decodeUtf8_complete hlead hall hlen, decodeUtf8_complete hlead hall hlen,
          sequenceYields_append_eq_iff, startsSeparator_complete hlead hall hlen, not_or]
        exact and_congr_right fun _ => ih _ (by omega) tail rfl
      rw [or_iff_right (not_startsSeparator hlead hlen htail)]
      cases tail with
      | nil =>
        rw [List.append_nil, decodeUtf8_pending hlead hall hlen, decodeUtf8_pending hlead hall hlen]
        exact iff_of_true rfl hasSeparator_nil
      | cons b' tail =>
        have hb' : isContinuation b' = false := htail b' rfl
        rw [decodeUtf8_cut hlead hall hlen hb', decodeUtf8_cut hlead hall hlen hb', List.cons_inj_right]
        exact ih _ (by omega) (b' :: tail) rfl

/-- The translation is that of the reference exactly if no line or paragraph separator is received. -/
theorem termDataAll_iff (unitabCtrl : ℕ → ℕ) (chunks : List (List UInt8)) :
    (∃ term, termDataAll unitabCtrl initialInput chunks =
      .ok (term, decodeUtf8 unitabCtrl NEL chunks.flatten)) ↔ ¬HasSeparator chunks.flatten := by
  obtain ⟨term, hterm⟩ := @termDataAll_initialInput unitabCtrl chunks
  rw [← @decodeUtf8_eq_iff unitabCtrl, hterm]
  constructor
  · rintro ⟨term', hterm'⟩
    exact (Prod.mk.inj (Except.ok.inj hterm')).2
  · intro h
    exact ⟨term, congrArg (fun out => Except.ok (term, out)) h⟩

/-- A line separator is taken for a control after it has become one. -/
theorem termDataAll_lineSeparator : ¬∃ term,
    termDataAll (fun _ => 0xFF) initialInput [[0xE2, 0x80, 0xA8]] = .ok (term, decodeUtf8 (fun _ => 0xFF) NEL
      [0xE2, 0x80, 0xA8]) := by
  rintro ⟨term, hterm⟩
  obtain ⟨term', hterm'⟩ := @termDataAll_initialInput (fun _ => 0xFF) [[0xE2, 0x80, 0xA8]]
  have hsame := (Prod.mk.inj (Except.ok.inj (hterm'.symm.trans hterm))).2
  exact (decodeUtf8_eq_iff [0xE2, 0x80, 0xA8]).mp hsame (Or.inl List.infix_rfl)

end PuttyNd.Terminal
