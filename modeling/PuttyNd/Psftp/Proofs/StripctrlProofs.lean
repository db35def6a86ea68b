import Mathlib.Tactic.Common
import PuttyNd.Lib.Runs
import PuttyNd.Lib.Transducer
import PuttyNd.Psftp.Stripctrl

/-!
# Text without control characters does not depend on how it is divided

The two loops of a write scan the buffered bytes followed by the new ones, and what is left is buffered. So
writes one after the other scan the text that they make up. A reset leaves the buffered bytes where they are: if
there are none, the state is as good as new.
-/

namespace PuttyNd.Psftp

open Memory Outcome Runs Scanner

variable {In Out : Type} {L : Locale In Out} {set : ScSettings}

/-- `mbrtowc` decodes incrementally, what is printable can be written, and the substitution has a width. -/
structure Locale.Lawful (L : Locale In Out) (set : ScSettings) : Prop where
  /-- A character is at the start of the bytes, and what follows it does not matter. -/
  character {mbs mbs' : In} {p : List UInt8} {wc n : ℕ} : L.mbrtowc mbs p = .character wc n mbs' →
    0 < n ∧ n ≤ p.length ∧ n ≤ sccBufsize ∧ ∀ q, L.mbrtowc mbs (p.take n ++ q) = .character wc n mbs'
  /-- The incomplete ones are the proper prefixes of characters. -/
  incomplete {mbs : In} {p : List UInt8} : p ≠ [] → ((∃ mbs', L.mbrtowc mbs p = .incomplete mbs') ↔
    ∃ q wc mbs', q ≠ [] ∧ L.mbrtowc mbs (p ++ q) = .character wc (p ++ q).length mbs')
  wcrtomb (mbs : Out) (wc : ℕ) : L.iswprint wc ∨ wc = 10 ∨ wc = 13 ∨ wc = set.substitution →
    ∃ r, L.wcrtomb mbs wc = some r
  substitution : set.substitution = 0 ∨ 0 ≤ mkWcwidth L set.substitution

/-! ## One character -/

section Decoding

variable {mbs mbs' : In} {p : List UInt8}

theorem incomplete_length (hL : L.Lawful set) (hp : p ≠ []) (h : L.mbrtowc mbs p = .incomplete mbs') :
    p.length < sccBufsize := by
  obtain ⟨q, wc, mbs'', hq, hc⟩ := (hL.incomplete hp).mp ⟨mbs', h⟩
  obtain ⟨-, -, hlen, -⟩ := hL.character hc
  have := List.length_pos_iff.mpr hq
  rw [List.length_append] at hlen
  omega

/-- More bytes only matter if the character is not complete. -/
theorem mbrtowc_append (hL : L.Lawful set) (hp : p ≠ []) (q : List UInt8)
    (h : ∀ mbs', L.mbrtowc mbs p ≠ .incomplete mbs') : L.mbrtowc mbs (p ++ q) = L.mbrtowc mbs p := by
  have hpq : p ++ q ≠ [] := List.append_ne_nil_of_left_ne_nil hp q
  cases hdec : L.mbrtowc mbs p with
  | incomplete mbs' => exact absurd hdec (h mbs')
  | character wc n mbs' =>
    obtain ⟨-, -, -, hsame⟩ := hL.character hdec
    have := hsame (p.drop n ++ q)
    rwa [← List.append_assoc, List.take_append_drop] at this
  | illegal =>
    cases hmore : L.mbrtowc mbs (p ++ q) with
    | illegal => rfl
    | incomplete mbs' =>
      -- then what is there is the start of that character, too
      obtain ⟨r, wc, mbs'', hr, hc⟩ := (hL.incomplete hpq).mp ⟨mbs', hmore⟩
      rw [List.append_assoc] at hc
      obtain ⟨mbs₀, h₀⟩ :=
        (hL.incomplete hp).mpr ⟨q ++ r, wc, mbs'', List.append_ne_nil_of_right_ne_nil q hr, hc⟩
      exact absurd h₀ (h mbs₀)
    | character wc n mbs' =>
      obtain ⟨-, hn, -, hsame⟩ := hL.character hmore
      by_cases hlen : n ≤ p.length
      · -- the character is there already
        have := hsame (p.drop n)
        rw [List.take_append_of_le_length hlen, List.take_append_drop, hdec] at this
        cases this
      · -- its end is not
        have hc := hsame []
        have htake : (p ++ q).take n = p ++ q.take (n - p.length) := by
          rw [List.take_append, List.take_of_length_le (by omega)]
        rw [List.length_append] at hn
        have hq : (q.take (n - p.length)).length = n - p.length := by
          rw [List.length_take]
          omega
        have hlen' : (p ++ q.take (n - p.length)).length = n := by
          rw [List.length_append, hq]
          omega
        rw [List.append_nil, htake] at hc
        obtain ⟨mbs₀, h₀⟩ := (hL.incomplete hp).mpr ⟨q.take (n - p.length), wc, mbs', by
          intro hnil
          rw [hnil, List.length_nil] at hq
          omega, by rw [hlen']; exact hc⟩
        exact absurd h₀ (h mbs₀)

end Decoding

/-! ## Output -/

section Output

variable {conv conv' : Conversion In Out} {wc width : ℕ}

theorem mkWcwidth_le (ucs : ℕ) : mkWcwidth L ucs ≤ 2 := by
  unfold mkWcwidth
  split_ifs <;> omega

/-- The two conversions cannot be told apart: the line counters only matter where lines are limited, and what is
left of a line only after its start. -/
structure Alike (set : ScSettings) (conv conv' : Conversion In Out) : Prop where
  mbsIn : conv.mbsIn = conv'.mbsIn
  mbsOut : conv.mbsOut = conv'.mbsOut
  lineStart : set.lineLimit = true → conv.lineStart = conv'.lineStart
  remaining : set.lineLimit = true → conv.lineStart = false →
    conv.lineCharsRemaining = conv'.lineCharsRemaining

theorem Alike.refl (conv : Conversion In Out) : Alike set conv conv := ⟨rfl, rfl, fun _ => rfl, fun _ _ => rfl⟩

theorem Alike.symm (h : Alike set conv conv') : Alike set conv' conv := by
  refine ⟨h.mbsIn.symm, h.mbsOut.symm, fun hlimit => (h.lineStart hlimit).symm, ?_⟩
  intro hlimit hstart
  exact (h.remaining hlimit ((h.lineStart hlimit).trans hstart)).symm

/-- Both succeed with the same output, and the conversions are then alike. -/
def SameResult (set : ScSettings) (r r' : Except Fault (Conversion In Out × List UInt8)) : Prop :=
  ∃ c c' out, r = .ok (c, out) ∧ r' = .ok (c', out) ∧ Alike set c c'

theorem checkLineLimit_ok (hwidth : width ≤ 2) : ∃ r, checkLineLimit set conv wc width = .ok r := by
  unfold checkLineLimit
  dsimp only
  by_cases hlimit : set.lineLimit = true
  · rw [if_pos hlimit]
    by_cases hnl : wc = 10
    · rw [if_pos hnl]
      exact ⟨_, rfl⟩
    · rw [if_neg hnl]
      refine ⟨_, if_pos ?_⟩
      -- a new line has room for the character
      split_ifs <;> simp only [lineLimitChars] at * <;> omega
  · rw [if_neg hlimit]
    exact ⟨_, rfl⟩

theorem checkLineLimit_alike (h : Alike set conv conv') (hwidth : width ≤ 2) :
    SameResult set (checkLineLimit set conv wc width) (checkLineLimit set conv' wc width) := by
  obtain ⟨mbsIn, mbsOut, start, remaining⟩ := conv
  obtain ⟨mbsIn', mbsOut', start', remaining'⟩ := conv'
  obtain ⟨rfl, rfl, hstart, hremaining⟩ := h
  by_cases hlimit : set.lineLimit = true
  · obtain rfl := hstart hlimit
    have heq : checkLineLimit set ⟨mbsIn, mbsOut, start, remaining⟩ wc width =
        checkLineLimit set ⟨mbsIn, mbsOut, start, remaining'⟩ wc width := by
      cases start with
      | false =>
        obtain rfl := hremaining hlimit rfl
        rfl
      | true =>
        unfold checkLineLimit
        rw [if_pos hlimit, if_pos hlimit]
        rfl
    obtain ⟨⟨c, out⟩, hok⟩ := @checkLineLimit_ok _ _ set ⟨mbsIn, mbsOut, start, remaining'⟩ wc _ hwidth
    exact ⟨c, c, out, heq.trans hok, hok, .refl c⟩
  · refine ⟨⟨mbsIn, mbsOut, start, remaining⟩, ⟨mbsIn, mbsOut, start', remaining'⟩, [], ?_, ?_,
      ⟨rfl, rfl, fun h => absurd h hlimit, fun h => absurd h hlimit⟩⟩
    · exact if_neg hlimit
    · exact if_neg hlimit

theorem Alike.withOut (h : Alike set conv conv') (mbs : Out) :
    Alike set { conv with mbsOut := mbs } { conv' with mbsOut := mbs } :=
  ⟨h.mbsIn, rfl, h.lineStart, h.remaining⟩

theorem Alike.withIn (h : Alike set conv conv') (mbs : In) :
    Alike set { conv with mbsIn := mbs } { conv' with mbsIn := mbs } :=
  ⟨rfl, h.mbsOut, h.lineStart, h.remaining⟩

theorem emitWc_alike (hL : L.Lawful set) (h : Alike set conv conv') (hwidth : width ≤ 2)
    (hwc : L.iswprint wc ∨ wc = 10 ∨ wc = 13 ∨ wc = set.substitution) :
    SameResult set (emitWc L set conv wc width) (emitWc L set conv' wc width) := by
  obtain ⟨c, c', out, hc, hc', hsame⟩ := @checkLineLimit_alike _ _ set conv conv' wc _ h hwidth
  obtain ⟨⟨bytes, mbs⟩, hbytes⟩ := hL.wcrtomb c.mbsOut wc hwc
  have hbytes' : L.wcrtomb c'.mbsOut wc = some (bytes, mbs) := by rw [← hsame.mbsOut, hbytes]
  refine ⟨_, _, out ++ bytes, ?_, ?_, hsame.withOut mbs⟩
  · unfold emitWc
    rw [hc, ok_bind]
    dsimp only
    rw [hbytes]
  · unfold emitWc
    rw [hc', ok_bind]
    dsimp only
    rw [hbytes']

theorem putWc_alike (hL : L.Lawful set) (h : Alike set conv conv') (wc : ℕ) :
    SameResult set (putWc L set conv wc) (putWc L set conv' wc) := by
  have hwidth : ∀ ucs, (mkWcwidth L ucs).toNat ≤ 2 := by
    intro ucs
    have := @mkWcwidth_le _ _ L ucs
    omega
  unfold putWc
  by_cases hprint : (L.iswprint wc = true ∧ 0 ≤ mkWcwidth L wc) ∨ ctrlcharOk set wc = true
  · rw [if_pos hprint, if_pos hprint]
    refine emitWc_alike hL h (hwidth wc) ?_
    rcases hprint with ⟨hprint, -⟩ | hok
    · exact .inl hprint
    · unfold ctrlcharOk at hok
      rcases of_decide_eq_true hok with hnl | ⟨hcr, -⟩
      · exact .inr (.inl hnl)
      · exact .inr (.inr (.inl hcr))
  · rw [if_neg hprint, if_neg hprint]
    by_cases hsub : set.substitution ≠ 0
    · have hpos : 0 ≤ mkWcwidth L set.substitution := hL.substitution.resolve_left hsub
      rw [if_pos hsub, if_pos hsub, if_pos hpos, if_pos hpos]
      exact emitWc_alike hL h (hwidth _) (.inr (.inr (.inr rfl)))
    · rw [if_neg hsub, if_neg hsub]
      exact ⟨conv, conv', [], rfl, rfl, h⟩

end Output

/-! ## Scanning -/

section Scanning

variable {conv conv' : Conversion In Out} {p : List UInt8} {scc : StripCtrlChars In Out} {fuel : ℕ}

/-- The step of a scanner that `tryConsume` makes -/
def consumeStep (L : Locale In Out) (set : ScSettings) (conv : Conversion In Out) (p : List UInt8) :
    Option (ℕ × Conversion In Out × List UInt8) :=
  match tryConsume L set conv p with
  | .ok (n + 1, conv', out) => some (n + 1, conv', out)
  | _ => none

theorem consumeStep_eq {n : ℕ} {out : List UInt8} (hn : 0 < n)
    (h : tryConsume L set conv p = .ok (n, conv', out)) : consumeStep L set conv p = some (n, conv', out) := by
  obtain ⟨k, rfl⟩ := Nat.exists_eq_add_of_lt hn
  unfold consumeStep
  rw [h]

theorem tryConsume_incomplete {mbs : In} (h : L.mbrtowc conv.mbsIn p = .incomplete mbs) :
    tryConsume L set conv p = .ok (0, conv, []) ∧ consumeStep L set conv p = none := by
  have htry : tryConsume L set conv p = .ok (0, conv, []) := by
    unfold tryConsume
    rw [h]
  refine ⟨htry, ?_⟩
  unfold consumeStep
  rw [htry]

/-- If the first character is complete or illegal, at least one byte is consumed. -/
theorem tryConsume_complete (hL : L.Lawful set) (hp : p ≠ [])
    (h : ∀ mbs, L.mbrtowc conv.mbsIn p ≠ .incomplete mbs) : ∃ n conv' out,
      tryConsume L set conv p = .ok (n, conv', out) ∧ 0 < n ∧ n ≤ p.length := by
  have hlen : 1 ≤ p.length := List.length_pos_iff.mpr hp
  unfold tryConsume
  cases hdec : L.mbrtowc conv.mbsIn p with
  | incomplete mbs => exact absurd hdec (h mbs)
  | illegal => exact ⟨1, _, [], rfl, Nat.one_pos, hlen⟩
  | character wc n mbs =>
    obtain ⟨hpos, hn, -, -⟩ := hL.character hdec
    obtain ⟨c, -, out, hput, -, -⟩ := putWc_alike hL (.refl { conv with mbsIn := mbs }) wc
    refine ⟨if wc = 0 then 1 else n, c, out, ?_, ?_, ?_⟩
    · dsimp only
      rw [hput, ok_bind]
    · split_ifs
      · exact Nat.one_pos
      · exact hpos
    · split_ifs
      · exact hlen
      · exact hn

theorem tryConsume_cases (hL : L.Lawful set) (conv : Conversion In Out) (hp : p ≠ []) :
    (tryConsume L set conv p = .ok (0, conv, []) ∧ consumeStep L set conv p = none ∧
      p.length < sccBufsize) ∨
    ∃ n conv' out, tryConsume L set conv p = .ok (n, conv', out) ∧
      consumeStep L set conv p = some (n, conv', out) ∧ 0 < n ∧ n ≤ p.length := by
  by_cases h : ∃ mbs, L.mbrtowc conv.mbsIn p = .incomplete mbs
  · obtain ⟨mbs, hmbs⟩ := h
    obtain ⟨htry, hstep⟩ := @tryConsume_incomplete _ _ L set conv p mbs hmbs
    exact .inl ⟨htry, hstep, incomplete_length hL hp hmbs⟩
  · obtain ⟨n, conv', out, htry, hpos, hn⟩ :=
      @tryConsume_complete _ _ L set conv p hL hp fun mbs hmbs => h ⟨mbs, hmbs⟩
    exact .inr ⟨n, conv', out, htry, consumeStep_eq hpos htry, hpos, hn⟩

theorem consumeStep_incremental (hL : L.Lawful set) : Incremental (consumeStep L set) := by
  constructor
  · intro conv p n conv' out hp hstep
    rcases tryConsume_cases hL conv hp with ⟨-, hnone, -⟩ | ⟨n', c, out', -, hsome, hpos, hn⟩
    · rw [hnone] at hstep
      cases hstep
    · rw [hsome] at hstep
      cases hstep
      exact ⟨hpos, hn⟩
  · intro conv p r q hp hstep
    have hcomplete : ∀ mbs, L.mbrtowc conv.mbsIn p ≠ .incomplete mbs := by
      intro mbs hmbs
      rw [(tryConsume_incomplete hmbs).2] at hstep
      cases hstep
    rw [← hstep]
    unfold consumeStep tryConsume
    rw [mbrtowc_append hL hp q hcomplete]

theorem consumeStep_alike (hL : L.Lawful set) : Respects (consumeStep L set) (Alike set) := by
  intro conv conv' p h
  have hsame : L.mbrtowc conv'.mbsIn p = L.mbrtowc conv.mbsIn p := by rw [h.mbsIn]
  unfold consumeStep tryConsume
  rw [hsame]
  cases hdec : L.mbrtowc conv.mbsIn p with
  | incomplete mbs => rfl
  | illegal => exact ⟨_, rfl, h.withIn L.zeroIn⟩
  | character wc n mbs =>
    obtain ⟨c, c', out, hput, hput', hc⟩ := putWc_alike hL (h.withIn mbs) wc
    dsimp only
    rw [hput, hput', ok_bind, ok_bind]
    dsimp only
    cases (if wc = 0 then 1 else n) with
    | zero => rfl
    | succ k => exact ⟨c', rfl, hc⟩

/-- The second loop scans the string. -/
theorem mainLoop_spec (hL : L.Lawful set) (hfuel : p.length < fuel) : ∃ conv' out rest,
    mainLoop L set fuel conv p = .ok (conv', out, rest) ∧ rest.length ≤ sccBufsize ∧
      Scans (consumeStep L set) conv p conv' rest out := by
  induction fuel generalizing conv p with
  | zero => exact absurd hfuel (Nat.not_lt_zero _)
  | succ fuel ih =>
    unfold mainLoop
    by_cases hp : p = []
    · rw [if_pos hp]
      exact ⟨conv, [], [], rfl, Nat.zero_le _, by rw [hp]; exact .stop (.inl rfl)⟩
    · rw [if_neg hp]
      rcases tryConsume_cases hL conv hp with ⟨htry, hnone, hlen⟩ | ⟨n, c, out, htry, hsome, hpos, hn⟩
      · rw [htry, ok_bind]
        exact ⟨conv, [], p, rfl, Nat.le_of_lt hlen, .stop (.inr hnone)⟩
      · obtain ⟨c', out', rest, hloop, hrest, hscans⟩ := @ih c (p.drop n) (by
          rw [List.length_drop]
          omega)
        refine ⟨c', out ++ out', rest, ?_, hrest, .next hp hsome hscans⟩
        rw [htry, ok_bind]
        dsimp only
        rw [if_neg (by omega), if_pos hn, hloop, ok_bind]

/-- The first loop scans the bytes that are buffered, and then either all of the string or as much of it as
belongs to a character that they start. -/
theorem bufferLoop_spec (hL : L.Lawful set) (p : List UInt8) (hfuel : scc.buf.length < fuel) :
    ∃ scc' out main, bufferLoop L set fuel scc p = .ok (scc', out, main) ∧
      match main with
      | none => Scans (consumeStep L set) scc.conv (scc.buf ++ p) scc'.conv scc'.buf out
      | some p' => ∀ conv rest out', Scans (consumeStep L set) scc'.conv p' conv rest out' →
        Scans (consumeStep L set) scc.conv (scc.buf ++ p) conv rest (out ++ out') := by
  induction fuel generalizing scc with
  | zero => exact absurd hfuel (Nat.not_lt_zero _)
  | succ fuel ih =>
    unfold bufferLoop
    by_cases hbuf : scc.buf = []
    · rw [if_pos hbuf]
      refine ⟨scc, [], some p, rfl, fun conv rest out' h => ?_⟩
      rw [hbuf]
      exact h
    · rw [if_neg hbuf]
      have hbound := scc.bound
      have hne (q : List UInt8) : scc.buf ++ q ≠ [] := List.append_ne_nil_of_left_ne_nil hbuf q
      have hcopied : (p.take (min (sccBufsize - scc.buf.length) p.length)).length =
          min (sccBufsize - scc.buf.length) p.length := by
        rw [List.length_take]
        omega
      dsimp only
      rcases tryConsume_cases hL scc.conv (hne (p.take (min (sccBufsize - scc.buf.length) p.length))) with
        ⟨htry, hnone, hlen⟩ | ⟨n, c, out, htry, hsome, hpos, hn⟩
      · -- the buffer is not full, so all of the string is there
        have hbufpos := List.length_pos_iff.mpr hbuf
        rw [List.length_append, hcopied] at hlen
        have hall : min (sccBufsize - scc.buf.length) p.length = p.length := by omega
        rw [htry, ok_bind]
        dsimp only
        rw [if_neg (by omega), if_pos rfl, if_pos hall]
        refine ⟨_, [], none, rfl, ?_⟩
        dsimp only
        rw [hall, List.take_length] at hnone ⊢
        exact .stop (.inr hnone)
      · have hstable := (consumeStep_incremental hL).stable
          (p.drop (min (sccBufsize - scc.buf.length) p.length)) (hne _) hsome
        rw [List.append_assoc, List.take_append_drop] at hstable
        rw [List.length_append, hcopied] at hn
        rw [htry, ok_bind]
        dsimp only
        by_cases hconsumed : scc.buf.length ≤ n
        · rw [if_pos hconsumed, if_pos (by omega)]
          refine ⟨_, out, _, rfl, fun conv rest out' h => .next (hne p) hstable ?_⟩
          rwa [List.drop_append, List.drop_of_length_le hconsumed, List.nil_append]
        · rw [if_neg hconsumed, if_neg (by omega)]
          obtain ⟨scc', out₁, main, hloop, hmain⟩ :=
            @ih ⟨c, scc.buf.drop n, by rw [List.length_drop]; omega⟩ (by
              dsimp only
              rw [List.length_drop]
              omega)
          have hdrop : (scc.buf ++ p).drop n = scc.buf.drop n ++ p :=
            List.drop_append_of_le_length (by omega)
          refine ⟨scc', out ++ out₁, main, ?_, ?_⟩
          · rw [hloop, ok_bind]
          · cases main with
            | none =>
              refine .next (hne p) hstable ?_
              rw [hdrop]
              exact hmain
            | some p' =>
              intro conv rest out' h
              rw [List.append_assoc]
              refine .next (hne p) hstable ?_
              rw [hdrop]
              exact hmain conv rest out' h

/-- A write succeeds, and scans the bytes that are buffered and the new ones. -/
theorem stripctrlWrite_spec (hL : L.Lawful set) (scc : StripCtrlChars In Out) (p : List UInt8) :
    ∃ scc' out, stripctrlWrite L set scc p = .ok (scc', out) ∧
      Scans (consumeStep L set) scc.conv (scc.buf ++ p) scc'.conv scc'.buf out := by
  obtain ⟨scc₁, out, main, hbuffer, hmain⟩ := bufferLoop_spec hL p (Nat.lt_succ_self scc.buf.length)
  unfold stripctrlWrite
  rw [hbuffer, ok_bind]
  dsimp only
  cases main with
  | none => exact ⟨scc₁, out, rfl, hmain⟩
  | some p' =>
    obtain ⟨conv, out', rest, hloop, hbound, hscans⟩ :=
      @mainLoop_spec _ _ L set scc₁.conv _ _ hL (Nat.lt_succ_self p'.length)
    refine ⟨⟨conv, rest, hbound⟩, out ++ out', ?_, hmain conv rest out' hscans⟩
    dsimp only
    rw [hloop, ok_bind]
    dsimp only
    rw [dif_pos hbound]

end Scanning

/-! ## Runs -/

/-- What was written since the last reset was scanned from the start, in a conversion that cannot be told apart
from the one that there is now. -/
def ScInv (L : Locale In Out) (set : ScSettings) (s : ScRun In Out) : Prop :=
  ∃ conv, Scans (consumeStep L set) (stripctrlCreate L set).conv s.written conv s.scc.buf s.sent ∧
    Alike set conv s.scc.conv

theorem stripctrlCreate_buf : (stripctrlCreate L set).buf = [] := by
  unfold stripctrlCreate
  split_ifs <;> rfl

theorem stripctrlCreate_alike (scc : StripCtrlChars In Out) :
    Alike set (stripctrlCreate L set).conv (stripctrlReset L scc).conv := by
  unfold stripctrlCreate
  by_cases hlimit : set.lineLimit = true
  · rw [if_pos hlimit]
    exact ⟨rfl, rfl, fun _ => rfl, fun _ h => (nomatch h)⟩
  · rw [if_neg hlimit]
    exact ⟨rfl, rfl, fun h => absurd h hlimit, fun h => absurd h hlimit⟩

theorem scStart_inv : ScInv L set (scStart L set) := by
  refine ⟨(stripctrlCreate L set).conv, ?_, .refl _⟩
  unfold scStart
  rw [stripctrlCreate_buf]
  exact .stop (.inl rfl)

/-- Nothing is buffered when there is a reset. -/
def resetsClean (s : ScRun In Out) (op : ScOp) : Prop := op = .reset → s.scc.buf = []

theorem scStep_inv (hL : L.Lawful set) (s : ScRun In Out) (op : ScOp) (h : ScInv L set s)
    (hclean : resetsClean s op) : Succeeds (scStep L set s op) (ScInv L set) := by
  cases op with
  | write data =>
    obtain ⟨conv, hscans, hsame⟩ := h
    obtain ⟨scc, out, hwrite, hnew⟩ := stripctrlWrite_spec hL s.scc data
    refine ⟨⟨scc, s.written ++ data, s.sent ++ out⟩, ?_, ?_⟩
    · unfold scStep
      dsimp only
      rw [hwrite, ok_bind]
    · obtain ⟨conv', hnew', hsame'⟩ :=
        hnew.related (consumeStep_alike hL) hsame.symm
      exact ⟨conv', hscans.append (consumeStep_incremental hL) hnew', hsame'.symm⟩
  | reset =>
    refine ⟨_, rfl, ?_⟩
    have hbuf : (stripctrlReset L s.scc).buf = [] := hclean rfl
    refine ⟨(stripctrlCreate L set).conv, ?_, stripctrlCreate_alike s.scc⟩
    dsimp only
    rw [hbuf]
    exact .stop (.inl rfl)

/-- If nothing is buffered when there is a reset, no assertion fails, and what was sent since the last one is what
is sent for one write to a new `StripCtrlChars`. -/
theorem stripctrl_run (hL : L.Lawful set) (ops : List ScOp)
    (hclean : AllSteps (scStep L set) resetsClean (scStart L set) ops) :
    Succeeds (ops.foldlM (scStep L set) (scStart L set)) fun s =>
      ∃ scc, stripctrlWrite L set (stripctrlCreate L set) s.written = .ok (scc, s.sent) := by
  refine (succeeds_run (scStep_inv hL) scStart_inv hclean).mono ?_
  rintro s ⟨conv, hscans, -⟩
  obtain ⟨scc, out, hwrite, hnew⟩ := stripctrlWrite_spec hL (stripctrlCreate L set) s.written
  rw [stripctrlCreate_buf, List.nil_append] at hnew
  obtain ⟨-, -, hout⟩ := hnew.unique hscans
  exact ⟨scc, by rw [hwrite, hout]⟩

/-! ## Two-byte characters -/

/-- UTF-8 without the characters of more than two bytes -/
def twoByteLocale : Locale Unit Unit where
  zeroIn := ()
  zeroOut := ()
  mbrtowc _ p :=
    match p with
    | [] => .incomplete ()
    | b :: rest =>
      if b < 0x80 then .character b.toNat 1 ()
      else if b < 0xc2 ∨ 0xe0 ≤ b then .illegal
      else
        match rest with
        | [] => .incomplete ()
        | t :: _ =>
          if 0x80 ≤ t ∧ t < 0xc0 then .character ((b.toNat - 0xc0) * 64 + (t.toNat - 0x80)) 2 () else .illegal
  wcrtomb _ wc :=
    some (if wc < 0x80 then [wc.toUInt8] else [(0xc0 + wc / 64).toUInt8, (0x80 + wc % 64).toUInt8], ())
  iswprint wc := 32 ≤ wc ∧ wc < 127 ∨ 160 ≤ wc ∧ wc < 2048
  combining wc := 0x300 ≤ wc ∧ wc < 0x370
  wide _ := false

/-- As `psftp` makes it, for error messages -/
def plainSettings : ScSettings := ⟨false, 0, true⟩

theorem twoByte_single {b : UInt8} (hb : b < 0x80) (rest : List UInt8) :
    twoByteLocale.mbrtowc () (b :: rest) = .character b.toNat 1 () := if_pos hb

theorem twoByte_illegal {b : UInt8} (hb : ¬b < 0x80) (hlead : b < 0xc2 ∨ 0xe0 ≤ b) (rest : List UInt8) :
    twoByteLocale.mbrtowc () (b :: rest) = .illegal := (if_neg hb).trans (if_pos hlead)

theorem twoByte_lead {b : UInt8} (hb : ¬b < 0x80) (hlead : ¬(b < 0xc2 ∨ 0xe0 ≤ b)) :
    twoByteLocale.mbrtowc () [b] = .incomplete () := (if_neg hb).trans (if_neg hlead)

theorem twoByte_pair {b t : UInt8} (hb : ¬b < 0x80) (hlead : ¬(b < 0xc2 ∨ 0xe0 ≤ b)) (rest : List UInt8) :
    twoByteLocale.mbrtowc () (b :: t :: rest) =
      if 0x80 ≤ t ∧ t < 0xc0 then .character ((b.toNat - 0xc0) * 64 + (t.toNat - 0x80)) 2 () else .illegal :=
  (if_neg hb).trans (if_neg hlead)

theorem twoByteLocale_lawful : twoByteLocale.Lawful plainSettings := by
  constructor
  · intro mbs mbs' p wc n h
    cases p with
    | nil => cases h
    | cons b rest =>
      by_cases hb : b < 0x80
      · rw [twoByte_single hb] at h
        cases h
        exact ⟨Nat.one_pos, Nat.succ_le_succ (Nat.zero_le _), by decide, fun q => twoByte_single hb q⟩
      by_cases hlead : b < 0xc2 ∨ 0xe0 ≤ b
      · rw [twoByte_illegal hb hlead] at h
        cases h
      cases rest with
      | nil =>
        rw [twoByte_lead hb hlead] at h
        cases h
      | cons t rest =>
        have hpair := @twoByte_pair b t hb hlead
        by_cases ht : 0x80 ≤ t ∧ t < 0xc0
        · rw [hpair, if_pos ht] at h
          injection h with hwc hn _
          subst hwc hn
          exact ⟨Nat.two_pos, Nat.succ_le_succ (Nat.succ_le_succ (Nat.zero_le _)), by decide,
            fun q => (hpair q).trans (if_pos ht)⟩
        · rw [hpair, if_neg ht] at h
          cases h
  · intro mbs p hp
    cases p with
    | nil => exact absurd rfl hp
    | cons b rest =>
      constructor
      · rintro ⟨mbs', h⟩
        by_cases hb : b < 0x80
        · rw [twoByte_single hb] at h
          cases h
        by_cases hlead : b < 0xc2 ∨ 0xe0 ≤ b
        · rw [twoByte_illegal hb hlead] at h
          cases h
        cases rest with
        | nil =>
          have hpair := @twoByte_pair b 0x80 hb hlead []
          rw [if_pos (by decide)] at hpair
          exact ⟨[0x80], _, (), List.cons_ne_nil _ _, hpair⟩
        | cons t rest =>
          rw [twoByte_pair hb hlead] at h
          split_ifs at h
      · rintro ⟨q, wc, mbs', hq, h⟩
        obtain ⟨t, q, rfl⟩ := List.exists_cons_of_ne_nil hq
        by_cases hb : b < 0x80
        · rw [List.cons_append, twoByte_single hb] at h
          -- one byte is not all of them
          have hlen : 1 = (b :: (rest ++ t :: q)).length := by
            injection h
          rw [List.length_cons, List.length_append, List.length_cons] at hlen
          omega
        by_cases hlead : b < 0xc2 ∨ 0xe0 ≤ b
        · rw [List.cons_append, twoByte_illegal hb hlead] at h
          cases h
        cases rest with
        | nil => exact ⟨(), twoByte_lead hb hlead⟩
        | cons t' rest =>
          rw [List.cons_append, List.cons_append, twoByte_pair hb hlead] at h
          by_cases ht : 0x80 ≤ t' ∧ t' < 0xc0
          · rw [if_pos ht] at h
            have hlen : 2 = (b :: t' :: (rest ++ t :: q)).length := by
              injection h
            rw [List.length_cons, List.length_cons, List.length_append, List.length_cons] at hlen
            omega
          · rw [if_neg ht] at h
            cases h
  · intro mbs wc _
    exact ⟨_, rfl⟩
  · exact .inl rfl

/-- What is left of a character that was written before a reset makes a character with what is written after
it, which would be illegal on its own. -/
theorem stripctrlReset_buffered : twoByteLocale.Lawful plainSettings ∧ ∃ s scc,
    [.write [0xc3], .reset, .write [0xa9]].foldlM (scStep twoByteLocale plainSettings)
      (scStart twoByteLocale plainSettings) = .ok s ∧
    s.written = [0xa9] ∧ s.sent = [124, 32, 0xc3, 0xa9] ∧
    stripctrlWrite twoByteLocale plainSettings (stripctrlCreate twoByteLocale plainSettings) [0xa9] =
      .ok (scc, []) :=
  ⟨twoByteLocale_lawful, _, _, rfl, rfl, rfl, rfl⟩

/-- Where nothing is buffered at the reset, it is as with a new one. -/
theorem stripctrl_run_complete : Succeeds ([.write [0xc3], .write [0xa9], .reset, .write [0xa9]].foldlM
    (scStep twoByteLocale plainSettings) (scStart twoByteLocale plainSettings)) fun s =>
      ∃ scc, stripctrlWrite twoByteLocale plainSettings (stripctrlCreate twoByteLocale plainSettings) s.written =
        .ok (scc, s.sent) := by
  refine stripctrl_run twoByteLocale_lawful _ ⟨?_, ?_, ?_, ?_, trivial⟩
  · exact fun h => (nomatch h)
  · exact fun h => (nomatch h)
  · exact fun _ => rfl
  · exact fun h => (nomatch h)

end PuttyNd.Psftp
