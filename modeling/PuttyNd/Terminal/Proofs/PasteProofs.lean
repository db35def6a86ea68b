import Mathlib.Tactic.Common
import PuttyNd.Terminal.Paste

/-!
# Pasted text is sent once and in order

The buffer holds what was pasted and is not sent, and a timer is pending for it. There is room for all that a
paste adds, since line ends only get shorter.
-/

namespace PuttyNd.Terminal

open CInt Outcome

variable {buf cs content q : List ℕ} {b : List ℕ × ℕ} {i c size : ℕ} {term : Paste}

/-! ## The buffer -/

theorem storeChars_ok (hfits : i + cs.length ≤ buf.length) : ∃ buf', storeChars buf i cs = .ok buf' ∧
    buf'.length = buf.length ∧ buf'.take (i + cs.length) = buf.take i ++ cs := by
  induction cs generalizing buf i with
  | nil => exact ⟨buf, rfl, rfl, (List.append_nil _).symm⟩
  | cons c cs ih =>
    rw [List.length_cons] at hfits
    have hi : i < buf.length := by omega
    have hstore : storeChar buf i c = .ok (buf.set i c) := if_pos hi
    obtain ⟨buf', hbuf', hlen, htake⟩ := @ih (buf.set i c) (i + 1) (by rw [List.length_set]; omega)
    refine ⟨buf', ?_, ?_, ?_⟩
    · unfold storeChars
      rw [hstore, ok_bind, hbuf']
    · rw [hlen, List.length_set]
    · have hfront : (buf.set i c).take (i + 1) = buf.take i ++ [c] := by
        rw [List.take_add_one, List.take_set_of_le (Nat.le_refl _), List.getElem?_set_self hi]
        rfl
      rw [List.length_cons, ← Nat.add_assoc, Nat.add_right_comm, htake, hfront, List.append_assoc]
      rfl

/-- A buffer of so many characters, with the content up to `paste_len` -/
structure Written (b : List ℕ × ℕ) (content : List ℕ) (size : ℕ) : Prop where
  length_eq : b.1.length = size
  len_eq : b.2 = content.length
  take_eq : b.1.take b.2 = content

theorem appendChars_ok (cs : List ℕ) (h : Written b content size) (hfits : content.length + cs.length ≤ size) :
    ∃ b', appendChars b cs = .ok b' ∧ Written b' (content ++ cs) size := by
  rw [← h.len_eq, ← h.length_eq] at hfits
  obtain ⟨buf', hbuf', hlen, htake⟩ := storeChars_ok hfits
  refine ⟨(buf', b.2 + cs.length), ?_, ?_, ?_, ?_⟩
  · unfold appendChars
    rw [hbuf', ok_bind, pure_eq]
  · rw [hlen, h.length_eq]
  · rw [h.len_eq, List.length_append]
  · rw [htake, h.take_eq]

/-! ## The line ends -/

theorem atNl_cons_cons {c d : ℕ} {p : List ℕ} : atNl (c :: d :: p) = true ↔ c = 13 ∧ d = 10 := by
  unfold atNl selNl
  rw [List.isPrefixOf_iff_prefix, List.cons_prefix_cons, List.cons_prefix_cons, eq_comm (a := c), eq_comm (a := d)]
  exact and_congr_right fun _ => and_iff_left List.nil_prefix

theorem two_le_of_atNl {p : List ℕ} (h : atNl p = true) : 2 ≤ p.length :=
  (List.isPrefixOf_iff_prefix.mp h).length_le

theorem convertNl_length (text : List ℕ) : (convertNl text).length ≤ text.length := by
  fun_induction convertNl text with
  | case1 => exact Nat.le_refl _
  | case2 c => exact Nat.le_refl _
  | case3 c d text hnl ih =>
    rw [List.length_cons, List.length_cons, List.length_cons]
    omega
  | case4 c d text hnl ih =>
    rw [List.length_cons, List.length_cons]
    exact Nat.succ_le_succ ih

/-- What the scan leaves starts with a line end, and the characters before it are kept. -/
theorem scanNl_spec (q : List ℕ) : (scanNl q).1.length + (scanNl q).2.length = q.length ∧
    ((scanNl q).2 = [] ∨ atNl (scanNl q).2 = true) ∧
    convertNl q = (scanNl q).1 ++
      if atNl (scanNl q).2 then 13 :: convertNl ((scanNl q).2.drop selNl.length) else [] := by
  induction q with
  | nil => exact ⟨rfl, Or.inl rfl, rfl⟩
  | cons c p ih =>
    obtain ⟨hlen, hrest, hconvert⟩ := ih
    by_cases hnl : atNl (c :: p) = true
    · rw [scanNl, if_pos hnl]
      refine ⟨Nat.zero_add _, Or.inr hnl, ?_⟩
      cases p with
      | nil => exact absurd (two_le_of_atNl hnl) (Nat.not_succ_le_self 1)
      | cons d p =>
        dsimp only
        rw [if_pos hnl, convertNl, if_pos (atNl_cons_cons.mp hnl)]
        rfl
    · rw [scanNl, if_neg hnl]
      refine ⟨?_, hrest, ?_⟩
      · dsimp only
        rw [List.length_cons, List.length_cons]
        omega
      · dsimp only
        rw [List.cons_append, ← hconvert]
        cases p with
        | nil => rfl
        | cons d p => rw [convertNl, if_neg (mt atNl_cons_cons.mpr hnl)]

theorem convertLoop_ok {rounds : ℕ} (h : Written b content size)
    (hfits : content.length + q.length ≤ size) (hrounds : q.length < rounds) :
    ∃ b', convertLoop rounds b q = .ok b' ∧ Written b' (content ++ convertNl q) size := by
  induction rounds generalizing b content q with
  | zero => exact absurd hrounds (Nat.not_lt_zero _)
  | succ rounds ih =>
    unfold convertLoop
    by_cases hq : q = []
    · rw [if_pos hq, hq]
      exact ⟨b, rfl, (List.append_nil content).symm ▸ h⟩
    have hpos : 0 < q.length := List.length_pos_iff.mpr hq
    obtain ⟨hlen, hrest, hconvert⟩ := scanNl_spec q
    obtain ⟨b₁, hb₁, hw₁⟩ := appendChars_ok (scanNl q).1 h (by omega)
    rw [if_neg hq, hb₁, ok_bind, hconvert]
    by_cases hnl : atNl (scanNl q).2 = true
    · have htwo : 2 ≤ (scanNl q).2.length := two_le_of_atNl hnl
      have hdrop : ((scanNl q).2.drop selNl.length).length = (scanNl q).2.length - 2 := List.length_drop
      obtain ⟨b₂, hb₂, hw₂⟩ := appendChars_ok [13] hw₁ (by
        rw [List.length_append, List.length_singleton]
        omega)
      obtain ⟨b₃, hb₃, hw₃⟩ := ih hw₂ (q := (scanNl q).2.drop selNl.length) (by
        rw [List.length_append, List.length_append, List.length_singleton, hdrop]
        omega) (by omega)
      rw [if_pos hnl, if_pos hnl, hb₂, ok_bind, hb₃]
      refine ⟨b₃, rfl, ?_⟩
      rwa [List.append_assoc, List.append_assoc] at hw₃
    · have hnil : (scanNl q).2 = [] := hrest.resolve_right hnl
      obtain ⟨b₂, hb₂, hw₂⟩ := ih hw₁ (q := (scanNl q).2) (by
        rw [List.length_append]
        omega) (by rw [hnil]; exact Nat.lt_of_lt_of_le hpos (Nat.lt_succ_iff.mp hrounds))
      rw [if_neg hnl, if_neg hnl, hb₂]
      refine ⟨b₂, rfl, ?_⟩
      rwa [hnil, List.append_assoc] at hw₂

/-! ## A paste -/

/-- Between two events: the buffer is there exactly if something is left to be sent, and then for a timer. -/
structure PasteInv (term : Paste) : Prop where
  len_eq : term.buffer = none → term.len = 0
  pos_lt : ∀ buf, term.buffer = some buf → term.pos < term.len ∧ term.len ≤ buf.length ∧ buf.length ≤ maxChars
  pending : term.buffer ≠ none → term.timers ≠ []

theorem noPaste_inv : PasteInv noPaste :=
  ⟨fun _ => rfl, fun _ h => (nomatch h), fun h => absurd rfl h⟩

theorem newChars_of_le {n : ℤ} {m : ℕ} (hn : n = m) (hm : m ≤ maxChars) :
    newChars (toInt32 n) = .ok (List.replicate m 0) := by
  have hsmall : (m : ℤ) ≤ 1073741823 := Int.ofNat_le.mpr hm
  rw [toInt32_of_fits (by omega) (by omega), hn]
  exact if_pos ⟨Int.natCast_nonneg m, Int.ofNat_le.mpr hm⟩

/-- The sum of two lengths and 12 is negative as an `int` if it does not fit. -/
theorem newChars_of_gt {n : ℤ} (hn : (maxChars : ℤ) < n) (hlt : n < 2 ^ 32) :
    newChars (toInt32 n) = .error .outOfMemory := by
  have hsize : ((2 ^ 32 : ℕ) : ℤ) = 4294967296 := rfl
  have hmax : (maxChars : ℤ) = 1073741823 := rfl
  refine if_neg ?_
  unfold toInt32
  rw [Int.bmod_def, hsize]
  split <;> omega

theorem written_replicate {m : ℕ} : Written (List.replicate m 0, 0) [] m :=
  ⟨List.length_replicate, rfl, rfl⟩

theorem unsent_of_none (h : term.buffer = none) : term.unsent = [] := by
  unfold Paste.unsent
  rw [h]

theorem unsent_of_some (h : term.buffer = some buf) : term.unsent = (buf.take term.len).drop term.pos := by
  unfold Paste.unsent
  rw [h]

theorem PasteInv.unsent_length (h : PasteInv term) :
    term.unsent.length = (if term.buffer = none then 0 else term.len - term.pos) ∧
      term.unsent.length ≤ maxChars := by
  cases hbuf : term.buffer with
  | none =>
    rw [unsent_of_none hbuf]
    exact ⟨rfl, Nat.zero_le _⟩
  | some buf =>
    obtain ⟨hpos, hlen, hmax⟩ := h.pos_lt buf hbuf
    rw [unsent_of_some hbuf, List.length_drop, List.length_take, Nat.min_eq_left hlen,
      if_neg (Option.some_ne_none buf)]
    exact ⟨rfl, by omega⟩

/-- The new buffer has room for what is left, for the text and for the brackets, or there is none. -/
theorem newPasteBuffer_spec {len : ℕ} (h : PasteInv term) (hlen : len < 2 ^ 31) :
    if len + 12 + term.unsent.length ≤ maxChars then
      ∃ b, newPasteBuffer term len = .ok b ∧ Written b term.unsent (len + 12 + term.unsent.length)
    else newPasteBuffer term len = .error .outOfMemory := by
  obtain ⟨hleft, hmax⟩ := h.unsent_length
  have hmaxChars : maxChars = 1073741823 := rfl
  unfold newPasteBuffer
  cases hbuf : term.buffer with
  | none =>
    rw [unsent_of_none hbuf, List.length_nil, Nat.add_zero]
    dsimp only
    split
    · next hfits =>
      rw [newChars_of_le (show (len : ℤ) + 12 = (len + 12 : ℕ) from rfl) hfits, ok_bind]
      exact ⟨_, rfl, written_replicate⟩
    · next hfits =>
      rw [newChars_of_gt (by omega) (by omega), error_bind]
  | some old =>
    obtain ⟨hpos, hold, -⟩ := h.pos_lt old hbuf
    rw [hbuf, if_neg (Option.some_ne_none old)] at hleft
    have hcopy : (old.drop term.pos).take (term.len - term.pos) = term.unsent := by
      rw [unsent_of_some hbuf, List.drop_take]
    dsimp only
    rw [hcopy, ← hleft]
    split
    · next hfits =>
      rw [newChars_of_le (by push_cast; rfl) hfits, ok_bind]
      exact appendChars_ok term.unsent written_replicate (by rw [List.length_nil]; omega)
    · next hfits =>
      rw [newChars_of_gt (by omega) (by omega), error_bind]

theorem pasted_length (bracketed : Bool) (text : List ℕ) : (pasted bracketed text).length ≤ text.length + 12 := by
  have hconvert := convertNl_length text
  have hstart : pasteStart.length = 6 := rfl
  have hend : pasteEnd.length = 6 := rfl
  cases bracketed with
  | false => exact Nat.le_trans hconvert (Nat.le_add_right _ _)
  | true =>
    unfold pasted
    rw [if_pos rfl, List.length_append, List.length_append]
    omega

/-- What is written to the new buffer -/
def appendText (bracketed : Bool) (b : List ℕ × ℕ) (text : List ℕ) : Except PasteFault (List ℕ × ℕ) := do
  let b ← if bracketed then appendChars b pasteStart else .ok b
  let b ← convertLoop (text.length + 1) b text
  if bracketed then appendChars b pasteEnd else .ok b

theorem termAddPasteBuffer_eq {ldisc bracketed : Bool} {now : UInt32} {text : List ℕ} :
    termAddPasteBuffer ldisc bracketed now term text = do
      let start ← newPasteBuffer term text.length
      let b ← appendText bracketed start text
      if b.2 < 32 then return ({ term with buffer := none, len := 0, pos := 0 }, luniSend ldisc (b.1.take b.2))
      else
        return ({ buffer := some b.1, len := b.2, pos := 0,
                  timers := if start.2 = 0 then scheduleTimer term.timers 0 now else term.timers }, []) := by
  unfold termAddPasteBuffer appendText
  cases bracketed with
  | false => simp only [Bool.false_eq_true, if_false, ok_bind, bind_assoc]
  | true => simp only [if_true, bind_assoc]

theorem appendText_ok {bracketed : Bool} {text : List ℕ} (h : Written b content size)
    (hfits : text.length + 12 + content.length ≤ size) :
    ∃ b', appendText bracketed b text = .ok b' ∧ Written b' (content ++ pasted bracketed text) size := by
  have hconvert := convertNl_length text
  have hstart : pasteStart.length = 6 := rfl
  have hend : pasteEnd.length = 6 := rfl
  unfold appendText
  cases bracketed with
  | false =>
    obtain ⟨b₁, hb₁, hw₁⟩ := convertLoop_ok h (by omega) (Nat.lt_succ_self text.length)
    refine ⟨b₁, ?_, hw₁⟩
    simp only [Bool.false_eq_true, if_false, ok_bind, hb₁]
  | true =>
    obtain ⟨b₁, hb₁, hw₁⟩ := appendChars_ok pasteStart h (by omega)
    obtain ⟨b₂, hb₂, hw₂⟩ := convertLoop_ok hw₁ (by rw [List.length_append]; omega) (Nat.lt_succ_self text.length)
    obtain ⟨b₃, hb₃, hw₃⟩ := appendChars_ok pasteEnd hw₂ (by
      rw [List.length_append, List.length_append]
      omega)
    refine ⟨b₃, ?_, ?_⟩
    · simp only [if_true, hb₁, ok_bind, hb₂, hb₃]
    · rwa [List.append_assoc, List.append_assoc, ← List.append_assoc pasteStart] at hw₃

theorem scheduleTimer_ne_nil {timers : List UInt32} {ticks now : UInt32} :
    scheduleTimer timers ticks now ≠ [] := by
  unfold scheduleTimer
  dsimp only
  generalize (if ticks + now - now = 0 then now + 1 else ticks + now) = due
  by_cases hdue : due ∈ timers
  · rw [if_pos hdue]
    exact List.ne_nil_of_mem hdue
  · rw [if_neg hdue]
    exact List.cons_ne_nil due timers

/-- A step keeps the invariant; what it sends, and what is then unsent, is what was unsent and what is pasted. -/
def StepOk (term : Paste) (text : List ℕ) (r : Paste × List ℕ) : Prop :=
  PasteInv r.1 ∧ r.2 ++ r.1.unsent = term.unsent ++ text

/-- A paste is added to what is unsent, or there is no room for it. -/
theorem termAddPasteBuffer_spec {bracketed : Bool} {now : UInt32} {text : List ℕ} (h : PasteInv term)
    (hlen : text.length < 2 ^ 31) :
    if text.length + 12 + term.unsent.length ≤ maxChars then
      Succeeds (termAddPasteBuffer true bracketed now term text) (StepOk term (pasted bracketed text))
    else termAddPasteBuffer true bracketed now term text = .error .outOfMemory := by
  have hnew := newPasteBuffer_spec h hlen
  rw [termAddPasteBuffer_eq]
  split
  · next hfits =>
    rw [if_pos hfits] at hnew
    obtain ⟨start, hstart, hw⟩ := hnew
    obtain ⟨b, hb, hwb⟩ := @appendText_ok _ _ _ bracketed text hw (Nat.le_refl _)
    rw [hstart, ok_bind, hb, ok_bind]
    by_cases hsmall : b.2 < 32
    · rw [if_pos hsmall, pure_eq, succeeds_ok]
      refine ⟨⟨fun _ => rfl, fun _ h => (nomatch h), fun h => absurd rfl h⟩, ?_⟩
      exact (List.append_nil _).trans hwb.take_eq
    · rw [if_neg hsmall, pure_eq, succeeds_ok]
      refine ⟨⟨fun h => (nomatch h), ?_, fun _ => ?_⟩, hwb.take_eq⟩
      · intro buf hbuf
        obtain rfl := Option.some.inj hbuf
        have hpasted := pasted_length bracketed text
        have hlen := hwb.len_eq
        rw [List.length_append] at hlen
        have hlarge : 32 ≤ b.2 := Nat.not_lt.mp hsmall
        refine ⟨Nat.lt_of_lt_of_le (Nat.zero_lt_succ 31) hlarge, ?_, ?_⟩
        · dsimp only
          rw [hwb.length_eq]
          omega
        · rw [hwb.length_eq]
          exact hfits
      · dsimp only
        by_cases hleft : start.2 = 0
        · rw [if_pos hleft]
          exact scheduleTimer_ne_nil
        · rw [if_neg hleft]
          have hunsent : term.unsent ≠ [] := fun hnil => hleft (by rw [hw.len_eq, hnil, List.length_nil])
          exact h.pending fun hnone => hunsent (unsent_of_none hnone)
  · next hfits =>
    rw [if_neg hfits] at hnew
    rw [hnew, error_bind]

/-! ## A timer -/

theorem takeLine_prefix (cs : List ℕ) : takeLine cs <+: cs := by
  induction cs with
  | nil => exact List.nil_prefix
  | cons c cs ih =>
    unfold takeLine
    by_cases hc : c = 13
    · rw [if_pos hc]
      exact List.prefix_append [c] cs
    · rw [if_neg hc]
      exact List.cons_prefix_cons.mpr ⟨rfl, ih⟩

theorem takeLine_ne_nil {cs : List ℕ} (h : cs ≠ []) : takeLine cs ≠ [] := by
  cases cs with
  | nil => exact absurd rfl h
  | cons c cs =>
    unfold takeLine
    split
    · exact List.cons_ne_nil _ _
    · exact List.cons_ne_nil _ _

/-- A timer sends the next line, and another one is pending for what is then left. -/
theorem termPasteCallback_spec {ticks now : UInt32} (hlen : term.buffer = none → term.len = 0)
    (hpos : ∀ buf, term.buffer = some buf → term.pos < term.len ∧ term.len ≤ buf.length ∧ buf.length ≤ maxChars) :
    Succeeds (termPasteCallback true ticks now term) fun r =>
      StepOk term [] r ∧ (term.unsent ≠ [] → r.2 ≠ []) := by
  unfold termPasteCallback
  cases hbuf : term.buffer with
  | none =>
    rw [if_pos (hlen hbuf), succeeds_ok]
    refine ⟨⟨⟨hlen, hpos, fun h => absurd hbuf h⟩, (List.append_nil _).symm⟩, fun h => ?_⟩
    exact absurd (unsent_of_none hbuf) h
  | some buf =>
    obtain ⟨hlt, hle, hmax⟩ := hpos buf hbuf
    have hunsent := unsent_of_some hbuf
    have hlength : term.unsent.length = term.len - term.pos := by
      rw [hunsent, List.length_drop, List.length_take, Nat.min_eq_left hle]
    have hne : term.unsent ≠ [] := by
      intro hnil
      rw [hnil, List.length_nil] at hlength
      omega
    obtain ⟨tail, htail⟩ := takeLine_prefix term.unsent
    have hsum := congrArg List.length htail
    rw [List.length_append, hlength] at hsum
    rw [if_neg (by omega)]
    dsimp only
    rw [if_neg (Nat.not_lt.mpr hle), if_pos hlt, ← hunsent]
    by_cases hmore : term.pos + (takeLine term.unsent).length < term.len
    · rw [if_pos hmore, succeeds_ok]
      refine ⟨⟨⟨fun h => (nomatch h), ?_, fun _ => scheduleTimer_ne_nil⟩, ?_⟩, fun _ => takeLine_ne_nil hne⟩
      · intro buf' hbuf'
        obtain rfl := Option.some.inj hbuf'
        exact ⟨hmore, hle, hmax⟩
      · have hrest : tail = (buf.take term.len).drop (term.pos + (takeLine term.unsent).length) := by
          rw [← List.drop_drop, ← hunsent]
          exact (List.append_cancel_left (htail.trans (List.prefix_iff_eq_append.mp ⟨tail, htail⟩).symm))
        rw [List.append_nil]
        exact (congrArg (takeLine term.unsent ++ ·) hrest.symm).trans htail
    · rw [if_neg hmore, succeeds_ok]
      have hnil : tail = [] := List.length_eq_zero_iff.mp (by omega)
      refine ⟨⟨⟨fun _ => rfl, fun _ h => (nomatch h), fun h => absurd rfl h⟩, ?_⟩, fun _ => takeLine_ne_nil hne⟩
      rw [hnil] at htail
      rw [List.append_nil]
      exact htail

/-! ## Pastes and timers in any order -/

/-- What an event does: all goes well, or there is no room for the text. -/
def EventOk (term : Paste) (e : PasteEvent) : Except PasteFault (Paste × List ℕ) → Prop
  | .ok r => StepOk term e.pasted r
  | .error fault => fault = .outOfMemory ∧ maxChars < e.room + term.unsent.length

theorem pasteStep_spec (h : PasteInv term) (e : PasteEvent) : EventOk term e (pasteStep true term e) := by
  cases e with
  | paste bracketed text now =>
    have hpaste := @termAddPasteBuffer_spec term bracketed now text.val h text.property
    unfold pasteStep
    dsimp only
    split at hpaste
    · obtain ⟨r, hr, hok⟩ := hpaste
      rw [hr]
      exact hok
    · next hfits =>
      rw [hpaste]
      exact ⟨rfl, Nat.not_le.mp hfits⟩
  | timer due ticks now =>
    unfold pasteStep
    dsimp only
    by_cases hdue : due ∈ term.timers
    · rw [if_pos hdue]
      obtain ⟨r, hr, hok, -⟩ := @termPasteCallback_spec { term with timers := term.timers.erase due } ticks now
        h.len_eq h.pos_lt
      rw [hr]
      exact hok
    · rw [if_neg hdue]
      exact ⟨h, (List.append_nil _).symm⟩

theorem pasteRun_spec (h : PasteInv term) (events : List PasteEvent) :
    match pasteRun true term events with
    | .ok (term', sent) => PasteInv term' ∧ sent ++ term'.unsent = term.unsent ++ events.flatMap PasteEvent.pasted
    | .error fault =>
      fault = .outOfMemory ∧ maxChars < (events.map PasteEvent.room).sum + term.unsent.length := by
  induction events generalizing term with
  | nil => exact ⟨h, (List.append_nil _).symm⟩
  | cons e events ih =>
    have hstep := pasteStep_spec h e
    unfold pasteRun
    rw [List.map_cons, List.sum_cons, List.flatMap_cons]
    cases hr : pasteStep true term e with
    | error fault =>
      rw [hr] at hstep
      exact ⟨hstep.1, by have hroom := hstep.2; omega⟩
    | ok r =>
      rw [hr] at hstep
      obtain ⟨hinv, hsent⟩ := hstep
      have hrest := ih hinv
      rw [ok_bind]
      cases hrun : pasteRun true r.1 events with
      | error fault =>
        rw [hrun] at hrest
        have hlength := congrArg List.length hsent
        rw [List.length_append, List.length_append] at hlength
        have hpasted : e.pasted.length ≤ e.room := by
          cases e with
          | paste bracketed text now => exact pasted_length bracketed text.val
          | timer due ticks now => exact Nat.le_refl 0
        exact ⟨hrest.1, by have hroom := hrest.2; omega⟩
      | ok rest =>
        rw [hrun] at hrest
        refine ⟨hrest.1, ?_⟩
        rw [List.append_assoc, hrest.2, ← List.append_assoc, hsent, List.append_assoc]

/-- A timer that is due sends something if something is left. -/
theorem pasteStep_progress {due ticks now : UInt32} (h : PasteInv term) (hdue : due ∈ term.timers)
    (hne : term.unsent ≠ []) : Succeeds (pasteStep true term (.timer due ticks now)) fun r => r.2 ≠ [] := by
  obtain ⟨r, hr, -, hsent⟩ := @termPasteCallback_spec { term with timers := term.timers.erase due } ticks now
    h.len_eq h.pos_lt
  unfold pasteStep
  dsimp only
  rw [if_pos hdue]
  exact ⟨r, hr, hsent hne⟩

/-- What was sent and what is left are all texts, in order. A timer is pending for what is left, and sends of it. -/
theorem pasteRun_sent (events : List PasteEvent) :
    match pasteRun true noPaste events with
    | .ok (term, sent) => sent ++ term.unsent = events.flatMap PasteEvent.pasted ∧
        (term.unsent ≠ [] → term.timers ≠ [] ∧ ∀ due ∈ term.timers, ∀ ticks now,
          Succeeds (pasteStep true term (.timer due ticks now)) fun r => r.2 ≠ []) ∧
        (term.buffer = none → term.len = 0) ∧
        ∀ buf, term.buffer = some buf → term.pos < term.len ∧ term.len ≤ buf.length
    | .error fault => fault = .outOfMemory ∧ maxChars < (events.map PasteEvent.room).sum := by
  have hrun := pasteRun_spec noPaste_inv events
  cases h : pasteRun true noPaste events with
  | error fault =>
    rw [h] at hrun
    exact hrun
  | ok r =>
    rw [h] at hrun
    obtain ⟨hinv, hsent⟩ := hrun
    refine ⟨hsent, fun hne => ⟨?_, fun due hdue ticks now => ?_⟩, hinv.len_eq, fun buf hbuf => ?_⟩
    · exact hinv.pending fun hnone => hne (unsent_of_none hnone)
    · exact pasteStep_progress hinv hdue hne
    · obtain ⟨hpos, hlen, -⟩ := hinv.pos_lt buf hbuf
      exact ⟨hpos, hlen⟩

/-- The position is kept when the buffer is freed. -/
theorem pasteRun_position : ∃ term sent,
    pasteRun true noPaste [.paste false ⟨List.replicate 32 97, by decide⟩ 0, .timer 1 0 0] = .ok (term, sent) ∧
      ¬term.pos ≤ term.len :=
  ⟨⟨none, 0, 32, []⟩, List.replicate 32 97, rfl, by decide⟩

end PuttyNd.Terminal
