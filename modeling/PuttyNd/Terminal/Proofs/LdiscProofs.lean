import Mathlib.Data.List.TakeWhile
import PuttyNd.Terminal.Ldisc

/-!
# The line discipline is a line editor

One key is taken as the editor takes it, unless a delete key finds only continuation bytes. What the echo rubs out
is what it wrote, as the bytes that are removed together start with a character.
-/

namespace PuttyNd.Terminal

open Memory LineDisplay Outcome

variable {conf : LdiscConf} {utf echoing : Bool} {ldisc : Ldisc} {c b : UInt8} {line buf keep removed : List UInt8}
  {cells new : List Cell} {l : Line Cell} {e : Editor} {keys keys' : List (Bool × ℕ)} {n : ℕ}

/-! ## Characters -/

theorem charStart_utf : charStart true c = !isContinuation c := by
  have h : ∀ n < 256, charStart true (UInt8.ofNat n) = !isContinuation (UInt8.ofNat n) := by decide +kernel
  have hc := h c.toNat c.toNat_lt
  rwa [UInt8.ofNat_toNat] at hc

theorem charStart_false_iff : charStart utf c = false ↔ utf = true ∧ isContinuation c = true := by
  cases utf with
  | false => simp [charStart]
  | true => simp [charStart_utf]

/-- A byte that starts a character is written as cells of their own, as many as are rubbed out. -/
theorem pwrite_start (h : charStart utf c = true) : (pwrite utf c).length = plen utf c ∧ 0 < plen utf c ∧
    ∀ b ∈ pwrite utf c, b ≠ 8 ∧ b ≠ 13 ∧ b ≠ 10 ∧ charStart utf b = true := by
  have hall : ∀ n < 256, charStart utf (UInt8.ofNat n) = true →
      (pwrite utf (UInt8.ofNat n)).length = plen utf (UInt8.ofNat n) ∧ 0 < plen utf (UInt8.ofNat n) ∧
        (pwrite utf (UInt8.ofNat n)).all (fun b => b != 8 && b != 13 && b != 10 && charStart utf b) = true := by
    cases utf <;> decide +kernel
  have hc := hall c.toNat c.toNat_lt
  rw [UInt8.ofNat_toNat] at hc
  obtain ⟨hlen, hpos, hbytes⟩ := hc h
  refine ⟨hlen, hpos, ?_⟩
  intro b hb
  have hb := List.all_eq_true.mp hbytes b hb
  simp only [Bool.and_eq_true, bne_iff_ne, and_assoc] at hb
  exact hb

/-- A continuation byte is written as it is, and nothing is rubbed out for it. -/
theorem pwrite_continuation (h : charStart utf c = false) :
    pwrite utf c = [c] ∧ plen utf c = 0 ∧ c ≠ 8 ∧ c ≠ 13 ∧ c ≠ 10 := by
  have hall : ∀ n < 256, charStart utf (UInt8.ofNat n) = false →
      pwrite utf (UInt8.ofNat n) = [UInt8.ofNat n] ∧ plen utf (UInt8.ofNat n) = 0 ∧ UInt8.ofNat n ≠ 8 ∧
        UInt8.ofNat n ≠ 13 ∧ UInt8.ofNat n ≠ 10 := by
    cases utf <;> decide +kernel
  have hc := hall c.toNat c.toNat_lt
  rw [UInt8.ofNat_toNat] at hc
  exact hc h

/-! ## What is removed -/

theorem deleteLoop_eq (hstart : charStart utf c = true) {conts : List UInt8}
    (hconts : ∀ b ∈ conts, charStart utf b = false) :
    deleteLoop utf echoing (conts ++ c :: buf) = .ok (buf, (conts ++ [c]).flatMap (echoErase utf echoing)) := by
  induction conts with
  | nil =>
    rw [List.nil_append, deleteLoop, if_pos hstart]
    simp
  | cons b conts ih =>
    have hb := hconts b List.mem_cons_self
    rw [List.cons_append, deleteLoop, if_neg (by rw [hb]; decide), ih fun d hd => hconts d (List.mem_cons_of_mem b hd)]
    rfl

/-- Without the start of a character, the loop leaves the buffer. -/
theorem deleteLoop_error (h : ∀ b ∈ buf, charStart utf b = false) : deleteLoop utf echoing buf = .error .overrun := by
  induction buf with
  | nil => rfl
  | cons b buf ih =>
    rw [deleteLoop, if_neg (by rw [h b List.mem_cons_self]; decide), ih fun d hd => h d (List.mem_cons_of_mem b hd)]
    rfl

theorem deleteWordLoop_eq : ∃ removed, buf = removed ++ (deleteWordLoop utf echoing buf).1 ∧
    (deleteWordLoop utf echoing buf).2 = removed.flatMap (echoErase utf echoing) ∧
    (deleteWordLoop utf echoing buf).1 = (buf.dropWhile isspaceByte).dropWhile (fun c => !isspaceByte c) ∧
    ∀ d, (deleteWordLoop utf echoing buf).1.head? = some d → isspaceByte d = true := by
  induction buf with
  | nil => exact ⟨[], rfl, rfl, rfl, fun d hd => by simp [deleteWordLoop] at hd⟩
  | cons c buf ih =>
    cases buf with
    | nil =>
      refine ⟨[c], rfl, by simp [deleteWordLoop], ?_, fun d hd => by simp [deleteWordLoop] at hd⟩
      by_cases hc : isspaceByte c = true
      · simp [deleteWordLoop, hc]
      · simp [deleteWordLoop, hc]
    | cons d buf =>
      obtain ⟨removed, hbuf, hout, hrest, hhead⟩ := ih
      unfold deleteWordLoop
      by_cases h : isspaceByte d = true ∧ ¬isspaceByte c = true
      · rw [if_pos h]
        refine ⟨[c], rfl, by simp, ?_, ?_⟩
        · rw [List.dropWhile_cons_of_neg h.2, List.dropWhile_cons_of_pos (by simpa using h.2),
            List.dropWhile_cons_of_neg (by simp [h.1])]
        · intro d' hd'
          rw [← Option.some.inj hd']
          exact h.1
      · rw [if_neg h]
        refine ⟨c :: removed, ?_, ?_, ?_, hhead⟩
        · dsimp only
          rw [List.cons_append, ← hbuf]
        · dsimp only
          rw [hout, List.flatMap_cons]
        · dsimp only
          rw [hrest]
          by_cases hc : isspaceByte c = true
          · rw [List.dropWhile_cons_of_pos hc]
          · have hd : ¬isspaceByte d = true := fun hd => h ⟨hd, hc⟩
            rw [List.dropWhile_cons_of_neg hc, List.dropWhile_cons_of_neg hd,
              @List.dropWhile_cons_of_pos _ _ c _ (by simpa using hc)]

/-! ## The screen -/

/-- The cells of a line to which a byte is written -/
def draw (utf : Bool) (cells : List Cell) (c : UInt8) : List Cell :=
  if charStart utf c then cells ++ (pwrite utf c).map ([·]) else extendLast cells c

/-- The screen shows a line, with the cursor at its end. -/
def Shows (utf : Bool) (line : List UInt8) (l : Line Cell) : Prop :=
  l.before = line.foldl (draw utf) [] ∧ Clear [32] l

theorem foldl_put (bytes : List UInt8) (h : ∀ b ∈ bytes, b ≠ 8 ∧ b ≠ 13 ∧ b ≠ 10 ∧ charStart utf b = true) :
    (bytes.foldl (screenByte utf) l).before = l.before ++ bytes.map ([·]) ∧
      (Clear [32] l → Clear [32] (bytes.foldl (screenByte utf) l)) := by
  induction bytes generalizing l with
  | nil => exact ⟨(List.append_nil _).symm, id⟩
  | cons b bytes ih =>
    obtain ⟨h8, h13, h10, hstart⟩ := h b List.mem_cons_self
    have hput : screenByte utf l b = put l [b] := by
      unfold screenByte
      rw [if_neg h8, if_neg h13, if_neg h10, if_pos hstart]
    obtain ⟨hbefore, hclear⟩ := @ih (put l [b]) fun d hd => h d (List.mem_cons_of_mem b hd)
    rw [List.foldl_cons, hput, hbefore]
    refine ⟨?_, fun hl => hclear (clear_put hl)⟩
    simp [put]

/-- What a byte that is echoed does to the screen -/
theorem foldl_pwrite : ((pwrite utf c).foldl (screenByte utf) l).before = draw utf l.before c ∧
    (Clear [32] l → Clear [32] ((pwrite utf c).foldl (screenByte utf) l)) := by
  unfold draw
  by_cases h : charStart utf c = true
  · rw [if_pos h]
    exact foldl_put _ (pwrite_start h).2.2
  · have hfalse : charStart utf c = false := by simpa using h
    obtain ⟨hwrite, -, h8, h13, h10⟩ := pwrite_continuation hfalse
    rw [if_neg h, hwrite]
    show (screenByte utf l c).before = _ ∧ (_ → Clear [32] (screenByte utf l c))
    unfold screenByte
    rw [if_neg h8, if_neg h13, if_neg h10, if_neg h]
    exact ⟨rfl, id⟩

theorem shows_write (h : Shows utf line l) : Shows utf (line ++ [c]) (screenOutput utf l (.write (pwrite utf c))) := by
  obtain ⟨hbefore, hclear⟩ := @foldl_pwrite utf c l
  refine ⟨?_, hclear h.2⟩
  rw [List.foldl_append, ← h.1]
  exact hbefore

theorem shows_writes (h : Shows utf line l) :
    Shows utf (line ++ buf) ((buf.map fun b => Output.write (pwrite utf b)).foldl (screenOutput utf) l) := by
  induction buf generalizing line l with
  | nil =>
    rw [List.append_nil]
    exact h
  | cons b buf ih =>
    have hsnoc : line ++ b :: buf = line ++ [b] ++ buf := by simp
    rw [List.map_cons, List.foldl_cons, hsnoc]
    exact ih (shows_write h)

theorem displayForm_eq : displayForm utf line = line.foldl (draw utf) [] := by
  have hfold (cells : Line Cell) (line : List UInt8) :
      ((line.flatMap (pwrite utf)).foldl (screenByte utf) cells).before = line.foldl (draw utf) cells.before := by
    induction line generalizing cells with
    | nil => rfl
    | cons c line ih => rw [List.flatMap_cons, List.foldl_append, ih, foldl_pwrite.1, List.foldl_cons]
  exact hfold ⟨[], []⟩ line

theorem shows_blank : Shows utf [] ⟨[], []⟩ := ⟨rfl, fun _ h => nomatch h⟩

/-! ## What is rubbed out -/

theorem extendLast_append (hnew : new ≠ []) : ∃ new', extendLast (cells ++ new) c = cells ++ new' ∧
    new'.length = new.length := by
  refine ⟨new.dropLast ++ [new.getLast hnew ++ [c]], ?_, ?_⟩
  · unfold extendLast
    rw [List.getLast?_append_of_ne_nil _ hnew, List.getLast?_eq_some_getLast hnew, List.dropLast_append_of_ne_nil hnew]
    exact List.append_assoc _ _ _
  · have hpos := List.length_pos_of_ne_nil hnew
    rw [List.length_append, List.length_dropLast, List.length_singleton]
    omega

/-- Bytes after the start of a character add cells, or extend the last one. -/
theorem foldl_draw (hnew : new ≠ []) : ∃ new', removed.foldl (draw utf) (cells ++ new) = cells ++ new' ∧
    new'.length = new.length + (removed.map (plen utf)).sum := by
  induction removed generalizing new with
  | nil => exact ⟨new, rfl, rfl⟩
  | cons c removed ih =>
    rw [List.foldl_cons, List.map_cons, List.sum_cons]
    by_cases h : charStart utf c = true
    · obtain ⟨hlen, -, -⟩ := pwrite_start h
      have hdraw : draw utf (cells ++ new) c = cells ++ (new ++ (pwrite utf c).map ([·])) := by
        unfold draw
        rw [if_pos h, List.append_assoc]
      obtain ⟨new', heq, hlength⟩ := @ih (new ++ (pwrite utf c).map ([·])) (by simp [hnew])
      refine ⟨new', ?_, ?_⟩
      · rw [hdraw, heq]
      · rw [hlength, List.length_append, List.length_map, hlen, Nat.add_assoc]
    · have hfalse : charStart utf c = false := by simpa using h
      obtain ⟨new₁, hext, hlen₁⟩ := @extendLast_append c cells new hnew
      have hne : new₁ ≠ [] := fun h => hnew (List.length_eq_zero_iff.mp (by rw [← hlen₁, h]; rfl))
      obtain ⟨new', heq, hlength⟩ := ih hne
      refine ⟨new', ?_, ?_⟩
      · rw [draw, if_neg h, hext, heq]
      · rw [hlength, hlen₁, (pwrite_continuation hfalse).2.1, Nat.zero_add]

/-- What bytes that start with a character add to a line -/
theorem foldl_draw_start (h : ∀ b, removed.head? = some b → charStart utf b = true) :
    ∃ new, removed.foldl (draw utf) cells = cells ++ new ∧ new.length = (removed.map (plen utf)).sum := by
  cases removed with
  | nil => exact ⟨[], (List.append_nil _).symm, rfl⟩
  | cons c removed =>
    have hstart := h c rfl
    obtain ⟨hlen, hpos, -⟩ := pwrite_start hstart
    have hne : (pwrite utf c).map (fun b => [b]) ≠ [] := by
      intro hnil
      rw [← hlen, ← @List.length_map _ _ (pwrite utf c) (fun b => [b]), hnil] at hpos
      exact Nat.lt_irrefl 0 hpos
    obtain ⟨new, heq, hlength⟩ := @foldl_draw utf removed cells _ hne
    refine ⟨new, ?_, ?_⟩
    · rw [List.foldl_cons, draw, if_pos hstart, heq]
    · rw [hlength, List.length_map, hlen, List.map_cons, List.sum_cons]

theorem screenOutput_erase : screenOutput utf l (.write [8, 32, 8]) = rubout [32] l := by
  have hspace : charStart utf 32 = true := by cases utf <;> decide
  show screenByte utf (screenByte utf (screenByte utf l 8) 32) 8 = _
  unfold screenByte
  rw [if_pos rfl, if_pos rfl, if_neg (by decide), if_neg (by decide), if_neg (by decide), if_pos hspace]
  rfl

theorem foldl_bsb : (bsb n).foldl (screenOutput utf) l = (rubout [32])^[n] l := by
  unfold bsb
  induction n generalizing l with
  | zero => rfl
  | succ n ih => rw [List.replicate_succ, List.foldl_cons, screenOutput_erase, ih, Function.iterate_succ_apply]

theorem foldl_echoErase (bytes : List UInt8) : (bytes.flatMap (echoErase utf true)).foldl (screenOutput utf) l =
    (rubout [32])^[(bytes.map (plen utf)).sum] l := by
  induction bytes generalizing l with
  | nil => rfl
  | cons c bytes ih =>
    rw [List.flatMap_cons, List.foldl_append, ih, List.map_cons, List.sum_cons, Nat.add_comm,
      Function.iterate_add_apply, echoErase, if_pos rfl, foldl_bsb]

/-- Bytes that start with a character are rubbed out. -/
theorem shows_erase (h : Shows utf (keep ++ removed) l) (hstart : ∀ b, removed.head? = some b → charStart utf b = true) :
    Shows utf keep ((removed.reverse.flatMap (echoErase utf true)).foldl (screenOutput utf) l) := by
  obtain ⟨new, heq, hlen⟩ := @foldl_draw_start utf removed (keep.foldl (draw utf) []) hstart
  obtain ⟨before, after⟩ := l
  have hbefore : before = keep.foldl (draw utf) [] ++ new := by
    rw [← heq, ← List.foldl_append]
    exact h.1
  have hsum : (removed.reverse.map (plen utf)).sum = new.length := by
    rw [hlen, List.map_reverse, List.sum_reverse]
  rw [foldl_echoErase, hsum, hbefore, rubout_iterate _ rfl]
  exact ⟨rfl, clear_replicate h.2⟩

/-! ## One key -/

/-- The line discipline, as a line editor -/
def editorOf (ldisc : Ldisc) : Editor := ⟨ldisc.buf, ldisc.quotenext⟩

/-- `r` is what the editor does from `ldisc` on, and is shown in a mode for which `shown` holds. -/
def Follows (ldisc : Ldisc) (r : Except Memory.Fault (Ldisc × List Output)) (e : Editor × List Output)
    (shown : Bool → Prop) : Prop :=
  ∃ ldisc' out, r = .ok (ldisc', out) ∧ editorOf ldisc' = e.1 ∧ out.filter isSent = e.2 ∧
    ∀ utf l, shown utf → Shows utf ldisc.buf l → Shows utf ldisc'.buf (out.foldl (screenOutput utf) l)

theorem filter_bsb : (bsb n).filter isSent = [] := by
  refine List.filter_eq_nil_iff.mpr ?_
  intro o ho
  rw [List.eq_of_mem_replicate ho]
  decide

theorem filter_echoErase (bytes : List UInt8) : (bytes.flatMap (echoErase utf echoing)).filter isSent = [] := by
  induction bytes with
  | nil => rfl
  | cons c bytes ih =>
    rw [List.flatMap_cons, List.filter_append, ih, List.append_nil]
    unfold echoErase
    split
    · exact filter_bsb
    · rfl

theorem complete_head (h : Editor.Complete utf line) : ∀ b, line.head? = some b → charStart utf b = true := by
  intro b hb
  by_contra hstart
  obtain ⟨rest, rfl⟩ := List.head?_eq_some_iff.mp hb
  obtain ⟨a, ha, -⟩ := h [] b rest rfl (by simpa using hstart)
  exact nomatch ha

/-- A character starts after a space. -/
theorem complete_after (h : Editor.Complete utf (keep ++ removed))
    (hkeep : ∀ d, keep.getLast? = some d → isspaceByte d = true) :
    ∀ b, removed.head? = some b → charStart utf b = true := by
  intro b hb
  by_contra hstart
  obtain ⟨rest, rfl⟩ := List.head?_eq_some_iff.mp hb
  obtain ⟨a, ha, hge⟩ := h keep b rest rfl (by simpa using hstart)
  have hspace : ∀ n < 256, isspaceByte (UInt8.ofNat n) = true → ¬0x80 ≤ UInt8.ofNat n := by decide +kernel
  have hlt := hspace a.toNat a.toNat_lt
  rw [UInt8.ofNat_toNat] at hlt
  exact hlt (hkeep a ha) hge

theorem buf_of_reverse {rest : List UInt8} (h : ldisc.buf.reverse = removed ++ rest) :
    ldisc.buf = rest.reverse ++ removed.reverse ∧ (ldisc.setBuflen rest.length).buf = rest.reverse := by
  have hbuf : ldisc.buf = rest.reverse ++ removed.reverse := by rw [← List.reverse_append, ← h, List.reverse_reverse]
  refine ⟨hbuf, ?_⟩
  show ldisc.buf.take rest.length = _
  rw [hbuf, List.take_left' List.length_reverse]

theorem follows_insert : Follows ldisc (.ok (insertChar utf true ldisc b)) ((editorOf ldisc).type b, [])
    (fun u => u = utf) := by
  refine ⟨_, _, rfl, rfl, rfl, ?_⟩
  rintro _ l rfl hshows
  exact shows_write hshows

theorem follows_delete (hbuf : ldisc.buf = [] ∨ ∃ b ∈ ldisc.buf, charStart utf b = true) :
    Follows ldisc
      (if 0 < ldisc.buf.length then do
        let (buf, out) ← deleteLoop utf true ldisc.buf.reverse
        .ok (ldisc.setBuflen buf.length, out)
      else .ok (ldisc, []))
      ({ editorOf ldisc with line := withoutChar utf ldisc.buf }, []) (fun u => u = utf) := by
  rcases hbuf with hnil | ⟨b, hb, hstart⟩
  · have hpos : ¬0 < ldisc.buf.length := by simp [hnil]
    rw [if_neg hpos]
    refine ⟨ldisc, [], rfl, ?_, rfl, fun _ _ _ h => h⟩
    unfold editorOf withoutChar
    rw [hnil]
    cases utf <;> rfl
  · have hpos : 0 < ldisc.buf.length := List.length_pos_of_mem hb
    -- The bytes after the last one that starts a character
    obtain ⟨conts, c, rest, hrev, hconts, hc⟩ : ∃ conts c rest, ldisc.buf.reverse = conts ++ c :: rest ∧
        (∀ d ∈ conts, charStart utf d = false) ∧ charStart utf c = true := by
      have hdrop : ldisc.buf.reverse.dropWhile (fun d => !charStart utf d) ≠ [] := by
        intro hnil
        have hall := List.dropWhile_eq_nil_iff.mp hnil b (List.mem_reverse.mpr hb)
        rw [hstart] at hall
        exact absurd hall Bool.false_ne_true
      obtain ⟨c, rest, heq⟩ := List.exists_cons_of_ne_nil hdrop
      refine ⟨ldisc.buf.reverse.takeWhile (fun d => !charStart utf d), c, rest, ?_, ?_, ?_⟩
      · rw [← heq, List.takeWhile_append_dropWhile]
      · intro d hd
        simpa using List.mem_takeWhile_imp hd
      · have hhead := List.head_dropWhile_not (fun d => !charStart utf d) hdrop
        simp only [heq, List.head_cons] at hhead
        simpa using hhead
    have hsplit : ldisc.buf.reverse = (conts ++ [c]) ++ rest := by rw [hrev]; simp
    obtain ⟨hbuf, hset⟩ := buf_of_reverse hsplit
    rw [if_pos hpos, hrev, deleteLoop_eq hc hconts, ok_bind]
    refine ⟨_, _, rfl, ?_, filter_echoErase _, ?_⟩
    · unfold editorOf
      rw [hset]
      show (⟨rest.reverse, ldisc.quotenext⟩ : Editor) = ⟨withoutChar utf ldisc.buf, ldisc.quotenext⟩
      congr 1
      unfold withoutChar
      cases hutf : utf with
      | true =>
        subst hutf
        have hdrop : ldisc.buf.reverse.dropWhile isContinuation = c :: rest := by
          rw [hrev, List.dropWhile_append_of_pos, List.dropWhile_cons_of_neg]
          · rw [charStart_utf] at hc
            simpa using hc
          · intro d hd
            exact (charStart_false_iff.mp (hconts d hd)).2
        rw [if_pos rfl, hdrop]
        rfl
      | false =>
        subst hutf
        cases conts with
        | nil =>
          rw [if_neg (by decide), hbuf]
          simp
        | cons d conts => exact absurd (charStart_false_iff.mp (hconts d List.mem_cons_self)).1 (by decide)
    · rintro _ l rfl hshows
      rw [hset]
      rw [hbuf] at hshows
      have herase := shows_erase hshows (by
        intro d hd
        rw [List.reverse_append, List.reverse_singleton, List.singleton_append] at hd
        rw [← Option.some.inj hd]
        exact hc)
      rw [List.reverse_reverse] at herase
      exact herase

theorem follows_deleteWord :
    Follows ldisc (.ok (ldisc.setBuflen (deleteWordLoop utf true ldisc.buf.reverse).1.length,
      (deleteWordLoop utf true ldisc.buf.reverse).2))
      ({ editorOf ldisc with line := withoutWord ldisc.buf }, [])
      (fun u => u = utf ∧ Editor.Complete utf ldisc.buf) := by
  obtain ⟨removed, hrev, hout, hrest, hhead⟩ := @deleteWordLoop_eq utf true ldisc.buf.reverse
  obtain ⟨hbuf, hset⟩ := buf_of_reverse hrev
  refine ⟨_, _, rfl, ?_, ?_, ?_⟩
  · unfold editorOf withoutWord
    rw [hset, hrest]
    rfl
  · rw [hout]
    exact filter_echoErase _
  · rintro _ l ⟨rfl, hcomplete⟩ hshows
    rw [hset, hout]
    rw [hbuf] at hshows hcomplete
    have herase := shows_erase hshows (complete_after hcomplete (by
      intro d hd
      rw [List.getLast?_reverse] at hd
      exact hhead d hd))
    rw [List.reverse_reverse] at herase
    exact herase

/-- The whole line is rubbed out. -/
theorem shows_clear (hcomplete : Editor.Complete utf line) (h : Shows utf line l) :
    Shows utf [] ((line.reverse.flatMap (echoErase utf true)).foldl (screenOutput utf) l) :=
  @shows_erase utf [] line l h (complete_head hcomplete)

theorem setBuflen_zero : (ldisc.setBuflen 0).buf = [] := rfl

theorem follows_clear {sent : Option Special} :
    Follows ldisc
      (if conf.telnetKeyboard then
        .ok (ldisc.setBuflen 0, ldisc.buf.reverse.flatMap (echoErase utf true) ++ [.special .el] ++
          (sent.map Output.special).toList)
      else
        .ok ((insertChar utf true (ldisc.setBuflen 0) b).1, ldisc.buf.reverse.flatMap (echoErase utf true) ++
          [.special .el] ++ (insertChar utf true (ldisc.setBuflen 0) b).2))
      (if conf.telnetKeyboard then
        ({ editorOf ldisc with line := [] }, .special .el :: (sent.map Output.special).toList)
      else (({ editorOf ldisc with line := [] } : Editor).type b, [.special .el]))
      (fun u => u = utf ∧ Editor.Complete utf ldisc.buf) := by
  have hnil := @setBuflen_zero ldisc
  by_cases hkeyboard : conf.telnetKeyboard = true
  · rw [if_pos hkeyboard, if_pos hkeyboard]
    refine ⟨_, _, rfl, ?_, ?_, ?_⟩
    · unfold editorOf
      rw [hnil]
      rfl
    · rw [List.append_assoc, List.filter_append, filter_echoErase]
      cases sent <;> rfl
    · rintro _ l ⟨rfl, hcomplete⟩ hshows
      have hclear := shows_clear hcomplete hshows
      rw [hnil, List.append_assoc, List.foldl_append]
      cases sent <;> exact hclear
  · rw [if_neg hkeyboard, if_neg hkeyboard]
    refine ⟨_, _, rfl, rfl, ?_, ?_⟩
    · rw [List.append_assoc, List.filter_append, filter_echoErase]
      rfl
    · rintro _ l ⟨rfl, hcomplete⟩ hshows
      rw [List.append_assoc, List.foldl_append]
      exact shows_write (shows_clear hcomplete hshows)

theorem screenOutput_newline (front : List UInt8) : screenOutput utf l (.write (front ++ [10])) = ⟨[], []⟩ := by
  show (front ++ [10]).foldl (screenByte utf) l = _
  rw [List.foldl_append]
  rfl

theorem follows_redraw :
    Follows ldisc (.ok (ldisc, .write [94, 82, 13, 10] :: ldisc.buf.map fun b => .write (pwrite utf b)))
      (editorOf ldisc, []) (fun u => u = utf) := by
  refine ⟨_, _, rfl, rfl, ?_, ?_⟩
  · rw [List.filter_cons_of_neg Bool.false_ne_true]
    refine List.filter_eq_nil_iff.mpr ?_
    intro o ho
    obtain ⟨b, -, rfl⟩ := List.mem_map.mp ho
    exact Bool.false_ne_true
  · rintro u l rfl -
    have hnew : screenOutput u l (.write [94, 82, 13, 10]) = ⟨[], []⟩ := screenOutput_newline [94, 82, 13]
    rw [List.foldl_cons, hnew]
    exact shows_writes shows_blank

theorem filter_sendLine : (sendLine conf true ldisc).2.filter isSent = Editor.submit conf ldisc.buf := by
  have hend : isSent (endOfLine conf) = true := by
    unfold endOfLine
    split
    · rfl
    · split <;> rfl
  unfold sendLine Editor.submit
  rw [List.filter_append, List.filter_append, List.filter_singleton, hend]
  by_cases hnil : ldisc.buf = []
  · have hpos : ¬0 < ldisc.buf.length := by rw [hnil]; exact Nat.lt_irrefl 0
    rw [if_pos hnil, if_neg hpos]
    rfl
  · rw [if_neg hnil, if_pos (List.length_pos_of_ne_nil hnil)]
    rfl

/-- After a line is sent, a new one is shown. -/
theorem shows_sendLine : Shows utf (sendLine conf true ldisc).1.buf
    ((sendLine conf true ldisc).2.foldl (screenOutput utf) l) := by
  unfold sendLine
  rw [setBuflen_zero, List.foldl_append, if_pos rfl]
  generalize List.foldl (screenOutput utf) l _ = m
  have hnew : screenOutput utf m (.write [13, 10]) = ⟨[], []⟩ := screenOutput_newline [13]
  rw [List.foldl_cons, hnew]
  exact shows_blank

theorem follows_enter : Follows ldisc (.ok (sendLine conf true ldisc))
    ({ editorOf ldisc with line := [] }, Editor.submit conf ldisc.buf) (fun _ => True) := by
  exact ⟨_, _, rfl, rfl, filter_sendLine, fun _ _ _ _ => shows_sendLine⟩

theorem follows_lineFeed :
    Follows ldisc (.ok ((sendLine conf true (ldisc.setBuflen (ldisc.buf.length - 1))).1,
      echoErase utf true 13 ++ (sendLine conf true (ldisc.setBuflen (ldisc.buf.length - 1))).2))
      ({ editorOf ldisc with line := [] }, Editor.submit conf ldisc.buf.dropLast) (fun _ => True) := by
  have hbuf : (ldisc.setBuflen (ldisc.buf.length - 1)).buf = ldisc.buf.dropLast := List.dropLast_eq_take.symm
  refine ⟨_, _, rfl, ?_, ?_, ?_⟩
  · unfold editorOf sendLine
    rw [setBuflen_zero]
    rfl
  · have herase : (echoErase utf true 13).filter isSent = [] := by
      rw [echoErase, if_pos rfl]
      exact filter_bsb
    rw [List.filter_append, herase, filter_sendLine, hbuf]
    rfl
  · intro u l _ _
    rw [List.foldl_append]
    exact shows_sendLine

theorem follows_endOfFile :
    Follows ldisc
      (if ldisc.buf.length = 0 then .ok (ldisc, [.special .eof]) else .ok (ldisc.setBuflen 0, [.send ldisc.buf]))
      (if ldisc.buf = [] then (editorOf ldisc, [.special .eof])
      else ({ editorOf ldisc with line := [] }, [.send ldisc.buf])) (fun _ => True) := by
  by_cases hnil : ldisc.buf = []
  · rw [if_pos hnil, if_pos (by rw [hnil]; rfl)]
    exact ⟨_, _, rfl, rfl, rfl, fun _ _ _ h => h⟩
  · rw [if_neg hnil, if_neg fun h => hnil (List.length_eq_zero_iff.mp h)]
    refine ⟨_, _, rfl, ?_, rfl, ?_⟩
    · unfold editorOf
      rw [setBuflen_zero]
      rfl
    · intro u l _ hshows
      rw [setBuflen_zero]
      exact ⟨rfl, hshows.2⟩

/-- Less is shown, or is shown in the same way. -/
theorem Follows.mono {r : Except Memory.Fault (Ldisc × List Output)} {e : Editor × List Output} {shown shown' : Bool → Prop}
    (h : Follows ldisc r e shown) (himp : ∀ u, shown' u → shown u) : Follows ldisc r e shown' := by
  obtain ⟨ldisc', out, hr, he, hout, hshows⟩ := h
  exact ⟨ldisc', out, hr, he, hout, fun u l hu => hshows u l (himp u hu)⟩

/-- A key is taken as the editor takes it. -/
theorem ldiscChar_follows {c : ℕ} (hdelete : ¬ldisc.quotenext → keyOf c = .delete →
      ldisc.buf = [] ∨ ∃ b ∈ ldisc.buf, charStart utf b = true) :
    Follows ldisc (ldiscChar conf utf true ldisc c) (Editor.press conf utf (editorOf ldisc) c)
      (fun u => u = utf ∧ Editor.Complete utf ldisc.buf) := by
  unfold ldiscChar Editor.press
  by_cases hquote : ldisc.quotenext = true
  · have hquoting : (editorOf ldisc).quoting = true := hquote
    rw [if_pos hquote, if_pos hquoting]
    exact follows_insert.mono fun _ h => h.1
  · have hquoting : ¬(editorOf ldisc).quoting = true := hquote
    rw [if_neg hquote, if_neg hquoting]
    cases hkey : keyOf c with
    | delete => exact (follows_delete (hdelete hquote hkey)).mono fun _ h => h.1
    | deleteWord => exact follows_deleteWord
    | clear sent => exact follows_clear
    | redraw => exact follows_redraw.mono fun _ h => h.1
    | quote => exact ⟨_, _, rfl, rfl, rfl, fun _ _ _ h => h⟩
    | endOfFile => exact follows_endOfFile.mono fun _ _ => trivial
    | lineFeed =>
      dsimp only
      have hline : (editorOf ldisc).line = ldisc.buf := rfl
      rw [hline]
      by_cases hcr : conf.protocol = .raw ∧ ldisc.buf.getLast? = some 13
      · rw [if_pos hcr, if_pos hcr]
        exact follows_lineFeed.mono fun _ _ => trivial
      · rw [if_neg hcr, if_neg hcr]
        exact follows_insert.mono fun _ h => h.1
    | enter => exact follows_enter.mono fun _ _ => trivial
    | ordinary => exact follows_insert.mono fun _ h => h.1

/-- A delete key leaves the buffer if no character starts in it. -/
theorem ldiscChar_overrun {c : ℕ} (hquote : ¬ldisc.quotenext = true) (hkey : keyOf c = .delete) (hne : ldisc.buf ≠ [])
    (hall : ∀ b ∈ ldisc.buf, ¬charStart utf b = true) : ldiscChar conf utf true ldisc c = .error .overrun := by
  unfold ldiscChar
  rw [if_neg hquote, hkey]
  dsimp only
  rw [if_pos (List.length_pos_of_ne_nil hne), deleteLoop_error]
  · rfl
  · intro b hb
    simpa using hall b (List.mem_reverse.mp hb)

/-! ## Runs -/

namespace Editor

theorem run_append : run conf e (keys ++ keys') =
    ((run conf (run conf e keys).1 keys').1, (run conf e keys).2 ++ (run conf (run conf e keys).1 keys').2) := by
  induction keys generalizing e with
  | nil => rfl
  | cons key keys ih =>
    obtain ⟨utf, c⟩ := key
    show ((run conf (press conf utf e c).1 (keys ++ keys')).1,
      (press conf utf e c).2 ++ (run conf (press conf utf e c).1 (keys ++ keys')).2) = _
    rw [ih, ← List.append_assoc]
    rfl

theorem deletable_append : Deletable conf e (keys ++ keys') ↔
    Deletable conf e keys ∧ Deletable conf (run conf e keys).1 keys' := by
  induction keys generalizing e with
  | nil => exact (iff_of_eq (true_and _)).symm
  | cons key keys ih =>
    show _ ∧ Deletable conf _ (keys ++ keys') ↔ (_ ∧ Deletable conf _ keys) ∧ Deletable conf _ keys'
    rw [ih, and_assoc]
    rfl

theorem alwaysComplete_append : AlwaysComplete conf e (keys ++ keys') ↔
    AlwaysComplete conf e keys ∧ AlwaysComplete conf (run conf e keys).1 keys' := by
  induction keys generalizing e with
  | nil => exact (iff_of_eq (true_and _)).symm
  | cons key keys ih =>
    show _ ∧ AlwaysComplete conf _ (keys ++ keys') ↔ (_ ∧ AlwaysComplete conf _ keys) ∧ AlwaysComplete conf _ keys'
    rw [ih, and_assoc]
    rfl

end Editor

/-- The keys of a call, in the mode of the terminal -/
theorem ldiscChars_follows (cs : List ℕ)
    (h : Editor.Deletable conf (editorOf ldisc) (cs.map fun c => (utf, c))) :
    Follows ldisc (ldiscChars conf utf true ldisc cs) (Editor.run conf (editorOf ldisc) (cs.map fun c => (utf, c)))
      (fun u => (cs ≠ [] → u = utf) ∧ Editor.AlwaysComplete conf (editorOf ldisc) (cs.map fun c => (utf, c))) := by
  induction cs generalizing ldisc with
  | nil => exact ⟨ldisc, [], rfl, rfl, rfl, fun _ _ _ h => h⟩
  | cons c cs ih =>
    obtain ⟨hdelete, hrest⟩ := h
    obtain ⟨ldisc₁, out₁, hchar, hed₁, hout₁, hshows₁⟩ := @ldiscChar_follows conf utf ldisc c hdelete
    rw [← hed₁] at hrest
    obtain ⟨ldisc₂, out₂, hchars, hed₂, hout₂, hshows₂⟩ := ih hrest
    refine ⟨ldisc₂, out₁ ++ out₂, ?_, ?_, ?_, ?_⟩
    · rw [ldiscChars, hchar, ok_bind]
      dsimp only
      rw [hchars]
      rfl
    · rw [hed₂, hed₁]
      rfl
    · rw [List.filter_append, hout₁, hout₂, hed₁]
      rfl
    · rintro u l ⟨hu, hcomplete, hcomplete'⟩ hshows
      have hu := hu (List.cons_ne_nil c cs)
      rw [← hed₁] at hcomplete'
      rw [List.foldl_append]
      exact hshows₂ u _ ⟨fun _ => hu, hcomplete'⟩ (hshows₁ u l ⟨hu, hcomplete⟩ hshows)

theorem ldiscChars_overrun (cs : List ℕ)
    (h : ¬Editor.Deletable conf (editorOf ldisc) (cs.map fun c => (utf, c))) :
    ldiscChars conf utf true ldisc cs = .error .overrun := by
  induction cs generalizing ldisc with
  | nil => exact absurd trivial h
  | cons c cs ih =>
    by_cases hdelete : ¬ldisc.quotenext = true → keyOf c = .delete →
        ldisc.buf = [] ∨ ∃ b ∈ ldisc.buf, charStart utf b = true
    · obtain ⟨ldisc₁, out₁, hchar, hed₁, -, -⟩ := @ldiscChar_follows conf utf ldisc c hdelete
      have hrest : ¬Editor.Deletable conf (editorOf ldisc₁) (cs.map fun c => (utf, c)) := by
        rw [hed₁]
        exact fun hrest => h ⟨hdelete, hrest⟩
      rw [ldiscChars, hchar, ok_bind]
      dsimp only
      rw [ih hrest]
      rfl
    · push Not at hdelete
      obtain ⟨hquote, hkey, hne, hall⟩ := hdelete
      rw [ldiscChars, ldiscChar_overrun (by simpa using hquote) hkey hne (by simpa using hall)]
      rfl

variable {telnetKeyboard telnetNewline : Bool} {protocol : Protocol}

/-- With local editing forced on, a call is its keys. -/
theorem ldiscSend_eq (call : Call) : ldiscSend (forcedOn telnetKeyboard telnetNewline protocol) ldisc call =
    ldiscChars (forcedOn telnetKeyboard telnetNewline protocol) call.utf true ldisc (call.string.map call.char) := by
  unfold ldiscSend
  by_cases hempty : call.bytes = [] ∧ ¬call.isSpecial = true
  · have hstring : call.string = [] := by
      unfold Call.string
      rw [if_neg hempty.2, hempty.1]
    rw [if_pos hempty, hstring]
    rfl
  · rw [if_neg hempty]
    exact if_pos rfl

theorem keysOf_cons (call : Call) (calls : List Call) : keysOf (call :: calls) =
    (call.string.map call.char).map (fun c => (call.utf, c)) ++ keysOf calls := by
  unfold keysOf
  rw [List.flatMap_cons, List.map_map]
  rfl

/-- The calls of a run, one after the other -/
theorem ldiscSends_follows (calls : List Call)
    (h : Editor.Deletable (forcedOn telnetKeyboard telnetNewline protocol) (editorOf ldisc) (keysOf calls)) :
    Follows ldisc (ldiscSends (forcedOn telnetKeyboard telnetNewline protocol) ldisc calls)
      (Editor.run (forcedOn telnetKeyboard telnetNewline protocol) (editorOf ldisc) (keysOf calls))
      (fun u => (∀ call ∈ calls, call.utf = u) ∧
        Editor.AlwaysComplete (forcedOn telnetKeyboard telnetNewline protocol) (editorOf ldisc) (keysOf calls)) := by
  induction calls generalizing ldisc with
  | nil => exact ⟨ldisc, [], rfl, rfl, rfl, fun _ _ _ h => h⟩
  | cons call calls ih =>
    rw [keysOf_cons] at h ⊢
    obtain ⟨hcall, hrest⟩ := Editor.deletable_append.mp h
    obtain ⟨ldisc₁, out₁, hsend, hed₁, hout₁, hshows₁⟩ := ldiscChars_follows _ hcall
    rw [← hed₁] at hrest
    obtain ⟨ldisc₂, out₂, hsends, hed₂, hout₂, hshows₂⟩ := ih hrest
    refine ⟨ldisc₂, out₁ ++ out₂, ?_, ?_, ?_, ?_⟩
    · rw [ldiscSends, ldiscSend_eq, hsend, ok_bind]
      dsimp only
      rw [hsends]
      rfl
    · rw [hed₂, hed₁, Editor.run_append]
    · rw [List.filter_append, hout₁, hout₂, hed₁, Editor.run_append]
    · rintro u l ⟨hutf, hcomplete⟩ hshows
      obtain ⟨hcomplete, hcomplete'⟩ := Editor.alwaysComplete_append.mp hcomplete
      rw [← hed₁] at hcomplete'
      have hu : u = call.utf := (hutf call List.mem_cons_self).symm
      rw [List.foldl_append]
      exact hshows₂ u _ ⟨fun d hd => hutf d (List.mem_cons_of_mem call hd), hcomplete'⟩
        (hshows₁ u l ⟨fun _ => hu, hcomplete⟩ hshows)

theorem ldiscSends_overrun (calls : List Call)
    (h : ¬Editor.Deletable (forcedOn telnetKeyboard telnetNewline protocol) (editorOf ldisc) (keysOf calls)) :
    ldiscSends (forcedOn telnetKeyboard telnetNewline protocol) ldisc calls = .error .overrun := by
  induction calls generalizing ldisc with
  | nil => exact absurd trivial h
  | cons call calls ih =>
    rw [keysOf_cons] at h
    by_cases hcall : Editor.Deletable (forcedOn telnetKeyboard telnetNewline protocol) (editorOf ldisc)
        ((call.string.map call.char).map fun c => (call.utf, c))
    · obtain ⟨ldisc₁, out₁, hsend, hed₁, -, -⟩ := ldiscChars_follows _ hcall
      have hrest : ¬Editor.Deletable (forcedOn telnetKeyboard telnetNewline protocol) (editorOf ldisc₁)
          (keysOf calls) := by
        rw [hed₁]
        exact fun hrest => h (Editor.deletable_append.mpr ⟨hcall, hrest⟩)
      rw [ldiscSends, ldiscSend_eq, hsend, ok_bind]
      dsimp only
      rw [ih hrest]
      rfl
    · rw [ldiscSends, ldiscSend_eq, ldiscChars_overrun _ hcall]
      rfl

/-- With local editing and echo forced on, every run is that of the line editor if and only if no delete key is
pressed on a line of continuation bytes. -/
theorem editsFaithfully_iff (telnetKeyboard telnetNewline : Bool) (protocol : Protocol) (calls : List Call) :
    EditsFaithfully (forcedOn telnetKeyboard telnetNewline protocol) calls ↔
      Editor.Deletable (forcedOn telnetKeyboard telnetNewline protocol) ⟨[], false⟩ (keysOf calls) := by
  constructor
  · rintro ⟨ldisc, out, hrun, -⟩
    by_contra h
    rw [@ldiscSends_overrun ldiscCreate _ _ _ calls h] at hrun
    exact nomatch hrun
  · intro h
    obtain ⟨ldisc, out, hrun, hed, hout, hshows⟩ := @ldiscSends_follows ldiscCreate _ _ _ calls h
    have hline : ldisc.buf = (Editor.run (forcedOn telnetKeyboard telnetNewline protocol) ⟨[], false⟩
        (keysOf calls)).1.line := congrArg Editor.line hed
    refine ⟨ldisc, out, hrun, hline, hout, ?_⟩
    intro utf hutf hcomplete
    have hfinal := hshows utf ⟨[], []⟩ ⟨hutf, hcomplete⟩ shows_blank
    rw [displayForm_eq]
    exact hfinal

/-- A continuation byte in UTF-8 mode, and a delete key -/
theorem continuation_overrun : ¬∀ (telnetKeyboard telnetNewline : Bool) (protocol : Protocol) (calls : List Call),
    EditsFaithfully (forcedOn telnetKeyboard telnetNewline protocol) calls := by
  intro h
  obtain ⟨ldisc, out, hrun, -⟩ := h true true .other
    [⟨[0x80], false, true, true, true, true⟩, ⟨[8], true, true, true, true, true⟩]
  exact nomatch hrun

end PuttyNd.Terminal
