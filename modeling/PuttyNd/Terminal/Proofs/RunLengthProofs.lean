import PuttyNd.Terminal.Scrollback
import PuttyNd.Lib.RunLength
import PuttyNd.Lib.Outcome

/-!
# Proofs: `makerle` and `readrle`

`makerle` writes the serial form of a list of segments that expands to the literals of the columns,
and `readrle` reads such a list back, one column after the other.
-/

namespace PuttyNd.Terminal

open RunLength Outcome

@[simp] theorem check_pos {p : Prop} [Decidable p] {f : Fault} (h : p) : check p f = .ok () :=
  if_pos h

/-- The header of a sequence of `n` literals. -/
def litHdr (n : ℕ) : UInt8 := (n - 1).toUInt8

/-- The header of a run of `n` literals. -/
def runHdr (n : ℕ) : UInt8 := (n + 0x80 - 2).toUInt8

/-- The serial form of segments in a compressed line. -/
abbrev serRle (segs : List (Seg Buf)) : Buf := ser litHdr runHdr segs

/-- `make` appends the literals of the coder `k` for the columns of a line, which are never empty. -/
structure Codes (make : Makeliteral) (line : Termline) (k : Coder ℕ UInt32 UInt8) (cols : ℕ) :
    Prop where
  make_eq : ∀ b c s, c < cols → make line b c s = .ok (b ++ k.enc s c, k.next s c)
  enc_ne : ∀ s c, k.enc s c ≠ []

section Write

variable {make : Makeliteral} {line : Termline} {k : Coder ℕ UInt32 UInt8} {cols : ℕ}

theorem sameBytes_iff (b : Buf) (p q len : ℕ) :
    sameBytes b p q len = true ↔ (b.drop p).take len = (b.drop q).take len := by
  simp [sameBytes]

/-- The run is extended by columns that have its literal `l`, up to 129 columns. -/
theorem extendRun_spec (hk : Codes make line k cols) {b front back l : Buf} {runpos : ℕ}
    (hb : b = front ++ l ++ back) (hfront : front.length = runpos + 1) :
    ∀ (cs : List ℕ) (s : UInt32) (runlen : ℕ), (∀ c ∈ cs, c < cols) → runlen ≤ 129 →
      ∃ cs1 cs2, cs = cs1 ++ cs2 ∧ k.encs s cs1 = List.replicate cs1.length l ∧
        runlen + cs1.length ≤ 129 ∧
        extendRun make line b runpos l.length cs s runlen
          = .ok (cs2, k.final s cs1, runlen + cs1.length) := by
  intro cs
  induction cs with
  | nil =>
    intro s runlen _ hr
    exact ⟨[], [], rfl, rfl, by simpa using hr, rfl⟩
  | cons c cs ih =>
    intro s runlen hc hr
    by_cases hlt : runlen < 129
    · have hmk := hk.make_eq b c s (hc c (by simp))
      have hdrop : ((b ++ k.enc s c).drop b.length).take (k.enc s c).length = k.enc s c := by simp
      have hrun : ∀ t, ((b ++ k.enc s c).drop (runpos + 1)).take l.length = t ↔ l = t := by
        intro t
        rw [hb, ← hfront]
        simp
      by_cases hsame : k.enc s c = l
      · obtain ⟨cs1, cs2, h1, h2, h3, h4⟩ :=
          ih (k.next s c) (runlen + 1) (fun x hx => hc x (by simp [hx])) (by omega)
        refine ⟨c :: cs1, cs2, by simp [h1], ?_, by simp; omega, ?_⟩
        · simp [hsame, h2, List.replicate_succ]
        · have hsb : sameBytes (b ++ k.enc s c) (runpos + 1) b.length l.length = true := by
            rw [sameBytes_iff, hrun, ← hsame, hdrop]
          simp only [extendRun, hlt, if_true, hmk, bind, Except.bind, List.length_append,
            Nat.add_sub_cancel_left]
          rw [if_neg (by rw [hsame] at hsb ⊢; simp [hsb]), h4]
          simp only [Coder.final_cons, List.length_cons]
          rw [show runlen + 1 + cs1.length = runlen + (cs1.length + 1) by omega]
      · refine ⟨[], c :: cs, rfl, rfl, by simpa using hr, ?_⟩
        have hne : (k.enc s c).length ≠ l.length ∨
            ¬ sameBytes (b ++ k.enc s c) (runpos + 1) b.length (k.enc s c).length = true := by
          by_cases hlen : (k.enc s c).length = l.length
          · right
            rw [sameBytes_iff, hdrop, hlen, hrun]
            exact fun h => hsame h.symm
          · exact Or.inl hlen
        simp only [extendRun, hlt, if_true, hmk, bind, Except.bind, List.length_append,
          Nat.add_sub_cancel_left]
        rw [if_pos hne]
        rfl
    · refine ⟨[], c :: cs, rfl, rfl, by simpa using hr, ?_⟩
      simp [extendRun, hlt]

/-- The invariant of the loop of `makerle` after the columns `done`: the buffer has the serial form
of the segments `segs`, the place for a header and the literals `pending`, which are not yet part of
a segment; `prevlen`, `prevpos` and `prev2` describe the last of them. -/
structure RleInv (k : Coder ℕ UInt32 UInt8) (pre : Buf) (done : List ℕ) (s : Makerle)
    (segs : List (Seg Buf)) (pending : List Buf) : Prop where
  b_eq : ∃ h, s.b = pre ++ serRle segs ++ h :: pending.flatten
  hdrpos : s.hdrpos = (pre ++ serRle segs).length
  hdrsize : s.hdrsize = pending.length
  pending_lt : pending.length < 128
  fits : ∀ x ∈ segs, x.Fits 128 129
  expand_eq : expand segs ++ pending = k.encs 0 done
  state_eq : s.state = k.final 0 done
  prev : (pending = [] ∧ s.prevlen = 0 ∧ s.prev2 = false) ∨
    ∃ front p, pending = front ++ [p] ∧ s.prevlen = p.length ∧ s.prevpos + p.length = s.b.length ∧
      (s.prev2 = true → ∃ front', front = front' ++ [p])

theorem set_mid {α : Type*} (xs ys : List α) (x y : α) (n : ℕ) (hn : n = xs.length) :
    (xs ++ x :: ys).set n y = xs ++ y :: ys := by
  subst hn
  simp

theorem take_mid {α : Type*} (xs ys : List α) (n : ℕ) (hn : n = xs.length) :
    (xs ++ ys).take n = xs := by
  subst hn
  simp

theorem drop_mid {α : Type*} (xs ys : List α) (n : ℕ) (hn : n = xs.length) :
    (xs ++ ys).drop n = ys := by
  subst hn
  simp

/-- `makerle` takes the literal for a repetition exactly if it is the last pending one. -/
theorem RleInv.same_iff {pre : Buf} {done : List ℕ} {s : Makerle} {segs : List (Seg Buf)}
    {pending : List Buf} (h : RleInv k pre done s segs pending) {l : Buf} (hl : l ≠ []) :
    (decide (l.length = s.prevlen) && sameBytes (s.b ++ l) s.prevpos s.b.length l.length) = true ↔
      ∃ front, pending = front ++ [l] := by
  have hlen : l.length ≠ 0 := by simpa using hl
  rw [Bool.and_eq_true, decide_eq_true_iff, sameBytes_iff, drop_mid s.b l _ rfl, List.take_length]
  rcases h.prev with ⟨hp, h0, -⟩ | ⟨front, p, hp, h1, h2, -⟩
  · constructor
    · rintro ⟨h3, -⟩
      omega
    · rintro ⟨front, hf⟩
      simp [hp] at hf
  · obtain ⟨hb, hbe⟩ := h.b_eq
    have hsplit : s.b = (pre ++ serRle segs ++ hb :: front.flatten) ++ p := by
      rw [hbe, hp]; simp
    have hpos : s.prevpos = (pre ++ serRle segs ++ hb :: front.flatten).length := by
      have := congrArg List.length hsplit
      rw [List.length_append] at this
      omega
    rw [hsplit, List.append_assoc, drop_mid _ _ _ hpos]
    constructor
    · rintro ⟨h3, h4⟩
      rw [h3, h1, take_mid _ _ _ rfl] at h4
      exact ⟨front, by rw [hp, h4]⟩
    · rintro ⟨front', hf⟩
      obtain ⟨-, hpl⟩ := List.append_inj' (hp.symm.trans hf) rfl
      have hpl' : p = l := by simpa using hpl
      subst hpl'
      exact ⟨h1.symm, take_mid _ _ _ rfl⟩

/-- A literal that is not made part of a run becomes pending; 128 pending literals are a segment. -/
theorem makerleStep_literal (hk : Codes make line k cols) {pre : Buf} {done : List ℕ} {s : Makerle}
    {segs : List (Seg Buf)} {pending : List Buf} (h : RleInv k pre done s segs pending) {c : ℕ}
    (hc : c < cols) (cs : List ℕ)
    (hrun : ¬ ((∃ front, pending = front ++ [k.enc s.state c]) ∧
      ((k.enc s.state c).length > 1 ∨ s.prev2 = true))) :
    ∃ s' segs' pending', makerleStep make line c cs s = .ok (cs, s') ∧
      RleInv k pre (done ++ [c]) s' segs' pending' := by
  obtain ⟨hb, hbe⟩ := h.b_eq
  have hl := hk.enc_ne s.state c
  have hsame := h.same_iff hl
  generalize hle : k.enc s.state c = l at hsame hl hrun
  have henc : k.encs 0 (done ++ [c]) = k.encs 0 done ++ [l] := by
    rw [Coder.encs_append, ← h.state_eq]; simp [hle]
  have hfin : k.final 0 (done ++ [c]) = k.next s.state c := by
    rw [Coder.final_append, ← h.state_eq]; rfl
  have hflat : s.b ++ l = pre ++ serRle segs ++ hb :: (pending ++ [l]).flatten := by
    rw [hbe]; simp
  have hif : ¬ ((decide (l.length = s.prevlen) &&
      sameBytes (s.b ++ l) s.prevpos s.b.length l.length) = true ∧
        (l.length > 1 ∨ s.prev2 = true)) := by rwa [hsame]
  unfold makerleStep
  simp only [hk.make_eq _ _ _ hc, hle, bind, Except.bind, List.length_append,
    Nat.add_sub_cancel_left]
  rw [if_neg hif]
  by_cases hfull : s.hdrsize + 1 = 128
  · rw [if_pos hfull]
    have hset : (s.b ++ l).set s.hdrpos (s.hdrsize + 1 - 1).toUInt8
        = pre ++ serRle (segs ++ [Seg.lits (pending ++ [l])]) := by
      rw [hflat, set_mid _ _ _ _ _ h.hdrpos, h.hdrsize]
      simp [Seg.ser, litHdr]
    refine ⟨_, segs ++ [Seg.lits (pending ++ [l])], [], rfl, ?_⟩
    refine
      { b_eq := ⟨0, by rw [hset]; rfl⟩
        hdrpos := by rw [hset]
        hdrsize := rfl
        pending_lt := by simp
        fits := ?_
        expand_eq := by rw [henc, ← h.expand_eq]; simp [Seg.expand]
        state_eq := hfin.symm
        prev := Or.inl ⟨rfl, rfl, rfl⟩ }
    intro x hx
    rcases List.mem_append.mp hx with hx | hx
    · exact h.fits x hx
    · have : x = Seg.lits (pending ++ [l]) := by simpa using hx
      subst this
      have := h.hdrsize
      simp only [Seg.Fits, List.length_append, List.length_singleton]
      omega
  · rw [if_neg hfull]
    refine ⟨_, segs, pending ++ [l], rfl, ?_⟩
    refine
      { b_eq := ⟨hb, hflat⟩
        hdrpos := h.hdrpos
        hdrsize := by simp [h.hdrsize]
        pending_lt := by
          have h1 := h.hdrsize
          have h2 := h.pending_lt
          simp; omega
        fits := h.fits
        expand_eq := by rw [henc, ← h.expand_eq]; simp
        state_eq := hfin.symm
        prev := Or.inr ⟨pending, l, rfl, rfl, by simp, ?_⟩ }
    intro h2
    exact hsame.mp h2

/-- A run starts with a repeated literal `l`: the pending literals before it become a segment, and
`l` follows the place for the header of the run. -/
theorem startRun_spec {pre : Buf} {done : List ℕ} {s : Makerle} {segs : List (Seg Buf)}
    {pending front : List Buf} {l : Buf} (h : RleInv k pre done s segs pending) (hl : l ≠ [])
    (hp : pending = front ++ List.replicate (if s.prev2 then 2 else 1) l) :
    ∃ segs2 x, startRun s (s.b ++ l)
        = .ok (pre ++ serRle segs2 ++ x :: l, (pre ++ serRle segs2).length) ∧
      (∀ y ∈ segs2, y.Fits 128 129) ∧ expand segs2 = expand segs ++ front := by
  obtain ⟨hb, hbe⟩ := h.b_eq
  have hlast : s.prevlen = l.length ∧ s.prevpos + l.length = s.b.length := by
    rcases h.prev with ⟨hp0, -, h2⟩ | ⟨front', p, hp', h1, h2, -⟩
    · rw [hp0, h2] at hp
      simp at hp
    · have hpl : p = l := by
        have := congrArg List.getLast? (hp'.symm.trans hp)
        cases h3 : s.prev2 <;> simpa [h3, List.replicate_succ] using this
      subst hpl
      exact ⟨h1, h2⟩
  -- The buffer up to the first of the repeated literals.
  set A : Buf := pre ++ serRle segs ++ hb :: front.flatten with hA
  have hbA : s.b = A ++ (List.replicate (if s.prev2 then 2 else 1) l).flatten := by
    rw [hbe, hp, hA]; simp
  have hpos : (if s.prev2 then s.prevpos - l.length else s.prevpos) = A.length := by
    have := congrArg List.length hbA
    cases h3 : s.prev2 <;> simp [h3, List.replicate_succ] at this ⊢ <;> omega
  have hsize : (if s.prev2 then s.hdrsize - 1 - 1 else s.hdrsize - 1) = front.length := by
    rw [h.hdrsize, hp]
    cases h3 : s.prev2 <;> simp
  obtain ⟨rest, hrest⟩ : ∃ rest, s.b ++ l = A ++ (l ++ rest) := by
    rw [hbA]
    cases h3 : s.prev2
    · exact ⟨l, by simp⟩
    · exact ⟨l ++ l, by simp [List.replicate_succ]⟩
  have hchk : s.prev2 = true → s.hdrsize - 1 > 0 := by
    intro h3
    rw [h.hdrsize, hp, h3]
    simp
  unfold startRun
  rw [check_pos hchk]
  simp only [ok_bind, hlast.1, hpos, hsize]
  rw [hrest]
  by_cases hf : front = []
  · subst hf
    have hAlen : A.length = s.hdrpos + 1 := by rw [hA, h.hdrpos]; simp; omega
    have htake : (A ++ (l ++ rest)).take (A.length + l.length) = A ++ l := by
      rw [← List.append_assoc, take_mid _ _ _ (by simp)]
    refine ⟨segs, hb, ?_, h.fits, by simp⟩
    rw [List.length_nil, if_pos rfl, check_pos hAlen, ok_bind, htake, h.hdrpos, hA]
    simp
  · obtain ⟨x, l', hxl⟩ := List.exists_cons_of_ne_nil hl
    have hlt := h.pending_lt
    have hflen : front.length ≠ 0 := by simpa using hf
    have hfle : front.length ≤ 128 := by
      rw [hp] at hlt
      simp at hlt
      omega
    have hget : (A ++ (l ++ rest))[A.length]? = some x := by
      rw [hxl]; simp
    have hset : (A ++ [x] ++ l).set s.hdrpos (front.length - 1).toUInt8
        = pre ++ serRle (segs ++ [Seg.lits front]) ++ x :: l := by
      rw [hA, List.append_assoc, List.append_assoc, List.cons_append, set_mid _ _ _ _ _ h.hdrpos]
      simp [Seg.ser, litHdr]
    have hlen : A.length = (pre ++ serRle (segs ++ [Seg.lits front])).length := by
      rw [hA]; simp [Seg.ser]
    refine ⟨segs ++ [Seg.lits front], x, ?_, ?_, by simp [Seg.expand]⟩
    · rw [if_neg hflen, check_pos ⟨by omega, hfle⟩, ok_bind, take_mid _ _ _ rfl, hget,
        drop_mid _ _ _ rfl, take_mid _ _ _ rfl, Option.toList_some, hset, hlen]
      rfl
    · intro y hy
      rcases List.mem_append.mp hy with hy | hy
      · exact h.fits y hy
      · have : y = Seg.lits front := by simpa using hy
        subst this
        exact ⟨by omega, hfle⟩

/-- A repeated literal becomes a run, which is extended by the columns after it. -/
theorem makerleStep_run (hk : Codes make line k cols) {pre : Buf} {done : List ℕ} {s : Makerle}
    {segs : List (Seg Buf)} {pending : List Buf} (h : RleInv k pre done s segs pending) {c : ℕ}
    {cs : List ℕ} (hc : ∀ x ∈ c :: cs, x < cols) {front : List Buf}
    (hsame : pending = front ++ [k.enc s.state c])
    (hrun : (k.enc s.state c).length > 1 ∨ s.prev2 = true) :
    ∃ cs1 cs2 s' segs', cs = cs1 ++ cs2 ∧ makerleStep make line c cs s = .ok (cs2, s') ∧
      RleInv k pre (done ++ c :: cs1) s' segs' [] := by
  have hl := hk.enc_ne s.state c
  have hcond := (h.same_iff hl).mpr ⟨front, hsame⟩
  generalize hle : k.enc s.state c = l at hsame hl hrun hcond
  obtain ⟨front', hp⟩ : ∃ front', pending =
      front' ++ List.replicate (if s.prev2 then 2 else 1) l := by
    cases h3 : s.prev2
    · exact ⟨front, by simpa using hsame⟩
    · rcases h.prev with ⟨-, -, h4⟩ | ⟨front2, p, hp2, -, -, h4⟩
      · rw [h3] at h4; cases h4
      · obtain ⟨front3, hf3⟩ := h4 h3
        have hpl : p = l := by
          have := (List.append_inj' (hp2.symm.trans hsame) rfl).2
          simpa using this
        exact ⟨front3, by rw [hp2, hf3, hpl]; simp [List.replicate_succ]⟩
  obtain ⟨segs2, x, hst, hfits, hexp⟩ := startRun_spec h hl hp
  set r0 := if s.prev2 then 3 else 2 with hr0
  have hr0le : 2 ≤ r0 ∧ r0 ≤ 129 := by rw [hr0]; split_ifs <;> omega
  have hbuf : pre ++ serRle segs2 ++ x :: l = (pre ++ serRle segs2 ++ [x]) ++ l ++ [] := by simp
  have hfront : (pre ++ serRle segs2 ++ [x]).length = (pre ++ serRle segs2).length + 1 := by
    simp
    omega
  obtain ⟨cs1, cs2, h1, h2, h3, h4⟩ :=
    extendRun_spec hk hbuf hfront
      cs (k.next s.state c) r0 (fun y hy => hc y (by simp [hy])) hr0le.2
  have hset : (pre ++ serRle segs2 ++ x :: l).set (pre ++ serRle segs2).length
      (r0 + cs1.length + 0x80 - 2).toUInt8
        = pre ++ serRle (segs2 ++ [Seg.run l (r0 + cs1.length)]) := by
    rw [set_mid _ _ _ _ _ rfl]
    simp [Seg.ser, runHdr]
  set b2 := pre ++ serRle (segs2 ++ [Seg.run l (r0 + cs1.length)]) with hb2
  refine ⟨cs1, cs2,
    { b := b2 ++ [0], hdrpos := b2.length, hdrsize := 0, prevlen := 0, prevpos := 0,
      prev2 := false, state := k.final (k.next s.state c) cs1 },
    segs2 ++ [Seg.run l (r0 + cs1.length)], h1, ?_, ?_⟩
  · unfold makerleStep
    simp only [hk.make_eq _ _ _ (hc c (by simp)), hle, bind, Except.bind, List.length_append,
      Nat.add_sub_cancel_left]
    rw [if_pos ⟨hcond, hrun⟩, hst]
    simp only
    rw [h4]
    simp only
    rw [check_pos ⟨by omega, h3⟩]
    simp only
    rw [hset]
    rfl
  · refine
      { b_eq := ⟨0, by simp [hb2]⟩
        hdrpos := rfl
        hdrsize := rfl
        pending_lt := by simp
        fits := ?_
        expand_eq := ?_
        state_eq := ?_
        prev := Or.inl ⟨rfl, rfl, rfl⟩ }
    · intro y hy
      rcases List.mem_append.mp hy with hy | hy
      · exact hfits y hy
      · have : y = Seg.run l (r0 + cs1.length) := by simpa using hy
        subst this
        exact ⟨by omega, h3⟩
    · -- The literals of the run: those that were pending, the current one and those of `cs1`.
      rw [Coder.encs_append, ← h.expand_eq, ← h.state_eq, Coder.encs_cons, hle, h2, hp]
      have hrep : List.replicate (if s.prev2 then 2 else 1) l ++ l :: List.replicate cs1.length l
          = List.replicate (r0 + cs1.length) l := by
        rw [← List.replicate_succ, ← List.replicate_add, hr0]
        congr 1
        split_ifs <;> omega
      simp only [expand_append, hexp, expand_cons, Seg.expand, expand_nil, List.append_nil,
        List.append_assoc, hrep]
    · rw [Coder.final_append, ← h.state_eq]
      rfl

/-- One iteration of the loop of `makerle` keeps the invariant. -/
theorem makerleStep_spec (hk : Codes make line k cols) {pre : Buf} {done : List ℕ} {s : Makerle}
    {segs : List (Seg Buf)} {pending : List Buf} (h : RleInv k pre done s segs pending) {c : ℕ}
    {cs : List ℕ} (hc : ∀ x ∈ c :: cs, x < cols) :
    ∃ cs1 cs2 s' segs' pending', cs = cs1 ++ cs2 ∧ makerleStep make line c cs s = .ok (cs2, s') ∧
      RleInv k pre (done ++ c :: cs1) s' segs' pending' := by
  by_cases hrun : (∃ front, pending = front ++ [k.enc s.state c]) ∧
      ((k.enc s.state c).length > 1 ∨ s.prev2 = true)
  · obtain ⟨⟨front, hf⟩, hr⟩ := hrun
    obtain ⟨cs1, cs2, s', segs', h1, h2, h3⟩ := makerleStep_run hk h hc hf hr
    exact ⟨cs1, cs2, s', segs', [], h1, h2, h3⟩
  · obtain ⟨s', segs', pending', h1, h2⟩ := makerleStep_literal hk h (hc c (by simp)) cs hrun
    exact ⟨[], cs, s', segs', pending', rfl, h1, h2⟩

theorem makerleLoop_spec (hk : Codes make line k cols) {pre : Buf} (fuel : ℕ) :
    ∀ {done : List ℕ} {s : Makerle} {segs : List (Seg Buf)} {pending : List Buf} (cs : List ℕ),
      RleInv k pre done s segs pending → (∀ x ∈ cs, x < cols) → cs.length ≤ fuel →
      ∃ s' segs' pending', makerleLoop make line fuel cs s = .ok s' ∧
        RleInv k pre (done ++ cs) s' segs' pending' := by
  induction fuel with
  | zero =>
    intro done s segs pending cs h _ hlen
    have hcs : cs = [] := by simpa using hlen
    subst hcs
    exact ⟨s, segs, pending, rfl, by simpa using h⟩
  | succ fuel ih =>
    intro done s segs pending cs h hc hlen
    cases cs with
    | nil => exact ⟨s, segs, pending, rfl, by simpa using h⟩
    | cons c cs =>
      obtain ⟨cs1, cs2, s1, segs1, pending1, h1, h2, h3⟩ := makerleStep_spec hk h hc
      obtain ⟨s', segs', pending', h4, h5⟩ := ih cs2 h3
        (fun x hx => hc x (by simp [h1, hx])) (by rw [h1] at hlen; simp at hlen; omega)
      refine ⟨s', segs', pending', ?_, ?_⟩
      · simp only [makerleLoop, h2, ok_bind]
        exact h4
      · rw [h1]
        simpa using h5

/-- **`makerle` appends the serial form of segments that expand to the literals of the columns.** -/
theorem makerle_spec (hk : Codes make line k line.cols) (b : Buf) :
    ∃ segs, makerle make line b = .ok (b ++ serRle segs) ∧ (∀ x ∈ segs, x.Fits 128 129) ∧
      expand segs = k.encs 0 (List.range line.cols) := by
  have hinit : RleInv k b []
      { b := b ++ [0], hdrpos := b.length, hdrsize := 0, prevlen := 0, prevpos := 0,
        prev2 := false, state := 0 } [] [] :=
    { b_eq := ⟨0, by simp⟩
      hdrpos := by simp
      hdrsize := rfl
      pending_lt := by simp
      fits := by simp
      expand_eq := rfl
      state_eq := rfl
      prev := Or.inl ⟨rfl, rfl, rfl⟩ }
  obtain ⟨s, segs, pending, hloop, h⟩ := makerleLoop_spec hk line.cols (List.range line.cols) hinit
    (fun x hx => List.mem_range.mp hx) (by simp)
  obtain ⟨hb, hbe⟩ := h.b_eq
  have hexp := h.expand_eq
  rw [List.nil_append] at hexp
  unfold makerle
  rw [hloop, ok_bind]
  by_cases hp : pending = []
  · subst hp
    refine ⟨segs, ?_, h.fits, by simpa using hexp⟩
    rw [if_neg (by simp [h.hdrsize]), hbe, take_mid _ _ _ h.hdrpos]
    rfl
  · have hlt := h.pending_lt
    have hne : pending.length ≠ 0 := by simpa using hp
    refine ⟨segs ++ [Seg.lits pending], ?_, ?_, by simpa [Seg.expand] using hexp⟩
    · rw [if_pos (by rw [h.hdrsize]; omega), check_pos (by rw [h.hdrsize]; omega), ok_bind, hbe,
        set_mid _ _ _ _ _ h.hdrpos, h.hdrsize]
      simp [Seg.ser, litHdr]
    · intro x hx
      rcases List.mem_append.mp hx with hx | hx
      · exact h.fits x hx
      · have : x = Seg.lits pending := by simpa using hx
        subst this
        exact ⟨by omega, by omega⟩

end Write

section Read

variable {read : Readliteral} {k : Coder ℕ UInt32 UInt8} {cols : ℕ} {Q : ℕ → Termline → Prop}

/-- `read` reads the literals of the coder `k`; `Q n` describes a line into which the literals of
the first `n` columns have been read. -/
structure Reads (read : Readliteral) (k : Coder ℕ UInt32 UInt8) (cols : ℕ)
    (Q : ℕ → Termline → Prop) : Prop where
  cols_eq : ∀ n line, Q n line → line.cols = cols
  read_ok : ∀ n line data pos rest s, n < cols → data.drop pos = k.enc s n ++ rest → Q n line →
    ∃ line', read ⟨data, pos⟩ line n s
        = .ok (⟨data, pos + (k.enc s n).length⟩, line', k.next s n) ∧ Q (n + 1) line'

theorem readLits_spec (hr : Reads read k cols Q) {data rest : Buf} :
    ∀ (xs : List Buf) (n pos : ℕ) (line : Termline) (s : UInt32), n + xs.length ≤ cols →
      k.encs s (List.range' n xs.length) = xs → data.drop pos = xs.flatten ++ rest → Q n line →
      ∃ line', readLits read xs.length ⟨data, pos⟩ line n s
          = .ok (⟨data, pos + xs.flatten.length⟩, line', n + xs.length,
              k.final s (List.range' n xs.length)) ∧ Q (n + xs.length) line' := by
  intro xs
  induction xs with
  | nil =>
    intro n pos line s _ _ _ hq
    exact ⟨line, rfl, hq⟩
  | cons x xs ih =>
    intro n pos line s hn henc hdrop hq
    simp only [List.length_cons, List.range'_succ, Coder.encs_cons, List.cons.injEq] at henc hn
    obtain ⟨hx, hxs⟩ := henc
    have hlt : n < cols := by omega
    rw [List.flatten_cons, List.append_assoc, ← hx] at hdrop
    obtain ⟨line1, h1, hq1⟩ := hr.read_ok n line data pos _ s hlt hdrop hq
    have hdrop1 : data.drop (pos + (k.enc s n).length) = xs.flatten ++ rest := by
      rw [← List.drop_drop, hdrop, drop_mid _ _ _ rfl]
    obtain ⟨line2, h2, hq2⟩ := ih (n + 1) _ line1 (k.next s n) (by omega) hxs hdrop1 hq1
    refine ⟨line2, ?_, ?_⟩
    · simp only [List.length_cons, readLits, hr.cols_eq n line hq, check_pos hlt, ok_bind, h1, h2,
        List.flatten_cons, List.length_append, List.range'_succ, Coder.final_cons, ← hx]
      rw [Nat.add_assoc pos, Nat.add_assoc n 1, Nat.add_comm 1]
    · rw [List.length_cons, Nat.add_comm xs.length, ← Nat.add_assoc]
      exact hq2

theorem readRun_spec (hr : Reads read k cols Q) {data rest l : Buf} {pos : ℕ}
    (hdrop : data.drop pos = l ++ rest) :
    ∀ (count n len : ℕ) (line : Termline) (s : UInt32), n + (count + 1) ≤ cols →
      k.encs s (List.range' n (count + 1)) = List.replicate (count + 1) l → Q n line →
      ∃ line', readRun read pos (count + 1) ⟨data, len⟩ line n s
          = .ok (⟨data, pos + l.length⟩, line', n + (count + 1),
              k.final s (List.range' n (count + 1))) ∧ Q (n + (count + 1)) line' := by
  intro count
  induction count with
  | zero =>
    intro n len line s hn henc hq
    have hx : k.enc s n = l := by simpa using henc
    obtain ⟨line1, h1, hq1⟩ :=
      hr.read_ok n line data pos rest s (by omega) (by rw [hx]; exact hdrop) hq
    refine ⟨line1, ?_, hq1⟩
    simp only [readRun, hr.cols_eq n line hq, check_pos (show n < cols by omega), ok_bind, h1, hx]
    rfl
  | succ count ih =>
    intro n len line s hn henc hq
    rw [List.range'_succ, Coder.encs_cons, List.replicate_succ, List.cons.injEq] at henc
    obtain ⟨hx, hxs⟩ := henc
    obtain ⟨line1, h1, hq1⟩ :=
      hr.read_ok n line data pos rest s (by omega) (by rw [hx]; exact hdrop) hq
    obtain ⟨line2, h2, hq2⟩ := ih (n + 1) (pos + l.length) line1 (k.next s n) (by omega) hxs hq1
    refine ⟨line2, ?_, ?_⟩
    · rw [readRun]
      simp only [hr.cols_eq n line hq, check_pos (show n < cols by omega), ok_bind, h1, hx, h2]
      rw [List.range'_succ (n := count + 1), Coder.final_cons, Nat.add_assoc n 1, Nat.add_comm 1]
    · rw [Nat.add_comm (count + 1), ← Nat.add_assoc]
      exact hq2

theorem litHdr_toNat {n : ℕ} (h1 : 1 ≤ n) (h2 : n ≤ 128) : (litHdr n).toNat = n - 1 := by
  simp [litHdr]
  omega

theorem runHdr_toNat {n : ℕ} (h : n ≤ 129) : (runHdr n).toNat = n + 0x80 - 2 := by
  simp [runHdr]
  omega

/-- The loop of `readrle` reads the segments of the columns from `n` on. -/
theorem readrleLoop_spec (hr : Reads read k cols Q) {data rest : Buf} :
    ∀ (segs : List (Seg Buf)) (m n pos fuel : ℕ) (line : Termline) (s : UInt32), n + m = cols →
      (∀ x ∈ segs, x.Fits 128 129) → expand segs = k.encs s (List.range' n m) →
      data.drop pos = serRle segs ++ rest → segs.length < fuel → Q n line →
      ∃ line', readrleLoop read fuel ⟨data, pos⟩ line n s
          = .ok (⟨data, pos + (serRle segs).length⟩, line') ∧ Q cols line' := by
  intro segs
  induction segs with
  | nil =>
    intro m n pos fuel line s hnm _ hexp _ hfuel hq
    have hm : m = 0 := by simpa using (congrArg List.length hexp).symm
    have hn : n = cols := by omega
    obtain ⟨fuel, rfl⟩ : ∃ f, fuel = f + 1 := ⟨fuel - 1, by simp at hfuel; omega⟩
    subst hn
    refine ⟨line, ?_, hq⟩
    simp [readrleLoop, hr.cols_eq n line hq]
  | cons x segs ih =>
    intro m n pos fuel line s hnm hfits hexp hdrop hfuel hq
    obtain ⟨fuel, rfl⟩ : ∃ f, fuel = f + 1 := ⟨fuel - 1, by simp at hfuel; omega⟩
    have hx := hfits x (by simp)
    have hlen : x.expand.length + (expand segs).length = m := by
      simpa using congrArg List.length hexp
    have hpos : 0 < x.expand.length := by
      cases x with
      | lits xs => exact hx.1
      | run l c => simpa [Seg.expand] using Nat.lt_of_lt_of_le (by omega) hx.1
    -- The literals of the first segment are those of the first columns.
    set a := x.expand.length with ha
    have hsplit : List.range' n m = List.range' n a ++ List.range' (n + a) (m - a) := by
      rw [List.range'_append_1]; congr 1; omega
    rw [expand_cons, hsplit, Coder.encs_append] at hexp
    obtain ⟨hexp1, hexp2⟩ := List.append_inj hexp (by simp [ha])
    have hlt : n < cols := by omega
    rw [readrleLoop, hr.cols_eq n line hq, if_pos hlt]
    cases x with
    | lits xs =>
      have hhdr := litHdr_toNat hx.1 hx.2
      have hax : a = xs.length := rfl
      simp only [Seg.expand] at hexp1
      rw [hax] at hexp1 hexp2
      have hget : get ⟨data, pos⟩ = .ok (litHdr xs.length, ⟨data, pos + 1⟩) := by
        have : data[pos]? = some (litHdr xs.length) := by
          rw [← List.head?_drop, hdrop]; simp [Seg.ser]
        simp [get, this]
      have hdrop1 : data.drop (pos + 1) = xs.flatten ++ (serRle segs ++ rest) := by
        rw [← List.drop_drop, hdrop]; simp [Seg.ser]
      obtain ⟨line1, h1, hq1⟩ := readLits_spec hr xs n (pos + 1) line s (by omega) hexp1.symm hdrop1 hq
      have hdrop2 : data.drop (pos + 1 + xs.flatten.length) = serRle segs ++ rest := by
        rw [← List.drop_drop, hdrop1, drop_mid _ _ _ rfl]
      obtain ⟨line2, h2, hq2⟩ := ih (m - xs.length) (n + xs.length) _ fuel line1 _ (by omega)
        (fun y hy => hfits y (by simp [hy])) hexp2 hdrop2 (by simpa using hfuel) hq1
      refine ⟨line2, ?_, hq2⟩
      have hbr : ¬ (litHdr xs.length ≥ 0x80) := by
        rw [ge_iff_le, UInt8.le_iff_toNat_le, hhdr]
        have := hx.2
        simp
        omega
      have hcount : (litHdr xs.length).toNat + 1 = xs.length := by
        have := hx.1
        omega
      rw [hget, ok_bind]
      simp only
      rw [if_neg hbr, hcount, h1, ok_bind]
      simp only
      rw [h2]
      simp only [serRle, ser_cons, Seg.ser, List.length_append, List.length_cons]
      rw [show ∀ a b c : ℕ, a + 1 + b + c = a + (b + 1 + c) by omega]
    | run l c =>
      obtain ⟨c, rfl⟩ : ∃ c', c = c' + 1 := ⟨c - 1, by have := hx.1; omega⟩
      have hhdr := runHdr_toNat hx.2
      have hac : a = c + 1 := by simp [ha, Seg.expand]
      simp only [Seg.expand] at hexp1
      rw [hac] at hexp1 hexp2
      have hget : get ⟨data, pos⟩ = .ok (runHdr (c + 1), ⟨data, pos + 1⟩) := by
        have : data[pos]? = some (runHdr (c + 1)) := by
          rw [← List.head?_drop, hdrop]; simp [Seg.ser]
        simp [get, this]
      have hdrop1 : data.drop (pos + 1) = l ++ (serRle segs ++ rest) := by
        rw [← List.drop_drop, hdrop]; simp [Seg.ser]
      obtain ⟨line1, h1, hq1⟩ :=
        readRun_spec hr hdrop1 c n (pos + 1) line s (by omega) hexp1.symm hq
      have hdrop2 : data.drop (pos + 1 + l.length) = serRle segs ++ rest := by
        rw [← List.drop_drop, hdrop1, drop_mid _ _ _ rfl]
      obtain ⟨line2, h2, hq2⟩ := ih (m - (c + 1)) (n + (c + 1)) _ fuel line1 _ (by omega)
        (fun y hy => hfits y (by simp [hy])) hexp2 hdrop2 (by simpa using hfuel) hq1
      refine ⟨line2, ?_, hq2⟩
      have hbr : runHdr (c + 1) ≥ 0x80 := by
        rw [ge_iff_le, UInt8.le_iff_toNat_le, hhdr]
        have := hx.1
        simp
        omega
      have hcount : (runHdr (c + 1)).toNat + 2 - 0x80 = c + 1 := by
        rw [hhdr]
        have := hx.1
        omega
      rw [hget, ok_bind]
      simp only
      rw [if_pos hbr, hcount, h1, ok_bind]
      simp only
      rw [h2]
      simp only [serRle, ser_cons, Seg.ser, List.length_append, List.length_cons]
      rw [show ∀ a b c : ℕ, a + 1 + b + c = a + (b + 1 + c) by omega]

/-- **`readrle` reads the serial form of segments that expand to the literals of the columns.** -/
theorem readrle_spec (hr : Reads read k cols Q) {data rest : Buf} {pos : ℕ} {line : Termline}
    {segs : List (Seg Buf)} (hfits : ∀ x ∈ segs, x.Fits 128 129)
    (hexp : expand segs = k.encs 0 (List.range cols))
    (hdrop : data.drop pos = serRle segs ++ rest) (hq : Q 0 line) :
    ∃ line', readrle read ⟨data, pos⟩ line = .ok (⟨data, pos + (serRle segs).length⟩, line') ∧
      Q cols line' := by
  refine readrleLoop_spec hr segs cols 0 pos _ line 0 (by omega) hfits
    (by rw [← List.range_eq_range']; exact hexp) hdrop ?_ hq
  -- Every segment has at least its header.
  have hlen : segs.length ≤ (serRle segs).length := by
    clear hfits hexp hdrop
    induction segs with
    | nil => simp
    | cons x segs ih =>
      cases x <;> simp [serRle, Seg.ser] at ih ⊢ <;> omega
  have hdata := congrArg List.length hdrop
  simp at hdata
  show segs.length < data.length + 1
  omega

end Read

end PuttyNd.Terminal
