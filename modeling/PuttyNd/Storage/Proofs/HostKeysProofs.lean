import Mathlib.Data.List.Induction
import PuttyNd.Storage.HostKeys

/-!
# The host key database: every history of calls

The file holds one line for each header text, that of the last call with it (`Lines`). Hence a
`FileStore` answers by the last call with the header of the query, and two hosts are kept apart when
their headers are.
-/

namespace PuttyNd.Storage

/-! ## The fields of a line -/

theorem strncmp_length_eq_false {p field : Text} :
    strncmp p field field.length = false ↔ ∃ r, p = field ++ r := by
  simp only [strncmp, List.take_length, bne_eq_false_iff_eq]
  constructor
  · intro h
    exact ⟨p.drop field.length, by conv_lhs => rw [← List.take_append_drop field.length p, h]⟩
  · rintro ⟨r, rfl⟩
    simp

namespace FileStore

theorem skip_eq_some {field p r : Text} : skip field p = some r ↔ p = field ++ r := by
  unfold skip
  by_cases h : strncmp p field field.length = false
  · obtain ⟨r', rfl⟩ := strncmp_length_eq_false.mp h
    simp [h]
  · rw [if_pos (by simpa using h)]
    constructor
    · intro h'
      cases h'
    · intro h'
      exact absurd (strncmp_length_eq_false.mpr ⟨r, h'⟩) h

theorem skipChar_eq_some {c : Char} {p r : Text} : skipChar c p = some r ↔ p = c :: r := by
  cases p with
  | nil => simp [skipChar]
  | cons a p => by_cases h : a = c <;> simp [skipChar, h]

theorem keydata_eq_some {hostname keytype line r : Text} {port : ℤ} :
    keydata hostname port keytype line = some r ↔
      line.take (strcspn line '\n') =
        keytype ++ '@' :: (decimal port ++ ':' :: (hostname ++ ' ' :: r)) := by
  simp only [keydata, Option.bind_eq_bind, Option.bind_eq_some_iff, skip_eq_some, skipChar_eq_some]
  constructor
  · rintro ⟨_, h, _, rfl, _, rfl, _, rfl, _, rfl, rfl⟩
    exact h
  · intro h
    exact ⟨_, h, _, rfl, _, rfl, _, rfl, _, rfl, rfl⟩

end FileStore

/-! ## Lines of text -/

theorem strcspn_append {l : Text} {c : Char} (hl : c ∉ l) (s : Text) :
    strcspn (l ++ c :: s) c = l.length := by
  have h : ∀ a ∈ l, (a != c) = true := by
    intro a ha
    simpa using fun hac : a = c => hl (hac ▸ ha)
  simp [strcspn, List.takeWhile_append_of_pos h]

theorem fgetlines_line {l : Text} (hl : '\n' ∉ l) (s : Text) :
    fgetlines (l ++ '\n' :: s) = (l ++ ['\n']) :: fgetlines s := by
  induction l with
  | nil => simp [fgetlines]
  | cons c l ih =>
    rw [List.mem_cons, not_or] at hl
    have hc : c ≠ '\n' := Ne.symm hl.1
    rw [List.cons_append, fgetlines]
    · rw [ih hl.2]
      rfl
    · exact hc

/-- A text that is cut after its first `c` can be put together in one way only. -/
theorem char_split {c : Char} {l l' r r' : Text} (hl : c ∉ l) (hl' : c ∉ l')
    (h : l ++ c :: r = l' ++ c :: r') : l = l' ∧ r = r' := by
  have hlen : l.length = l'.length := by
    rw [← strcspn_append hl r, ← strcspn_append hl' r', h]
  have hsplit := List.append_inj h hlen
  exact ⟨hsplit.1, by simpa using hsplit.2⟩

/-! ## The line of a call -/

theorem decimal_plain (port : ℤ) : ∀ c ∈ decimal port, c ≠ ' ' ∧ c ≠ '\n' ∧ c ≠ '@' ∧ c ≠ ':' := by
  have hdigit : ∀ n, ∀ c ∈ Nat.toDigits 10 n, c ≠ ' ' ∧ c ≠ '\n' ∧ c ≠ '@' ∧ c ≠ ':' := by
    intro n c hc
    have h := Nat.isDigit_of_mem_toDigits (by omega) (by omega) hc
    refine ⟨?_, ?_, ?_, ?_⟩ <;> rintro rfl <;> simp [Char.isDigit] at h
  intro c hc
  cases port with
  | ofNat n => exact hdigit n c hc
  | negSucc n =>
    rcases List.mem_cons.mp hc with rfl | hc
    · decide
    · exact hdigit (n + 1) c hc

namespace HostKey

/-- The line that is stored for a call. -/
def line (c : HostKey) : Text := FileStore.newtext c.hostname c.port c.keytype c.key

theorem line_eq (c : HostKey) : c.line = c.header ++ ' ' :: (c.key ++ ['\n']) := by
  simp [line, FileStore.newtext, header]

theorem header_plain (c : HostKey) : ∀ a ∈ c.header, a ≠ ' ' ∧ a ≠ '\n' := by
  intro a ha
  simp only [header, List.mem_append, List.mem_cons] at ha
  rcases ha with ha | rfl | ha | rfl | ha
  · exact c.keytype.property a ha
  · decide
  · exact ⟨(decimal_plain c.port a ha).1, (decimal_plain c.port a ha).2.1⟩
  · decide
  · exact c.hostname.property a ha

theorem space_notMem_header (c : HostKey) : ' ' ∉ c.header := fun h => (c.header_plain ' ' h).1 rfl

theorem newline_notMem_body (c : HostKey) : '\n' ∉ c.header ++ ' ' :: c.key.val := by
  intro h
  rcases List.mem_append.mp h with h | h
  · exact (c.header_plain '\n' h).2 rfl
  · rcases List.mem_cons.mp h with h | h
    · exact absurd h (by decide)
    · exact (c.key.property '\n' h).2 rfl

theorem fgetlines_lines (es : List HostKey) : fgetlines (es.map line).flatten = es.map line := by
  induction es with
  | nil => rfl
  | cons e es ih =>
    have hline : e.line = (e.header ++ ' ' :: e.key.val) ++ ['\n'] := by simp [line_eq]
    rw [List.map_cons, List.flatten_cons, hline, List.append_assoc, List.singleton_append,
      fgetlines_line e.newline_notMem_body, ih]

/-- A line is for the query exactly if its header is that of the query. -/
theorem keydata_line (e q : HostKey) :
    FileStore.keydata q.hostname q.port q.keytype e.line =
      if e.header = q.header then some e.key.val else none := by
  have hbody : e.line.take (strcspn e.line '\n') = e.header ++ ' ' :: e.key.val := by
    have hline : e.line = (e.header ++ ' ' :: e.key.val) ++ '\n' :: [] := by simp [line_eq]
    rw [hline, strcspn_append e.newline_notMem_body, List.take_left']
    rfl
  have hq : ∀ r, FileStore.keydata q.hostname q.port q.keytype e.line = some r ↔
      e.header ++ ' ' :: e.key.val = q.header ++ ' ' :: r := by
    intro r
    rw [FileStore.keydata_eq_some, hbody]
    simp [header]
  by_cases h : e.header = q.header
  · rw [if_pos h]
    exact (hq _).mpr (by rw [h])
  · rw [if_neg h]
    apply Option.eq_none_iff_forall_ne_some.mpr
    intro r hr
    exact h (char_split e.space_notMem_header q.space_notMem_header ((hq r).mp hr)).1

theorem take_line (c : HostKey) {n : ℕ} (hn : n = c.header.length + 1) :
    c.line.take n = c.header ++ [' '] := by
  have hline : c.line = (c.header ++ [' ']) ++ (c.key.val ++ ['\n']) := by simp [line_eq]
  rw [hline, List.take_left']
  simp [hn]

/-- The writer leaves out the old lines whose header is that of the new line. -/
theorem strncmp_line (e c : HostKey) :
    strncmp e.line c.line (1 + strcspn c.line ' ') = (e.header != c.header) := by
  have hlen : 1 + strcspn c.line ' ' = c.header.length + 1 := by
    rw [line_eq, strcspn_append c.space_notMem_header, Nat.add_comm]
  have htake := c.take_line hlen
  rw [strncmp, htake, hlen]
  by_cases h : e.header = c.header
  · rw [e.take_line (by rw [h]), h, bne_self_eq_false, bne_self_eq_false]
  · have hdiff : e.line.take (c.header.length + 1) ≠ c.header ++ [' '] := by
      intro he
      have hcut := List.take_append_drop (c.header.length + 1) e.line
      rw [he, line_eq, List.append_assoc, List.singleton_append] at hcut
      exact h (char_split c.space_notMem_header e.space_notMem_header hcut).1.symm
    rw [bne_iff_ne.mpr hdiff, bne_iff_ne.mpr h]

end HostKey

/-! ## The file after a run -/

/-- The file is the lines of `es`. -/
def Lines (file : Option Text) (es : List HostKey) : Prop := file.getD [] = (es.map HostKey.line).flatten

/-- The entries after `store_host_key`. -/
def overwrite (es : List HostKey) (c : HostKey) : List HostKey :=
  es.filter (·.header != c.header) ++ [c]

theorem Lines.readBack {file : Option Text} {es : List HostKey} (h : Lines file es) :
    fgetlines (file.getD []) = es.map HostKey.line := by
  rw [h]
  exact HostKey.fgetlines_lines es

theorem Lines.store {file : Option Text} {es : List HostKey} (h : Lines file es) (c : HostKey) :
    Lines (fileStore.store file c) (overwrite es c) := by
  have hkept : (es.map HostKey.line).filter
      (fun line => strncmp line c.line (1 + strcspn c.line ' ')) =
        (es.filter (·.header != c.header)).map HostKey.line := by
    rw [List.filter_map]
    congr 1
    apply List.filter_congr
    intro e _
    exact HostKey.strncmp_line e c
  have hlines := h.readBack
  cases file with
  | none =>
    have hes : es = [] := List.map_eq_nil_iff.mp hlines.symm
    subst hes
    simp [Lines, overwrite, IStore.store, fileStore, FileStore.storeHostKey, HostKey.line]
  | some text =>
    show ((fgetlines text).filter _).flatten ++ c.line = _
    rw [show fgetlines text = es.map HostKey.line from hlines]
    show ((es.map HostKey.line).filter
      (fun line => strncmp line c.line (1 + strcspn c.line ' '))).flatten ++ c.line = _
    rw [hkept]
    simp [overwrite]

theorem Lines.verify {file : Option Text} {es : List HostKey} (h : Lines file es) (q : HostKey) :
    fileStore.verify file q = verdict q.key (es.find? (·.header == q.header)) := by
  have hrun : fileStore.verify file q =
      FileStore.verifyLines q.hostname q.port q.keytype q.key (es.map HostKey.line) := by
    rw [← h.readBack]
    cases file <;> rfl
  rw [hrun]
  clear hrun h
  induction es with
  | nil => rfl
  | cons e es ih =>
    rw [List.map_cons, FileStore.verifyLines, HostKey.keydata_line]
    by_cases he : e.header = q.header
    · rw [if_pos he, List.find?_cons_of_pos (by simpa using he)]
      simp [verdict, Subtype.ext_iff]
    · rw [if_neg he, List.find?_cons_of_neg (by simpa using he)]
      exact ih

theorem find_overwrite (es : List HostKey) (c : HostKey) (t : Text) :
    (overwrite es c).find? (·.header == t) =
      if c.header = t then some c else es.find? (·.header == t) := by
  rw [overwrite, List.find?_append]
  by_cases hc : c.header = t
  · have hnone : (es.filter (·.header != c.header)).find? (·.header == t) = none := by
      simp [List.find?_eq_none, hc]
    rw [if_pos hc, hnone]
    simp [hc]
  · rw [if_neg hc, List.find?_filter]
    have hsame : es.find? (fun e => decide ((e.header != c.header) = true ∧ (e.header == t) = true)) =
        es.find? (·.header == t) := by
      congr 1
      funext e
      by_cases he : e.header = t
      · have : t ≠ c.header := Ne.symm hc
        simp [he, this]
      · simp [he]
    rw [hsame]
    simp [hc]

theorem lastCall_snoc (p : HostKey → Bool) (calls : List HostKey) (c : HostKey) :
    lastCall p (calls ++ [c]) = if p c then some c else lastCall p calls := by
  by_cases h : p c <;> simp [lastCall, List.filter_append, h]

/-- After any calls the file holds, for each header, the line of the last call with it. -/
theorem exists_lines (calls : List HostKey) :
    ∃ es, Lines (calls.foldl fileStore.store none) es ∧
      ∀ t, es.find? (·.header == t) = lastCall (·.header == t) calls := by
  induction calls using List.reverseRecOn with
  | nil => exact ⟨[], rfl, fun _ => rfl⟩
  | append_singleton calls c ih =>
    obtain ⟨es, hlines, hfind⟩ := ih
    refine ⟨overwrite es c, ?_, ?_⟩
    · rw [List.foldl_append]
      exact hlines.store c
    · intro t
      rw [find_overwrite, lastCall_snoc, hfind]
      simp

/-- A `FileStore` answers by the last call whose line has the header of the query. -/
theorem fileStore_verify (calls : List HostKey) (q : HostKey) :
    fileStore.verify (calls.foldl fileStore.store none) q =
      verdict q.key (lastCall (·.header == q.header) calls) := by
  obtain ⟨es, hlines, hfind⟩ := exists_lines calls
  rw [hlines.verify, hfind]

/-- Nothing is stored through a `TmplStore`. -/
theorem tmplStore_foldl {σ : Type} (impl : IStore σ) (s : σ) (calls : List HostKey) :
    calls.foldl (tmplStore impl).store s = s := by
  induction calls with
  | nil => rfl
  | cons c calls ih => exact ih

/-! ## The answers -/

theorem verdict_eq_one {key : Word} {c : Option HostKey} : verdict key c = 1 ↔ c = none := by
  cases c with
  | none => simp [verdict]
  | some c => by_cases h : c.key = key <;> simp [verdict, h]

theorem verdict_some_eq {key : Word} {c c' : HostKey} :
    verdict key (some c) = verdict key (some c') ↔ (c.key = key ↔ c'.key = key) := by
  by_cases h : c.key = key <;> by_cases h' : c'.key = key <;> simp [verdict, h, h']

theorem lastCall_eq_none {p : HostKey → Bool} {calls : List HostKey} :
    lastCall p calls = none ↔ ∀ c ∈ calls, p c = false := by
  simp [lastCall]

theorem HostKey.SameHost.header_eq {q c : HostKey} (h : q.SameHost c) : c.header = q.header := by
  obtain ⟨htype, hport, hhost⟩ := h
  rw [header, header, htype, hport, hhost]

theorem fileStore_faithful_iff (calls : List HostKey) (q : HostKey) :
    fileStore.Faithful none calls q ↔ Unshadowed calls q := by
  unfold IStore.Faithful Unshadowed
  rw [fileStore_verify]
  cases hlast : lastCall (·.header == q.header) calls with
  | none =>
    have hhost : lastCall (q.SameHost ·) calls = none := by
      rw [lastCall_eq_none] at hlast ⊢
      intro c hc
      have hne := hlast c hc
      simp only [beq_eq_false_iff_ne] at hne
      simpa using fun h : q.SameHost c => hne h.header_eq
    simp [hhost]
  | some c =>
    cases hhost : lastCall (q.SameHost ·) calls with
    | none =>
      have h : verdict q.key (some c) ≠ 1 := by
        intro h
        cases verdict_eq_one.mp h
      simpa [verdict] using h
    | some c' => simp [verdict_some_eq]

theorem tmplStore_faithful_iff {σ : Type} (impl : IStore σ) (s : σ) (calls : List HostKey)
    (q : HostKey) (hempty : impl.verify s q = 1) :
    (tmplStore impl).Faithful s calls q ↔ ∀ c ∈ calls, ¬ q.SameHost c := by
  unfold IStore.Faithful
  rw [tmplStore_foldl]
  have hverify : (tmplStore impl).verify s q = 1 := hempty
  rw [hverify, eq_comm, verdict_eq_one, lastCall_eq_none]
  simp

/-! ## Headers that are read in one way only -/

theorem decimal_injective : Function.Injective decimal := by
  have hdigits : ∀ {m n : ℕ}, Nat.toDigits 10 m = Nat.toDigits 10 n → m = n := by
    intro m n h
    rw [← Nat.ofDigitChars_ten_toDigits (n := m), h, Nat.ofDigitChars_ten_toDigits]
  have hsign : ∀ n, '-' ∉ Nat.toDigits 10 n := by
    intro n h
    simpa [Char.isDigit] using Nat.isDigit_of_mem_toDigits (by omega) (by omega) h
  intro a b h
  cases a with
  | ofNat m =>
    cases b with
    | ofNat n => rw [hdigits h]
    | negSucc n =>
      have hm : '-' ∈ Nat.toDigits 10 m := by
        rw [show Nat.toDigits 10 m = '-' :: _ from h]
        exact List.mem_cons_self
      exact absurd hm (hsign m)
  | negSucc m =>
    cases b with
    | ofNat n =>
      have hn : '-' ∈ Nat.toDigits 10 n := by
        rw [← show '-' :: _ = Nat.toDigits 10 n from h]
        exact List.mem_cons_self
      exact absurd hn (hsign n)
    | negSucc n => rw [Nat.succ.inj (hdigits (List.cons.inj h).2)]

theorem HostKey.sameHost_of_header_eq {q c : HostKey} (hq : '@' ∉ q.keytype.val)
    (hc : '@' ∉ c.keytype.val) (h : c.header = q.header) : q.SameHost c := by
  have hcolon : ∀ port, ':' ∉ decimal port := fun port hmem =>
    (decimal_plain port ':' hmem).2.2.2 rfl
  obtain ⟨htype, hrest⟩ := char_split hc hq h
  obtain ⟨hport, hhost⟩ := char_split (hcolon c.port) (hcolon q.port) hrest
  exact ⟨Subtype.ext htype, decimal_injective hport, Subtype.ext hhost⟩

/-- A `FileStore` keeps its contract for key types without an `@`. -/
theorem fileStore_faithful (calls : List HostKey) (q : HostKey) (hq : '@' ∉ q.keytype.val)
    (hcalls : ∀ c ∈ calls, '@' ∉ c.keytype.val) : fileStore.Faithful none calls q := by
  apply (fileStore_faithful_iff calls q).mpr
  intro c hlast
  have hsame : calls.filter (·.header == q.header) = calls.filter (q.SameHost ·) := by
    apply List.filter_congr
    intro d hd
    by_cases h : d.header = q.header
    · simp [h, HostKey.sameHost_of_header_eq hq (hcalls d hd) h]
    · have hne : ¬ q.SameHost d := fun hs => h hs.header_eq
      simp [h, hne]
  refine ⟨c, ?_, Iff.rfl⟩
  rw [lastCall, ← hsame]
  exact hlast

/-- The contract of the database, for a `FileStore` and for a `TmplStore` over one: when it holds. -/
theorem hostKeys_iff (calls : List HostKey) (q : HostKey) :
    (fileStore.Faithful none calls q ↔ Unshadowed calls q) ∧
      ((tmplStore fileStore).Faithful none calls q ↔ ∀ c ∈ calls, ¬ q.SameHost c) := by
  constructor
  · exact fileStore_faithful_iff calls q
  · exact tmplStore_faithful_iff fileStore none calls q rfl

/-- A call with type `rsa`, port 22, host `h` and key `k`. -/
def rsaKey : HostKey where
  hostname := ⟨['h'], by simp⟩
  port := 22
  keytype := ⟨['r', 's', 'a'], by simp⟩
  key := ⟨['k'], by simp⟩

/-- The key that was stored through a `TmplStore` is not found again. -/
theorem hostKeys_counterexample :
    ¬ ∀ calls q, fileStore.Faithful none calls q ∧ (tmplStore fileStore).Faithful none calls q := by
  intro h
  have hnone := (tmplStore_faithful_iff fileStore none [rsaKey] rsaKey rfl).mp (h [rsaKey] rsaKey).2
  exact hnone rsaKey (by simp) ⟨rfl, rfl, rfl⟩

end PuttyNd.Storage
