import PuttyNd.Lib.Runs
import PuttyNd.Transport.Proofs.FrameProofs
import PuttyNd.Transport.Proofs.LimitProofs

/-!
# Proofs: the host key of repeat key exchanges

A book is kept of the `SS_XCERT` commands and of what happens to host keys. The flag `cross_certifying` says
that there ever was such a command, where it should say that there was one since the last key exchange.
-/

namespace PuttyNd.Transport

open Runs

/-! ## The book -/

structure Book where
  /-- There has been an `SS_XCERT` command. -/
  everXcert : Bool := false
  /-- There has been one since the last key exchange. -/
  xcertSince : Bool := false
  /-- `store_host_key` has been called since the last key exchange. -/
  storedSince : Bool := false
  /-- the keys that have been accepted since the last key exchange -/
  accepted : List Name := []
  /-- the host key of the last key exchange, if there was one -/
  last : Option (Option Name) := none

namespace Book

def next (b : Book) : KeyEvent → Book
  | .xcert _ => { b with everXcert := true, xcertSince := true }
  | .accepted cacheStr => { b with accepted := cacheStr :: b.accepted }
  | .stored _ => { b with storedSince := true }
  | .completed cacheStr => { everXcert := b.everXcert, last := some cacheStr }

/-- A key exchange is the first one and has an accepted key, or it has the key of the one before, or it comes
after an `SS_XCERT` command that has not been carried out yet; and only then a key is stored, once. -/
def Justified (b : Book) : KeyEvent → Prop
  | .completed cacheStr =>
    b.last = none ∧ (∃ name ∈ b.accepted, cacheStr = some name) ∨
      (∃ name, cacheStr = some name ∧ b.last = some (some name)) ∨
        b.last ≠ none ∧ b.xcertSince = true
  | .stored _ => b.last ≠ none ∧ b.xcertSince = true ∧ b.storedSince = false
  | _ => True

/-- A repeat key exchange that comes after an `SS_XCERT` command comes after one which has been given since the
key exchange before it. -/
def Asked (b : Book) : KeyEvent → Prop
  | .completed _ => b.last ≠ none → b.everXcert = true → b.xcertSince = true
  | _ => True

end Book

/-! ## The negotiation -/

section Scan

open Outcome

variable {kexlists : KexLists} {s : Scan} {a : Algorithms}

/-- The entries that are selected are in the table. -/
def Scan.InTable (kexlists : KexLists) (s : Scan) : Prop :=
  ∀ i alg, s.selected i = some alg → alg ∈ kexlists i

theorem Scan.InTable.update (h : s.InTable kexlists) {i j : KexList} {o : Option (KexinitAlgorithm i)}
    {alg : KexinitAlgorithm j} (ho : ∀ alg ∈ o, alg ∈ kexlists i)
    (hj : Function.update s.selected i o j = some alg) : alg ∈ kexlists j := by
  by_cases hij : j = i
  · subst hij
    rw [Function.update_self] at hj
    exact ho alg hj
  · rw [Function.update_of_ne hij] at hj
    exact h j alg hj

theorem scanList_inTable (h : s.InTable kexlists) (i : KexList) :
    Ensures (scanList kexlists s i) (Scan.InTable kexlists) := by
  unfold scanList
  simp only
  split
  · exact ensures_error.mpr trivial
  · split
    · exact ensures_ok.mpr fun j alg hj => h.update (fun alg ho => absurd ho (Option.not_mem_none alg)) hj
    · split
      · exact ensures_error.mpr trivial
      case _ heq =>
        refine ensures_ok.mpr fun j alg hj => h.update (fun alg' ho => ?_) hj
        cases ho
        exact List.mem_of_find?_eq_some heq

/-- The key exchange method is the one of before, or one of the table. -/
theorem transcribe_kexAlg (h : s.InTable kexlists) (i : KexList) {P : SshKex → Prop}
    (htable : ∀ alg ∈ kexlists .kex, P alg.u.1) (ha : ∀ kex, a.kexAlg = some kex → P kex) :
    Ensures (transcribe s a i) fun a' => ∀ kex, a'.kexAlg = some kex → P kex := by
  unfold transcribe
  split
  case _ a' heq =>
    refine ensures_ok.mpr fun kex hkex => ha kex ?_
    cases i with
    | csmac =>
      obtain ⟨mac, -, rfl⟩ := Option.map_eq_some_iff.mp heq
      exact hkex
    | scmac =>
      obtain ⟨mac, -, rfl⟩ := Option.map_eq_some_iff.mp heq
      exact hkex
    | _ => cases heq
  · split
    · exact ensures_error.mpr trivial
    case _ alg heq =>
      refine ensures_ok.mpr fun kex hkex => ?_
      cases i with
      | kex =>
        cases hkex
        exact htable alg (h .kex alg heq)
      | hostkey =>
        refine ha kex ?_
        rw [← hkex]
        show a.kexAlg = (if _ then a else _ : Algorithms).kexAlg
        split
        · rfl
        · rfl
      | _ => exact ha kex hkex

theorem ssh2ScanKexinits_kexAlg {client server : List UInt8} {P : SshKex → Prop}
    (htable : ∀ alg ∈ kexlists .kex, P alg.u.1) (ha : ∀ kex, a.kexAlg = some kex → P kex) :
    Ensures (ssh2ScanKexinits client server kexlists a) fun agreement =>
      ∀ kex, agreement.algorithms.kexAlg = some kex → P kex := by
  unfold ssh2ScanKexinits
  refine (Ensures.foldlM (P := Scan.InTable kexlists) (fun s i _ h => scanList_inTable h i)
    fun i alg h => by cases h).bind fun s hs => ?_
  refine (Ensures.foldlM (P := fun a : Algorithms => ∀ kex, a.kexAlg = some kex → P kex)
    (fun a i _ h => transcribe_kexAlg hs i htable h) ha).bind fun a' ha' => ?_
  exact ensures_ok.mpr ha'

end Scan

/-! ## The state and the book -/

/-- The part of the state that the check of the host key is about -/
structure KeyPart where
  keys : List KeyEvent
  crossCertifying : Option SshKeyalg
  gotSessionId : Bool
  hostkeyStr : Option Name
  gssKexUsed : Bool
  kexAlg : Option SshKex
  kexlists : KexLists

namespace KeyPart

def book (p : KeyPart) : Book := p.keys.foldl Book.next {}

/-- The flags agree with the book, no key exchange is one of GSS, and what has happened is justified exactly
if each repeat key exchange was asked for. -/
structure Inv (p : KeyPart) : Prop where
  xcert : p.book.everXcert = p.crossCertifying.isSome
  session : p.gotSessionId = p.book.last.isSome
  hostkey : ∀ cacheStr, p.book.last = some cacheStr →
    ∃ name, cacheStr = some name ∧ p.hostkeyStr = some name
  stored : p.book.storedSince = false
  noGss : p.gssKexUsed = false
  kexAlg : ∀ kex, p.kexAlg = some kex → kex.mainType ≠ .gss
  kexlists : ∀ alg ∈ p.kexlists .kex, alg.u.1.mainType ≠ .gss
  justified : Meets Book.next Book.Justified {} p.keys ↔ Meets Book.next Book.Asked {} p.keys

namespace Inv

variable {p : KeyPart}

theorem noSession (h : p.Inv) (hno : p.gotSessionId = false) : p.book.last = none := by
  rw [← Option.isNone_iff_eq_none, ← Option.isSome_eq_false_iff, ← h.session]
  exact hno

/-- A key exchange is done, and its host key is the one to be compared with. -/
theorem complete (h : p.Inv) {keys : List KeyEvent} {name : Name}
    (hbook : keys.foldl Book.next {} = { everXcert := p.book.everXcert, last := some (some name) })
    (hjustified : Meets Book.next Book.Justified {} keys ↔ Meets Book.next Book.Asked {} keys) :
    { p with keys := keys, hostkeyStr := some name, gotSessionId := true : KeyPart }.Inv := by
  refine ⟨?_, ?_, ?_, ?_, h.noGss, h.kexAlg, h.kexlists, hjustified⟩
  · show (keys.foldl Book.next {}).everXcert = _
    rw [hbook]
    exact h.xcert
  · show true = (keys.foldl Book.next {}).last.isSome
    rw [hbook]
    rfl
  · intro cacheStr hcache
    have hcache' : (keys.foldl Book.next {}).last = some cacheStr := hcache
    rw [hbook] at hcache'
    cases hcache'
    exact ⟨name, rfl, rfl⟩
  · show (keys.foldl Book.next {}).storedSince = false
    rw [hbook]

/-- The first key exchange -/
theorem accept (h : p.Inv) (hno : p.gotSessionId = false) (name : Name) :
    { p with
      keys := p.keys ++ [.accepted name] ++ [.completed (some name)]
      hostkeyStr := some name
      gotSessionId := true : KeyPart }.Inv := by
  have hlast := h.noSession hno
  refine h.complete ?_ ?_
  · rw [List.foldl_append, List.foldl_append]
    rfl
  · rw [meets_concat, meets_concat, meets_concat, meets_concat, h.justified, List.foldl_append]
    refine and_congr (and_congr_right fun _ => Iff.rfl) (iff_of_true ?_ ?_)
    · exact .inl ⟨hlast, name, List.mem_cons_self, rfl⟩
    · intro hne
      exact absurd hlast hne

/-- A repeat key exchange with the key of the last one -/
theorem repeated (h : p.Inv) (hno : p.crossCertifying = none) (hsession : p.gotSessionId = true)
    {name : Name} (hname : p.hostkeyStr = some name) :
    { p with keys := p.keys ++ [.completed (some name)] : KeyPart }.Inv := by
  obtain ⟨cacheStr, hlast⟩ : ∃ cacheStr, p.book.last = some cacheStr :=
    Option.isSome_iff_exists.mp (h.session ▸ hsession)
  have hxcert : p.book.everXcert = false := by rw [h.xcert, hno]; rfl
  obtain ⟨name', rfl, hname'⟩ := h.hostkey cacheStr hlast
  cases hname.symm.trans hname'
  have hkept : { p with keys := p.keys ++ [.completed (some name)] : KeyPart } =
      { p with
        keys := p.keys ++ [.completed (some name)]
        hostkeyStr := some name, gotSessionId := true } := by
    rw [← hname, ← hsession]
  rw [hkept]
  refine h.complete ?_ ?_
  · rw [List.foldl_append]
    rfl
  · rw [meets_concat, meets_concat, h.justified]
    refine and_congr_right fun _ => iff_of_true ?_ ?_
    · exact .inr (.inl ⟨name, rfl, hlast⟩)
    · intro _ hever
      cases hxcert.symm.trans hever

/-- A repeat key exchange while `cross_certifying` is set -/
theorem crossCertified (h : p.Inv) (hsome : p.crossCertifying.isSome) (hsession : p.gotSessionId = true)
    (name : Name) :
    { p with
      keys := p.keys ++ [.stored name] ++ [.completed (some name)]
      hostkeyStr := some name : KeyPart }.Inv := by
  have hlast : p.book.last ≠ none := by
    rw [← Option.isSome_iff_ne_none, ← h.session]
    exact hsession
  have hkept : { p with
        keys := p.keys ++ [.stored name] ++ [.completed (some name)]
        hostkeyStr := some name : KeyPart } =
      { p with
        keys := p.keys ++ [.stored name] ++ [.completed (some name)]
        hostkeyStr := some name, gotSessionId := true } := by
    rw [← hsession]
  rw [hkept]
  refine h.complete ?_ ?_
  · rw [List.foldl_append, List.foldl_append]
    rfl
  · rw [meets_concat, meets_concat, meets_concat, meets_concat, h.justified, List.foldl_append]
    -- both say that there was a command since the last key exchange
    have hstored : Book.Justified p.book (.stored name) ↔ p.book.xcertSince = true :=
      ⟨fun hj => hj.2.1, fun hx => ⟨hlast, hx, h.stored⟩⟩
    have hasked : Book.Asked (p.book.next (.stored name)) (.completed (some name)) ↔
        p.book.xcertSince = true :=
      ⟨fun ha => ha hlast (h.xcert.trans hsome), fun hx _ _ => hx⟩
    constructor
    · intro hj
      exact ⟨⟨hj.1.1, trivial⟩, hasked.mpr (hstored.mp hj.1.2)⟩
    · intro ha
      have hx := hasked.mp ha.2
      exact ⟨⟨ha.1.1, hstored.mpr hx⟩, .inr (.inr ⟨hlast, hx⟩)⟩

/-- An `SS_XCERT` command -/
theorem xcerted (h : p.Inv) (alg : SshKeyalg) :
    { p with keys := p.keys ++ [.xcert alg], crossCertifying := some alg : KeyPart }.Inv := by
  have hbook : (p.keys ++ [KeyEvent.xcert alg]).foldl Book.next {} =
      { p.book with everXcert := true, xcertSince := true } := by
    rw [List.foldl_append]
    rfl
  refine ⟨?_, ?_, ?_, ?_, h.noGss, h.kexAlg, h.kexlists, ?_⟩
  · show (List.foldl _ _ _ : Book).everXcert = true
    rw [hbook]
  · show p.gotSessionId = (List.foldl _ _ _ : Book).last.isSome
    rw [hbook]
    exact h.session
  · intro cacheStr hcache
    have hcache' : (List.foldl Book.next {} _ : Book).last = some cacheStr := hcache
    rw [hbook] at hcache'
    exact h.hostkey cacheStr hcache'
  · show (List.foldl _ _ _ : Book).storedSince = false
    rw [hbook]
    exact h.stored
  · show Meets _ _ _ (_ ++ _) ↔ Meets _ _ _ (_ ++ _)
    rw [meets_concat, meets_concat, h.justified]
    exact Iff.rfl

end Inv

end KeyPart

/-! ## The coroutine -/

namespace Ssh2Transport

open Outcome

variable {w : ℕ} {env : Env w} {s s' : Ssh2Transport w}

def keyPart (s : Ssh2Transport w) : KeyPart where
  keys := s.keys
  crossCertifying := s.crossCertifying
  gotSessionId := s.gotSessionId
  hostkeyStr := s.hostkeyStr
  gssKexUsed := s.gssKexUsed
  kexAlg := s.algs.kexAlg
  kexlists := s.kexlists

/-- The user is asked only in the first key exchange. -/
structure KeyInv (s : Ssh2Transport w) : Prop where
  part : s.keyPart.Inv
  start : s.ended = none → s.crState = .start → s.gotSessionId = false
  verify : s.ended = none → ∀ key, s.crState = .kex (.verify key) → s.gotSessionId = false

namespace KeyInv

/-- The coroutine waits elsewhere. -/
theorem of_part (h : s.keyPart.Inv) (hstart : s.crState ≠ .start)
    (hverify : ∀ key, s.crState ≠ .kex (.verify key)) : KeyInv s :=
  ⟨h, fun _ hs => absurd hs hstart, fun _ key hs => absurd hs (hverify key)⟩

theorem of_ended (h : s.keyPart.Inv) (hended : s.ended ≠ none) : KeyInv s :=
  ⟨h, fun hlive => absurd hlive hended, fun hlive => absurd hlive hended⟩

/-- Neither the host key nor the place where the coroutine waits changes. -/
theorem congr (h : KeyInv s) (hpart : s'.keyPart = s.keyPart) (hstate : s'.crState = s.crState)
    (hlive : s'.ended = none → s.ended = none) : KeyInv s' := by
  have hsession : s'.gotSessionId = s.gotSessionId := congrArg KeyPart.gotSessionId hpart
  refine ⟨hpart ▸ h.part, fun hl hs => ?_, fun hl key hs => ?_⟩
  · rw [hsession]
    exact h.start (hlive hl) (hstate ▸ hs)
  · rw [hsession]
    exact h.verify (hlive hl) key (hstate ▸ hs)

end KeyInv

theorem Moved.keyPart {ws : List Wire} (h : Moved s s' ws) : s'.keyPart = s.keyPart := by
  rw [h.eq]
  rfl

theorem Popped.keyPart {o : Option PktIn} (h : Popped s s' o) : s'.keyPart = s.keyPart := by
  obtain ⟨ws, hmoved⟩ := h.moved
  exact hmoved.keyPart

theorem Popped.keyInv {o : Option PktIn} (h : Popped s s' o) (hs : KeyInv s) : KeyInv s' := by
  obtain ⟨ws, hmoved⟩ := h.moved
  exact hs.congr h.keyPart h.crState hmoved.live

/-- The result of the coroutine of the key exchange. When this is done, there is a session. -/
def KeyResult (r : Ssh2Transport w × Bool) : Prop :=
  if r.2 then { r.1 with gotSessionId := true }.keyPart.Inv else KeyInv r.1

theorem KeyResult.aborted (h : s.keyPart.Inv) : KeyResult (s.abort, false) :=
  .of_ended (s := s.abort) h fun hlive => (nomatch hlive)

theorem keyResult_verifyAnswer (h : s.keyPart.Inv) (hno : s.gotSessionId = false) (key : HostKey) :
    KeyResult (s.verifyAnswer key) := by
  unfold verifyAnswer
  split
  · exact ⟨h, fun _ hs => (nomatch hs), fun _ _ _ => hno⟩
  · split
    · exact .aborted h
    · exact h.accept hno key.cacheStr

theorem keyResult_firstHostKey (h : s.keyPart.Inv) (hno : s.gotSessionId = false) (key : HostKey) :
    KeyResult (firstHostKey env s key) := by
  unfold firstHostKey
  simp only
  split
  · exact .aborted h
  · split
    · refine keyResult_verifyAnswer ?_ ?_ key
      · exact h
      · exact hno
    · exact h.accept hno key.cacheStr

theorem keyResult_repeatHostKey (h : s.keyPart.Inv) (hsession : s.gotSessionId = true) (key : HostKey) :
    KeyResult (s.repeatHostKey key) := by
  unfold repeatHostKey
  split
  case _ alg hcross =>
    split
    · exact .of_ended h fun hlive => (nomatch hlive)
    · have hcertified := h.crossCertified (Option.isSome_iff_exists.mpr ⟨alg, hcross⟩) hsession key.cacheStr
      show { { s.noteKey (.stored key.cacheStr) with hostkeyStr := some key.cacheStr }.noteKey
        (.completed (some key.cacheStr)) with gotSessionId := true }.keyPart.Inv
      rw [← hsession]
      exact hcertified
  case _ hcross =>
    split
    · exact .aborted h
    case _ hname =>
      have hrepeated := h.repeated hcross hsession (not_not.mp hname)
      show { s.noteKey (.completed (some key.cacheStr)) with gotSessionId := true }.keyPart.Inv
      rw [← hsession]
      exact hrepeated

theorem keyResult_checkHostKey (h : s.keyPart.Inv) (hkey : Option HostKey) (verified : Bool) :
    KeyResult (checkHostKey env s hkey verified) := by
  unfold checkHostKey
  split
  case _ hgss =>
    obtain ⟨kex, hkex, htype⟩ := Option.map_eq_some_iff.mp hgss
    exact absurd htype (h.kexAlg kex hkex)
  · split
    · exact .aborted h
    · split
      · exact .aborted h
      · rw [if_neg (by rw [show s.gssKexUsed = false from h.noGss]; exact Bool.false_ne_true)]
        split
        case _ hsession => exact keyResult_repeatHostKey h hsession _
        case _ hno => exact keyResult_firstHostKey h (Bool.eq_false_of_not_eq_true hno) _

theorem keyResult_ssh2kexCoroutine (hclient : env.isServer = false) (h : KeyInv s) (k : CrStateKex)
    (hstate : s.crState = .kex k) (hlive : s.ended = none) : KeyResult (ssh2kexCoroutine env s k) := by
  cases k with
  | verify key => exact keyResult_verifyAnswer h.part (h.verify hlive key hstate) key
  | method m =>
    obtain ⟨ws, hmoved, hresult⟩ := @runMethod_moved w s m hlive
    cases hrun : s.runMethod m with
    | mk s1 o =>
      rw [hrun] at hmoved hresult
      have hpart : s1.keyPart.Inv := hmoved.keyPart ▸ h.part
      unfold ssh2kexCoroutine
      simp only [hrun]
      cases o with
      | none =>
        rcases hresult with hended | ⟨-, m', hstate'⟩
        · exact .of_ended hpart hended
        · refine .of_part hpart ?_ fun key => ?_
          · show s1.crState ≠ _
            rw [hstate']
            exact fun hs => (nomatch hs)
          · show s1.crState ≠ _
            rw [hstate']
            exact fun hs => (nomatch hs)
      | some result =>
        simp only [hclient]
        exact keyResult_checkHostKey hpart _ _

/-! ## The coroutine of the transport layer -/

/-- No key exchange method of the table of a client is one of GSS. -/
def NoGss (env : Env w) : Prop :=
  ∀ s, ∀ alg ∈ (env.writeKexinitLists s).2 .kex, alg.u.1.mainType ≠ .gss

theorem keyInv_beginKeyExchange (hno : NoGss env) (h : s.keyPart.Inv) : KeyInv (beginKeyExchange env s) := by
  obtain ⟨kexlists, payload, incoming, heq, ⟨s', hlists⟩, -⟩ := @beginKeyExchange_eq w env s
  rw [heq]
  refine .of_part ?_ (fun hs => (nomatch hs)) fun _ hs => (nomatch hs)
  refine ⟨h.xcert, h.session, h.hostkey, h.stored, h.noGss, h.kexAlg, ?_, h.justified⟩
  show ∀ alg ∈ kexlists .kex, alg.u.1.mainType ≠ .gss
  rw [hlists]
  exact hno s'

theorem keyInv_startKex (h : s.keyPart.Inv) : KeyInv (startKex env s) :=
  .of_part (s := startKex env s) h (fun hs => (nomatch hs)) fun _ hs => (nomatch hs)

theorem keyInv_askWeak (h : s.keyPart.Inv) (l : List Weak) : KeyInv (askWeak env s l) := by
  rcases @askWeak_cases w env s l with ⟨dlgret, rest, -, heq⟩ | heq | heq
  · rw [heq]
    exact .of_part h (fun hs => (nomatch hs)) fun _ hs => (nomatch hs)
  · rw [heq]
    exact .of_part h (fun hs => (nomatch hs)) fun _ hs => (nomatch hs)
  · rw [heq]
    exact keyInv_startKex h

theorem keyInv_receiveKexinit (h : s.keyPart.Inv) (pktin : PktIn) : KeyInv (receiveKexinit env s pktin) := by
  rcases @receiveKexinit_cases w env s pktin with
    ⟨incoming, ws, heq, -⟩ | ⟨agreement, algs, ignorepkt, uncertHostkeys, hscan, halgs, heq⟩
  · rw [heq]
    exact .of_ended h fun hlive => (nomatch hlive)
  · rw [heq]
    refine keyInv_askWeak ?_ _
    refine ⟨h.xcert, h.session, h.hostkey, h.stored, h.noGss, ?_, h.kexlists, h.justified⟩
    intro kex hkex
    refine ssh2ScanKexinits_kexAlg (P := fun kex => kex.mainType ≠ .gss) h.kexlists h.kexAlg agreement hscan
      kex ?_
    rw [← halgs]
    exact hkex

theorem keyInv_receiveNewkeys (hno : NoGss env) (h : s.keyPart.Inv) (pktin : PktIn) :
    KeyInv (receiveNewkeys env s pktin).1 := by
  unfold receiveNewkeys
  split
  · exact .of_ended (s := s.abort) h fun hlive => (nomatch hlive)
  · simp only
    split
    · exact keyInv_beginKeyExchange hno h
    · split
      · exact .of_part h (fun hs => (nomatch hs)) fun _ hs => (nomatch hs)
      · split
        · exact .of_part h (fun hs => (nomatch hs)) fun _ hs => (nomatch hs)
        · exact .of_part h (fun hs => (nomatch hs)) fun _ hs => (nomatch hs)

theorem keyInv_receiveService (h : s.keyPart.Inv) (pktin : PktIn) : KeyInv (receiveService env s pktin) := by
  have haborted : KeyInv s.abort := .of_ended (s := s.abort) h fun hlive => (nomatch hlive)
  unfold receiveService
  split
  · split
    · exact haborted
    · split
      · exact haborted
      · exact .of_part h (fun hs => (nomatch hs)) fun _ hs => (nomatch hs)
  · split
    · exact haborted
    · exact .of_part h (fun hs => (nomatch hs)) fun _ hs => (nomatch hs)

theorem considerRekey_keeps : (considerRekey env s).keyPart = s.keyPart ∧
    (considerRekey env s).crState = s.crState ∧ (considerRekey env s).ended = s.ended := by
  obtain ⟨reason, rekeyClass, inStats, outStats, counts, heq⟩ := @considerRekey_eq w env s
  rw [heq]
  exact ⟨rfl, rfl, rfl⟩

theorem keyInv_considerRekey (h : KeyInv s) : KeyInv (considerRekey env s) := by
  obtain ⟨hpart, hstate, hended⟩ := @considerRekey_keeps w env s
  exact h.congr hpart hstate fun hlive => hended ▸ hlive

theorem keyInv_idle (hno : NoGss env) (h : KeyInv s) : KeyInv (idle env s).1 := by
  have hs : KeyInv s.concatenate := h.congr rfl rfl id
  unfold idle
  split
  case _ pktin s1 heq =>
    have h1 := (popped_of_eq heq).keyInv hs
    split
    · exact .of_ended (s := s1.abort) h1.part fun hlive => (nomatch hlive)
    · simp only
      have h2 : KeyInv (considerRekey env { s1 with inPq := pktin :: s1.inPq, rekeyClass := .server }) :=
        keyInv_considerRekey (h1.congr rfl rfl id)
      split
      · exact h2
      · exact keyInv_beginKeyExchange hno h2.part
  case _ s1 heq =>
    have h1 := (popped_of_eq heq).keyInv hs
    split
    · exact h1
    · simp only
      have h2 := @keyInv_considerRekey w env s1 h1
      split
      · exact h2
      · exact keyInv_beginKeyExchange hno h2.part

theorem keyInv_sendNewkeys (h : { s with gotSessionId := true }.keyPart.Inv) : KeyInv s.sendNewkeys :=
  .of_part (s := s.sendNewkeys) h (fun hs => (nomatch hs)) fun _ hs => (nomatch hs)

theorem keyInv_resume (hclient : env.isServer = false) (hno : NoGss env) (h : KeyInv s)
    (hlive : s.ended = none) : KeyInv (resume env s).1 := by
  unfold resume
  split
  case h_1 hstate =>
    refine keyInv_beginKeyExchange hno ?_
    show KeyPart.Inv { s.keyPart with gotSessionId := false }
    rw [← h.start hlive hstate]
    exact h.part
  · split
    case _ heq => exact (popped_of_eq heq).keyInv h
    case _ heq => exact keyInv_receiveKexinit ((popped_of_eq heq).keyInv h).part _
  · split
    · exact h
    · split
      · exact .of_ended (s := s.abort) h.part fun hlive => (nomatch hlive)
      · exact keyInv_askWeak h.part _
  · split
    case _ heq => exact (popped_of_eq heq).keyInv h
    case _ heq => exact keyInv_startKex ((popped_of_eq heq).keyInv h).part
  case h_5 k hstate =>
    have hkex := keyResult_ssh2kexCoroutine hclient h k hstate hlive
    split
    case _ heq =>
      rw [heq] at hkex
      exact hkex
    case _ heq =>
      rw [heq] at hkex
      exact keyInv_sendNewkeys hkex
  · split
    case _ heq => exact (popped_of_eq heq).keyInv h
    case _ heq => exact keyInv_receiveNewkeys hno ((popped_of_eq heq).keyInv h).part _
  · split
    case _ heq => exact (popped_of_eq heq).keyInv h
    case _ heq => exact keyInv_receiveService ((popped_of_eq heq).keyInv h).part _
  · exact keyInv_idle hno h

theorem keyInv_runCoroutine (hclient : env.isServer = false) (hno : NoGss env) (n : ℕ) (h : KeyInv s) :
    KeyInv (runCoroutine env n s) := by
  induction n generalizing s with
  | zero => exact h
  | succ n ih =>
    unfold runCoroutine
    split
    · exact h
    case isFalse hended =>
      have hresume := keyInv_resume hclient hno h (Option.not_isSome_iff_eq_none.mp hended)
      split
      case _ heq =>
        rw [heq] at hresume
        exact hresume
      case _ heq =>
        rw [heq] at hresume
        exact ih hresume

theorem keyInv_processQueue (hclient : env.isServer = false) (hno : NoGss env) (h : KeyInv s) :
    KeyInv (s.processQueue env) := by
  obtain ⟨ws, hmoved, hstate, -⟩ := @filterQueue_moved w s
  have hfilter := h.congr hmoved.keyPart hstate hmoved.live
  unfold processQueue
  simp only
  split
  · exact hfilter
  · exact keyInv_runCoroutine hclient hno _ hfilter

/-! ## Runs -/

theorem keyInv_specialCmd (h : KeyInv s) (code : SpecialCode) : KeyInv (s.specialCmd code) := by
  cases code with
  | rekey =>
    simp only [specialCmd]
    split
    · exact h
    · exact h.congr rfl rfl id
  | xcert arg =>
    simp only [specialCmd]
    split
    · exact h
    · exact ⟨h.part.xcerted _, h.start, h.verify⟩
  | other => exact h

theorem reconfigure_keeps (conf : Conf) (shortened inadvisable : Bool) :
    (s.reconfigure conf shortened inadvisable).keyPart = s.keyPart ∧
    (s.reconfigure conf shortened inadvisable).crState = s.crState ∧
    (s.reconfigure conf shortened inadvisable).ended = s.ended := by
  have hadjust : ∀ old, ∃ inStats outStats, (s.setMaxDataSize.adjustStats old).1 =
      { s.setMaxDataSize with inStats := inStats, outStats := outStats } := by
    intro old
    unfold adjustStats
    split
    · split
      · exact ⟨_, _, rfl⟩
      · exact ⟨_, _, rfl⟩
    · exact ⟨_, _, rfl⟩
  obtain ⟨inStats, outStats, heq⟩ := hadjust s.maxDataSize
  unfold reconfigure
  simp only [heq]
  split
  · exact ⟨rfl, rfl, rfl⟩
  · split
    · exact ⟨rfl, rfl, rfl⟩
    · split
      · exact ⟨rfl, rfl, rfl⟩
      · exact ⟨rfl, rfl, rfl⟩

theorem keyInv_step (hclient : env.isServer = false) (hno : NoGss env) (h : KeyInv s) (e : Event w) :
    KeyInv (step env s e) := by
  unfold step
  split
  · exact h
  · cases e with
    | consumed d size =>
      cases d with
      | «in» => exact h.congr rfl rfl id
      | out => exact h.congr rfl rfl id
    | processQueue => exact keyInv_processQueue hclient hno h
    | dialog ret => exact keyInv_processQueue hclient hno (s := { s with dlgret := ret }) (h.congr rfl rfl id)
    | specialCmd code => exact keyInv_specialCmd h code
    | reconfigure conf shortened inadvisable =>
      obtain ⟨hpart, hstate, hended⟩ := @reconfigure_keeps w s conf shortened inadvisable
      exact h.congr hpart hstate fun hlive => hended ▸ hlive
    | timer gssUpdate =>
      simp only [timer]
      split
      · exact h
      · split
        · exact h.congr rfl rfl id
        · exact h.congr rfl rfl id
    | _ => exact h.congr rfl rfl id

theorem keyInv_new (conf : Conf) : KeyInv (new conf : Ssh2Transport w) := by
  refine ⟨?_, fun _ _ => rfl, fun _ _ hs => (nomatch hs)⟩
  exact ⟨rfl, rfl, fun _ h => (nomatch h), rfl, rfl, fun _ h => (nomatch h), fun _ h => (nomatch h),
    iff_of_true trivial trivial⟩

/-- The host key changes only with the consent of the user in the runs in which every repeat key exchange after
an `SS_XCERT` command has one of its own. -/
theorem hostKey_justified_iff (env : Env w) (hclient : env.isServer = false) (hno : NoGss env) (conf : Conf)
    (events : List (Event w)) :
    Meets Book.next Book.Justified {} (run env conf events).keys ↔
      Meets Book.next Book.Asked {} (run env conf events).keys := by
  have hinv : KeyInv (run env conf events) :=
    invariant_run (fun s e h => keyInv_step hclient hno h e) (keyInv_new conf)
  exact hinv.part.justified

/-- One algorithm of each kind, with the name "c" -/
def oneKexlists : KexLists
  | .kex => [⟨some [99], (⟨[99], .dh⟩, false)⟩]
  | .hostkey => [⟨some [99], (some ⟨[99], [99]⟩, false)⟩]
  | .cscipher | .sccipher => [⟨some [99], (⟨[99], none⟩, false)⟩]
  | .csmac | .scmac => [⟨some [99], (⟨[99], none⟩, false)⟩]
  | .cscomp | .sccomp => [⟨some [99], (⟨[99]⟩, false)⟩]

/-- The ten lists of names of a KEXINIT packet, each of them "c" -/
def oneLists : List UInt8 := (List.replicate 10 [0, 0, 0, 1, 99]).flatten

/-- A client whose key exchange method is that the server sends its host key -/
def keyEnv : Env 32 :=
  { clientEnv fun _ => .pop fun pktin =>
      .done (some ⟨ssh2HostkeyAlgs.get ⟨0, by decide⟩, pktin.data⟩) true with
    writeKexinitLists := fun _ => (oneLists, oneKexlists) }

/-- The server's packets in a key exchange -/
def exchange (key : Name) : List (Event 32) :=
  [.incoming ⟨20, List.replicate 16 0 ++ oneLists ++ [0, 0, 0, 0, 0]⟩, .incoming ⟨31, key⟩,
    .incoming ⟨msgNewkeys, []⟩, .processQueue]

/-- The first key exchange, one that an `SS_XCERT` command asks for, and one that an `SS_REKEY` command asks for -/
def threeExchanges : List (Event 32) :=
  [.processQueue] ++ exchange [65] ++ [.incoming ⟨msgServiceAccept, []⟩, .processQueue] ++
    [.specialCmd (.xcert ⟨0, by decide⟩), .processQueue] ++ exchange [66] ++
    [.specialCmd .rekey, .processQueue] ++ exchange [67]

theorem noGss_keyEnv : NoGss keyEnv := by
  intro s alg halg
  rw [List.mem_singleton.mp halg]
  exact fun h => (nomatch h)

theorem hostKey_justified_threeExchanges :
    Meets Book.next Book.Justified {} (run keyEnv (confOf []) threeExchanges).keys ↔
      Meets Book.next Book.Asked {} (run keyEnv (confOf []) threeExchanges).keys :=
  hostKey_justified_iff keyEnv rfl noGss_keyEnv (confOf []) threeExchanges

/-- The third key is stored, although no command since the second key exchange asks for it. -/
theorem hostKey_changes_silently : keyEnv.isServer = false ∧ NoGss keyEnv ∧
    ¬ Meets Book.next Book.Justified {} (run keyEnv (confOf []) threeExchanges).keys := by
  have hkeys : (run keyEnv (confOf []) threeExchanges).keys =
      [.accepted [65], .completed (some [65]), .xcert (ssh2HostkeyAlgs.get ⟨0, by decide⟩), .stored [66],
        .completed (some [66]), .stored [67], .completed (some [67])] := by
    decide +kernel
  refine ⟨rfl, noGss_keyEnv, ?_⟩
  rw [hkeys]
  rintro ⟨-, -, -, -, -, ⟨-, hasked, -⟩, -⟩
  cases hasked

end Ssh2Transport

end PuttyNd.Transport
