import PuttyNd.Transport.Kexinit
import PuttyNd.Lib.Outcome
import PuttyNd.Psftp.Proofs.MarshalProofs
import Mathlib.Data.List.Find

/-!
# Proofs: negotiating the algorithms of a key exchange

A KEXINIT packet is a record of its name lists, `payload` its bytes. What is negotiated is said in terms of
the names.
-/

namespace PuttyNd.Transport

open Psftp Outcome

/-! ## Lists of names -/

/-- The names of a list, with commas between them -/
def joinNames (names : List Name) : List UInt8 := List.intercalate [comma] names

theorem getCommasepWord_last {word : Name} (hne : word ≠ []) (hword : comma ∉ word) :
    getCommasepWord word = some (word, []) := by
  cases word with
  | nil => exact absurd rfl hne
  | cons c word =>
    have hc : c ≠ comma := fun h => hword (h ▸ List.mem_cons_self)
    have hall : ∀ b ∈ c :: word, decide (b ≠ comma) = true := fun b hb =>
      decide_eq_true fun h => hword (h ▸ hb)
    unfold getCommasepWord
    rw [List.dropWhile_cons_of_neg (by simpa using hc)]
    show some (List.takeWhile _ _, (List.dropWhile _ _).tail) = _
    rw [List.takeWhile_eq_self_iff.mpr hall, List.dropWhile_eq_nil_iff.mpr hall]
    rfl

theorem getCommasepWord_append {word : Name} (hne : word ≠ []) (hword : comma ∉ word)
    (rest : List UInt8) : getCommasepWord (word ++ comma :: rest) = some (word, rest) := by
  cases word with
  | nil => exact absurd rfl hne
  | cons c word =>
    have hc : c ≠ comma := fun h => hword (h ▸ List.mem_cons_self)
    have hall : ∀ b ∈ c :: word, decide (b ≠ comma) = true := fun b hb =>
      decide_eq_true fun h => hword (h ▸ hb)
    unfold getCommasepWord
    rw [List.cons_append, List.dropWhile_cons_of_neg (by simpa using hc)]
    show some (List.takeWhile _ ((c :: word) ++ comma :: rest),
      (List.dropWhile _ ((c :: word) ++ comma :: rest)).tail) = _
    rw [List.takeWhile_append_of_pos hall, List.dropWhile_append_of_pos hall,
      List.takeWhile_cons_of_neg (by simp), List.dropWhile_cons_of_neg (by simp), List.append_nil]
    rfl

theorem commasepWords_nil : commasepWords [] = [] := by
  rw [commasepWords]
  rfl

theorem commasepWords_some {list rest : List UInt8} {word : Name}
    (h : getCommasepWord list = some (word, rest)) :
    commasepWords list = word :: commasepWords rest := by
  rw [commasepWords]
  split
  case _ hnone =>
    rw [h] at hnone
    cases hnone
  case _ hsome =>
    rw [h] at hsome
    cases hsome
    rfl

/-- The words of a list are its names. -/
theorem commasepWords_join (names : List Name) (h : ∀ n ∈ names, n ≠ [] ∧ comma ∉ n) :
    commasepWords (joinNames names) = names := by
  unfold joinNames
  induction names with
  | nil => exact commasepWords_nil
  | cons name names ih =>
    obtain ⟨hne, hname⟩ := h name List.mem_cons_self
    cases names with
    | nil =>
      rw [List.intercalate_singleton, commasepWords_some (getCommasepWord_last hne hname),
        commasepWords_nil]
    | cons name' names =>
      have hrest := ih fun n hn => h n (List.mem_cons_of_mem _ hn)
      rw [List.intercalate_cons_cons, List.append_assoc, List.singleton_append,
        commasepWords_some (getCommasepWord_append hne hname _), hrest]

/-- The first of the client's names that the server has too -/
def firstCommon (client server : List Name) : Option Name := client.find? (· ∈ server)

theorem matchServer_eq (cword : Name) (sfirst : Bool) (slist : List Name) :
    matchServer cword sfirst slist =
      if cword ∈ slist then some (if slist.head? = some cword then sfirst else false) else none := by
  induction slist generalizing sfirst with
  | nil => rfl
  | cons sword slist ih =>
    unfold matchServer
    by_cases h : cword = sword
    · rw [if_pos h, if_pos (h ▸ List.mem_cons_self), if_pos (by rw [h]; rfl)]
    · have hhead : (sword :: slist).head? ≠ some cword := fun he => h (Option.some.inj he).symm
      rw [if_neg h, ih, if_neg hhead]
      simp only [List.mem_cons, h, false_or, ite_self]

theorem matchClient_eq (slist : List Name) (cfirst : Bool) (clist : List Name) :
    matchClient slist cfirst clist = (firstCommon clist slist).map fun found =>
      (found, if clist.head? = some found then cfirst else false,
        decide (slist.head? = some found)) := by
  unfold firstCommon
  induction clist generalizing cfirst with
  | nil => rfl
  | cons cword clist ih =>
    unfold matchClient
    rw [matchServer_eq]
    by_cases h : cword ∈ slist
    · rw [if_pos h, List.find?_cons_of_pos (by simpa using h)]
      by_cases hhead : slist.head? = some cword
      · simp [hhead]
      · simp [hhead]
    · rw [if_neg h, List.find?_cons_of_neg (by simpa using h)]
      simp only
      rw [ih]
      refine Option.map_congr fun found hfound => ?_
      have hne : found ≠ cword := fun he => h (by simpa [he] using List.find?_some hfound)
      simp [hne.symm]

/-! ## The packets -/

/-- A list of names that are not empty, short enough to be sent -/
structure NameList where
  names : List Name
  word : ∀ n ∈ names, n ≠ [] ∧ comma ∉ n
  fits : (joinNames names).length < 2 ^ 32

namespace NameList

def put (l : NameList) : List UInt8 :=
  putUint32 (UInt32.ofNat (joinNames l.names).length) ++ joinNames l.names

theorem getString_put (l : NameList) (rest : List UInt8) :
    getString ⟨l.put ++ rest, false⟩ = (joinNames l.names, ⟨rest, false⟩) := by
  have hlen : (joinNames l.names).length = (UInt32.ofNat (joinNames l.names).length).toNat :=
    (UInt32.toNat_ofNat_of_lt' l.fits).symm
  unfold put
  rw [List.append_assoc]
  exact Psftp.getString_put hlen

theorem words (l : NameList) : commasepWords (joinNames l.names) = l.names :=
  commasepWords_join l.names l.word

end NameList

/-- `SSH2_MSG_KEXINIT` -/
def msgKexinit : UInt8 := 20

/-- A complete KEXINIT packet. What follows the flag is not read. -/
structure Kexinit where
  cookie : List UInt8
  cookie_length : cookie.length = 16
  lists : KexList → NameList
  languagesCs : NameList
  languagesSc : NameList
  firstKexPacketFollows : UInt8
  reserved : List UInt8

namespace Kexinit

/-- What comes after the name lists -/
def rest (k : Kexinit) : List UInt8 :=
  k.languagesCs.put ++ (k.languagesSc.put ++ k.firstKexPacketFollows :: k.reserved)

def payload (k : Kexinit) : List UInt8 :=
  (msgKexinit :: k.cookie) ++ ((KexList.all.flatMap fun i => (k.lists i).put) ++ k.rest)

/-- A guessed packet is announced. -/
def Follows (k : Kexinit) : Prop := k.firstKexPacketFollows ≠ 0

instance (k : Kexinit) : Decidable k.Follows := inferInstanceAs (Decidable (_ ≠ _))

theorem skip_payload (k : Kexinit) : (avail ⟨k.payload, false⟩ (1 + 16)).2 =
    ⟨(KexList.all.flatMap fun i => (k.lists i).put) ++ k.rest, false⟩ := by
  have hlen : (msgKexinit :: k.cookie).length = 1 + 16 := by
    rw [List.length_cons, k.cookie_length]
  unfold payload
  rw [avail_ok (by rw [List.length_append, hlen]; omega), ← hlen, List.drop_left]

theorem follows_rest (k : Kexinit) :
    getFirstKexPacketFollows ⟨k.rest, false⟩ = decide k.Follows := by
  unfold getFirstKexPacketFollows rest
  rw [NameList.getString_put, NameList.getString_put]
  unfold getBool
  rw [avail_ok (by simp)]
  rfl

end Kexinit

/-! ## Finding the matching string in each list -/

section Scan

variable (kexlists : KexLists) (client server : Kexinit)

/-- The first name of the client's list that is in the server's list -/
def found (i : KexList) : Option Name :=
  firstCommon (client.lists i).names (server.lists i).names

/-- The entry for that name -/
def entry (i : KexList) : Option (KexinitAlgorithm i) :=
  (found client server i).bind fun name => (kexlists i).find? fun alg => alg.name = some name

/-- There is an entry for the name, if there is a name. -/
def Supported (i : KexList) : Prop := (found client server i).isSome → (entry kexlists client server i).isSome

instance (i : KexList) : Decidable (Supported kexlists client server i) :=
  inferInstanceAs (Decidable (_ → _))

/-- There is a common name, which is first in one of the lists, where this matters. -/
def GuessStands (i : KexList) : Prop :=
  (found client server i).isSome ∧ (i = .kex ∨ i = .hostkey →
    (client.lists i).names.head? = found client server i ∨
      (server.lists i).names.head? = found client server i)

instance (i : KexList) : Decidable (GuessStands client server i) :=
  inferInstanceAs (Decidable (_ ∧ _))

variable {kexlists client server} {s : Scan} {i : KexList} {restC restS : List UInt8}

theorem scanList_eq (hclient : s.client = ⟨(client.lists i).put ++ restC, false⟩)
    (hserver : s.server = ⟨(server.lists i).put ++ restS, false⟩)
    (h : Supported kexlists client server i) : scanList kexlists s i = .ok
      { client := ⟨restC, false⟩
        server := ⟨restS, false⟩
        guessCorrect := s.guessCorrect && decide (GuessStands client server i)
        slists := Function.update s.slists i (joinNames (server.lists i).names)
        selected := Function.update s.selected i (entry kexlists client server i) } := by
  unfold scanList
  rw [hclient, hserver, NameList.getString_put, NameList.getString_put]
  simp only [Bool.or_self, Bool.false_eq_true, if_false, NameList.words, matchClient_eq]
  rcases Option.eq_none_or_eq_some (found client server i) with hfound | ⟨name, hfound⟩
  · have hguess : ¬ GuessStands client server i := fun hg => by
      simpa [hfound] using hg.1
    have hentry : entry kexlists client server i = none := by
      unfold entry
      rw [hfound]
      rfl
    rw [hentry, decide_eq_false hguess]
    unfold found at hfound
    simp [hfound]
  · obtain ⟨alg, halg⟩ := Option.isSome_iff_exists.mp (h (by rw [hfound]; rfl))
    have hguess : GuessStands client server i ↔ (i = .kex ∨ i = .hostkey →
        (client.lists i).names.head? = some name ∨ (server.lists i).names.head? = some name) := by
      unfold GuessStands
      simp [hfound]
    rw [halg]
    simp only [decide_eq_decide.mpr hguess]
    unfold entry at halg
    rw [hfound] at halg
    unfold found at hfound
    simp only [Option.bind_some] at halg
    simp only [hfound, Option.map_some, halg]
    by_cases hi : i = .kex ∨ i = .hostkey
    · by_cases hc : (client.lists i).names.head? = some name
      · simp [hi, hc]
      · by_cases hs : (server.lists i).names.head? = some name
        · simp [hi, hc, hs]
        · simp [hi, hc, hs]
    · simp [hi]

theorem scanList_error (hclient : s.client = ⟨(client.lists i).put ++ restC, false⟩)
    (hserver : s.server = ⟨(server.lists i).put ++ restS, false⟩)
    (h : ¬ Supported kexlists client server i) : ∃ e, scanList kexlists s i = .error e := by
  unfold scanList
  rw [hclient, hserver, NameList.getString_put, NameList.getString_put]
  simp only [Bool.or_self, Bool.false_eq_true, if_false, NameList.words, matchClient_eq]
  unfold Supported entry found at h
  obtain ⟨hsome, hnone⟩ := Classical.not_imp.mp h
  obtain ⟨name, hname⟩ := Option.isSome_iff_exists.mp hsome
  rw [hname] at hnone ⊢
  simp only [Option.bind_some, Bool.not_eq_true, Option.isSome_eq_false_iff, Option.isNone_iff_eq_none]
    at hnone
  simp only [Option.map_some, hnone]
  exact ⟨_, rfl⟩

variable {is : List KexList}

theorem scan_ok (hclient : s.client = ⟨(is.flatMap fun i => (client.lists i).put) ++ restC, false⟩)
    (hserver : s.server = ⟨(is.flatMap fun i => (server.lists i).put) ++ restS, false⟩)
    (h : ∀ i ∈ is, Supported kexlists client server i) :
    Succeeds (is.foldlM (scanList kexlists) s) fun s' =>
      s'.client = ⟨restC, false⟩ ∧ s'.server = ⟨restS, false⟩ ∧
      (s'.guessCorrect = true ↔
        s.guessCorrect = true ∧ ∀ i ∈ is, GuessStands client server i) ∧
      (∀ i, s'.slists i = if i ∈ is then joinNames (server.lists i).names else s.slists i) ∧
      ∀ i, s'.selected i = if i ∈ is then entry kexlists client server i else s.selected i := by
  induction is generalizing s with
  | nil => exact succeeds_ok.mpr ⟨hclient, hserver, by simp, by simp, by simp⟩
  | cons i is ih =>
    rw [List.flatMap_cons, List.append_assoc] at hclient hserver
    rw [List.foldlM_cons, scanList_eq hclient hserver (h i List.mem_cons_self)]
    refine (ih rfl rfl fun j hj => h j (List.mem_cons_of_mem _ hj)).mono fun s' hs' => ?_
    obtain ⟨hc, hs, hguess, hslists, hselected⟩ := hs'
    refine ⟨hc, hs, ?_, fun j => ?_, fun j => ?_⟩
    · simp only [hguess, Bool.and_eq_true, decide_eq_true_eq, List.forall_mem_cons, and_assoc]
    · rw [hslists]
      by_cases hj : j = i
      · subst hj
        simp
      · simp [hj]
    · rw [hselected]
      by_cases hj : j = i
      · subst hj
        simp
      · simp [hj]

theorem scan_error
    (hclient : s.client = ⟨(is.flatMap fun i => (client.lists i).put) ++ restC, false⟩)
    (hserver : s.server = ⟨(is.flatMap fun i => (server.lists i).put) ++ restS, false⟩)
    (h : ¬ ∀ i ∈ is, Supported kexlists client server i) :
    ∃ e, is.foldlM (scanList kexlists) s = .error e := by
  induction is generalizing s with
  | nil => exact absurd (fun _ hi => absurd hi List.not_mem_nil) h
  | cons i is ih =>
    rw [List.flatMap_cons, List.append_assoc] at hclient hserver
    rw [List.foldlM_cons]
    by_cases hi : Supported kexlists client server i
    · rw [scanList_eq hclient hserver hi]
      refine ih rfl rfl fun hall => h fun j hj => ?_
      rcases List.mem_cons.mp hj with rfl | hj
      · exact hi
      · exact hall j hj
    · obtain ⟨e, he⟩ := scanList_error hclient hserver hi
      rw [he]
      exact ⟨e, rfl⟩

end Scan

/-! ## Transcribing the selected algorithms -/

namespace Algorithms

/-- The variables of a list hold what its entry says. -/
def Uses (a : Algorithms) : (i : KexList) → i.Data → Prop
  | .kex, (kex, warn) => a.kexAlg = some kex ∧ a.warnKex = warn
  | .hostkey, (hostkey, warn) => a.hostkeyAlg = hostkey ∧ a.warnHk = warn
  | .cscipher, (cipher, warn) => a.cs.cipher = some cipher ∧ a.warnCscipher = warn
  | .sccipher, (cipher, warn) => a.sc.cipher = some cipher ∧ a.warnSccipher = warn
  | .csmac, (mac, etm) => a.cs.mac = some mac ∧ a.cs.etmMode = etm
  | .scmac, (mac, etm) => a.sc.mac = some mac ∧ a.sc.etmMode = etm
  | .cscomp, (comp, delayed) => a.cs.comp = some comp ∧ a.cs.compDelayed = delayed
  | .sccomp, (comp, delayed) => a.sc.comp = some comp ∧ a.sc.compDelayed = delayed

/-- The MAC that overrides a list -/
def required (a : Algorithms) : KexList → Option Ssh2Macalg
  | .csmac => a.cs.requiredMac
  | .scmac => a.sc.requiredMac
  | _ => none

/-- The variables of a MAC list hold a MAC that overrides the list. -/
def UsesRequired (a : Algorithms) (mac : Ssh2Macalg) : KexList → Prop
  | .csmac => a.cs.mac = some mac ∧ a.cs.etmMode = mac.etmName.isSome
  | .scmac => a.sc.mac = some mac ∧ a.sc.etmMode = mac.etmName.isSome
  | _ => False

end Algorithms

section Transcribe

variable (kexlists : KexLists) (client server : Kexinit)

/-- The MAC that is required by the cipher that the two sides agree on -/
def requiredBy : KexList → Option Ssh2Macalg
  | .csmac => (entry kexlists client server .cscipher).bind (·.u.1.requiredMac)
  | .scmac => (entry kexlists client server .sccipher).bind (·.u.1.requiredMac)
  | _ => none

/-- There is something to use for a list. -/
def Provided (i : KexList) : Prop :=
  (entry kexlists client server i).isSome ∨ (requiredBy kexlists client server i).isSome

/-- "null" is the host key algorithm, and the key exchange is none that does without. -/
def NullHostkey : Prop :=
  ∃ kex hostkey, entry kexlists client server .kex = some kex ∧
    entry kexlists client server .hostkey = some hostkey ∧ hostkey.u.1 = none ∧
    kex.u.1.mainType ≠ .gss

/-- What is in the variables once all lists are transcribed -/
structure Transcribed (a a' : Algorithms) : Prop where
  required : ∀ i, a'.required i = requiredBy kexlists client server i
  mac : ∀ i mac, requiredBy kexlists client server i = some mac → a'.UsesRequired mac i
  uses : ∀ i, requiredBy kexlists client server i = none →
    i ≠ .hostkey ∨ ¬ NullHostkey kexlists client server →
      ∃ alg, entry kexlists client server i = some alg ∧ a'.Uses i alg.u
  null : NullHostkey kexlists client server → a'.hostkeyAlg = a.hostkeyAlg ∧
    ∃ kex, a'.kexAlg = some kex ∧ kex.mainType ≠ .gss

variable {kexlists client server} {s : Scan} {a : Algorithms}

theorem Provided.entry_eq {i : KexList} (h : Provided kexlists client server i)
    (hno : requiredBy kexlists client server i = none) :
    ∃ alg, entry kexlists client server i = some alg := by
  refine Option.isSome_iff_exists.mp (h.resolve_right ?_)
  rw [hno]
  exact Bool.false_ne_true

/-- What is stored for a list that there is something for -/
theorem transcribe_eq {i : KexList} (hselected : s.selected i = entry kexlists client server i)
    (h : Provided kexlists client server i) :
    ∃ d : i.Data,
      (∀ a : Algorithms, a.required i = requiredBy kexlists client server i →
        transcribe s a i = .ok (a.store i d)) ∧
      (requiredBy kexlists client server i = none →
        ∃ alg, entry kexlists client server i = some alg ∧ alg.u = d) ∧
      ∀ mac, requiredBy kexlists client server i = some mac → (i = .csmac ∨ i = .scmac) ∧
        ∀ a : Algorithms, (a.store i d).UsesRequired mac i := by
  cases hreq : requiredBy kexlists client server i with
  | none =>
    obtain ⟨alg, halg⟩ := h.entry_eq hreq
    refine ⟨alg.u, fun a ha => ?_, fun _ => ⟨alg, halg, rfl⟩, fun mac hmac => (nomatch hmac)⟩
    have himplied : a.implied i = none := by
      cases i <;> first | rfl | exact Option.map_eq_none_iff.mpr ha
    unfold transcribe
    rw [himplied, hselected, halg]
  | some mac =>
    cases i with
    | csmac =>
      refine ⟨(mac, mac.etmName.isSome), fun a ha => ?_, fun hno => (nomatch hno), fun mac' hmac' => ?_⟩
      · unfold transcribe Algorithms.implied
        rw [show a.cs.requiredMac = some mac from ha]
        rfl
      · cases hmac'
        exact ⟨.inl rfl, fun a => ⟨rfl, rfl⟩⟩
    | scmac =>
      refine ⟨(mac, mac.etmName.isSome), fun a ha => ?_, fun hno => (nomatch hno), fun mac' hmac' => ?_⟩
      · unfold transcribe Algorithms.implied
        rw [show a.sc.requiredMac = some mac from ha]
        rfl
      · cases hmac'
        exact ⟨.inr rfl, fun a => ⟨rfl, rfl⟩⟩
    | _ => cases hreq

theorem transcribe_ok (hselected : ∀ i, s.selected i = entry kexlists client server i)
    (h : ∀ i, Provided kexlists client server i) :
    Succeeds (KexList.all.foldlM (transcribe s) a) (Transcribed kexlists client server a) := by
  obtain ⟨⟨kex, warnKex⟩, hkex, ekex, -⟩ := transcribe_eq (hselected .kex) (h .kex)
  obtain ⟨⟨hostkey, warnHk⟩, hhostkey, ehostkey, -⟩ := transcribe_eq (hselected .hostkey) (h .hostkey)
  obtain ⟨⟨cscipher, warnCs⟩, hcscipher, ecscipher, -⟩ :=
    transcribe_eq (hselected .cscipher) (h .cscipher)
  obtain ⟨⟨sccipher, warnSc⟩, hsccipher, esccipher, -⟩ :=
    transcribe_eq (hselected .sccipher) (h .sccipher)
  obtain ⟨⟨csmac, etmCs⟩, hcsmac, ecsmac, rcsmac⟩ := transcribe_eq (hselected .csmac) (h .csmac)
  obtain ⟨⟨scmac, etmSc⟩, hscmac, escmac, rscmac⟩ := transcribe_eq (hselected .scmac) (h .scmac)
  obtain ⟨⟨cscomp, delayedCs⟩, hcscomp, ecscomp, -⟩ := transcribe_eq (hselected .cscomp) (h .cscomp)
  obtain ⟨⟨sccomp, delayedSc⟩, hsccomp, esccomp, -⟩ := transcribe_eq (hselected .sccomp) (h .sccomp)
  have hcsreq : requiredBy kexlists client server .csmac = cscipher.requiredMac := by
    obtain ⟨alg, halg, hu⟩ := ecscipher rfl
    simp [requiredBy, halg, hu]
  have hscreq : requiredBy kexlists client server .scmac = sccipher.requiredMac := by
    obtain ⟨alg, halg, hu⟩ := esccipher rfl
    simp [requiredBy, halg, hu]
  simp only [KexList.all, List.foldlM_cons, List.foldlM_nil]
  rw [hkex _ rfl, ok_bind, hhostkey _ rfl, ok_bind, hcscipher _ rfl, ok_bind, hsccipher _ rfl, ok_bind,
    hcsmac, ok_bind, hscmac, ok_bind, hcscomp _ rfl, ok_bind, hsccomp _ rfl, ok_bind]
  · have hnull : NullHostkey kexlists client server ↔ hostkey = none ∧ kex.mainType ≠ .gss := by
      obtain ⟨alg, halg, hu⟩ := ekex rfl
      obtain ⟨alg', halg', hu'⟩ := ehostkey rfl
      simp [NullHostkey, halg, halg', hu, hu']
    generalize hfirst : (a.store .kex (kex, warnKex)).store .hostkey (hostkey, warnHk) = a'
    have hkexAlg : a'.kexAlg = some kex ∧ a'.warnKex = warnKex := by
      rw [← hfirst]
      show (if _ then _ else _ : Algorithms).kexAlg = _ ∧ (if _ then _ else _ : Algorithms).warnKex = _
      split
      · exact ⟨rfl, rfl⟩
      · exact ⟨rfl, rfl⟩
    refine succeeds_ok.mpr ⟨fun i => ?_, fun i mac hmac => ?_, fun i hno hor => ?_, fun hn => ?_⟩
    · cases i with
      | csmac => exact hcsreq.symm
      | scmac => exact hscreq.symm
      | _ => rfl
    · cases i with
      | csmac => exact (rcsmac mac hmac).2 a'
      | scmac => exact (rscmac mac hmac).2 a'
      | _ => cases hmac
    · cases i with
      | kex =>
        obtain ⟨alg, halg, hu⟩ := ekex rfl
        exact ⟨alg, halg, hu ▸ hkexAlg⟩
      | hostkey =>
        obtain ⟨alg, halg, hu⟩ := ehostkey rfl
        have hno' : ¬ (hostkey = none ∧ kex.mainType ≠ .gss) := fun hh =>
          hor.elim (fun hne => hne rfl) fun hn => hn (hnull.mpr hh)
        refine ⟨alg, halg, hu ▸ ?_⟩
        show a'.hostkeyAlg = hostkey ∧ a'.warnHk = warnHk
        rw [← hfirst]
        show (if _ then _ else _ : Algorithms).hostkeyAlg = _ ∧ (if _ then _ else _ : Algorithms).warnHk = _
        rw [if_neg (by simpa [Algorithms.store] using hno')]
        exact ⟨rfl, rfl⟩
      | cscipher =>
        obtain ⟨alg, halg, hu⟩ := ecscipher rfl
        exact ⟨alg, halg, hu ▸ ⟨rfl, rfl⟩⟩
      | sccipher =>
        obtain ⟨alg, halg, hu⟩ := esccipher rfl
        exact ⟨alg, halg, hu ▸ ⟨rfl, rfl⟩⟩
      | csmac =>
        obtain ⟨alg, halg, hu⟩ := ecsmac hno
        exact ⟨alg, halg, hu ▸ ⟨rfl, rfl⟩⟩
      | scmac =>
        obtain ⟨alg, halg, hu⟩ := escmac hno
        exact ⟨alg, halg, hu ▸ ⟨rfl, rfl⟩⟩
      | cscomp =>
        obtain ⟨alg, halg, hu⟩ := ecscomp rfl
        exact ⟨alg, halg, hu ▸ ⟨rfl, rfl⟩⟩
      | sccomp =>
        obtain ⟨alg, halg, hu⟩ := esccomp rfl
        exact ⟨alg, halg, hu ▸ ⟨rfl, rfl⟩⟩
    · refine ⟨?_, kex, hkexAlg.1, (hnull.mp hn).2⟩
      show a'.hostkeyAlg = _
      rw [← hfirst]
      show (if _ then _ else _ : Algorithms).hostkeyAlg = _
      rw [if_pos (by simpa [Algorithms.store] using hnull.mp hn)]
      rfl
  · exact hscreq.symm
  · exact hcsreq.symm

/-- A list that there is nothing for ends the negotiation, and so does an error after the list. -/
theorem transcribe_bind_error {i : KexList} {f : Algorithms → Except KexinitError Algorithms}
    (hselected : s.selected i = entry kexlists client server i)
    (hrequired : a.required i = requiredBy kexlists client server i)
    (hf : ∀ d : i.Data, Provided kexlists client server i →
      (requiredBy kexlists client server i = none →
        ∃ alg, entry kexlists client server i = some alg ∧ alg.u = d) →
      ∃ e, f (a.store i d) = .error e) : ∃ e, (transcribe s a i >>= f) = .error e := by
  by_cases h : Provided kexlists client server i
  · obtain ⟨d, hd, hentry, -⟩ := transcribe_eq hselected h
    rw [hd a hrequired]
    exact hf d h hentry
  · obtain ⟨hentry, hreq⟩ := not_or.mp h
    rw [Bool.not_eq_true, Option.isSome_eq_false_iff, Option.isNone_iff_eq_none] at hentry hreq
    have himplied : a.implied i = none := by
      rw [hreq] at hrequired
      cases i <;> first | rfl | exact Option.map_eq_none_iff.mpr hrequired
    unfold transcribe
    rw [himplied, hselected, hentry]
    exact ⟨_, rfl⟩

theorem transcribe_error (hselected : ∀ i, s.selected i = entry kexlists client server i)
    (h : ¬ ∀ i, Provided kexlists client server i) :
    ∃ e, KexList.all.foldlM (transcribe s) a = .error e := by
  simp only [KexList.all, List.foldlM_cons, List.foldlM_nil]
  refine transcribe_bind_error (hselected .kex) rfl fun kex hkex _ => ?_
  refine transcribe_bind_error (hselected .hostkey) rfl fun hostkey hhostkey _ => ?_
  refine transcribe_bind_error (hselected .cscipher) rfl fun cscipher hcscipher ecscipher => ?_
  refine transcribe_bind_error (hselected .sccipher) rfl fun sccipher hsccipher esccipher => ?_
  refine transcribe_bind_error (hselected .csmac) ?_ fun csmac hcsmac _ => ?_
  · obtain ⟨alg, halg, hu⟩ := ecscipher rfl
    unfold requiredBy
    rw [halg, Option.bind_some, hu]
    rfl
  refine transcribe_bind_error (hselected .scmac) ?_ fun scmac hscmac _ => ?_
  · obtain ⟨alg, halg, hu⟩ := esccipher rfl
    unfold requiredBy
    rw [halg, Option.bind_some, hu]
    rfl
  refine transcribe_bind_error (hselected .cscomp) rfl fun cscomp hcscomp _ => ?_
  refine transcribe_bind_error (hselected .sccomp) rfl fun sccomp hsccomp _ => absurd (fun i => ?_) h
  cases i with
  | kex => exact hkex
  | hostkey => exact hhostkey
  | cscipher => exact hcscipher
  | sccipher => exact hsccipher
  | csmac => exact hcsmac
  | scmac => exact hscmac
  | cscomp => exact hcscomp
  | sccomp => exact hsccomp

end Transcribe

/-! ## The negotiation -/

section Negotiation

variable (kexlists : KexLists) (client server : Kexinit)

/-- The two sides agree on something for each list, and there is an entry for it. -/
def Agreed : Prop :=
  ∀ i, Supported kexlists client server i ∧ Provided kexlists client server i

/-- The guess of a side is wrong, going by the names alone. -/
def WrongGuess : Prop :=
  (client.lists .kex).names.head? ≠ (server.lists .kex).names.head? ∨
    (client.lists .hostkey).names.head? ≠ (server.lists .hostkey).names.head? ∨
      ∃ i, found client server i = none

/-- What is promised of an agreement -/
structure Sound (agreement : Agreement) : Prop where
  /-- Each list gives the first name of the client's that the server has too, unless a cipher has a MAC of
  its own. -/
  selected : ∀ i, match agreement.algorithms.required i with
    | some mac => agreement.algorithms.UsesRequired mac i
    | none => ∃ name alg, found client server i = some name ∧
        ((kexlists i).find? fun alg => alg.name = some name) = some alg ∧
          agreement.algorithms.Uses i alg.u
  ignoreCs : agreement.ignoreGuessCsPacket = true ↔ client.Follows ∧ WrongGuess client server
  ignoreSc : agreement.ignoreGuessScPacket = true ↔ server.Follows ∧ WrongGuess client server
  hostkey : (∀ kex, agreement.algorithms.kexAlg = some kex → kex.mainType ≠ .gss) →
    agreement.algorithms.hostkeyAlg ≠ none
  room : agreement.serverHostkeys.length ≤ MAXKEXLIST

/-- An error is reported, or the agreement is as promised. -/
def Negotiated : Except KexinitError Agreement → Prop
  | .error _ => True
  | .ok agreement => Sound kexlists client server agreement

/-- The names of the server's host key list that are names of `ssh2_hostkey_algs` -/
def knownHostkeys : List Name :=
  (server.lists .hostkey).names.filter fun name => ssh2HostkeyAlgs.any (·.sshId = name)

/-- If a guess is announced, and if there is a common name in each list which is first in one of the two
lists of key exchange methods and of host key algorithms, it is first in both. -/
def GuessAgrees : Prop :=
  client.Follows ∨ server.Follows → (∀ i, GuessStands client server i) →
    (client.lists .kex).names.head? = (server.lists .kex).names.head? ∧
      (client.lists .hostkey).names.head? = (server.lists .hostkey).names.head?

variable {kexlists client server} {a : Algorithms}

theorem length_serverHostkeys :
    (serverHostkeys (joinNames (server.lists .hostkey).names)).length =
      (knownHostkeys server).length := by
  unfold serverHostkeys knownHostkeys
  rw [NameList.words]
  induction (server.lists .hostkey).names with
  | nil => rfl
  | cons name names ih =>
    by_cases h : ssh2HostkeyAlgs.any (·.sshId = name)
    · obtain ⟨j, hj⟩ : ∃ j, ssh2HostkeyAlgs.findIdx? (·.sshId = name) = some j :=
        Option.isSome_iff_exists.mp (by rw [List.findIdx?_isSome, h])
      simp only [List.filterMap_cons, hj, List.filter_cons, h, if_true, List.length_cons, ih]
    · have hnone : ssh2HostkeyAlgs.findIdx? (·.sshId = name) = none := by
        rw [← Option.isNone_iff_eq_none, ← Option.isSome_eq_false_iff, List.findIdx?_isSome]
        exact Bool.eq_false_iff.mpr h
      simp only [List.filterMap_cons, hnone, List.filter_cons, h, if_false, Bool.false_eq_true, ih]

theorem ssh2ScanKexinits_ok (h : Agreed kexlists client server) :
    Succeeds (ssh2ScanKexinits client.payload server.payload kexlists a) fun agreement =>
      Transcribed kexlists client server a agreement.algorithms ∧
      (agreement.ignoreGuessCsPacket = true ↔
        client.Follows ∧ ¬ ∀ i, GuessStands client server i) ∧
      (agreement.ignoreGuessScPacket = true ↔
        server.Follows ∧ ¬ ∀ i, GuessStands client server i) ∧
      agreement.serverHostkeys.length = (knownHostkeys server).length := by
  have hall : ∀ i, i ∈ KexList.all := by
    intro i
    cases i <;> simp [KexList.all]
  unfold ssh2ScanKexinits
  rw [client.skip_payload, server.skip_payload]
  refine (scan_ok rfl rfl fun i _ => (h i).1).bind fun s hs => ?_
  obtain ⟨hclient, hserver, hguess, hslists, hselected⟩ := hs
  simp only [hall, if_true, forall_const, true_and] at hguess hslists hselected
  refine (transcribe_ok hselected fun i => (h i).2).bind fun a' ha' => succeeds_ok.mpr ?_
  have hguess' : (!s.guessCorrect) = true ↔ ¬ ∀ i, GuessStands client server i := by
    rw [← hguess, Bool.not_eq_true', Bool.not_eq_true]
  refine ⟨ha', ?_, ?_, ?_⟩
  · rw [hclient, client.follows_rest, Bool.and_eq_true, decide_eq_true_eq, hguess']
  · rw [hserver, server.follows_rest, Bool.and_eq_true, decide_eq_true_eq, hguess']
  · show (serverHostkeys (s.slists .hostkey)).length = _
    rw [hslists]
    exact length_serverHostkeys

theorem ssh2ScanKexinits_error (h : ¬ Agreed kexlists client server) :
    ∃ e, ssh2ScanKexinits client.payload server.payload kexlists a = .error e := by
  have hall : ∀ i, i ∈ KexList.all := by
    intro i
    cases i <;> simp [KexList.all]
  unfold ssh2ScanKexinits
  rw [client.skip_payload, server.skip_payload]
  by_cases hsupported : ∀ i, Supported kexlists client server i
  · obtain ⟨s, hs, -, -, -, -, hselected⟩ := @scan_ok kexlists client server
      ⟨⟨_, false⟩, ⟨_, false⟩, true, _, _⟩ client.rest server.rest KexList.all rfl rfl
      fun i _ => hsupported i
    simp only [hall, if_true] at hselected
    obtain ⟨e, he⟩ := transcribe_error (a := a) hselected fun hp => h fun i => ⟨hsupported i, hp i⟩
    rw [hs, ok_bind, he]
    exact ⟨e, rfl⟩
  · obtain ⟨e, he⟩ := @scan_error kexlists client server ⟨⟨_, false⟩, ⟨_, false⟩, true, _, _⟩
      client.rest server.rest KexList.all rfl rfl fun hs => hsupported fun i => hs i (hall i)
    rw [he]
    exact ⟨e, rfl⟩

/-- Names that are first on both sides are what the sides have in common. -/
theorem found_of_head {i : KexList} (hfound : (found client server i).isSome)
    (hhead : (client.lists i).names.head? = (server.lists i).names.head?) :
    (client.lists i).names.head? = found client server i := by
  unfold found firstCommon at *
  cases hclient : (client.lists i).names with
  | nil =>
    rw [hclient] at hfound
    cases hfound
  | cons name names =>
    rw [hclient] at hhead
    have hmem : name ∈ (server.lists i).names := List.mem_of_mem_head? hhead.symm
    rw [List.find?_cons_of_pos (by simpa using hmem)]
    rfl

/-- The guess that stands for the code is the one that is right. -/
theorem guess_iff (h : client.Follows ∨ server.Follows) :
    (WrongGuess client server ↔ ¬ ∀ i, GuessStands client server i) ↔ GuessAgrees client server := by
  constructor
  · intro hiff _ hall
    by_contra hhead
    refine hiff.mp ?_ hall
    rcases not_and_or.mp hhead with hk | hh
    · exact .inl hk
    · exact .inr (.inl hh)
  · intro hagrees
    constructor
    · intro hwrong hall
      obtain ⟨hk, hh⟩ := hagrees h hall
      rcases hwrong with hwrong | hwrong | ⟨i, hi⟩
      · exact hwrong hk
      · exact hwrong hh
      · have hsome := (hall i).1
        rw [hi] at hsome
        cases hsome
    · intro hnot
      by_contra hwrong
      obtain ⟨hk, hh, hfound⟩ := (not_or.trans (and_congr_right' not_or)).mp hwrong
      rw [not_not] at hk hh
      refine hnot fun i => ?_
      have hsome : (found client server i).isSome :=
        Option.isSome_iff_ne_none.mpr fun hn => hfound ⟨i, hn⟩
      refine ⟨hsome, fun hi => .inl (found_of_head hsome ?_)⟩
      rcases hi with rfl | rfl
      · exact hk
      · exact hh

/-- The negotiation is as promised exactly if what is agreed has no guess that is first on one side only, no
"null" as the host key algorithm, and no more known host key names than there is room for. -/
theorem negotiated_iff : Negotiated kexlists client server
      (ssh2ScanKexinits client.payload server.payload kexlists a) ↔
    (Agreed kexlists client server → GuessAgrees client server ∧
      ¬ NullHostkey kexlists client server ∧ (knownHostkeys server).length ≤ MAXKEXLIST) := by
  by_cases h : Agreed kexlists client server
  · obtain ⟨agreement, hok, htranscribed, hcs, hsc, hlen⟩ := ssh2ScanKexinits_ok (a := a) h
    rw [hok]
    constructor
    · intro hsound _
      refine ⟨?_, ?_, ?_⟩
      · intro hfollows
        refine guess_iff hfollows |>.mp ?_ hfollows
        rcases hfollows with hf | hf
        · have hiff := hsound.ignoreCs.symm.trans hcs
          simpa [hf] using hiff
        · have hiff := hsound.ignoreSc.symm.trans hsc
          simpa [hf] using hiff
      · intro hnull
        obtain ⟨-, kex, hkex, hgss⟩ := htranscribed.null hnull
        obtain ⟨-, hostkey, -, hhostkey, hnone, -⟩ := hnull
        obtain ⟨name, alg, hname, halg, huses⟩ := hsound.selected .hostkey
        have heq : alg = hostkey := Option.some.inj
          ((Option.bind_eq_some_iff.mpr ⟨name, hname, halg⟩).symm.trans hhostkey)
        refine hsound.hostkey (fun kex' hkex' => ?_) ((heq ▸ huses.1).trans hnone)
        cases hkex.symm.trans hkex'
        exact hgss
      · rw [← hlen]
        exact hsound.room
    · intro hcond
      obtain ⟨hagrees, hnull, hroom⟩ := hcond h
      refine ⟨fun i => ?_, ?_, ?_, fun hgss hnone => hnull ?_, hlen ▸ hroom⟩
      · rw [htranscribed.required]
        cases hreq : requiredBy kexlists client server i with
        | some mac => exact htranscribed.mac i mac hreq
        | none =>
          obtain ⟨alg, halg, huses⟩ := htranscribed.uses i hreq (.inr hnull)
          obtain ⟨name, hname, hfind⟩ := Option.bind_eq_some_iff.mp halg
          exact ⟨name, alg, hname, hfind, huses⟩
      · rw [hcs]
        exact and_congr_right fun hf => ((guess_iff (.inl hf)).mpr hagrees).symm
      · rw [hsc]
        exact and_congr_right fun hf => ((guess_iff (.inr hf)).mpr hagrees).symm
      · obtain ⟨kex, hkex, hkexAlg⟩ := htranscribed.uses .kex rfl (.inr hnull)
        obtain ⟨hostkey, hhostkey, hhostkeyAlg⟩ := htranscribed.uses .hostkey rfl (.inr hnull)
        exact ⟨kex, hostkey, hkex, hhostkey, hhostkeyAlg.1.symm.trans hnone, hgss _ hkexAlg.1⟩
  · obtain ⟨e, he⟩ := ssh2ScanKexinits_error (a := a) h
    rw [he]
    exact ⟨fun _ hagreed => absurd hagreed h, fun _ => trivial⟩

end Negotiation

/-- One or two names of one letter -/
def letters (first : UInt8) (second : Option UInt8) (h : first ≠ comma) (h' : second ≠ some comma) :
    NameList where
  names := [first] :: (second.map fun b => [b]).toList
  word := by
    intro n hn
    cases second with
    | none => simpa [List.mem_singleton.mp hn] using h.symm
    | some b =>
      rcases List.mem_cons.mp hn with rfl | hn
      · simpa using h.symm
      · rw [List.mem_singleton.mp hn]
        simpa [eq_comm] using h'
  fits := by
    cases second with
    | none => exact Nat.lt_of_le_of_lt (Nat.le_refl 1) (by decide)
    | some b => exact Nat.lt_of_le_of_lt (Nat.le_refl 3) (by decide)

/-- A packet with a list of key exchange methods, all other lists being `c` -/
def packetOf (kex : NameList) (follows : UInt8) : Kexinit where
  cookie := List.replicate 16 0
  cookie_length := rfl
  lists := fun i => if i = .kex then kex else letters 99 none (by decide) (by decide)
  languagesCs := letters 99 none (by decide) (by decide)
  languagesSc := letters 99 none (by decide) (by decide)
  firstKexPacketFollows := follows
  reserved := [0, 0, 0, 0]

/-- Two key exchange methods, and one algorithm of each other kind -/
def smallKexlists : KexLists
  | .kex => [⟨some [97], (⟨[97], .dh⟩, false)⟩, ⟨some [98], (⟨[98], .dh⟩, false)⟩]
  | .hostkey => [⟨some [99], (some ⟨[99], [99]⟩, false)⟩]
  | .cscipher | .sccipher => [⟨some [99], (⟨[99], none⟩, false)⟩]
  | .csmac | .scmac => [⟨some [99], (⟨[99], none⟩, false)⟩]
  | .cscomp | .sccomp => [⟨some [99], (⟨[99]⟩, false)⟩]

/-- The server's guess `b` is its first method but the client's second, and is not ignored. -/
theorem guess_not_ignored :
    let client := packetOf (letters 97 (some 98) (by decide) (by decide)) 0
    let server := packetOf (letters 98 none (by decide) (by decide)) 1
    ¬ Negotiated smallKexlists client server
      (ssh2ScanKexinits client.payload server.payload smallKexlists {}) := by
  intro client server h
  have hagreed : Agreed smallKexlists client server := by
    intro i
    unfold Supported Provided
    cases i <;> decide
  obtain ⟨agreement, hok, -, -, hsc, -⟩ := ssh2ScanKexinits_ok (a := {}) hagreed
  rw [hok] at h
  have hstands : ∀ i, GuessStands client server i := by
    intro i
    cases i <;> decide
  have hfollows : server.Follows := by decide
  have hwrong : WrongGuess client server := .inl (by decide)
  exact (hsc.mp (h.ignoreSc.mpr ⟨hfollows, hwrong⟩)).2 hstands

end PuttyNd.Transport
