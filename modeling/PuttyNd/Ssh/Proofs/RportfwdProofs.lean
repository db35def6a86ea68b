import Mathlib.Data.List.Find
import PuttyNd.Ssh.Rportfwd

/-!
# Proofs: outstanding global requests

As long as the queue does not become empty and is used again after that, it is a queue.
-/

namespace PuttyNd.Ssh

open LinkedQueue Function Outcome

variable {η κ : Type}

/-! ## Runs -/

/-- `snew` gives addresses that are not in use. -/
def MallocAll (s : GlobreqQueue η κ) : List (Request η κ) → Prop
  | [] => True
  | r :: rs =>
    s.mem r.ogr = none ∧ ∀ s', queueGlobalRequestHandler s r = .ok s' → MallocAll s' rs

def MallocStep (s : GlobreqQueue η κ) : GlobreqEvent η κ → Prop
  | .queue r => s.mem r.ogr = none
  | .reply rs => MallocAll s rs

def MallocRun (s : GlobreqQueue η κ) : List (GlobreqEvent η κ) → Prop
  | [] => True
  | e :: es => MallocStep s e ∧ ∀ s' o, globreqStep s e = .ok (s', o) → MallocRun s' es

def GlobreqEvent.isQueue : GlobreqEvent η κ → Bool
  | .queue _ => true
  | .reply _ => false

/-- Once a request was queued, nothing happens while no request is outstanding. -/
def KeepsQueue : Bool → List (Handler η κ) → List (GlobreqEvent η κ) → Prop
  | _, _, [] => True
  | started, q, e :: es =>
    (started = true → q ≠ []) ∧ KeepsQueue (started || e.isQueue) (fifoStep q e).1 es

/-! ## Steps -/

/-- The state stands for the queue `q`; `started` says whether there was a request. -/
inductive Stands (s : GlobreqQueue η κ) : Bool → List (Handler η κ) → Prop
  | new : s.globreqHead = none → s.globreqTail = none → Stands s false []
  | queue {l : List (ℕ × Handler η κ)} : l ≠ [] → IsQueue s.mem s.globreqHead s.globreqTail l →
    Stands s true (l.map Prod.snd)
  | emptied : Stands s true []

section Step

variable {s : GlobreqQueue η κ} {q : List (Handler η κ)} {started : Bool}

theorem stands_init : Stands (GlobreqQueue.init : GlobreqQueue η κ) false [] := .new rfl rfl

theorem deref_some {ν : Type} {mem : ℕ → Option ν} {a : ℕ} {v : ν} (h : mem a = some v) :
    deref mem (some a) = .ok (a, v) := by
  simp [deref, h]

theorem queue_spec (hs : Stands s started q) (hq : started = true → q ≠ []) {r : Request η κ}
    (hmalloc : s.mem r.ogr = none) :
    Succeeds (queueGlobalRequestHandler s r) fun s' => Stands s' true (q ++ [r.handler]) := by
  cases hs with
  | new hhead htail =>
    have hstands : Stands ⟨update s.mem r.ogr (some ⟨r.handler, r.next⟩), some r.ogr, some r.ogr⟩ true
        ([(r.ogr, r.handler)].map Prod.snd) := .queue (List.cons_ne_nil _ _) isQueue_singleton
    rw [queueGlobalRequestHandler, htail]
    exact succeeds_ok.mpr hstands
  | queue hl hqueue =>
    rename_i l
    obtain ⟨t, z, n, htail, ht, hne, hpush⟩ := hqueue.push r.handler r.next hl hmalloc
    have ht' : update s.mem r.ogr (some ⟨r.handler, r.next⟩) t = some ⟨z, n⟩ := by
      rw [update_of_ne hne, ht]
    rw [queueGlobalRequestHandler, htail, Option.isSome_some, if_pos rfl, deref_some ht', ok_bind]
    have hstands : Stands ⟨update (update s.mem r.ogr (some ⟨r.handler, r.next⟩)) t
        (some ⟨z, some r.ogr⟩), s.globreqHead, some r.ogr⟩ true
        ((l ++ [(r.ogr, r.handler)]).map Prod.snd) := .queue (by simp) hpush
    rw [List.map_append] at hstands
    exact succeeds_ok.mpr hstands
  | emptied => exact absurd rfl (hq rfl)

theorem queueAll_spec {requests : List (Request η κ)} (hs : Stands s true q) (hq : q ≠ [])
    (hmalloc : MallocAll s requests) :
    Succeeds (queueAll s requests) fun s' => Stands s' true (q ++ requests.map Request.handler) := by
  induction requests generalizing s q with
  | nil =>
    rw [List.map_nil, List.append_nil]
    exact succeeds_ok.mpr hs
  | cons r rs ih =>
    obtain ⟨s', hs', hstands⟩ := queue_spec hs (fun _ => hq) hmalloc.1
    rw [queueAll, List.foldlM_cons, hs', ok_bind]
    have h := ih hstands (by simp) (hmalloc.2 s' hs')
    rw [List.append_assoc] at h
    exact h

/-- The oldest request is in the first cell. -/
theorem Stands.first {h : Handler η κ} (hs : Stands s started (h :: q)) :
    ∃ a next, s.globreqHead = some a ∧ s.mem a = some ⟨h, next⟩ := by
  generalize hp : h :: q = p at hs
  cases hs with
  | new => cases hp
  | emptied => cases hp
  | queue hl hqueue =>
    rename_i l
    rcases l with _ | ⟨⟨a, x⟩, l⟩
    · exact absurd rfl hl
    · obtain ⟨hhead, next, hnext, -⟩ := hqueue.pop
      rw [List.map_cons, List.cons.injEq] at hp
      exact ⟨a, next, hhead, hp.1 ▸ hnext⟩

theorem reply_spec {requests : List (Request η κ)} {h : Handler η κ} (hs : Stands s true (h :: q))
    (hmalloc : MallocAll s requests) :
    Succeeds (globreqReply s requests) fun r =>
      Stands r.1 true (q ++ requests.map Request.handler) ∧ r.2 = .handled h := by
  obtain ⟨s', hs', hstands⟩ := queueAll_spec hs (by simp) hmalloc
  obtain ⟨a, next, hhead, hcell⟩ := hs.first
  simp only [globreqReply, hhead, Option.isSome_some, if_pos, deref_some hcell, hs', ok_bind]
  generalize hp : h :: q ++ requests.map Request.handler = p at hstands
  cases hstands with
  | emptied => cases hp
  | queue hl hqueue =>
    rename_i l
    rcases l with _ | ⟨⟨b, x⟩, l⟩
    · exact absurd rfl hl
    · obtain ⟨hhead', next', hcell', hrest⟩ := hqueue.pop
      rw [List.cons_append, List.map_cons, List.cons.injEq] at hp
      rw [hhead', deref_some hcell', ok_bind, pure_eq, succeeds_ok, hp.2]
      refine ⟨?_, rfl⟩
      by_cases hl' : l = []
      · rw [hl']
        exact .emptied
      · exact .queue hl' (hrest hl')

/-- What a step does to the queue. -/
theorem globreqStep_spec {e : GlobreqEvent η κ} (hs : Stands s started q) (hq : started = true → q ≠ [])
    (hmalloc : MallocStep s e) :
    Succeeds (globreqStep s e) fun r =>
      Stands r.1 (started || e.isQueue) (fifoStep q e).1 ∧ r.2 = (fifoStep q e).2 := by
  cases e with
  | queue r =>
    obtain ⟨s', hs', hstands⟩ := queue_spec hs hq hmalloc
    rw [globreqStep, hs', ok_bind, pure_eq, succeeds_ok, GlobreqEvent.isQueue, Bool.or_true]
    exact ⟨hstands, rfl⟩
  | reply rs =>
    rw [GlobreqEvent.isQueue, Bool.or_false]
    cases started with
    | false =>
      cases hs with
      | new hhead htail =>
        rw [globreqStep, globreqReply, hhead]
        exact succeeds_ok.mpr ⟨.new hhead htail, rfl⟩
    | true =>
      cases q with
      | nil => exact absurd rfl (hq rfl)
      | cons h q => exact reply_spec hs hmalloc

/-- After the reply to the only request that was outstanding, the queue is broken: a request that is
queued then is linked to a cell that was freed. -/
theorem queue_emptied {a : ℕ} {r : Request η κ} (htail : s.globreqTail = some a) (ha : s.mem a = none)
    (hne : a ≠ r.ogr) : globreqStep s (.queue r) = .error .badPointer := by
  have hcell : update s.mem r.ogr (some ⟨r.handler, r.next⟩) a = none := by
    rw [update_of_ne hne, ha]
  simp [globreqStep, queueGlobalRequestHandler, htail, deref, hcell]

end Step

/-! ## Runs -/

theorem globreqRun_spec {s : GlobreqQueue η κ} {q : List (Handler η κ)} {started : Bool}
    {events : List (GlobreqEvent η κ)} (hs : Stands s started q) (hmalloc : MallocRun s events)
    (hkeep : KeepsQueue started q events) : globreqRun s events = .ok (fifoRun q events) := by
  induction events generalizing s q started with
  | nil => rfl
  | cons e es ih =>
    obtain ⟨⟨s', o⟩, hstep, hstands, ho⟩ := globreqStep_spec hs hkeep.1 hmalloc.1
    have hrest := ih hstands (hmalloc.2 s' o hstep) hkeep.2
    simp only [globreqRun, hstep, ok_bind, hrest, fifoRun, pure_eq, ← ho]

/-- In a run in which nothing happens while the queue is empty, once there was a request, each reply goes
to the handler whose turn it is, and is refused if there is none. -/
theorem globreqRun_fifo (events : List (GlobreqEvent η κ)) (hmalloc : MallocRun .init events)
    (hkeep : KeepsQueue false [] events) : globreqRun .init events = .ok (fifoRun [] events) :=
  globreqRun_spec stands_init hmalloc hkeep

/-- Two requests at the addresses 0 and 1, and the reply to the first one. -/
theorem globreqRun_fifo_two :
    globreqRun .init [.queue ⟨⟨"a", 1⟩, 0, none⟩, .queue ⟨⟨"b", 2⟩, 1, none⟩, .reply []] =
      .ok [.queued, .queued, .handled ⟨"a", 1⟩] := by
  refine globreqRun_fifo _ ⟨rfl, fun s' o h => ?_⟩ ?_
  · cases h
    refine ⟨rfl, fun s' o h => ?_⟩
    cases h
    exact ⟨trivial, fun _ _ _ => trivial⟩
  · simp [KeepsQueue, fifoStep]

/-- The second request is queued when the first one was answered. -/
theorem globreqRun_refilled : ∃ events : List (GlobreqEvent String ℕ),
    events = [.queue ⟨⟨"a", 1⟩, 0, none⟩, .reply [], .queue ⟨⟨"b", 2⟩, 1, none⟩, .reply []] ∧
      MallocRun .init events ∧ globreqRun .init events = .error .badPointer ∧
      fifoRun [] events = [.queued, .handled ⟨"a", 1⟩, .queued, .handled ⟨"b", 2⟩] := by
  refine ⟨_, rfl, ⟨rfl, fun s' o h => ?_⟩, rfl, rfl⟩
  cases h
  refine ⟨trivial, fun s' o h => ?_⟩
  cases h
  exact ⟨rfl, fun s' o h => by cases h⟩

end PuttyNd.Ssh

/-!
## Proofs: remote port forwardings

The invariant ties the tree, the memory and the outstanding requests together; it is kept as long as no
forwarding is removed whose reply is outstanding.
-/

namespace PuttyNd.Ssh

open Function Outcome

variable {π χ : Type}

/-! ## Runs -/

/-- `snew` gives addresses that are not in use. -/
def RportfwdEvent.malloc (s : RportfwdState π χ) : RportfwdEvent π χ → Prop
  | .alloc _ a ogr _ => s.mem a = none ∧ s.queue.mem ogr = none
  | _ => True

/-- A request is sent to the server. -/
def Requests (s : RportfwdState π χ) (rpf : SshRportfwd π χ) : Prop :=
  rpf.shareCtx.isNone ∧ (s.find rpf).isNone

instance (s : RportfwdState π χ) (rpf : SshRportfwd π χ) : Decidable (Requests s rpf) :=
  inferInstanceAs (Decidable (_ ∧ _))

/-- The forwardings whose replies are outstanding, after an event; `started` says whether there was a
request. -/
def pendingAfter (s : RportfwdState π χ) (started : Bool) (pending : List ℕ) :
    RportfwdEvent π χ → Bool × List ℕ
  | .alloc rpf a _ _ => if Requests s rpf then (true, pending ++ [a]) else (started, pending)
  | .remove _ => (started, pending)
  | .reply _ => (started, pending.tail)

/-- No forwarding is removed while the reply for it is outstanding, and the queue of the outstanding
requests does not become empty and is used again. -/
def Undisturbed (s : RportfwdState π χ) (started : Bool) (pending : List ℕ) :
    RportfwdEvent π χ → Prop
  | .alloc rpf _ _ _ => Requests s rpf → started = true → pending ≠ []
  | .remove a => a ∈ s.tree ∧ a ∉ pending
  | .reply _ => started = true → pending ≠ []

def UndisturbedRun (s : RportfwdState π χ) (started : Bool) (pending : List ℕ) :
    List (RportfwdEvent π χ) → Prop
  | [] => True
  | e :: es =>
    e.malloc s ∧ Undisturbed s started pending e ∧
      ∀ s' o, rportfwdStep s e = .ok (s', o) →
        UndisturbedRun s' (pendingAfter s started pending e).1 (pendingAfter s started pending e).2 es

/-- The forwarding that the next reply is for. -/
def replyTo (s : RportfwdState π χ) : Option ℕ :=
  s.queue.globreqHead.bind fun a => (s.queue.mem a).map fun cell => cell.content.ctx

/-- At most one forwarding is live for each host and port. -/
def OneEach (s : RportfwdState π χ) : Prop :=
  ∀ a b v w, s.mem a = some v → s.mem b = some w → v.same w → a = b

/-- No step faults, and each reply acts on a forwarding that is there. -/
def SafeRun (s : RportfwdState π χ) : List (RportfwdEvent π χ) → Prop
  | [] => OneEach s
  | e :: es =>
    OneEach s ∧
      (∀ success a, e = .reply success → replyTo s = some a → a ∈ s.tree ∧ s.mem a ≠ none) ∧
      ∃ s' o, rportfwdStep s e = .ok (s', o) ∧ SafeRun s' es

/-! ## The invariant -/

structure RportfwdInv (s : RportfwdState π χ) (started : Bool) (pending : List ℕ) : Prop where
  live : ∀ a, a ∈ s.tree ↔ s.mem a ≠ none
  nodup : s.tree.Nodup
  oneEach : OneEach s
  pending_mem : ∀ a ∈ pending, a ∈ s.tree
  pending_nodup : pending.Nodup
  queue : Stands s.queue started (pending.map fun a => ⟨.ssh2RportfwdGlobreqResponse, a⟩)

section Inv

variable {s : RportfwdState π χ} {started : Bool} {pending : List ℕ} {a : ℕ}
  {rpf : SshRportfwd π χ}

theorem inv_init : RportfwdInv (RportfwdState.init : RportfwdState π χ) false [] where
  live := fun a => by simp [RportfwdState.init, RportfwdState.tree]
  nodup := List.nodup_nil
  oneEach := fun a b v w h => by simp [RportfwdState.init] at h
  pending_mem := fun a h => by simp at h
  pending_nodup := List.nodup_nil
  queue := stands_init

theorem SshRportfwd.same_refl (v : SshRportfwd π χ) : v.same v := ⟨rfl, rfl⟩

theorem SshRportfwd.same_symm {v w : SshRportfwd π χ} (h : v.same w) : w.same v := ⟨h.1.symm, h.2.symm⟩

theorem find_none (h : s.find rpf = none) {b : ℕ} {v : SshRportfwd π χ} (hb : b ∈ s.tree)
    (hv : s.mem b = some v) : ¬ rpf.same v := by
  have := List.find?_eq_none.mp h b hb
  simpa [hv] using this

/-- The pointer that is found for a live forwarding is its own. -/
theorem RportfwdInv.find_self (h : RportfwdInv s started pending) (ha : s.mem a = some rpf) :
    s.find rpf = some a := by
  cases hfind : s.find rpf with
  | none =>
    have hmem : a ∈ s.tree := (h.live a).mpr (by simp [ha])
    exact absurd rpf.same_refl (find_none hfind hmem ha)
  | some b =>
    have hb := List.find?_some hfind
    obtain ⟨v, hv, hsame⟩ := (Option.any_eq_true _ _).mp hb
    rw [h.oneEach a b rpf v ha hv (by simpa using hsame)]

/-- A forwarding that is not in the tree is not looked at. -/
theorem find_update (ha : a ∉ s.tree) (v : Option (SshRportfwd π χ)) :
    RportfwdState.find { s with mem := update s.mem a v } rpf = s.find rpf := by
  have htree : RportfwdState.tree { s with mem := update s.mem a v } = s.tree := rfl
  unfold RportfwdState.find
  rw [htree]
  apply List.find?_congr
  intro b hb
  have hne : b ≠ a := fun hba => ha (hba ▸ hb)
  simp [update_of_ne hne]

/-- Deleting a live forwarding that no outstanding reply is for. -/
theorem RportfwdInv.delete (h : RportfwdInv s started pending) (ha : s.mem a = some rpf)
    (hpending : a ∉ pending) :
    ∃ s', deleteRportfwd s a rpf = .ok s' ∧ RportfwdInv s' started pending := by
  refine ⟨_, by rw [deleteRportfwd, h.find_self ha]; exact if_pos rfl, ?_⟩
  have hmem : ∀ b, b ∈ s.tree.erase a ↔ b ≠ a ∧ b ∈ s.tree := fun b => h.nodup.mem_erase_iff
  constructor
  · intro b
    show b ∈ s.tree.erase a ↔ update s.mem a none b ≠ none
    rw [hmem]
    by_cases hb : b = a
    · simp [hb]
    · rw [update_of_ne hb, h.live]
      simp [hb]
  · exact h.nodup.erase a
  · intro b c v w hb hc hsame
    have hba : b ≠ a := fun hba => by simp [hba] at hb
    have hca : c ≠ a := fun hca => by simp [hca] at hc
    simp only [update_of_ne hba] at hb
    simp only [update_of_ne hca] at hc
    exact h.oneEach b c v w hb hc hsame
  · intro b hb
    exact (hmem b).mpr ⟨fun hba => hpending (hba ▸ hb), h.pending_mem b hb⟩
  · exact h.pending_nodup
  · exact h.queue

/-! ## Steps -/

theorem RportfwdInv.add (h : RportfwdInv s started pending) (ha : s.mem a = none)
    (hfind : s.find rpf = none) {queue : GlobreqQueue GrHandler ℕ} {started' : Bool}
    {pending' : List ℕ} (hpending : ∀ b ∈ pending', b = a ∨ b ∈ pending) (hnodup : pending'.Nodup)
    (hqueue : Stands queue started' (pending'.map fun a => ⟨.ssh2RportfwdGlobreqResponse, a⟩)) :
    RportfwdInv ⟨update s.mem a (some rpf), some (a :: s.tree), queue⟩ started' pending' := by
  have hnot : a ∉ s.tree := fun hmem => (h.live a).mp hmem ha
  constructor
  · intro b
    show b ∈ a :: s.tree ↔ update s.mem a (some rpf) b ≠ none
    by_cases hb : b = a
    · simp [hb]
    · rw [update_of_ne hb, List.mem_cons, h.live]
      simp [hb]
  · exact List.nodup_cons.mpr ⟨hnot, h.nodup⟩
  · have hnew : ∀ b v, b ≠ a → s.mem b = some v → ¬ rpf.same v := by
      intro b v hb hv
      exact find_none hfind ((h.live b).mpr (by simp [hv])) hv
    intro b c v w hb hc hsame
    simp only at hb hc
    by_cases hba : b = a <;> by_cases hca : c = a
    · rw [hba, hca]
    · rw [hba, update_self, Option.some.injEq] at hb
      rw [update_of_ne hca] at hc
      exact absurd (hb ▸ hsame) (hnew c w hca hc)
    · rw [hca, update_self, Option.some.injEq] at hc
      rw [update_of_ne hba] at hb
      exact absurd (SshRportfwd.same_symm (hc ▸ hsame)) (hnew b v hba hb)
    · rw [update_of_ne hba] at hb
      rw [update_of_ne hca] at hc
      exact h.oneEach b c v w hb hc hsame
  · intro b hb
    rcases hpending b hb with rfl | hb
    · exact List.mem_cons_self
    · exact List.mem_cons_of_mem _ (h.pending_mem b hb)
  · exact hnodup
  · exact hqueue

theorem alloc_spec {ogr : ℕ} {next : Option ℕ} (h : RportfwdInv s started pending)
    (hmalloc : s.mem a = none ∧ s.queue.mem ogr = none)
    (hok : Undisturbed s started pending (.alloc rpf a ogr next)) :
    Succeeds (ssh2RportfwdAlloc s rpf a ogr next) fun r =>
      RportfwdInv r.1 (pendingAfter s started pending (.alloc rpf a ogr next)).1
        (pendingAfter s started pending (.alloc rpf a ogr next)).2 := by
  have hnot : a ∉ s.tree := fun hmem => (h.live a).mp hmem hmalloc.1
  obtain ⟨s0, hs0, hmem, htree, hqueue⟩ : ∃ s0 : RportfwdState π χ,
      s0 = (if s.rportfwds.isNone then { s with rportfwds := some [] } else s) ∧ s0.mem = s.mem ∧
        s0.tree = s.tree ∧ s0.queue = s.queue := by
    refine ⟨_, rfl, ?_⟩
    cases hr : s.rportfwds <;> simp [RportfwdState.tree, hr]
  have hfind : RportfwdState.find { s0 with mem := update s0.mem a (some rpf) } rpf = s.find rpf := by
    rw [find_update (htree ▸ hnot)]
    simp only [RportfwdState.find, htree, hmem]
  have htree' : RportfwdState.tree { s0 with mem := update s0.mem a (some rpf) } = s.tree := htree
  simp only [ssh2RportfwdAlloc, ← hs0]
  simp only [hfind, htree']
  simp only [hmem, hqueue]
  cases hlookup : s.find rpf with
  | some b =>
    have hrequests : ¬ Requests s rpf := fun hr => by simp [Requests, hlookup] at hr
    have hmem' : update (update s.mem a (some rpf)) a none = s.mem := by
      rw [update_idem, ← hmalloc.1, update_eq_self]
    rw [pure_eq, succeeds_ok, pendingAfter, if_neg hrequests, hmem']
    exact ⟨fun c => by rw [← h.live c, ← htree]; rfl, htree ▸ h.nodup, h.oneEach,
      fun c hc => htree ▸ h.pending_mem c hc, h.pending_nodup, h.queue⟩
  | none =>
    by_cases hshare : rpf.shareCtx.isNone
    · have hrequests : Requests s rpf := ⟨hshare, by simp [hlookup]⟩
      have hpending : a ∉ pending := fun hp => hnot (h.pending_mem a hp)
      have hready : started = true →
          (pending.map fun a => (⟨.ssh2RportfwdGlobreqResponse, a⟩ : Handler GrHandler ℕ)) ≠ [] := by
        intro hstarted hnil
        exact hok hrequests hstarted (List.map_eq_nil_iff.mp hnil)
      obtain ⟨queue, hq, hstands⟩ := queue_spec (r := ⟨⟨.ssh2RportfwdGlobreqResponse, a⟩, ogr, next⟩)
        h.queue hready hmalloc.2
      simp only [if_pos hshare, hq, ok_bind, pure_eq, succeeds_ok, pendingAfter, if_pos hrequests]
      refine h.add hmalloc.1 hlookup (fun b hb => ?_) ?_ ?_
      · rw [List.mem_append, List.mem_singleton] at hb
        exact hb.symm
      · exact List.nodup_append.mpr ⟨h.pending_nodup, by simp, fun b hb c hc hbc => by
          rw [List.mem_singleton] at hc
          exact hpending (hc ▸ hbc ▸ hb)⟩
      · rw [List.map_append]
        exact hstands
    · have hrequests : ¬ Requests s rpf := fun hr => hshare hr.1
      simp only [if_neg hshare, pure_eq, succeeds_ok, pendingAfter, if_neg hrequests]
      exact h.add hmalloc.1 hlookup (fun b hb => .inr hb) h.pending_nodup h.queue

theorem remove_spec (h : RportfwdInv s started pending)
    (hok : Undisturbed s started pending (.remove a)) :
    Succeeds (ssh2RportfwdRemove s a) fun r => RportfwdInv r.1 started pending := by
  obtain ⟨rpf, ha⟩ := Option.ne_none_iff_exists'.mp ((h.live a).mp hok.1)
  have hsome : s.rportfwds.isNone = false := by
    cases hr : s.rportfwds with
    | none => simp [RportfwdState.tree, hr, Undisturbed] at hok
    | some t => rfl
  obtain ⟨s', hs', hinv⟩ := h.delete ha hok.2
  simp only [ssh2RportfwdRemove, deref_some ha, ok_bind, hsome, Bool.false_eq_true, if_false, hs',
    pure_eq, succeeds_ok]
  exact hinv

/-- The reply to the oldest request. -/
theorem reply_rportfwd_spec {success : Bool} (h : RportfwdInv s started pending)
    (hok : Undisturbed s started pending (.reply success)) :
    Succeeds (rportfwdStep s (.reply success)) (fun r => RportfwdInv r.1 started pending.tail) ∧
      ∀ b, replyTo s = some b → b ∈ s.tree ∧ s.mem b ≠ none := by
  cases pending with
  | nil =>
    -- nothing is outstanding, and nothing ever was
    have hstarted : started = false := by
      cases started with
      | false => rfl
      | true => exact absurd rfl (hok rfl)
    subst hstarted
    have hhead : s.queue.globreqHead = none := by
      cases h.queue with
      | new hhead _ => exact hhead
    constructor
    · simp only [rportfwdStep, globreqReply, hhead, Option.isSome_none, Bool.false_eq_true, if_false,
        pure_eq, ok_bind, succeeds_ok]
      exact h
    · intro b hb
      simp [replyTo, hhead] at hb
  | cons a rest =>
    have ha : a ∈ s.tree := h.pending_mem a List.mem_cons_self
    have hnodup := List.nodup_cons.mp h.pending_nodup
    obtain ⟨rpf, hrpf⟩ := Option.ne_none_iff_exists'.mp ((h.live a).mp ha)
    have hqueue := h.queue
    rw [List.map_cons] at hqueue
    have hstarted : started = true := by
      cases started with
      | false => cases hqueue
      | true => rfl
    subst hstarted
    constructor
    · have hmalloc : MallocAll s.queue [] := trivial
      have hreply := reply_spec hqueue hmalloc
      obtain ⟨⟨queue, o⟩, hq, hstands, ho⟩ := hreply
      rw [List.map_nil, List.append_nil] at hstands
      have hinv : RportfwdInv { s with queue := queue } true rest := ⟨h.live, h.nodup, h.oneEach,
        fun b hb => h.pending_mem b (List.mem_cons_of_mem _ hb), hnodup.2, hstands⟩
      simp only [rportfwdStep, hq, ok_bind, show o = _ from ho, ssh2RportfwdGlobreqResponse,
        deref_some hrpf, List.tail_cons]
      cases success with
      | true => exact succeeds_ok.mpr hinv
      | false =>
        obtain ⟨s', hs', hinv'⟩ := hinv.delete hrpf hnodup.1
        simp only [Bool.false_eq_true, if_false, hs', ok_bind, pure_eq, succeeds_ok]
        exact hinv'
    · intro b hb
      obtain ⟨p, next, hhead, hcell⟩ := hqueue.first
      have hba : a = b := by simpa [replyTo, hhead, hcell] using hb
      rw [← hba]
      exact ⟨ha, (h.live a).mp ha⟩

/-- What a step keeps. -/
theorem rportfwdStep_spec {e : RportfwdEvent π χ} (h : RportfwdInv s started pending)
    (hmalloc : e.malloc s) (hok : Undisturbed s started pending e) :
    Succeeds (rportfwdStep s e) fun r =>
      RportfwdInv r.1 (pendingAfter s started pending e).1 (pendingAfter s started pending e).2 := by
  cases e with
  | alloc rpf a ogr next => exact alloc_spec h hmalloc hok
  | remove a => exact remove_spec h hok
  | reply success => exact (reply_rportfwd_spec h hok).1

theorem safeRun_of_inv {events : List (RportfwdEvent π χ)} (h : RportfwdInv s started pending)
    (hrun : UndisturbedRun s started pending events) : SafeRun s events := by
  induction events generalizing s started pending with
  | nil => exact h.oneEach
  | cons e es ih =>
    obtain ⟨hmalloc, hok, hrest⟩ := hrun
    obtain ⟨⟨s', o⟩, hstep, hinv⟩ := rportfwdStep_spec h hmalloc hok
    refine ⟨h.oneEach, ?_, s', o, hstep, ih hinv (hrest s' o hstep)⟩
    rintro success a rfl ha
    exact (reply_rportfwd_spec h hok).2 a ha

end Inv

/-! ## Runs from the start -/

/-- If no forwarding is removed while the reply for it is outstanding, and the queue of requests does
not become empty and is used again, then replies act on live forwardings, no `assert` fails, and there
is at most one forwarding for each host and port. -/
theorem rportfwd_safe (events : List (RportfwdEvent π χ))
    (hrun : UndisturbedRun .init false [] events) : SafeRun .init events :=
  safeRun_of_inv inv_init hrun

/-- A forwarding of port 80 that is refused. -/
theorem rportfwd_safe_refused :
    SafeRun (RportfwdState.init : RportfwdState ℕ ℕ)
      [.alloc ⟨[], 80, [], 1, none⟩ 0 0 none, .reply false] := by
  refine rportfwd_safe _ ⟨⟨rfl, rfl⟩, ?_, ?_⟩
  · intro _ h
    cases h
  · intro s' o h
    cases h
    exact ⟨trivial, fun _ => List.cons_ne_nil _ _, fun _ _ _ => trivial⟩

/-- A forwarding that is removed before the reply arrives. -/
theorem rportfwd_removed : ∃ events : List (RportfwdEvent ℕ ℕ),
    events = [.alloc ⟨[], 80, [], 1, none⟩ 0 0 none, .remove 0, .reply false] ∧
      ¬ SafeRun .init events := by
  refine ⟨_, rfl, ?_⟩
  rintro ⟨-, -, s1, o1, h1, -, -, s2, o2, h2, -, -, s3, o3, h3, -⟩
  cases h1
  cases h2
  cases h3

end PuttyNd.Ssh
