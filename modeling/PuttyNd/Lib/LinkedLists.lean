import Mathlib.Data.List.Basic
import Mathlib.Data.List.Nodup
import Mathlib.Data.Nat.Notation
import Mathlib.Logic.Function.Basic

/-!
# Linked lists

`Chain R e a l` says that the list which starts at `a` goes through the elements `l`: each links to
the next one by `R`, and the last satisfies `e`. The rules say when two chains are the same, when a
chain has no repetition, and how a chain changes when links do.
-/

variable {α : Type*}

/-- The elements after `a` in the list that starts at `a`. -/
inductive Chain (R : α → α → Prop) (e : α → Prop) : α → List α → Prop
  | nil {a : α} : e a → Chain R e a []
  | cons {a b : α} {l : List α} : R a b → Chain R e b l → Chain R e a (b :: l)

/-- Each element links to at most one other, and the last one to none. -/
structure Functional (R : α → α → Prop) (e : α → Prop) : Prop where
  unique : ∀ {a b c}, R a b → R a c → b = c
  stop : ∀ {a b}, e a → ¬ R a b

namespace Chain

variable {R R' : α → α → Prop} {e e' : α → Prop} {a b : α} {l l' : List α}

theorem inv_nil (h : Chain R e a []) : e a := by
  cases h with
  | nil h => exact h

theorem inv_cons (h : Chain R e a (b :: l)) : R a b ∧ Chain R e b l := by
  cases h with
  | cons h1 h2 => exact ⟨h1, h2⟩

theorem eq_of (hf : Functional R e) (h : Chain R e a l) (h' : Chain R e a l') : l = l' := by
  induction h generalizing l' with
  | nil he =>
    cases h' with
    | nil _ => rfl
    | cons hr _ => exact absurd hr (hf.stop he)
  | cons hr _ ih =>
    cases h' with
    | nil he => exact absurd hr (hf.stop he)
    | cons hr' h' =>
      have := hf.unique hr hr'
      subst this
      rw [ih h']

/-- The part of a chain after one of its elements. -/
theorem of_mem (h : Chain R e a l) (hb : b ∈ l) : ∃ l', Chain R e b l' ∧ l'.length < l.length := by
  induction h with
  | nil _ => simp at hb
  | @cons a c l _ hc ih =>
    rcases List.mem_cons.mp hb with rfl | hb
    · exact ⟨l, hc, by simp⟩
    · obtain ⟨l', h1, h2⟩ := ih hb
      exact ⟨l', h1, by simp; omega⟩

/-- A chain that ends does not come back to an element. -/
theorem nodup (hf : Functional R e) (h : Chain R e a l) : (a :: l).Nodup := by
  induction h with
  | nil _ => simp
  | @cons a b l hr hc ih =>
    refine List.nodup_cons.mpr ⟨fun hmem => ?_, ih⟩
    obtain ⟨l', h1, h2⟩ := (Chain.cons hr hc).of_mem hmem
    have := h1.eq_of hf (Chain.cons hr hc)
    rw [this] at h2
    omega

/-- Links outside of a chain may change. -/
theorem congr (h : Chain R e a l) (hR : ∀ x ∈ a :: l, ∀ y, R x y → R' x y)
    (he : ∀ x ∈ a :: l, e x → e' x) : Chain R' e' a l := by
  induction h with
  | nil h => exact nil (he _ (by simp) h)
  | cons h1 _ ih =>
    exact cons (hR _ (by simp) _ h1) (ih (fun x hx => hR x (List.mem_cons_of_mem _ hx))
      (fun x hx => he x (List.mem_cons_of_mem _ hx)))

/-- All links of a chain but those of its last element, which now ends it. -/
theorem ends (h : Chain R e a l) (hR : ∀ x ∈ (a :: l).dropLast, ∀ y, R x y → R' x y)
    (hl : e' ((a :: l).getLast (by simp))) : Chain R' e' a l := by
  induction h with
  | nil _ => exact nil hl
  | @cons a c l h1 _ ih =>
    refine cons (hR a (by simp) _ h1) (ih (fun x hx => hR x ?_) (by simpa using hl))
    rw [List.dropLast_cons_of_ne_nil (by simp)]
    exact List.mem_cons_of_mem _ hx

/-- Link the last element of a chain to the start of another one. -/
theorem append (h : Chain R e a l) (hR : ∀ x ∈ (a :: l).dropLast, ∀ y, R x y → R' x y)
    (hl : R' ((a :: l).getLast (by simp)) b) (hb : Chain R' e' b l') :
    Chain R' e' a (l ++ b :: l') := by
  induction h with
  | nil _ => exact cons hl hb
  | @cons a c l h1 _ ih =>
    refine cons (hR a (by simp) _ h1) (ih (fun x hx => hR x ?_) (by simpa using hl))
    rw [List.dropLast_cons_of_ne_nil (by simp)]
    exact List.mem_cons_of_mem _ hx

/-- A chain whose elements are moved together with their links. -/
theorem map {β : Type*} {S : β → β → Prop} {d : β → Prop} (f : α → β) (h : Chain R e a l)
    (hR : ∀ x ∈ a :: l, ∀ y ∈ l, R x y → S (f x) (f y)) (he : ∀ x ∈ a :: l, e x → d (f x)) :
    Chain S d (f a) (l.map f) := by
  induction h with
  | nil h => exact nil (he _ (by simp) h)
  | cons h1 _ ih =>
    exact cons (hR _ (by simp) _ (by simp) h1)
      (ih (fun x hx y hy => hR x (List.mem_cons_of_mem _ hx) y (List.mem_cons_of_mem _ hy))
        (fun x hx => he x (List.mem_cons_of_mem _ hx)))

end Chain

/-!
## Doubly linked lists in memory

The nodes of a list are described one at a time: each node points to the one that comes next in the
list and to the one that comes before it.
-/

namespace DoublyLinked

variable {α : Type} {next prev : α → Option ℕ} {cell cell' : ℕ → Option α} {l : List ℕ}

/-- The nodes at these addresses are linked both ways. -/
def Linked (next prev : α → Option ℕ) (cell : ℕ → Option α) (l : List ℕ) : Prop :=
  ∀ pre a post, l = pre ++ a :: post →
    ∃ v, cell a = some v ∧ next v = post.head? ∧ prev v = pre.getLast?

theorem Linked.nil : Linked next prev cell [] := by
  intro pre a post h
  simp at h

theorem Linked.mem (h : Linked next prev cell l) {a : ℕ} (ha : a ∈ l) : ∃ v, cell a = some v := by
  obtain ⟨pre, post, rfl⟩ := List.append_of_mem ha
  obtain ⟨v, hv, -⟩ := h pre a post rfl
  exact ⟨v, hv⟩

theorem Linked.head {a : ℕ} (h : Linked next prev cell (a :: l)) :
    ∃ v, cell a = some v ∧ next v = l.head? ∧ prev v = none := h [] a l rfl

/-- A node with others behind it is not the last one. -/
theorem getLast?_ne {pre post : List ℕ} {a c : ℕ} (hnodup : (pre ++ a :: post.concat c).Nodup) :
    (pre ++ a :: post.concat c).getLast? ≠ some a := by
  have hsplit : pre ++ a :: post.concat c = (pre ++ a :: post) ++ [c] := by simp
  rw [hsplit] at hnodup ⊢
  rw [List.getLast?_concat]
  rintro heq
  cases heq
  rw [List.nodup_append] at hnodup
  exact hnodup.2.2 a (by simp) a (by simp) rfl

/-- What is written to the nodes does not matter if it leaves the links. -/
theorem Linked.congr (h : Linked next prev cell l)
    (hcell : ∀ a ∈ l, ∀ v, cell a = some v →
      ∃ w, cell' a = some w ∧ next w = next v ∧ prev w = prev v) :
    Linked next prev cell' l := by
  intro pre a post hl
  obtain ⟨v, hv, hnext, hprev⟩ := h pre a post hl
  obtain ⟨w, hw, hwnext, hwprev⟩ := hcell a (by simp [hl]) v hv
  exact ⟨w, hw, hwnext.trans hnext, hwprev.trans hprev⟩

/-- A node is linked in at the end. -/
theorem Linked.append {b : ℕ} {v : α} (h : Linked next prev cell l) (hb : b ∉ l)
    (hnodup : l.Nodup) (hv : cell' b = some v) (hnext : next v = none) (hprev : prev v = l.getLast?)
    (hlast : ∀ t w, l.getLast? = some t → cell t = some w →
      ∃ w', cell' t = some w' ∧ next w' = some b ∧ prev w' = prev w)
    (hsame : ∀ a ∈ l, l.getLast? ≠ some a → cell' a = cell a) :
    Linked next prev cell' (l ++ [b]) := by
  intro pre a post hl
  rcases List.eq_nil_or_concat post with rfl | ⟨post, c, rfl⟩
  · -- The new node
    obtain ⟨rfl, hba⟩ := List.append_inj' hl rfl
    cases hba
    exact ⟨v, hv, hnext, hprev⟩
  · -- A node of the old list
    rw [List.concat_eq_append, ← List.cons_append, ← List.append_assoc] at hl
    obtain ⟨rfl, hcb⟩ := List.append_inj' hl rfl
    cases hcb
    obtain ⟨w, hw, hwnext, hwprev⟩ := h pre a post rfl
    rcases List.eq_nil_or_concat post with rfl | ⟨post', c, rfl⟩
    · obtain ⟨w', hw', hw'next, hw'prev⟩ := hlast a w (by simp) hw
      exact ⟨w', hw', by simp [hw'next], hw'prev.trans hwprev⟩
    · have hne := getLast?_ne hnodup
      refine ⟨w, (hsame a (by simp) hne).trans hw, ?_, hwprev⟩
      rw [hwnext]
      cases post' <;> simp

/-- A node is taken out: the one before it and the one behind it are linked to each other. -/
theorem Linked.remove {left right : List ℕ} {b : ℕ}
    (h : Linked next prev cell (left ++ b :: right)) (hnodup : (left ++ b :: right).Nodup)
    (hleft : ∀ t w, left.getLast? = some t → cell t = some w →
      ∃ w', cell' t = some w' ∧ next w' = right.head? ∧ prev w' = prev w)
    (hright : ∀ t w, right.head? = some t → cell t = some w →
      ∃ w', cell' t = some w' ∧ next w' = next w ∧ prev w' = left.getLast?)
    (hsame : ∀ a, a ∈ left ∨ a ∈ right → left.getLast? ≠ some a → right.head? ≠ some a →
      cell' a = cell a) :
    Linked next prev cell' (left ++ right) := by
  have hdisjoint : ∀ a, a ∈ left → a ∈ right → False := by
    intro a hal har
    rw [List.nodup_append] at hnodup
    exact hnodup.2.2 a hal a (List.mem_cons_of_mem b har) rfl
  intro pre a post hl
  rcases List.append_eq_append_iff.mp hl with ⟨mid, rfl, hmid⟩ | ⟨mid, rfl, hmid⟩
  · -- The node is to the right of the one that is taken out.
    obtain ⟨w, hw, hwnext, hwprev⟩ := h (left ++ b :: mid) a post (by simp [hmid])
    have har : a ∈ right := by simp [hmid]
    have hal : left.getLast? ≠ some a := fun hlast =>
      hdisjoint a (List.mem_of_getLast? hlast) har
    cases mid with
    | nil =>
      obtain ⟨w', hw', hw'next, hw'prev⟩ := hright a w (by simp [hmid]) hw
      exact ⟨w', hw', hw'next.trans hwnext, by simpa using hw'prev⟩
    | cons c mid =>
      have hhead : right.head? ≠ some a := by
        intro heq
        have hca : c = a := by simpa [hmid] using heq
        rw [hmid, hca] at hnodup
        simp [List.nodup_append] at hnodup
      refine ⟨w, (hsame a (Or.inr har) hal hhead).trans hw, hwnext, ?_⟩
      rw [hwprev]
      simp [List.getLast?_append, List.getLast?_cons]
  · -- The node is to the left, or it is the first one to the right.
    cases mid with
    | nil =>
      obtain ⟨w, hw, hwnext, hwprev⟩ := h (pre ++ [b]) a post (by
        rw [List.nil_append] at hmid
        simp [← hmid])
      rw [List.nil_append] at hmid
      have har : a ∈ right := by simp [← hmid]
      obtain ⟨w', hw', hw'next, hw'prev⟩ := hright a w (by simp [← hmid]) hw
      exact ⟨w', hw', hw'next.trans hwnext, by simpa using hw'prev⟩
    | cons c mid =>
      rw [List.cons_append, List.cons.injEq] at hmid
      obtain ⟨rfl, rfl⟩ := hmid
      obtain ⟨w, hw, hwnext, hwprev⟩ := h pre a (mid ++ b :: right) (by simp)
      have hal : a ∈ pre ++ a :: mid := by simp
      have hhead : right.head? ≠ some a := fun heq => hdisjoint a hal (List.mem_of_mem_head? heq)
      rcases List.eq_nil_or_concat mid with rfl | ⟨mid', c, rfl⟩
      · obtain ⟨w', hw', hw'next, hw'prev⟩ := hleft a w (by simp) hw
        exact ⟨w', hw', by simpa using hw'next, hw'prev.trans hwprev⟩
      · have hlast := getLast?_ne (List.nodup_append.mp hnodup).1
        refine ⟨w, (hsame a (Or.inl hal) hlast hhead).trans hw, ?_, hwprev⟩
        rw [hwnext]
        cases mid' <;> simp

end DoublyLinked

/-!
## Queues that are linked lists in memory

A memory gives the cell at each address that is allocated. A queue is a list of cells, each of which
points to the next one; what the last one points to does not matter.
-/

namespace LinkedQueue

open Function

variable {α : Type*}

structure Cell (α : Type*) where
  content : α
  next : Option ℕ
deriving DecidableEq, Repr

abbrev Memory (α : Type*) := ℕ → Option (Cell α)

/-- The cells with these addresses and contents are linked. -/
def Chain (mem : Memory α) : List (ℕ × α) → Prop
  | [] => True
  | [(a, x)] => ∃ next, mem a = some ⟨x, next⟩
  | (a, x) :: (b, y) :: l => mem a = some ⟨x, some b⟩ ∧ Chain mem ((b, y) :: l)

section Chain

variable {mem : Memory α} {a t : ℕ} {x y : α} {l : List (ℕ × α)}

theorem Chain.head (h : Chain mem ((a, x) :: l)) :
    ∃ next, mem a = some ⟨x, next⟩ ∧ (l ≠ [] → next = (l.map Prod.fst).head?) := by
  cases l with
  | nil =>
    obtain ⟨next, hnext⟩ := h
    exact ⟨next, hnext, fun hl => absurd rfl hl⟩
  | cons p l => exact ⟨some p.1, h.1, fun _ => rfl⟩

theorem Chain.tail (h : Chain mem ((a, x) :: l)) : Chain mem l := by
  cases l with
  | nil => trivial
  | cons p l => exact h.2

/-- Other cells do not matter. -/
theorem Chain.update {cell : Option (Cell α)} (h : Chain mem l) (ha : a ∉ l.map Prod.fst) :
    Chain (update mem a cell) l := by
  induction l with
  | nil => trivial
  | cons p l ih =>
    obtain ⟨b, x⟩ := p
    rw [List.map_cons, List.mem_cons, not_or] at ha
    have hb : Function.update mem a cell b = mem b := update_of_ne (Ne.symm ha.1) _ _
    cases l with
    | nil =>
      obtain ⟨next, hnext⟩ := h
      exact ⟨next, hb.trans hnext⟩
    | cons p l => exact ⟨hb.trans h.1, ih h.2 ha.2⟩

/-- A new cell after the last one. -/
theorem Chain.append {next : Option ℕ} (h : Chain mem (l ++ [(t, x)]))
    (hnodup : ((l ++ [(t, x)]).map Prod.fst).Nodup) (ha : a ∉ (l ++ [(t, x)]).map Prod.fst) :
    Chain (Function.update (Function.update mem a (some ⟨y, next⟩)) t (some ⟨x, some a⟩))
      (l ++ [(t, x), (a, y)]) := by
  induction l with
  | nil =>
    have hne : a ≠ t := by simpa using ha
    refine ⟨update_self _ _ _, next, ?_⟩
    rw [update_of_ne hne, update_self]
  | cons p l ih =>
    obtain ⟨b, z⟩ := p
    rw [List.cons_append, List.map_cons, List.mem_cons, not_or] at ha
    rw [List.cons_append, List.map_cons, List.nodup_cons] at hnodup
    have hbt : b ≠ t := by
      rintro rfl
      exact hnodup.1 (by simp)
    have hb : Function.update (Function.update mem a (some ⟨y, next⟩)) t (some ⟨x, some a⟩) b =
        mem b := by
      rw [update_of_ne hbt, update_of_ne (Ne.symm ha.1)]
    have hrest := ih h.tail hnodup.2 ha.2
    cases l with
    | nil => exact ⟨hb.trans h.1, hrest⟩
    | cons q l => exact ⟨hb.trans h.1, hrest⟩

end Chain

/-- The queue of the cells `l`, with its pointers to the first one and to the last one. -/
structure IsQueue (mem : Memory α) (head tail : Option ℕ) (l : List (ℕ × α)) : Prop where
  chain : Chain mem l
  nodup : (l.map Prod.fst).Nodup
  head : l ≠ [] → head = (l.map Prod.fst).head?
  tail : l ≠ [] → tail = (l.map Prod.fst).getLast?

section IsQueue

variable {mem : Memory α} {head tail : Option ℕ} {a : ℕ} {x y : α} {l : List (ℕ × α)}

/-- A queue of one cell. -/
theorem isQueue_singleton {next : Option ℕ} :
    IsQueue (update mem a (some ⟨y, next⟩)) (some a) (some a) [(a, y)] where
  chain := ⟨next, update_self _ _ _⟩
  nodup := by simp
  head := fun _ => rfl
  tail := fun _ => rfl

theorem IsQueue.allocated (h : IsQueue mem head tail l) {b : ℕ} (hb : b ∈ l.map Prod.fst) :
    mem b ≠ none := by
  have hchain := h.chain
  clear h
  induction l with
  | nil => simp at hb
  | cons p l ih =>
    obtain ⟨c, z⟩ := p
    rcases List.mem_cons.mp hb with rfl | hb
    · obtain ⟨next, hnext, -⟩ := hchain.head
      simp [hnext]
    · exact ih hb hchain.tail

/-- The last cell is there, and a new one is put behind it. -/
theorem IsQueue.push (h : IsQueue mem head tail l) (y : α) (next : Option ℕ) (hl : l ≠ [])
    (ha : mem a = none) :
    ∃ t z n, tail = some t ∧ mem t = some ⟨z, n⟩ ∧ t ≠ a ∧
      IsQueue (update (update mem a (some ⟨y, next⟩)) t (some ⟨z, some a⟩)) head (some a)
        (l ++ [(a, y)]) := by
  obtain ⟨l', ⟨t, z⟩, rfl⟩ : ∃ l' p, l = l' ++ [p] :=
    ⟨l.dropLast, l.getLast hl, (List.dropLast_append_getLast hl).symm⟩
  have hmem : t ∈ (l' ++ [(t, z)]).map Prod.fst := by simp
  have hnotMem : a ∉ (l' ++ [(t, z)]).map Prod.fst := fun hmem => h.allocated hmem ha
  have htail : tail = some t := by simpa using h.tail hl
  obtain ⟨n, hn⟩ : ∃ n, mem t = some ⟨z, n⟩ := by
    have hchain := h.chain
    clear hmem hnotMem h hl
    induction l' with
    | nil => exact hchain
    | cons p l' ih => exact ih hchain.tail
  refine ⟨t, z, n, htail, hn, fun hta => hnotMem (hta ▸ hmem), ?_, ?_, ?_, ?_⟩
  · rw [List.append_assoc]
    exact h.chain.append h.nodup hnotMem
  · rw [List.map_append, List.nodup_append]
    refine ⟨h.nodup, by simp, ?_⟩
    intro b hb c hc hbc
    rw [List.map_cons, List.map_nil, List.mem_singleton] at hc
    rw [hbc, hc] at hb
    exact hnotMem hb
  · intro _
    rw [h.head hl]
    cases l' <;> rfl
  · intro _
    simp

/-- The first cell is there, and the rest is a queue without it. -/
theorem IsQueue.pop (h : IsQueue mem head tail ((a, x) :: l)) :
    head = some a ∧ ∃ next, mem a = some ⟨x, next⟩ ∧
      (l ≠ [] → IsQueue (update mem a none) next tail l) := by
  obtain ⟨next, hnext, hhead⟩ := h.chain.head
  have hnodup := h.nodup
  rw [List.map_cons, List.nodup_cons] at hnodup
  refine ⟨h.head (by simp), next, hnext, fun hl => ⟨?_, hnodup.2, hhead, ?_⟩⟩
  · exact h.chain.tail.update hnodup.1
  · intro _
    rw [h.tail (by simp), List.map_cons]
    cases l with
    | nil => exact absurd rfl hl
    | cons p l => rfl

end IsQueue

end LinkedQueue
