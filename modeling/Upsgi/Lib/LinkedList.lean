import Mathlib

/-! # Singly linked queues on a heap

    A queue is a chain of cells on a heap, with a pointer to its first cell
    and one to its last.  New cells are linked behind the last one and the
    first one is unlinked and freed.  `Represents` relates such a queue to the
    list of its cells; each operation comes with the lemma that says what it
    does to that list.
-/

namespace LinkedList

open List

variable {α : Type}

/-! ### Heaps and chains -/

abbrev Addr : Type := Nat

/-- A cell: its payload and the pointer to the next cell. -/
structure Cell (α : Type) where
  val : α
  next : Option Addr

abbrev Heap (α : Type) : Type := Addr → Option (Cell α)

/-- Write a cell, or free it. -/
def Heap.set (h : Heap α) (a : Addr) (c : Option (Cell α)) : Heap α :=
  fun b => if b = a then c else h b

@[simp] theorem Heap.set_self (h : Heap α) (a : Addr) (c : Option (Cell α)) :
    h.set a c a = c := by
  simp [Heap.set]

variable {a : Addr} {v : α}

@[simp] theorem Heap.set_ne (h : Heap α) {b : Addr} (c : Option (Cell α)) (hne : b ≠ a) :
    h.set a c b = h b := by
  simp [Heap.set, hne]

/-- From the pointer `p` the heap holds exactly the cells `xs`, linked in this
    order. -/
def Chain (h : Heap α) : Option Addr → List (Addr × α) → Prop
  | p, [] => p = none
  | p, (a, v) :: xs => p = some a ∧ ∃ next, h a = some ⟨v, next⟩ ∧ Chain h next xs

/-- Writing elsewhere leaves a chain alone. -/
theorem Chain.frame {h : Heap α} (c : Option (Cell α)) {p : Option Addr} {xs : List (Addr × α)}
    (hne : a ∉ xs.map Prod.fst) (hxs : Chain h p xs) :
    Chain (h.set a c) p xs := by
  induction xs generalizing p with
  | nil => exact hxs
  | cons x xs ih =>
    obtain ⟨b, v⟩ := x
    obtain ⟨hp, next, hcell, hrest⟩ := hxs
    simp only [map_cons, mem_cons, not_or] at hne
    refine ⟨hp, next, ?_, ih hne.2 hrest⟩
    rw [Heap.set_ne _ _ (Ne.symm hne.1)]
    exact hcell

/-- The last cell of a chain has no successor. -/
theorem Chain.last {h : Heap α} {p : Option Addr} {xs : List (Addr × α)} {t : Addr}
    (hxs : Chain h p (xs ++ [(t, v)])) : h t = some ⟨v, none⟩ := by
  induction xs generalizing p with
  | nil =>
    obtain ⟨-, next, hcell, hnext⟩ := hxs
    have hnone : next = none := hnext
    rw [hcell, hnone]
  | cons x xs ih =>
    obtain ⟨-, next, -, hrest⟩ := hxs
    exact ih hrest

/-- Linking a fresh cell behind the last one. -/
theorem Chain.snoc {h : Heap α} {p : Option Addr} {xs : List (Addr × α)} {t a : Addr} {v w : α}
    (hxs : Chain h p (xs ++ [(t, v)])) (hnodup : ((xs ++ [(t, v)]).map Prod.fst).Nodup)
    (hfresh : a ∉ (xs ++ [(t, v)]).map Prod.fst) :
    Chain ((h.set a (some ⟨w, none⟩)).set t (some ⟨v, some a⟩)) p
      (xs ++ [(t, v)] ++ [(a, w)]) := by
  induction xs generalizing p with
  | nil =>
    obtain ⟨hp, next, -, -⟩ := hxs
    have hat : a ≠ t := by simpa using hfresh
    exact ⟨hp, some a, by simp, rfl, none, by simp [hat], rfl⟩
  | cons x xs ih =>
    obtain ⟨b, u⟩ := x
    obtain ⟨hp, next, hcell, hrest⟩ := hxs
    simp only [cons_append, map_cons, nodup_cons, mem_cons, not_or] at hnodup hfresh
    -- the first cell is neither the last one nor the new one
    have hbt : b ≠ t := by
      intro hbt
      apply hnodup.1
      simp [hbt]
    have hba : b ≠ a := fun hba => hfresh.1 hba.symm
    refine ⟨hp, next, ?_, ih hrest hnodup.2 hfresh.2⟩
    rw [Heap.set_ne _ _ hbt, Heap.set_ne _ _ hba]
    exact hcell

/-! ### Queues -/

/-- A queue: the heap, the next address the allocator gives out, and the two
    pointers. -/
structure Queue (α : Type) where
  heap : Heap α
  brk : Addr
  head : Option Addr
  tail : Option Addr

/-- A queue without cells. -/
def Queue.empty : Queue α where
  heap := fun _ => none
  brk := 0
  head := none
  tail := none

/-- Allocate a cell and link it behind the last one. -/
def Queue.push (q : Queue α) (v : α) : Queue α :=
  let heap := q.heap.set q.brk (some ⟨v, none⟩)
  match q.tail with
  | some t =>
      { heap := heap.set t ((heap t).map fun c => { c with next := some q.brk })
        brk := q.brk + 1, head := q.head, tail := some q.brk }
  | none => { heap := heap, brk := q.brk + 1, head := some q.brk, tail := some q.brk }

/-- The payload of the first cell. -/
def Queue.first (q : Queue α) : Option α :=
  (q.head.bind q.heap).map Cell.val

/-- Unlink the first cell and free it. -/
def Queue.pop (q : Queue α) : Queue α :=
  match q.head with
  | none => q
  | some a =>
      match q.heap a with
      | none => q
      | some c =>
          { q with
            heap := q.heap.set a none
            head := c.next
            tail := if c.next = none then none else q.tail }

/-- Change the payload of the first cell. -/
def Queue.modifyFirst (q : Queue α) (f : α → α) : Queue α :=
  match q.head with
  | none => q
  | some a => { q with heap := q.heap.set a ((q.heap a).map fun c => { c with val := f c.val }) }

/-- The payloads met when following at most `fuel` links from `p`. -/
def walk (h : Heap α) : Nat → Option Addr → List α
  | 0, _ => []
  | _, none => []
  | fuel + 1, some a =>
      match h a with
      | none => []
      | some c => c.val :: walk h fuel c.next

/-- The queue holds the cells `xs`. -/
structure Represents (q : Queue α) (xs : List (Addr × α)) : Prop where
  chain : Chain q.heap q.head xs
  nodup : (xs.map Prod.fst).Nodup
  fresh : ∀ a ∈ xs.map Prod.fst, a < q.brk
  tail_eq : q.tail = (xs.map Prod.fst).getLast?

theorem represents_empty : Represents (Queue.empty : Queue α) [] :=
  ⟨rfl, nodup_nil, by simp, rfl⟩

namespace Represents

variable {q : Queue α} {xs : List (Addr × α)}

section

variable (h : Represents q xs)
include h

theorem head_eq : q.head = (xs.map Prod.fst).head? := by
  cases xs with
  | nil => exact h.chain
  | cons x xs =>
    obtain ⟨a, v⟩ := x
    exact h.chain.1

/-- The queue is empty exactly when its first pointer is null. -/
theorem head_eq_none : q.head = none ↔ xs = [] := by
  rw [h.head_eq]
  simp

theorem first_eq : q.first = (xs.map Prod.snd).head? := by
  cases xs with
  | nil =>
    have hhead : q.head = none := h.chain
    simp [Queue.first, hhead]
  | cons x xs =>
    obtain ⟨a, v⟩ := x
    obtain ⟨hhead, next, hcell, -⟩ := h.chain
    simp [Queue.first, hhead, hcell]

theorem push (v : α) : Represents (q.push v) (xs ++ [(q.brk, v)]) := by
  have hfresh : q.brk ∉ xs.map Prod.fst := fun hmem => Nat.lt_irrefl _ (h.fresh _ hmem)
  have hnodup : ((xs ++ [(q.brk, v)]).map Prod.fst).Nodup := by
    rw [map_append, nodup_append]
    refine ⟨h.nodup, by simp, ?_⟩
    intro a ha b hb hab
    simp only [map_cons, map_nil, mem_singleton] at hb
    exact hfresh (by rw [← hb, ← hab]; exact ha)
  have hbound : ∀ a ∈ (xs ++ [(q.brk, v)]).map Prod.fst, a < q.brk + 1 := by
    intro a ha
    simp only [map_append, map_cons, map_nil, mem_append, mem_singleton] at ha
    rcases ha with ha | ha
    · exact Nat.lt_succ_of_lt (h.fresh a ha)
    · rw [ha]
      exact Nat.lt_succ_self _
  rcases eq_nil_or_concat' xs with rfl | ⟨ys, x, rfl⟩
  · -- the list was empty: the new cell is also the first one
    have htail : q.tail = none := h.tail_eq
    refine ⟨?_, hnodup, ?_, ?_⟩
    · simp only [Queue.push, htail]
      exact ⟨rfl, none, by simp, rfl⟩
    · simpa only [Queue.push, htail] using hbound
    · simp only [Queue.push, htail]
      simp
  · obtain ⟨t, u⟩ := x
    have htail : q.tail = some t := by
      rw [h.tail_eq]
      simp
    have hta : t ≠ q.brk := by
      intro hta
      apply hfresh
      simp [← hta]
    have hcell : (q.heap.set q.brk (some ⟨v, none⟩)) t = some ⟨u, none⟩ := by
      rw [Heap.set_ne _ _ hta]
      exact h.chain.last
    refine ⟨?_, hnodup, ?_, ?_⟩
    · simp only [Queue.push, htail, hcell]
      exact h.chain.snoc h.nodup hfresh
    · simpa only [Queue.push, htail] using hbound
    · simp only [Queue.push, htail]
      simp

end

theorem pop (h : Represents q ((a, v) :: xs)) : Represents q.pop xs := by
  obtain ⟨hhead, next, hcell, hrest⟩ := h.chain
  have hnodup := h.nodup
  rw [map_cons, nodup_cons] at hnodup
  have hpop : q.pop = { q with
      heap := q.heap.set a none
      head := next
      tail := if next = none then none else q.tail } := by
    simp only [Queue.pop, hhead, hcell]
  rw [hpop]
  refine ⟨hrest.frame none hnodup.1, hnodup.2, ?_, ?_⟩
  · intro b hb
    exact h.fresh b (by simp [hb])
  · -- the tail pointer is cleared exactly when the last cell goes
    cases xs with
    | nil =>
      have hnone : next = none := hrest
      simp [hnone]
    | cons x xs =>
      obtain ⟨b, w⟩ := x
      have hsome : next = some b := hrest.1
      simp only [hsome, reduceCtorEq, if_false]
      rw [h.tail_eq]
      simp

theorem modifyFirst (h : Represents q ((a, v) :: xs)) (f : α → α) :
    Represents (q.modifyFirst f) ((a, f v) :: xs) := by
  obtain ⟨hhead, next, hcell, hrest⟩ := h.chain
  have hnodup := h.nodup
  rw [map_cons, nodup_cons] at hnodup
  have hmod : q.modifyFirst f = { q with heap := q.heap.set a (some ⟨f v, next⟩) } := by
    simp only [Queue.modifyFirst, hhead, hcell, Option.map_some]
  rw [hmod]
  exact ⟨⟨hhead, next, by simp, hrest.frame _ hnodup.1⟩, h.nodup, h.fresh, h.tail_eq⟩

/-- Following the links gives the payloads in order. -/
theorem walk_eq (h : Represents q xs) (fuel : Nat) :
    walk q.heap fuel q.head = (xs.map Prod.snd).take fuel := by
  have hchain := h.chain
  generalize q.head = p at hchain
  clear h
  induction fuel generalizing p xs with
  | zero => simp [walk]
  | succ fuel ih =>
    cases xs with
    | nil =>
      have hp : p = none := hchain
      simp [hp, walk]
    | cons x xs =>
      obtain ⟨a, v⟩ := x
      obtain ⟨hp, next, hcell, hrest⟩ := hchain
      simp [hp, walk, hcell, ih next hrest]

end Represents

end LinkedList
