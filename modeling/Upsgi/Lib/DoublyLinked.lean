import Mathlib

/-! # Doubly linked lists in arrays

    The nodes are the entries of an array, and 0 is the null pointer.  Each node
    has a link to the next and one to the previous node, so that a list is known
    by two functions from nodes to nodes.  `Seg` relates such links to the list
    of the nodes; each operation comes with the lemma that says what it does to
    that list.
-/

namespace DoublyLinked

open List

variable {next prev next' prev' : Nat → Nat}

/-! ### Segments -/

/-- The nodes `l` are linked in this order, behind `p` and before `q`. -/
def Seg (next prev : Nat → Nat) : Nat → List Nat → Nat → Prop
  | _, [], _ => True
  | p, i :: l, q => i ≠ 0 ∧ prev i = p ∧ next i = l.headD q ∧ Seg next prev i l q

theorem headD_append (a b : List Nat) (q : Nat) : (a ++ b).headD q = a.headD (b.headD q) := by
  cases a with
  | nil | cons i a => rfl

variable {p q i : Nat} {l : List Nat}

theorem seg_append {a b : List Nat} :
    Seg next prev p (a ++ b) q ↔
      Seg next prev p a (b.headD q) ∧ Seg next prev (a.getLastD p) b q := by
  induction a generalizing p with
  | nil => exact (and_iff_right trivial).symm
  | cons i a ih =>
    show i ≠ 0 ∧ prev i = p ∧ next i = (a ++ b).headD q ∧ Seg next prev i (a ++ b) q ↔ _
    rw [ih, headD_append, getLastD_cons]
    show _ ↔ (i ≠ 0 ∧ prev i = p ∧ next i = a.headD (b.headD q) ∧
      Seg next prev i a (b.headD q)) ∧ _
    tauto

theorem Seg.ne_zero (h : Seg next prev p l q) (hi : i ∈ l) : i ≠ 0 := by
  induction l generalizing p with
  | nil => cases hi
  | cons k l ih =>
    obtain ⟨hk, _, _, hrest⟩ := h
    rcases mem_cons.mp hi with rfl | hi
    · exact hk
    · exact ih hrest hi

/-- Only the links of its own nodes matter to a segment. -/
theorem Seg.congr (h : Seg next prev p l q) (hnext : ∀ j ∈ l, next' j = next j)
    (hprev : ∀ j ∈ l, prev' j = prev j) :
    Seg next' prev' p l q := by
  induction l generalizing p with
  | nil => trivial
  | cons i l ih =>
    obtain ⟨hi, hp, hq, hrest⟩ := h
    rw [forall_mem_cons] at hnext hprev
    exact ⟨hi, hprev.1.trans hp, hnext.1.trans hq, ih hrest hnext.2 hprev.2⟩

theorem getLastD_mem (h : l ≠ []) (p : Nat) : l.getLastD p ∈ l := by
  rw [getLastD_eq_getLast?, getLast?_eq_some_getLast h]
  exact getLast_mem h

/-- Another node behind the last one. -/
theorem Seg.relink_next {q' : Nat} (h : Seg next prev p l q) (hnodup : l.Nodup)
    (hnext : ∀ j ∈ l, next' j = if j = l.getLastD 0 then q' else next j)
    (hprev : ∀ j ∈ l, prev' j = prev j) : Seg next' prev' p l q' := by
  induction l generalizing p with
  | nil => trivial
  | cons i l ih =>
    obtain ⟨hi, hp, hq, hrest⟩ := h
    rw [forall_mem_cons] at hnext hprev
    rw [nodup_cons] at hnodup
    cases l with
    | nil =>
      refine ⟨hi, hprev.1.trans hp, ?_, trivial⟩
      rw [hnext.1]
      exact if_pos rfl
    | cons k l =>
      have hlast : (i :: k :: l).getLastD 0 = (k :: l).getLastD 0 := by
        rw [getLastD_cons, getLastD_cons, getLastD_cons]
      rw [hlast] at hnext
      refine ⟨hi, hprev.1.trans hp, ?_, ih hrest hnodup.2 hnext.2 hprev.2⟩
      -- the first of several nodes is not the last one
      have hne : i ≠ (k :: l).getLastD 0 := by
        intro heq
        exact hnodup.1 (heq ▸ getLastD_mem (cons_ne_nil k l) 0)
      rw [hnext.1, if_neg hne]
      exact hq

/-- Another node before the first one. -/
theorem Seg.relink_prev {p' : Nat} (h : Seg next prev p l q) (hnodup : l.Nodup)
    (hnext : ∀ j ∈ l, next' j = next j)
    (hprev : ∀ j ∈ l, prev' j = if j = l.headD 0 then p' else prev j) : Seg next' prev' p' l q := by
  cases l with
  | nil => trivial
  | cons i l =>
    obtain ⟨hi, hp, hq, hrest⟩ := h
    rw [forall_mem_cons] at hnext hprev
    rw [nodup_cons] at hnodup
    refine ⟨hi, ?_, hnext.1.trans hq, ?_⟩
    · rw [hprev.1]
      exact if_pos rfl
    · apply hrest.congr hnext.2
      intro j hj
      rw [hprev.2 j hj]
      apply if_neg
      intro heq
      have hji : j = i := heq
      exact hnodup.1 (hji ▸ hj)

/-! ### Operations -/

/-- What is linked around a node. -/
theorem Seg.around {a b : List Nat} (h : Seg next prev p (a ++ i :: b) q) :
    prev i = a.getLastD p ∧ next i = b.headD q := by
  obtain ⟨_, _, hprev, hnext, _⟩ := seg_append.mp h
  exact ⟨hprev, hnext⟩

section

variable (h : Seg next prev 0 l 0) (hnodup : l.Nodup) (hi : i ∈ l)
include h hnodup hi

/-- What a node is linked to is in the list, and is not the node. -/
theorem Seg.neighbours :
    (prev i = 0 ∨ prev i ∈ l) ∧ (next i = 0 ∨ next i ∈ l) ∧ prev i ≠ i ∧ next i ≠ i := by
  have hzero := h.ne_zero hi
  obtain ⟨a, b, rfl⟩ := append_of_mem hi
  obtain ⟨hprevI, hnextI⟩ := h.around
  rw [nodup_append] at hnodup
  obtain ⟨_, hnodupB, hdisjoint⟩ := hnodup
  rw [nodup_cons] at hnodupB
  rw [hprevI, hnextI]
  have hbefore : a.getLastD 0 = 0 ∨ a.getLastD 0 ∈ a := by
    by_cases hnil : a = []
    · exact .inl (by rw [hnil]; rfl)
    · exact .inr (getLastD_mem hnil 0)
  have hbehind : b.headD 0 = 0 ∨ b.headD 0 ∈ b := by
    cases b with
    | nil => exact .inl rfl
    | cons k b => exact .inr mem_cons_self
  refine ⟨?_, ?_, ?_, ?_⟩
  · exact hbefore.imp_right fun hmem => mem_append_left _ hmem
  · exact hbehind.imp_right fun hmem => mem_append_right _ (mem_cons_of_mem i hmem)
  · intro heq
    rw [heq] at hbefore
    exact hbefore.elim hzero fun hmem => hdisjoint i hmem i mem_cons_self rfl
  · intro heq
    rw [heq] at hbehind
    exact hbehind.elim hzero hnodupB.1

end

/-- A node is linked behind the last one. -/
theorem Seg.snoc {l : List Nat} {i : Nat} (h : Seg next prev 0 l 0) (hnodup : l.Nodup) (hi : i ≠ 0)
    (hnext : ∀ j ∈ l, next' j = if j = l.getLastD 0 then i else next j)
    (hprev : ∀ j ∈ l, prev' j = prev j) (hnextI : next' i = 0) (hprevI : prev' i = l.getLastD 0) :
    Seg next' prev' 0 (l ++ [i]) 0 := by
  rw [seg_append]
  exact ⟨h.relink_next hnodup hnext hprev, hi, hprevI, hnextI, trivial⟩

/-! ### Whole lists -/

/-- The links, with pointers to both ends, of the list `l`. -/
structure IsList (next prev : Nat → Nat) (head tail : Nat) (l : List Nat) : Prop where
  seg : Seg next prev 0 l 0
  head : head = l.headD 0
  tail : tail = l.getLastD 0
  nodup : l.Nodup

/-- The links and the first node determine the list. -/
theorem Seg.unique {l' : List Nat} {p' : Nat} (h : Seg next prev p l 0) (h' : Seg next prev p' l' 0)
    (hhead : l.headD 0 = l'.headD 0) : l = l' := by
  induction l generalizing l' p p' with
  | nil =>
    cases l' with
    | nil => rfl
    | cons i l' => exact absurd hhead.symm h'.1
  | cons i l ih =>
    cases l' with
    | nil => exact absurd hhead h.1
    | cons j l' =>
      obtain rfl : i = j := hhead
      rw [ih h.2.2.2 h'.2.2.2 (h.2.2.1.symm.trans h'.2.2.1)]

theorem IsList.unique {head tail : Nat} {l' : List Nat} (h : IsList next prev head tail l)
    (h' : IsList next prev head tail l') : l = l' :=
  h.seg.unique h'.seg (h.head.symm.trans h'.head)

/-! ### Taking a node out -/

section

variable
    (hnext : ∀ j, j ≠ i → next' j = if prev i ≠ 0 ∧ j = prev i then next i else next j)
    (hprev : ∀ j, j ≠ i → prev' j = if next i ≠ 0 ∧ j = next i then prev i else prev j)
include hnext hprev

/-- A node is taken out by linking its neighbours to each other. -/
theorem Seg.unlink {a b : List Nat} (h : Seg next prev 0 (a ++ i :: b) 0)
    (hnodup : (a ++ i :: b).Nodup) :
    Seg next' prev' 0 (a ++ b) 0 := by
  obtain ⟨hprevI, hnextI⟩ := h.around
  obtain ⟨ha, hi, _, _, hb⟩ := seg_append.mp h
  rw [nodup_append] at hnodup
  obtain ⟨hnodupA, hnodupB, hdisjoint⟩ := hnodup
  rw [nodup_cons] at hnodupB
  have hnotA : ∀ j ∈ a, j ≠ i := fun j hj => hdisjoint j hj i mem_cons_self
  have hnotB : ∀ j ∈ b, j ≠ i := fun j hj heq => hnodupB.1 (heq ▸ hj)
  have hapart : ∀ j ∈ a, ∀ k ∈ b, j ≠ k :=
    fun j hj k hk => hdisjoint j hj k (mem_cons_of_mem i hk)
  rw [seg_append]
  constructor
  · apply ha.relink_next hnodupA
    · intro j hj
      rw [hnext j (hnotA j hj), ← hnextI, hprevI]
      by_cases hlast : j = a.getLastD 0
      · rw [if_pos hlast, if_pos ⟨hlast ▸ ha.ne_zero hj, hlast⟩]
      · rw [if_neg hlast, if_neg (fun h => hlast h.2)]
    · intro j hj
      rw [hprev j (hnotA j hj)]
      apply if_neg
      intro hfirst
      rw [hnextI] at hfirst
      cases b with
      | nil => exact hfirst.1 rfl
      | cons k b => exact hapart j hj k mem_cons_self hfirst.2
  · apply hb.relink_prev hnodupB.2
    · intro j hj
      rw [hnext j (hnotB j hj)]
      apply if_neg
      intro hlast
      rw [hprevI] at hlast
      by_cases hnil : a = []
      · exact hlast.1 (by rw [hnil]; rfl)
      · exact hapart _ (getLastD_mem hnil 0) j hj hlast.2.symm
    · intro j hj
      rw [hprev j (hnotB j hj), ← hprevI, hnextI]
      by_cases hfirst : j = b.headD 0
      · rw [if_pos hfirst, if_pos ⟨hfirst ▸ hb.ne_zero hj, hfirst⟩]
      · rw [if_neg hfirst, if_neg (fun h => hfirst h.2)]

section

variable (h : Seg next prev 0 l 0) (hnodup : l.Nodup) (hi : i ∈ l)
include h hnodup hi

/-- The same for a node anywhere in a list, with the two ends of what is left. -/
theorem Seg.erase :
    Seg next' prev' 0 (l.erase i) 0 ∧
      (l.erase i).headD 0 = (if prev i = 0 then next i else l.headD 0) ∧
      (l.erase i).getLastD 0 = (if next i = 0 then prev i else l.getLastD 0) := by
  obtain ⟨a, b, rfl⟩ := append_of_mem hi
  have hnot : i ∉ a := by
    intro hmem
    exact (nodup_append.mp hnodup).2.2 i hmem i mem_cons_self rfl
  obtain ⟨hprevI, hnextI⟩ := h.around
  rw [erase_append_right _ hnot, erase_cons_head]
  refine ⟨h.unlink hnext hprev hnodup, ?_, ?_⟩
  · rw [hprevI, hnextI]
    cases a with
    | nil => exact (if_pos rfl).symm
    | cons k a =>
      have hne : (k :: a).getLastD 0 ≠ 0 :=
        (seg_append.mp h).1.ne_zero (getLastD_mem (cons_ne_nil k a) 0)
      rw [if_neg hne]
      rfl
  · rw [hprevI, hnextI]
    cases b with
    | nil =>
      rw [append_nil]
      exact (if_pos rfl).symm
    | cons k b =>
      have hk : k ≠ 0 := h.ne_zero (by simp)
      rw [if_neg (show ¬ (k :: b).headD 0 = 0 from hk)]
      simp [getLastD_eq_getLast?]

/-- Another list is not touched when a node is taken out. -/
theorem Seg.erase_apart {l' : List Nat} (h' : Seg next prev p l' q) (hapart : ∀ j ∈ l', j ∉ l) :
    Seg next' prev' p l' q := by
  obtain ⟨hprevI, hnextI, _, _⟩ := h.neighbours hnodup hi
  have hne : ∀ j ∈ l', j ≠ i := fun j hj heq => hapart j hj (heq ▸ hi)
  apply h'.congr
  · intro j hj
    rw [hnext j (hne j hj)]
    apply if_neg
    rintro ⟨hzero, rfl⟩
    exact hapart _ hj (hprevI.resolve_left hzero)
  · intro j hj
    rw [hprev j (hne j hj)]
    apply if_neg
    rintro ⟨hzero, rfl⟩
    exact hapart _ hj (hnextI.resolve_left hzero)

end

theorem IsList.erase {head tail head' tail' : Nat} (h : IsList next prev head tail l) (hi : i ∈ l)
    (hhead : head' = if prev i = 0 then next i else head)
    (htail : tail' = if next i = 0 then prev i else tail) :
    IsList next' prev' head' tail' (l.erase i) := by
  obtain ⟨hseg, hfirst, hlast⟩ := h.seg.erase hnext hprev h.nodup hi
  rw [h.head] at hhead
  rw [h.tail] at htail
  exact ⟨hseg, hhead.trans hfirst.symm, htail.trans hlast.symm, h.nodup.erase i⟩

end

/-! ### The ends -/

section

variable {head tail : Nat} (h : IsList next prev head tail l)
include h

theorem IsList.head_eq_zero_iff : head = 0 ↔ tail = 0 := by
  rw [h.head, h.tail]
  cases l with
  | nil => rfl
  | cons k l =>
    have hlast := h.seg.ne_zero (getLastD_mem (cons_ne_nil k l) 0)
    exact iff_of_false h.seg.1 hlast

/-- The first node is the one without a link backwards. -/
theorem IsList.eq_head_iff (hi : i ∈ l) : i = head ↔ prev i = 0 := by
  rw [h.head]
  have hseg := h.seg
  have hnodup := h.nodup
  obtain ⟨a, b, rfl⟩ := append_of_mem hi
  rw [hseg.around.1]
  cases a with
  | nil => exact ⟨fun _ => rfl, fun _ => rfl⟩
  | cons k a =>
    have hlast := hseg.ne_zero (mem_append_left _ (getLastD_mem (cons_ne_nil k a) 0))
    refine iff_of_false ?_ hlast
    rintro rfl
    exact (nodup_cons.mp hnodup).1 (by simp)

/-- And the last one is the one without a link forwards. -/
theorem IsList.eq_tail_iff (hi : i ∈ l) : i = tail ↔ next i = 0 := by
  rw [h.tail]
  have hseg := h.seg
  have hnodup := h.nodup
  obtain ⟨a, b, rfl⟩ := append_of_mem hi
  rw [hseg.around.2]
  cases b with
  | nil => simp
  | cons k b =>
    have hk := hseg.ne_zero (i := k) (by simp)
    refine iff_of_false ?_ hk
    rw [nodup_append, nodup_cons] at hnodup
    intro heq
    have hmem := getLastD_mem (cons_ne_nil k b) 0
    have hlast : (a ++ i :: k :: b).getLastD 0 = (k :: b).getLastD 0 := by
      simp [getLastD_eq_getLast?, getLast?_cons]
    exact hnodup.2.1.1 (heq.trans hlast ▸ hmem)

end

theorem IsList.snoc {head tail head' i : Nat} {l : List Nat} (h : IsList next prev head tail l)
    (hi : i ≠ 0) (hnot : i ∉ l) (hnext : ∀ j, j ≠ i → j ≠ 0 → next' j = if j = tail then i else next j)
    (hprev : ∀ j, j ≠ i → prev' j = prev j) (hnextI : next' i = 0) (hprevI : prev' i = tail)
    (hhead : head' = if tail = 0 then i else head) : IsList next' prev' head' i (l ++ [i]) := by
  have hne : ∀ j ∈ l, j ≠ i := fun j hj heq => hnot (heq ▸ hj)
  refine ⟨?_, ?_, ?_, ?_⟩
  · apply h.seg.snoc h.nodup hi
    · intro j hj
      rw [hnext j (hne j hj) (h.seg.ne_zero hj), h.tail]
    · exact fun j hj => hprev j (hne j hj)
    · exact hnextI
    · exact hprevI.trans h.tail
  · rw [hhead, h.tail, h.head]
    cases l with
    | nil => rfl
    | cons k l =>
      rw [if_neg (h.seg.ne_zero (getLastD_mem (cons_ne_nil k l) 0))]
      rfl
  · rw [getLastD_eq_getLast?, getLast?_append]
    rfl
  · rw [nodup_append]
    refine ⟨h.nodup, nodup_singleton i, ?_⟩
    intro j hj k hk
    rw [mem_singleton.mp hk]
    exact hne j hj

/-! ### Walks -/

/-- Walk from the node `i` to the first one that satisfies `p`, if it is among
    the next `n` nodes. -/
def find (next : Nat → Nat) (p : Nat → Bool) : Nat → Nat → Nat
  | 0, _ => 0
  | n + 1, i => if i = 0 then 0 else if p i then i else find next p n (next i)

theorem Seg.find_eq {n : Nat} (h : Seg next prev p l 0) (f : Nat → Bool)
    (hn : l.length ≤ n) : find next f n (l.headD 0) = (l.find? f).getD 0 := by
  induction l generalizing p n with
  | nil =>
    cases n with
    | zero | succ n => rfl
  | cons i l ih =>
    obtain ⟨hi, _, hnext, hrest⟩ := h
    rw [length_cons] at hn
    obtain ⟨n, rfl⟩ := Nat.exists_eq_succ_of_ne_zero (show n ≠ 0 by omega)
    show find next f (n + 1) i = _
    rw [find, if_neg hi, find?_cons]
    cases hf : f i with
    | true => rfl
    | false =>
      rw [if_neg (by decide), hnext]
      exact ih hrest (by omega)

/-- Walk from the node `i` to the last one, if it is among the next `n` nodes. -/
def last (next : Nat → Nat) : Nat → Nat → Nat
  | 0, i => i
  | n + 1, i => if next i = 0 then i else last next n (next i)

theorem Seg.last_eq {n : Nat} (h : Seg next prev p (i :: l) 0)
    (hn : l.length ≤ n) : last next n i = l.getLastD i := by
  induction l generalizing p i n with
  | nil =>
    have hnext : next i = 0 := h.2.2.1
    cases n with
    | zero => rfl
    | succ n => rw [last, if_pos hnext]; rfl
  | cons k l ih =>
    obtain ⟨_, _, hnext, hrest⟩ := h
    have hk : k ≠ 0 := hrest.1
    have hnext' : next i = k := hnext
    rw [length_cons] at hn
    obtain ⟨n, rfl⟩ := Nat.exists_eq_succ_of_ne_zero (show n ≠ 0 by omega)
    rw [last, hnext', if_neg hk, getLastD_cons]
    exact ih hrest (by omega)

end DoublyLinked
