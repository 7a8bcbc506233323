import Upsgi.Lib.DoublyLinked
import Upsgi.Lib.Machine

/-! # The run queue of the async loop

    `runqueue_push` and `runqueue_remove` (`core/async.c`) keep the requests that can go on in a
    doubly linked list between `async_runqueue` and `async_runqueue_last`.  `async_loop` walks
    it: it reads the link of an entry, gives the request the cpu, which may push requests, and
    then may remove the entry.

    An entry is known by its address, and 0 is the null pointer.  `malloc` gives a new address
    each time, so the addresses number the pushes that inserted an entry.
-/

namespace Upsgi

open DoublyLinked Function List

/-! ### Functions -/

/-- The entries, and the two pointers to them.  `brk` is the address that `malloc` returns next. -/
structure RunQueue (ρ : Type) where
  next : Nat → Nat
  prev : Nat → Nat
  wsgi_req : Nat → Option ρ
  async_runqueue : Nat
  async_runqueue_last : Nat
  brk : Nat

namespace RunQueue

variable {ρ : Type}

def empty : RunQueue ρ :=
  ⟨fun _ => 0, fun _ => 0, fun _ => none, 0, 0, 1⟩

def runqueue_remove (q : RunQueue ρ) (u_request : Nat) : RunQueue ρ :=
  let parent := q.prev u_request
  let child := q.next u_request
  { q with
    next := if parent ≠ 0 then Function.update q.next parent child else q.next
    prev := if child ≠ 0 then Function.update q.prev child parent else q.prev
    async_runqueue := if u_request = q.async_runqueue then child else q.async_runqueue
    async_runqueue_last :=
      if u_request = q.async_runqueue_last then parent else q.async_runqueue_last }

/-- The entry is made and linked behind the last one. -/
def append (q : RunQueue ρ) (wsgi_req : ρ) : RunQueue ρ :=
  let uar := q.brk
  let next := Function.update q.next uar 0
  { next :=
      if q.async_runqueue_last ≠ 0 then Function.update next q.async_runqueue_last uar else next
    prev := Function.update q.prev uar (if q.async_runqueue = 0 then 0 else q.async_runqueue_last)
    wsgi_req := Function.update q.wsgi_req uar (some wsgi_req)
    async_runqueue := if q.async_runqueue = 0 then uar else q.async_runqueue
    async_runqueue_last := uar
    brk := q.brk + 1 }

section functions

variable [DecidableEq ρ]

def runqueue_push (q : RunQueue ρ) (wsgi_req : ρ) : RunQueue ρ :=
  -- the same request is not pushed twice
  if find q.next (fun uar => q.wsgi_req uar = some wsgi_req) q.brk q.async_runqueue ≠ 0 then q
  else q.append wsgi_req

/-- What happens at an entry in the walk of `async_loop`: the requests that are pushed meanwhile,
    and whether the entry is removed behind it. -/
structure Visit (ρ : Type) where
  pushes : List ρ
  ended : Bool

/-- The walk from `current_request` on. -/
def walk (q : RunQueue ρ) (current_request : Nat) : List (Visit ρ) → RunQueue ρ
  | [] => q
  | visit :: visits =>
      if current_request = 0 then q
      else
        let next_request := q.next current_request
        let q := visit.pushes.foldl runqueue_push q
        let q := if visit.ended then q.runqueue_remove current_request else q
        walk q next_request visits

inductive Op (ρ : Type) where
  | push (wsgi_req : ρ)
  | remove (u_request : Nat)
  | walk (visits : List (Visit ρ))

def step (q : RunQueue ρ) : Op ρ → Option (RunQueue ρ)
  | .push wsgi_req => some (q.runqueue_push wsgi_req)
  | .remove u_request => some (q.runqueue_remove u_request)
  | .walk visits => some (q.walk q.async_runqueue visits)

/-- Only queued entries are removed. -/
def Allowed (q : RunQueue ρ) : Op ρ → Prop
  | .remove u_request =>
      u_request ≠ 0 ∧ find q.next (fun uar => uar = u_request) q.brk q.async_runqueue = u_request
  | _ => True

end functions

/-! ### The queue as a list -/

/-- The queue has the entries `l`: they are linked in this order, no request is there twice, and
    an entry stands behind those inserted before it. -/
structure Holds (q : RunQueue ρ) (l : List Nat) : Prop where
  links : IsList q.next q.prev q.async_runqueue q.async_runqueue_last l
  once : (l.map q.wsgi_req).Nodup
  order : l.Pairwise (· < ·)
  below : ∀ uar ∈ l, uar < q.brk
  brk_pos : 0 < q.brk

variable {q : RunQueue ρ} {l : List Nat}

theorem holds_empty : Holds (empty : RunQueue ρ) [] :=
  ⟨⟨trivial, rfl, rfl, nodup_nil⟩, nodup_nil, .nil, nofun, Nat.one_pos⟩

theorem Holds.find_eq (h : Holds q l) (p : Nat → Bool) :
    find q.next p q.brk q.async_runqueue = (l.find? p).getD 0 := by
  rw [h.links.head]
  apply h.links.seg.find_eq
  have hsub : l ⊆ List.range q.brk := fun uar huar => mem_range.mpr (h.below uar huar)
  have hle := (h.links.nodup.subperm hsub).length_le
  rwa [length_range] at hle

theorem Holds.append (h : Holds q l) {wsgi_req : ρ} (hmem : some wsgi_req ∉ l.map q.wsgi_req) :
    Holds (q.append wsgi_req) (l ++ [q.brk]) := by
  have hnot : q.brk ∉ l := fun huar => Nat.lt_irrefl _ (h.below _ huar)
  have hends : q.async_runqueue = 0 ↔ q.async_runqueue_last = 0 := h.links.head_eq_zero_iff
  refine ⟨?_, ?_, ?_, ?_, Nat.succ_pos _⟩
  · apply h.links.snoc (Nat.ne_of_gt h.brk_pos) hnot
    · intro j hj hzero
      simp only [RunQueue.append]
      by_cases htail : j = q.async_runqueue_last
      · rw [htail] at hzero ⊢
        rw [if_pos hzero, update_self, if_pos rfl]
      · rw [if_neg htail]
        split_ifs
        · rw [update_of_ne htail, update_of_ne hj]
        · exact update_of_ne hj _ _
    · exact fun j hj => update_of_ne hj _ _
    · simp only [RunQueue.append]
      split_ifs with hzero
      · rw [h.links.tail] at hzero ⊢
        have hlast : l.getLastD 0 ∈ l := getLastD_mem (by rintro rfl; exact hzero rfl) 0
        rw [update_of_ne (ne_of_mem_of_not_mem hlast hnot).symm, update_self]
      · exact update_self _ _ _
    · simp only [RunQueue.append, update_self]
      split_ifs with hhead
      · exact (hends.mp hhead).symm
      · rfl
    · exact if_congr hends rfl rfl
  · have hmap : l.map (q.append wsgi_req).wsgi_req = l.map q.wsgi_req :=
      map_congr_left fun _ huar => update_of_ne (ne_of_mem_of_not_mem huar hnot) _ _
    have hnew : (q.append wsgi_req).wsgi_req q.brk = some wsgi_req := update_self _ _ _
    rw [map_append, hmap, map_singleton, hnew]
    exact h.once.append (nodup_singleton _) (disjoint_singleton.mpr hmem)
  · rw [pairwise_append]
    refine ⟨h.order, pairwise_singleton _ _, fun uar huar _ hnew => ?_⟩
    exact mem_singleton.mp hnew ▸ h.below uar huar
  · intro uar huar
    rcases mem_append.mp huar with huar | huar
    · exact Nat.lt_succ_of_lt (h.below uar huar)
    · rw [mem_singleton.mp huar]
      exact Nat.lt_succ_self _

/-- A removal takes out one entry. -/
theorem Holds.remove (h : Holds q l) {u_request : Nat} (hmem : u_request ∈ l) :
    Holds (q.runqueue_remove u_request) (l.erase u_request) := by
  have hsub : (l.erase u_request).Sublist l := erase_sublist
  refine ⟨?_, h.once.sublist (hsub.map _), h.order.sublist hsub,
    fun uar huar => h.below uar (hsub.subset huar), h.brk_pos⟩
  refine h.links.erase ?_ ?_ hmem ?_ ?_
  · intro j hj
    simp only [runqueue_remove]
    split_ifs with h₁ h₂ h₃ <;> simp_all
  · intro j hj
    simp only [runqueue_remove]
    split_ifs with h₁ h₂ h₃ <;> simp_all
  · exact if_congr (h.links.eq_head_iff hmem) rfl rfl
  · exact if_congr (h.links.eq_tail_iff hmem) rfl rfl

variable [DecidableEq ρ]

/-- The search at the beginning of a push sees whether the request is queued. -/
theorem Holds.find_request (h : Holds q l) (wsgi_req : ρ) :
    find q.next (fun uar => q.wsgi_req uar = some wsgi_req) q.brk q.async_runqueue ≠ 0 ↔
      some wsgi_req ∈ l.map q.wsgi_req := by
  rw [h.find_eq, mem_map]
  cases hfind : l.find? (fun uar => q.wsgi_req uar = some wsgi_req) with
  | none =>
    refine iff_of_false (fun hne => hne rfl) ?_
    rintro ⟨uar, huar, hreq⟩
    exact absurd (decide_eq_true hreq) (find?_eq_none.mp hfind uar huar)
  | some uar =>
    have huar := mem_of_find?_eq_some hfind
    have hreq : q.wsgi_req uar = some wsgi_req := by simpa using find?_some hfind
    exact iff_of_true (h.links.seg.ne_zero huar) ⟨uar, huar, hreq⟩

/-- A push appends an entry, unless the request is queued. -/
theorem Holds.push (h : Holds q l) (wsgi_req : ρ) :
    ∃ l', Holds (q.runqueue_push wsgi_req) l' ∧ l ⊆ l' := by
  unfold runqueue_push
  simp only [h.find_request wsgi_req]
  by_cases hmem : some wsgi_req ∈ l.map q.wsgi_req
  · rw [if_pos hmem]
    exact ⟨l, h, Subset.refl l⟩
  · rw [if_neg hmem]
    exact ⟨_, h.append hmem, subset_append_left l _⟩

/-! ### Runs -/

theorem Holds.pushes (h : Holds q l) (reqs : List ρ) :
    ∃ l', Holds (reqs.foldl runqueue_push q) l' ∧ l ⊆ l' := by
  induction reqs generalizing q l with
  | nil => exact ⟨l, h, Subset.refl l⟩
  | cons req reqs ih =>
    obtain ⟨l₁, h₁, hsub₁⟩ := h.push req
    obtain ⟨l₂, h₂, hsub₂⟩ := ih h₁
    exact ⟨l₂, h₂, Subset.trans hsub₁ hsub₂⟩

/-- The walk stays on the list: the link is read before the pushes and before the removal of the
    entry, and no other entry is removed. -/
theorem Holds.walk (h : Holds q l) (visits : List (Visit ρ)) {current_request : Nat}
    (hcur : current_request = 0 ∨ current_request ∈ l) :
    ∃ l', Holds (q.walk current_request visits) l' := by
  induction visits generalizing q l current_request with
  | nil => exact ⟨l, h⟩
  | cons visit visits ih =>
    unfold RunQueue.walk
    by_cases hzero : current_request = 0
    · exact ⟨l, by rwa [if_pos hzero]⟩
    rw [if_neg hzero]
    have hmem := hcur.resolve_left hzero
    obtain ⟨_, hnext, _, hne⟩ := h.links.seg.neighbours h.links.nodup hmem
    obtain ⟨l', hl', hsub⟩ := h.pushes visit.pushes
    have hnext' := hnext.imp_right (hsub ·)
    dsimp only
    cases visit.ended with
    | false => exact ih hl' hnext'
    | true => exact ih (hl'.remove (hsub hmem)) (hnext'.imp_right (mem_erase_of_ne hne).mpr)

/-- **The run queue.**  Whatever is pushed, removed and walked over, the queue is a doubly linked
    list between the two pointers, with each request once and in the order of the pushes that
    inserted them. -/
theorem run_queue_linked {q : RunQueue ρ}
    (h : Machine.ReachableVia step (fun q op => q.Allowed op) empty q) : ∃ l, Holds q l := by
  refine h.invariant (fun q => ∃ l, Holds q l) ⟨[], holds_empty⟩ ?_
  rintro q op q' ⟨l, h⟩ hok hstep
  cases op with
  | push wsgi_req =>
    cases hstep
    obtain ⟨l', hl', _⟩ := h.push wsgi_req
    exact ⟨l', hl'⟩
  | remove u_request =>
    cases hstep
    obtain ⟨hzero, hfind⟩ := hok
    refine ⟨_, h.remove ?_⟩
    rw [h.find_eq] at hfind
    cases hsome : l.find? (fun uar => uar = u_request) with
    | none => exact absurd (hsome ▸ hfind).symm hzero
    | some uar =>
      rw [hsome] at hfind
      exact hfind ▸ mem_of_find?_eq_some hsome
  | walk visits =>
    cases hstep
    apply h.walk
    rw [h.links.head]
    cases l with
    | nil => exact .inl rfl
    | cons uar l => exact .inr mem_cons_self

/-- The first entry pushes a request and ends; its request comes back behind the others. -/
theorem run_queue_linked_walked : ∃ l, Holds
    ((((empty.runqueue_push 7).runqueue_push 8).walk 1 [⟨[9, 7], true⟩]).runqueue_push 7) l :=
  run_queue_linked (.step (.push 7) (.step (.walk [⟨[9, 7], true⟩]) (.step (.push 8)
    (.step (.push 7) .init trivial rfl) trivial rfl) trivial rfl) trivial rfl)

end RunQueue

end Upsgi
