import Upsgi.Cache.Runs

/-! # The LRU order over a run

    With LRU purge the items in use are in a doubly linked list.  The list is
    well formed after every run.  It is ordered by the last uses of the items,
    except that an update that fails for lack of blocks has already moved its
    item to the end.  `cache_full` evicts the first item of the list; with
    `sweep_on_full` or `clear_on_full` it goes on to remove others.
-/

namespace Upsgi

open Framing (Bytes)
open DoublyLinked (IsList)
open List

/-! ### Last uses -/

instance (cfg : CacheConfig) (now : Nat) (c : CacheState) (k : Bytes) (op : CacheOp) :
    Decidable (Uses cfg now c k op) :=
  match op with
  | .set key val expires flags =>
      inferInstanceAs (Decidable (SetsKey cfg now c k (.set key val expires flags) ∧
        (flags.fixexpire = false ∨ ∀ it, c.find cfg k = some it → ¬ Fresh cfg now it)))
  | .get2 key => inferInstanceAs (Decidable (key = k ∧ (upsgi_cache_get2 cfg now key c).2 ≠ none))
  | .get3 key => inferInstanceAs (Decidable (key = k ∧ (upsgi_cache_get3 cfg now key c).2 ≠ none))
  | .del _ | .get4 _ | .num2 _ | .exists2 _ | .sweep | .sweepSlot _ => isFalse id

/-- The number of operations, and for each key the number of the last one that
    was a use of it. -/
def useNote (cfg : CacheConfig) (now : Nat) (c : CacheState) (op : CacheOp)
    (uses : Nat × (Bytes → Nat)) : Nat × (Bytes → Nat) :=
  (uses.1 + 1, fun k => if Uses cfg now c k op then uses.1 + 1 else uses.2 k)

/-- The last use of each key in a run. -/
def lastUse (cfg : CacheConfig) (run : List (Nat × CacheOp)) : Bytes → Nat :=
  (notedRun cfg (useNote cfg) (upsgi_cache_init cfg) (0, fun _ => 0) run).2

/-- Free blocks for `len` bytes, from the place where the search begins, or
    before the end of the byte of that place. -/
def BlocksFit (cfg : CacheConfig) (c : CacheState) (len : Nat) : Prop :=
  ∃ first, FreeBlocks c.blocks_bitmap first (first + neededBlocks cfg.blocksize len) ∧
    first + neededBlocks cfg.blocksize len ≤ cfg.blocks ∧
    (c.blocks_bitmap_pos ≤ first ∨
      first + neededBlocks cfg.blocksize len ≤ (c.blocks_bitmap_pos + 7) / 8 * 8)

/-- An update that gives the key an expiry has blocks. -/
def FittingUpdate (cfg : CacheConfig) (now : Nat) (c : CacheState) : CacheOp → Prop
  | .set key val _ flags =>
      cfg.use_blocks_bitmap = true → flags.update = true → flags.fixexpire = false →
        (∃ it, c.find cfg key = some it ∧ Fresh cfg now it) → BlocksFit cfg c val.length
  | _ => True

section Search

variable {cfg : CacheConfig} {c : CacheState} {order : List Bytes} {now : Nat}

/-- The search finds blocks that fit. -/
theorem Holds.findBlocks_of_fits (h : Holds cfg c order) {len : Nat} (hlen : 0 < len)
    (hfits : BlocksFit cfg c len) : findBlocks cfg len c ≠ none := by
  obtain ⟨_, hinv, _⟩ := h
  have hpos := hinv.blocks.pos
  have hsize : cfg.blocks ≤ cfg.blocks_bitmap_size * 8 := by
    unfold CacheConfig.blocks_bitmap_size
    split <;> omega
  obtain ⟨first, hfree, hinside, hplace⟩ := hfits
  intro hnone
  obtain ⟨hbehind, hbefore⟩ := upsgi_cache_find_free_blocks_none (by omega)
    (neededBlocks_pos cfg.blocksize_pos hlen) hnone
  rcases hplace with hle | hle
  · exact hbehind first hle (by omega) hfree
  · exact hbefore first (Nat.zero_le _) hle hfree

theorem Holds.not_updateFails (h : Holds cfg c order) {op : CacheOp} (hfit : FittingUpdate cfg now c op) :
    ¬ UpdateFails cfg now c op := by
  cases op with
  | set key val expires flags =>
    rintro ⟨huse, hflag, hfix, hok, hseen, hnone⟩
    exact h.findBlocks_of_fits hok.val_pos (hfit huse hflag hfix hseen) hnone
  | del key | get2 key | get3 key | get4 key | num2 key | exists2 key | sweep
  | sweepSlot i => exact id

end Search

/-! ### The order of uses -/

/-- The keys are in the order of their last uses, of which there were `n` at
    most. -/
structure Aged (order : List Bytes) (n : Nat) (uses : Bytes → Nat) : Prop where
  sorted : order.Pairwise fun k k' => uses k < uses k'
  bound : ∀ k ∈ order, uses k ≤ n

theorem Aged.sublist {order order' : List Bytes} {n : Nat} {uses : Bytes → Nat} (h : Aged order n uses)
    (hsub : order'.Sublist order) : Aged order' n uses :=
  ⟨h.sorted.sublist hsub, fun k hk => h.bound k (hsub.subset hk)⟩

section Order

variable {cfg : CacheConfig} {c : CacheState} {op : CacheOp} {now : Nat} {order order' : List Bytes}
  {uses : Nat × (Bytes → Nat)}

theorem Aged.step (h : Aged order uses.1 uses.2) (hcase : OrderCase cfg now c op order order')
    (hfails : ¬ UpdateFails cfg now c op) :
    Aged order' (useNote cfg now c op uses).1 (useNote cfg now c op uses).2 := by
  unfold useNote
  cases hcase with
  | kept _ hsub huse =>
    have hsame : (fun k => if Uses cfg now c k op then uses.1 + 1 else uses.2 k) = uses.2 := by
      funext k
      exact if_neg (huse k)
    rw [hsame]
    exact ⟨(h.sublist hsub).sorted, fun k hk => Nat.le_succ_of_le ((h.sublist hsub).bound k hk)⟩
  | used k l hsub hnot huse =>
    have hl := h.sublist hsub
    -- the key that is used is the last one, and the other uses are older
    have hold : ∀ k' ∈ l, (if Uses cfg now c k' op then uses.1 + 1 else uses.2 k') = uses.2 k' := by
      intro k' hk'
      apply if_neg
      rw [huse]
      rintro rfl
      exact hnot hk'
    have hnew : (if Uses cfg now c k op then uses.1 + 1 else uses.2 k) = uses.1 + 1 :=
      if_pos ((huse k).mpr rfl)
    refine ⟨?_, ?_⟩
    · rw [pairwise_append]
      dsimp only
      refine ⟨?_, pairwise_singleton _ _, ?_⟩
      · apply hl.sorted.imp_of_mem
        intro a b ha hb hlt
        rw [hold a ha, hold b hb]
        exact hlt
      · intro a ha b hb
        rw [mem_singleton.mp hb, hold a ha, hnew]
        exact Nat.lt_succ_of_le (hl.bound a ha)
    · intro a ha
      dsimp only
      rcases mem_append.mp ha with ha | ha
      · rw [hold a ha]
        exact Nat.le_succ_of_le (hl.bound a ha)
      · rw [mem_singleton.mp ha, hnew]
  | failed _ hfail => exact absurd hfail hfails

/-- The cache has an order by last uses. -/
def AgedCache (cfg : CacheConfig) (c : CacheState) (uses : Nat × (Bytes → Nat)) : Prop :=
  ∃ order, Holds cfg c order ∧ Aged order uses.1 uses.2

theorem AgedCache.step (hpurge : cfg.purge_lru = true) (h : AgedCache cfg c uses)
    (hfit : FittingUpdate cfg now c op) :
    AgedCache cfg (cacheStep cfg now c op) (useNote cfg now c op uses) := by
  obtain ⟨order, hholds, haged⟩ := h
  obtain ⟨order', hholds', hcase⟩ := cacheStep_order hholds now op
  exact ⟨order', hholds', haged.step (hcase hpurge) (hholds.not_updateFails hfit)⟩

theorem agedCache_init (cfg : CacheConfig) : AgedCache cfg (upsgi_cache_init cfg) (0, fun _ => 0) :=
  ⟨[], upsgi_cache_init_holds cfg, List.Pairwise.nil, nofun⟩

/-! ### Evictions -/

/-- The states in which `cache_full` is called have the same order, up to what
    was removed. -/
theorem fullCalls_order (h : Holds cfg c order) (now : Nat) (op : CacheOp)
    (hfails : ¬ UpdateFails cfg now c op) :
    ∀ e ∈ fullCalls cfg now c op, ∃ order', Holds cfg e order' ∧ order'.Sublist order := by
  cases op with
  | set key val expires flags =>
    have hcase := upsgi_cache_set2_cases h now key val expires flags
    generalize fullCalls cfg now c (.set key val expires flags) = calls at hcase ⊢
    generalize upsgi_cache_set2 cfg now key val expires flags c = result at hcase
    cases hcase with
    | refused _ | present _ _ _ _ => nofun
    | update it _ _ hok hfind hfresh hflag hcase =>
      cases hcase with
      | updated _ _ => nofun
      | noBlocks d huse hnone hrefreshes =>
        intro e he
        rw [mem_singleton.mp he]
        -- only the item with its old expiry keeps its place
        have hfix : flags.fixexpire = true := by
          by_contra hfix
          exact hfails ⟨huse, hflag, Bool.eq_false_iff.mpr hfix, hok, ⟨it, hfind, hfresh⟩, hnone⟩
        have hd := hrefreshes.holds order h
        unfold refreshedOrder at hd
        rw [if_neg fun hand => Bool.false_ne_true (hand.2.symm.trans hfix)] at hd
        exact ⟨order, hd, List.Sublist.refl order⟩
    | insert c₀ _ _ hok hmiss hcase =>
      have h₀ := hmiss.removes.holds order h
      have hroomy : ∀ {c₁ : CacheState} {calls : List CacheState}, MakesRoom cfg now c₀ c₁ calls →
          ∀ e ∈ calls, ∃ order', Holds cfg e order' ∧ order'.Sublist order := by
        intro c₁ calls hroom e he
        cases hroom with
        | unused _ => exact absurd he not_mem_nil
        | full _ =>
          rw [mem_singleton.mp he]
          exact ⟨_, h₀, filter_sublist⟩
      cases hcase with
      | full _ _ hroom _ | stored _ _ _ hroom _ => exact hroomy hroom
      | noBlocks c₁ c₂ calls hroom _ hholds =>
        intro e he
        rcases mem_append.mp he with he | he
        · exact hroomy hroom e he
        · rw [mem_singleton.mp he]
          exact ⟨_, hholds _ ((hroom.removes h₀).holds _ h₀), filter_sublist.trans filter_sublist⟩
  | del key | get2 key | get3 key | get4 key | num2 key | exists2 key | sweep | sweepSlot i => nofun

/-- `cache_full` that only purges. -/
theorem cache_full_purge (hsweep : cfg.sweep_on_full = 0) (hclear : cfg.clear_on_full = false)
    (now : Nat) (c : CacheState) :
    cache_full cfg now c =
      if cfg.purge_lru = true ∧ c.lru_head ≠ 0 then delItem cfg c.lru_head c else c := by
  unfold cache_full
  simp [hsweep, hclear]

/-- It evicts the first key of the order. -/
theorem Holds.evicts_first (h : Holds cfg c order) (hpurge : cfg.purge_lru = true)
    (hsweep : cfg.sweep_on_full = 0) (hclear : cfg.clear_on_full = false) {k : Bytes}
    (hsome : c.find cfg k ≠ none) (hnone : (cache_full cfg now c).find cfg k = none) :
    ∃ rest, order = k :: rest := by
  obtain ⟨lru, hinv, horder⟩ := id h
  have hlist := hinv.list hpurge
  have hhead := hlist.head
  rw [cache_full_purge hsweep hclear] at hnone
  cases lru with
  | nil =>
    rw [if_neg (fun hand => hand.2 hhead)] at hnone
    exact absurd hnone hsome
  | cons i rest =>
    have hi : c.lru_head = i := hhead
    have hlive : c.key i ≠ [] := (hinv.lru_mem hpurge i).mp mem_cons_self
    rw [hi, if_pos ⟨hpurge, hlist.seg.ne_zero mem_cons_self⟩, (h.del hlive).2] at hnone
    refine ⟨rest.map c.key, ?_⟩
    rw [horder hpurge, map_cons]
    congr 1
    -- no other key is lost
    by_contra hne
    rw [Function.update_of_ne fun heq => hne heq.symm] at hnone
    exact hsome hnone

end Order

/-- After every run of a cache with LRU purge the list is that of the live items.
    When all updates fit, it is ordered by the last uses, and an eviction by
    `cache_full`, if this does nothing else, is that of the key whose last use is
    the oldest. -/
theorem cache_lru_of_run (cfg : CacheConfig) (hpurge : cfg.purge_lru = true)
    (run : List (Nat × CacheOp)) :
    (∃ lru : List Nat,
      IsList (cacheRun cfg (upsgi_cache_init cfg) run).lru_next
          (cacheRun cfg (upsgi_cache_init cfg) run).lru_prev
          (cacheRun cfg (upsgi_cache_init cfg) run).lru_head
          (cacheRun cfg (upsgi_cache_init cfg) run).lru_tail lru ∧
        (∀ i, i ∈ lru ↔ (0 < i ∧ i < cfg.max_items) ∧
          (cacheRun cfg (upsgi_cache_init cfg) run).key i ≠ []) ∧
        (EachStep cfg (FittingUpdate cfg) (upsgi_cache_init cfg) run →
          lru.Pairwise fun i j =>
            lastUse cfg run ((cacheRun cfg (upsgi_cache_init cfg) run).key i) <
              lastUse cfg run ((cacheRun cfg (upsgi_cache_init cfg) run).key j))) ∧
      (EachStep cfg (FittingUpdate cfg) (upsgi_cache_init cfg) run → cfg.sweep_on_full = 0 →
        cfg.clear_on_full = false → ∀ (now : Nat) (op : CacheOp),
        FittingUpdate cfg now (cacheRun cfg (upsgi_cache_init cfg) run) op →
        ∀ e ∈ fullCalls cfg now (cacheRun cfg (upsgi_cache_init cfg) run) op, ∀ k k' : Bytes,
          e.find cfg k ≠ none → (cache_full cfg now e).find cfg k = none →
          e.find cfg k' ≠ none → k' ≠ k → lastUse cfg run k < lastUse cfg run k') := by
  have haged : EachStep cfg (FittingUpdate cfg) (upsgi_cache_init cfg) run →
      ∃ order, Holds cfg (cacheRun cfg (upsgi_cache_init cfg) run) order ∧
        order.Pairwise fun k k' => lastUse cfg run k < lastUse cfg run k' := by
    intro hfit
    obtain ⟨order, hholds, hsorted, _⟩ := notedRun_invariant
      (fun now c op uses hok h => AgedCache.step hpurge h hok) run hfit (agedCache_init cfg)
    exact ⟨order, hholds, hsorted⟩
  obtain ⟨_, lru, hinv, _⟩ := cacheRun_holds (upsgi_cache_init_holds cfg) run
  generalize cacheRun cfg (upsgi_cache_init cfg) run = c at haged hinv ⊢
  refine ⟨⟨lru, hinv.list hpurge, ?_, ?_⟩, ?_⟩
  · intro i
    rw [hinv.lru_mem hpurge]
    exact ⟨fun hi => ⟨hinv.keys.slot i hi, hi⟩, fun hand => hand.2⟩
  · intro hfit
    obtain ⟨order, ⟨lru', hinv', horder⟩, hsorted⟩ := haged hfit
    -- the links give only one list
    obtain rfl : lru' = lru := (hinv'.list hpurge).unique (hinv.list hpurge)
    rw [horder hpurge, pairwise_map] at hsorted
    exact hsorted
  · intro hfit hsweep hclear now op hop e he k k' hsome hnone hsome' hne
    obtain ⟨order, hholds, hsorted⟩ := haged hfit
    obtain ⟨order', hholds', hsub⟩ := fullCalls_order hholds now op (hholds.not_updateFails hop) e he
    obtain ⟨rest, rfl⟩ := hholds'.evicts_first hpurge hsweep hclear hsome hnone
    have hmem := (hholds'.mem_order hpurge k').mpr hsome'
    have hrest : k' ∈ rest := (mem_cons.mp hmem).resolve_left hne
    exact rel_of_pairwise_cons (hsorted.sublist hsub) hrest

/-- A cache with LRU purge that has two items and three blocks. -/
def lruCache : CacheConfig where
  keysize := 16
  blocks := 3
  blocksize := 1
  hash := fun _ => 0
  hashsize := 1
  max_items := 3
  use_blocks_bitmap := true
  purge_lru := true
  lazy_expire := false
  sweep_on_full := 0
  clear_on_full := false
  no_expire := false
  math_initial := 0
  blocksize_pos := Nat.one_pos
  hashsize_pos := Nat.one_pos
  max_items_pos := Nat.succ_pos 2
  items_le_blocks := by decide

/-- Two keys are stored, and the first one is read. -/
def lruRun : List (Nat × CacheOp) :=
  [(0, .set [1] [7] 0 {}), (0, .set [2] [7, 7] 0 {}), (0, .get2 [1])]

/-- A third key takes the place of the second one. -/
theorem cache_lru_of_run_third :
    (∃ e ∈ fullCalls lruCache 0 (cacheRun lruCache (upsgi_cache_init lruCache) lruRun)
        (.set [3] [7] 0 {}),
      e.find lruCache [2] ≠ none ∧ (cache_full lruCache 0 e).find lruCache [2] = none ∧
        e.find lruCache [1] ≠ none) ∧
      lastUse lruCache lruRun [2] < lastUse lruCache lruRun [1] := by
  have hcall : ∃ e ∈ fullCalls lruCache 0 (cacheRun lruCache (upsgi_cache_init lruCache) lruRun)
        (.set [3] [7] 0 {}),
      e.find lruCache [2] ≠ none ∧ (cache_full lruCache 0 e).find lruCache [2] = none ∧
        e.find lruCache [1] ≠ none := by decide +kernel
  refine ⟨hcall, ?_⟩
  obtain ⟨e, he, hsome, hnone, hsome'⟩ := hcall
  have hfit : EachStep lruCache (FittingUpdate lruCache) (upsgi_cache_init lruCache) lruRun :=
    ⟨nofun, nofun, trivial, trivial⟩
  exact (cache_lru_of_run lruCache rfl lruRun).2 hfit rfl rfl 0 (.set [3] [7] 0 {})
    nofun e he [2] [1] hsome hnone hsome' (by decide)

/-- The two keys fill the blocks.  An update of the first one fails, but the key
    has become the last one, and `cache_full` evicts the second one, which was
    used after it. -/
theorem cache_lru_failed_update :
    (upsgi_cache_set2 lruCache 0 [1] [8] 0 { update := true }
        (cacheRun lruCache (upsgi_cache_init lruCache) (lruRun.take 2))).2 = -1 ∧
      (∃ e ∈ fullCalls lruCache 0 (cacheRun lruCache (upsgi_cache_init lruCache) (lruRun.take 2))
          (.set [1] [8] 0 { update := true }),
        e.find lruCache [2] ≠ none ∧ (cache_full lruCache 0 e).find lruCache [2] = none ∧
          e.find lruCache [1] ≠ none) ∧
      lastUse lruCache (lruRun.take 2) [1] < lastUse lruCache (lruRun.take 2) [2] := by
  decide +kernel

end Upsgi
