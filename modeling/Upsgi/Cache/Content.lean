import Upsgi.Cache.Runs

/-! # The representation and the content of a cache over a run

    After every run from an empty cache its structures fit together: each item is
    on the stack or in the chain of its hash, and the blocks that are marked are
    those of the items.  What is read from the cache is then what was stored
    last, as long as it was not deleted, evicted or expired.  Two kinds of `set`
    are excepted.  An item with the flag `ungettable` is there but is not read.
    A number that is updated in a cache with a bitmap is moved to other blocks
    first, and the new number is computed from what was in these.
-/

namespace Upsgi

open Framing (Bytes)
open DoublyLinked (Seg)
open List

/-! ### The representation -/

/-- The structures of a cache, with the items in the chain of each hash. -/
structure Represented (cfg : CacheConfig) (c : CacheState) (chains : Nat → List Nat) : Prop where
  /-- The links of the chains are consistent in both directions. -/
  linked : ∀ h, h < cfg.hashsize →
    Seg c.next c.prev 0 (chains h) 0 ∧ c.hashtable h = (chains h).headD 0
  /-- Each item is once on the stack, or once in the chain of its hash. -/
  placed : ∀ i, 0 < i → i < cfg.max_items →
    (c.unused.count i = 1 ∧ ∀ h, h < cfg.hashsize → i ∉ chains h) ∨
      (c.unused.count i = 0 ∧ (chains (c.hash i % cfg.hashsize)).count i = 1 ∧
        c.hash i = cfg.hash (c.key i) ∧
        ∀ h, h < cfg.hashsize → i ∈ chains h → h = c.hash i % cfg.hashsize)
  /-- There are no other items. -/
  items : (∀ i ∈ c.unused, 0 < i ∧ i < cfg.max_items) ∧
    ∀ h, h < cfg.hashsize → ∀ i ∈ chains h, 0 < i ∧ i < cfg.max_items
  counted : c.n_items = ((List.range cfg.hashsize).flatMap chains).length
  unique : ∀ i ∈ (List.range cfg.hashsize).flatMap chains,
    ∀ j ∈ (List.range cfg.hashsize).flatMap chains, c.key i = c.key j → i = j
  /-- The blocks of the chained items are inside, disjoint, and with the padding
      those that are marked. -/
  blocks : cfg.use_blocks_bitmap = true →
    (∀ i ∈ (List.range cfg.hashsize).flatMap chains,
      c.first_block i + neededBlocks cfg.blocksize (c.valsize i) ≤ cfg.blocks) ∧
    (∀ i ∈ (List.range cfg.hashsize).flatMap chains, ∀ j ∈ (List.range cfg.hashsize).flatMap chains,
      ∀ block, Occupies cfg.blocksize c.first_block c.valsize i block →
        Occupies cfg.blocksize c.first_block c.valsize j block → i = j) ∧
    ∀ block, block < cfg.blocks_bitmap_size * 8 → (blockUsed c.blocks_bitmap block = true ↔
      cfg.blocks ≤ block ∨ ∃ i ∈ (List.range cfg.hashsize).flatMap chains,
        Occupies cfg.blocksize c.first_block c.valsize i block)

section Representation

variable {cfg : CacheConfig} {c : CacheState} {lru : List Nat} {chains : Nat → List Nat}

section

variable (h : ChainRep cfg.hashsize c.key c.hash c.prev c.next c.hashtable chains)
include h

/-- The chained items are those in use. -/
theorem ChainRep.mem_all (i : Nat) :
    i ∈ (List.range cfg.hashsize).flatMap chains ↔ c.key i ≠ [] := by
  rw [mem_flatMap]
  constructor
  · rintro ⟨a, _, hmem⟩
    exact ((h.mem a i).mp hmem).1
  · intro hi
    refine ⟨c.hash i % cfg.hashsize, ?_, (h.mem _ i).mpr ⟨hi, rfl⟩⟩
    exact mem_range.mpr (Nat.mod_lt _ cfg.hashsize_pos)

theorem ChainRep.nodup_all :
    ((List.range cfg.hashsize).flatMap chains).Nodup := by
  rw [nodup_flatMap]
  refine ⟨fun a _ => h.nodup a, ?_⟩
  apply nodup_range.imp
  intro a b hne i hia hib
  exact h.apart hne i hia hib

end

section

variable (h : CacheInv cfg c lru)
    (hchains : ChainRep cfg.hashsize c.key c.hash c.prev c.next c.hashtable chains)
include h hchains

/-- The chained items and the stack are all the items. -/
theorem CacheInv.counted :
    c.n_items = ((List.range cfg.hashsize).flatMap chains).length := by
  have hnodup : ((List.range cfg.hashsize).flatMap chains ++ c.unused).Nodup := by
    rw [nodup_append]
    refine ⟨hchains.nodup_all, h.stack.nodup, ?_⟩
    rintro i hi _ hj rfl
    exact (hchains.mem_all i).mp hi ((h.stack.mem i).mp hj).2
  have hperm : ((List.range cfg.hashsize).flatMap chains ++ c.unused).Perm cfg.slots := by
    rw [perm_ext_iff_of_nodup hnodup (nodup_slots cfg)]
    intro i
    rw [mem_append, hchains.mem_all, h.stack.mem, mem_slots]
    by_cases hi : c.key i = []
    · rw [hi]
      simp
    · exact iff_of_true (.inl hi) (h.keys.slot i hi)
  have hlength := hperm.length_eq
  rw [length_append, CacheConfig.slots, length_range'] at hlength
  have hcount := h.stack.count
  omega

theorem CacheInv.represented :
    Represented cfg c chains where
  linked := fun a _ => ⟨hchains.seg a, hchains.head a⟩
  placed := by
    intro i hpos hlt
    by_cases hi : c.key i = []
    · -- an item that is not in use is on the stack
      have hmem : i ∈ c.unused := (h.stack.mem i).mpr ⟨⟨hpos, hlt⟩, hi⟩
      refine .inl ⟨count_eq_one_of_mem h.stack.nodup hmem, ?_⟩
      exact fun a _ hin => ((hchains.mem a i).mp hin).1 hi
    · have hmem : i ∈ chains (c.hash i % cfg.hashsize) := (hchains.mem _ i).mpr ⟨hi, rfl⟩
      refine .inr ⟨?_, count_eq_one_of_mem (hchains.nodup _) hmem, h.keys.hashes i hi, ?_⟩
      · exact count_eq_zero_of_not_mem fun hin => hi ((h.stack.mem i).mp hin).2
      · exact fun a _ hin => ((hchains.mem a i).mp hin).2.symm
  items :=
    ⟨fun i hi => ((h.stack.mem i).mp hi).1,
      fun a _ i hi => h.keys.slot i ((hchains.mem a i).mp hi).1⟩
  counted := h.counted hchains
  unique := by
    intro i hi j _ heq
    exact h.keys.unique i j ((hchains.mem_all i).mp hi) heq
  blocks := by
    intro huse
    refine ⟨?_, ?_, ?_⟩
    · exact fun i hi => h.blocks.inside i ((hchains.mem_all i).mp hi)
    · intro i hi j hj block
      exact h.blocks.apart i j block ((hchains.mem_all i).mp hi) ((hchains.mem_all j).mp hj)
    · intro block hblock
      rw [h.blocks.used huse block hblock]
      simp only [hchains.mem_all]

end

end Representation

/-! ### The content -/

/-- The key is removed because its time is over. -/
def ExpiresKey (cfg : CacheConfig) (now : Nat) (c : CacheState) (k : Bytes) (op : CacheOp) : Prop :=
  (∃ it ∈ c.find cfg k, it.Due now) ∧ (cacheStep cfg now c op).find cfg k = none

instance (cfg : CacheConfig) (now : Nat) (c : CacheState) (k : Bytes) (op : CacheOp) :
    Decidable (ExpiresKey cfg now c k op) :=
  inferInstanceAs (Decidable ((∃ it ∈ c.find cfg k, it.Due now) ∧
    (cacheStep cfg now c op).find cfg k = none))

/-- The value that a `set` stores, when `old` is the value that is there.  A
    number is changed from the one that is there, or else from `math_initial`. -/
def valueOfSet (cfg : CacheConfig) (old : Option Bytes) : CacheOp → Option Bytes
  | .set _ val _ flags =>
      let num :=
        match old with
        | some value => int64 (value.take 8)
        | none => cfg.math_initial
      some (cachedValue num val flags)
  | _ => none

/-- What each key should have: the value of the last `set` of the key that
    succeeded, if it was not deleted, evicted or expired since. -/
def contentNote (cfg : CacheConfig) (now : Nat) (c : CacheState) (op : CacheOp)
    (content : Bytes → Option Bytes) : Bytes → Option Bytes :=
  fun k =>
    if SetsKey cfg now c k op then
      valueOfSet cfg (if Seen cfg now c k then content k else none) op
    else if op = .del k ∨ Evicted cfg now c k op ∨ ExpiresKey cfg now c k op then none
    else content k

/-- The content that a run should leave. -/
def cacheContent (cfg : CacheConfig) (run : List (Nat × CacheOp)) : Bytes → Option Bytes :=
  notedRun cfg (contentNote cfg) (upsgi_cache_init cfg) (fun _ => none) run

/-- A `set` that does not insert an `ungettable` item, and that changes a number
    only where it is: without a bitmap, and in a value of eight bytes at least. -/
def PlainSet (cfg : CacheConfig) (now : Nat) (c : CacheState) : CacheOp → Prop
  | .set key _ _ flags =>
      (flags.ungettable = true → Seen cfg now c key) ∧
        (flags.math = true → flags.update = true → ∀ it ∈ c.find cfg key, Fresh cfg now it →
          cfg.use_blocks_bitmap = false ∧ 8 ≤ it.value.length)
  | _ => True

/-- The content is what is found, and may be read. -/
structure HasContent (cfg : CacheConfig) (c : CacheState) (content : Bytes → Option Bytes) : Prop where
  holds : ∃ order, Holds cfg c order
  found : ∀ k, content k = (c.find cfg k).map CacheItem.value
  gettable : ∀ k, ∀ it ∈ c.find cfg k, it.flags.ungettable = false

section Content

variable {cfg : CacheConfig} {c : CacheState} {content : Bytes → Option Bytes} {now : Nat}

/-- One key, in one step. -/
theorem HasContent.step_key (h : HasContent cfg c content) {op : CacheOp} {k : Bytes}
    {found : Option CacheItem} (hplain : PlainSet cfg now c op)
    (hfound : (cacheStep cfg now c op).find cfg k = found) (hcase : KeyCase cfg now c k op found) :
    contentNote cfg now c op content k = found.map CacheItem.value ∧
      ∀ it ∈ found, it.flags.ungettable = false := by
  have hcontent := h.found k
  unfold contentNote
  cases hcase with
  | same hset hevict hdel =>
    refine ⟨?_, h.gettable k⟩
    rw [if_neg hset]
    by_cases hlost : op = .del k ∨ Evicted cfg now c k op ∨ ExpiresKey cfg now c k op
    · -- it was not there before
      rw [if_pos hlost]
      have hnone : c.find cfg k = none := by
        rcases hlost with hop | hevicted | hexpires
        · exact hdel hop
        · exact absurd hevicted hevict
        · exact hfound.symm.trans hexpires.2
      rw [hnone]
      rfl
    · rw [if_neg hlost]
      exact hcontent
  | refreshed it val expires flags hop hok hset hevict hfind hfresh hflag huse hnone =>
    have hlost : ¬ (op = .del k ∨ Evicted cfg now c k op ∨ ExpiresKey cfg now c k op) := by
      rintro (hdel | hevicted | hexpires)
      · rw [hop] at hdel
        cases hdel
      · exact hevict hevicted
      · rw [hexpires.2] at hfound
        cases hfound
    refine ⟨?_, ?_⟩
    · rw [if_neg hset, if_neg hlost, hcontent, hfind]
      rfl
    · rintro _ ⟨⟩
      exact h.gettable k it hfind
  | removed hset hwhy =>
    refine ⟨?_, nofun⟩
    rw [if_neg hset, if_pos]
    · rfl
    · rcases hwhy with hop | hevicted | ⟨it, hfind, hdue⟩
      · exact .inl hop
      · exact .inr (.inl hevicted)
      · exact .inr (.inr ⟨⟨it, hfind, hdue⟩, hfound⟩)
  | stored val expires flags hop hset hmiss =>
    have hnot : ¬ Seen cfg now c k := fun ⟨it, hfind, hfresh⟩ => hmiss it hfind hfresh
    rw [hop] at hplain
    refine ⟨?_, ?_⟩
    · rw [if_pos hset, if_neg hnot, hop]
      rfl
    · rintro _ ⟨⟩
      exact Bool.eq_false_iff.mpr fun htrue => hnot (hplain.1 htrue)
  | updated it val expires flags num hop hset hfind hfresh hflag hnum =>
    have hseen : Seen cfg now c k := ⟨it, hfind, hfresh⟩
    rw [hop] at hplain
    refine ⟨?_, ?_⟩
    · rw [if_pos hset, if_pos hseen, hop, hcontent, hfind]
      show some (cachedValue (int64 (it.value.take 8)) val flags) = some (cachedValue num val flags)
      by_cases hmath : flags.math = true
      · obtain ⟨hbitmap, hlength⟩ := hplain.2 hmath hflag it hfind hfresh
        rw [hnum hbitmap hlength]
      · unfold cachedValue
        rw [if_neg hmath, if_neg hmath]
    · rintro _ ⟨⟩
      exact h.gettable k it hfind

theorem HasContent.step (h : HasContent cfg c content) {op : CacheOp} (hplain : PlainSet cfg now c op) :
    HasContent cfg (cacheStep cfg now c op) (contentNote cfg now c op content) := by
  obtain ⟨order, hholds⟩ := h.holds
  obtain ⟨order', hholds', _⟩ := cacheStep_order hholds now op
  have hkey := fun k => h.step_key hplain rfl (cacheStep_key hholds now k op)
  exact ⟨⟨order', hholds'⟩, fun k => (hkey k).1, fun k => (hkey k).2⟩

theorem hasContent_init (cfg : CacheConfig) : HasContent cfg (upsgi_cache_init cfg) fun _ => none := by
  have hnone : ∀ k, (upsgi_cache_init cfg).find cfg k = none :=
    fun k => find_eq_none nofun
  refine ⟨⟨[], upsgi_cache_init_holds cfg⟩, ?_, ?_⟩
  · intro k
    rw [hnone]
    rfl
  · intro k it hit
    rw [hnone] at hit
    cases hit

/-- A read finds what is there after it. -/
theorem HasContent.hit (h : HasContent cfg c content) {touch : Bool} {k : Bytes}
    {result : CacheState × Option Nat} (hhit : Hit cfg touch now k c result) :
    result.2.map (result.1.value cfg) = (result.1.find cfg k).map CacheItem.value := by
  cases hhit with
  | missed d hmiss =>
    show none = (d.find cfg k).map CacheItem.value
    rw [hmiss.absent]
    rfl
  | ungettable it hfind _ hflag =>
    rw [h.gettable k it hfind] at hflag
    cases hflag
  | hit i d hfind _ _ hsame _ =>
    show some (d.value cfg i) = (d.find cfg k).map CacheItem.value
    rw [hsame, hfind]
    rfl

end Content

/-- A small cache. -/
def smallCache (bitmap : Bool) : CacheConfig where
  keysize := 16
  blocks := 8
  blocksize := 8
  hash := fun _ => 0
  hashsize := 1
  max_items := 3
  use_blocks_bitmap := bitmap
  purge_lru := false
  lazy_expire := false
  sweep_on_full := 0
  clear_on_full := false
  no_expire := false
  math_initial := 0
  blocksize_pos := by decide
  hashsize_pos := by decide
  max_items_pos := by decide
  items_le_blocks := by decide

/-- A counter that is 5 and is incremented by 3. -/
def counterRun : List (Nat × CacheOp) :=
  [(0, .set [1] (int64Bytes 5) 0 { math := true, inc := true }),
    (0, .set [1] (int64Bytes 3) 0 { math := true, inc := true, update := true })]

end Upsgi
