import Upsgi.Cache.Structures

/-! # The representation of a cache

    `CacheInv` puts the invariants of the structures together.  Its second argument is
    the LRU list, the least recently used item first.  All that the operations
    do is made of a few changes: an item is given up, an item is taken into use,
    an item gets a new value, or an item goes to the end of the LRU list.  Each
    of them keeps `CacheInv`, with the LRU list it should.
-/

namespace Upsgi

open Framing (Bytes)
open DoublyLinked (IsList)
open Function List

/-- The keys of the items in use. -/
structure KeyRep (cfg : CacheConfig) (key : Nat → Bytes) (hash : Nat → Nat) : Prop where
  slot : ∀ i, key i ≠ [] → 0 < i ∧ i < cfg.max_items
  hashes : ∀ i, key i ≠ [] → hash i = cfg.hash (key i)
  unique : ∀ i j, key i ≠ [] → key i = key j → i = j

structure CacheInv (cfg : CacheConfig) (c : CacheState) (lru : List Nat) : Prop where
  keys : KeyRep cfg c.key c.hash
  chains : ∃ chains, ChainRep cfg.hashsize c.key c.hash c.prev c.next c.hashtable chains
  stack : StackRep cfg.max_items c.key c.unused c.n_items
  blocks : BlockRep cfg c.key c.first_block c.valsize c.blocks_bitmap c.blocks_bitmap_pos
  list : cfg.purge_lru = true → IsList c.lru_next c.lru_prev c.lru_head c.lru_tail lru
  lru_mem : cfg.purge_lru = true → ∀ i, i ∈ lru ↔ c.key i ≠ []

/-! ### The links as equations -/

theorem unlinkItem_eq (cfg : CacheConfig) (i : Nat) (c : CacheState) :
    unlinkItem cfg i c =
      { c with
        next := if c.prev i ≠ 0 then update c.next (c.prev i) (c.next i) else c.next
        prev := if c.next i ≠ 0 then update c.prev (c.next i) (c.prev i) else c.prev
        hashtable :=
          if c.prev i = 0 then update c.hashtable (c.hash i % cfg.hashsize) (c.next i)
          else c.hashtable } := by
  by_cases hprev : c.prev i = 0
  · by_cases hnext : c.next i = 0 <;> simp [unlinkItem, hprev, hnext]
  · by_cases hnext : c.next i = 0 <;> simp [unlinkItem, hprev, hnext, update_apply]

theorem lru_remove_item_eq (i : Nat) (c : CacheState) :
    lru_remove_item i c =
      { c with
        lru_prev :=
          if c.lru_next i ≠ 0 then update c.lru_prev (c.lru_next i) (c.lru_prev i)
          else c.lru_prev
        lru_tail := if c.lru_next i ≠ 0 then c.lru_tail else c.lru_prev i
        lru_next :=
          if c.lru_prev i ≠ 0 then update c.lru_next (c.lru_prev i) (c.lru_next i)
          else c.lru_next
        lru_head := if c.lru_prev i ≠ 0 then c.lru_head else c.lru_next i } := by
  by_cases hprev : c.lru_prev i = 0
  · by_cases hnext : c.lru_next i = 0
    · simp [lru_remove_item, hprev, hnext]
    · simp [lru_remove_item, hprev, hnext, update_apply]
  · by_cases hnext : c.lru_next i = 0
    · simp [lru_remove_item, hprev, hnext]
    · simp [lru_remove_item, hprev, hnext, update_apply]

theorem lru_add_item_eq (i : Nat) (c : CacheState) :
    lru_add_item i c =
      { c with
        lru_next :=
          update
            (if c.lru_tail ≠ 0 then update c.lru_next c.lru_tail i else c.lru_next) i 0
        lru_prev := update c.lru_prev i c.lru_tail
        lru_head := if c.lru_tail ≠ 0 then c.lru_head else i
        lru_tail := i } := by
  by_cases htail : c.lru_tail = 0 <;> simp [lru_add_item, htail]

variable {c : CacheState} {i : Nat} {cfg : CacheConfig} {hash : Nat → Nat} {lru : List Nat}

section

variable {l : List Nat} (h : IsList c.lru_next c.lru_prev c.lru_head c.lru_tail l)
include h

/-- What `lru_remove_item` does to the list. -/
theorem lru_remove_item_spec (hi : i ∈ l) :
    ∃ lru_prev lru_next lru_head lru_tail,
      lru_remove_item i c =
        { c with lru_prev := lru_prev, lru_next := lru_next, lru_head := lru_head, lru_tail := lru_tail } ∧
      IsList lru_next lru_prev lru_head lru_tail (l.erase i) := by
  refine ⟨_, _, _, _, lru_remove_item_eq i c, h.erase ?_ ?_ hi ?_ ?_⟩
  · intro j hj
    by_cases hzero : c.lru_prev i = 0
    · simp [hzero]
    · simp [hzero, update_apply]
  · intro j hj
    by_cases hzero : c.lru_next i = 0
    · simp [hzero]
    · simp [hzero, update_apply]
  · simp
  · simp

/-- What `lru_add_item` does to the list. -/
theorem lru_add_item_spec (hi : i ≠ 0) (hnot : i ∉ l) :
    ∃ lru_prev lru_next lru_head lru_tail,
      lru_add_item i c =
        { c with lru_prev := lru_prev, lru_next := lru_next, lru_head := lru_head, lru_tail := lru_tail } ∧
      IsList lru_next lru_prev lru_head lru_tail (l ++ [i]) := by
  refine ⟨_, _, _, _, lru_add_item_eq i c, h.snoc hi hnot ?_ ?_ ?_ ?_ ?_⟩
  · intro j hj hzero
    rw [update_of_ne hj]
    by_cases htail : c.lru_tail = 0
    · simp [htail, hzero]
    · simp [htail, update_apply]
  · exact fun j hj => update_of_ne hj _ _
  · exact update_self _ _ _
  · exact update_self _ _ _
  · simp

end

/-! ### An item is given up -/

theorem KeyRep.erase {key : Nat → Bytes} (h : KeyRep cfg key hash)
    (i : Nat) : KeyRep cfg (update key i []) (update hash i 0) := by
  refine ⟨?_, ?_, ?_⟩
  · exact fun j hj => h.slot j (live_of_update hj).2
  · intro j hj
    obtain ⟨hne, hj⟩ := live_of_update hj
    rw [update_of_ne hne, update_of_ne hne]
    exact h.hashes j hj
  · intro j m hj heq
    have hm : update key i [] m ≠ [] := heq ▸ hj
    obtain ⟨hne, hj⟩ := live_of_update hj
    obtain ⟨hne', _⟩ := live_of_update hm
    rw [update_of_ne hne, update_of_ne hne'] at heq
    exact h.unique j m hj heq

/-- The LRU list without an item that is given up. -/
theorem CacheInv.lru_erase (h : CacheInv cfg c lru) (hpurge : cfg.purge_lru = true) (j : Nat) :
    j ∈ lru.erase i ↔ update c.key i [] j ≠ [] := by
  rw [(h.list hpurge).nodup.mem_erase_iff, h.lru_mem hpurge]
  by_cases hj : j = i
  · rw [hj, update_self]
    exact iff_of_false (fun hand => hand.1 rfl) (fun hne => hne rfl)
  · rw [update_of_ne hj]
    exact and_iff_right hj

/-- The LRU part of a deletion, for an item in use. -/
theorem CacheInv.lru_remove {d : CacheState} (h : CacheInv cfg c lru) (hi : c.key i ≠ [])
    (hsame : d.lru_next = c.lru_next ∧ d.lru_prev = c.lru_prev ∧ d.lru_head = c.lru_head ∧
      d.lru_tail = c.lru_tail) :
    ∃ lru_prev lru_next lru_head lru_tail,
      (if cfg.purge_lru then lru_remove_item i d else d) =
        { d with lru_prev := lru_prev, lru_next := lru_next, lru_head := lru_head, lru_tail := lru_tail } ∧
      (cfg.purge_lru = true → IsList lru_next lru_prev lru_head lru_tail (lru.erase i)) := by
  by_cases hpurge : cfg.purge_lru = true
  · rw [if_pos hpurge]
    obtain ⟨hnext, hprev, hhead, htail⟩ := hsame
    have hlist : IsList d.lru_next d.lru_prev d.lru_head d.lru_tail lru := by
      rw [hnext, hprev, hhead, htail]
      exact h.list hpurge
    obtain ⟨lru_prev, lru_next, lru_head, lru_tail, heq, hlist'⟩ :=
      lru_remove_item_spec hlist ((h.lru_mem hpurge i).mpr hi)
    exact ⟨lru_prev, lru_next, lru_head, lru_tail, heq, fun _ => hlist'⟩
  · rw [if_neg hpurge]
    exact ⟨d.lru_prev, d.lru_next, d.lru_head, d.lru_tail, rfl, fun h => absurd h hpurge⟩

theorem CacheInv.del_live (h : CacheInv cfg c lru)
    (hi : c.key i ≠ []) : CacheInv cfg (delItem cfg i c) (lru.erase i) := by
  obtain ⟨chains, hchains⟩ := h.chains
  -- the state before its LRU part
  let marked := if cfg.use_blocks_bitmap then
      cache_unmark_blocks cfg.blocksize c.blocks_bitmap (c.first_block i) (c.valsize i)
    else c.blocks_bitmap
  have hmarked : (if cfg.use_blocks_bitmap then
      { c with blocks_bitmap :=
          cache_unmark_blocks cfg.blocksize c.blocks_bitmap (c.first_block i) (c.valsize i) }
      else c) = { c with blocks_bitmap := marked } := by
    show _ = { c with blocks_bitmap := if cfg.use_blocks_bitmap then _ else _ }
    split <;> rfl
  obtain ⟨lru_prev, lru_next, lru_head, lru_tail, heq, hlist⟩ :=
    h.lru_remove (d := unlinkItem cfg i { c with blocks_bitmap := marked, unused := i :: c.unused }) hi
      (by rw [unlinkItem_eq]; exact ⟨rfl, rfl, rfl, rfl⟩)
  unfold delItem releaseItem
  rw [if_pos (length_pos_iff.mpr hi), hmarked]
  dsimp only at heq ⊢
  rw [heq, unlinkItem_eq]
  refine ⟨h.keys.erase i, ⟨_, hchains.erase hi ?_ ?_ ?_⟩, h.stack.push (h.keys.slot i hi) hi,
    h.blocks.release hi ?_, hlist, fun hpurge j => h.lru_erase hpurge j⟩
  · intro j hj
    dsimp only
    rw [update_of_ne hj]
    by_cases hzero : c.prev i = 0
    · simp [hzero]
    · simp [hzero, update_apply]
  · intro j hj
    dsimp only
    rw [update_of_ne hj]
    by_cases hzero : c.next i = 0
    · simp [hzero]
    · simp [hzero, update_apply]
  · intro a
    by_cases hzero : c.prev i = 0
    · simp [hzero, update_apply]
    · simp [hzero]
  · intro huse block
    show blockUsed (if cfg.use_blocks_bitmap then _ else _) block = _
    rw [if_pos huse]
    exact blockUsed_unmark c.blocks_bitmap _ cfg.blocksize_pos (h.blocks.sized i hi) block

/-- An item that is not in use can be deleted too: only its own fields change. -/
theorem CacheInv.del_free (h : CacheInv cfg c lru)
    (hi : c.key i = []) : CacheInv cfg (delItem cfg i c) lru := by
  obtain ⟨chains, hchains⟩ := h.chains
  have hkey : update c.key i [] = c.key := by
    rw [← hi]
    exact update_eq_self i c.key
  have hlive : ∀ j, c.key j ≠ [] → j ≠ i := fun j hj heq => hj (heq ▸ hi)
  unfold delItem
  rw [if_neg (by rw [hi]; exact Nat.lt_irrefl 0)]
  refine ⟨h.keys.erase i, ⟨chains, ?_⟩, ?_, ?_, h.list, ?_⟩
  · dsimp only
    rw [hkey]
    refine ⟨?_, hchains.head, hchains.nodup, ?_⟩
    · intro a
      have hne : ∀ j ∈ chains a, j ≠ i := fun j hj => hlive j ((hchains.mem a j).mp hj).1
      apply (hchains.seg a).congr <;> exact fun j hj => update_of_ne (hne j hj) _ _
    · intro a j
      rw [hchains.mem]
      by_cases hj : j = i
      · rw [hj]
        exact iff_of_false (fun hand => hand.1 hi) (fun hand => hand.1 hi)
      · rw [update_of_ne hj]
  · dsimp only
    rw [hkey]
    exact h.stack
  · dsimp only
    rw [hkey]
    exact h.blocks.of_live (fun _ _ => rfl) fun j hj => update_of_ne (hlive j hj) _ _
  · intro hpurge j
    dsimp only
    rw [hkey]
    exact h.lru_mem hpurge j

/-! ### An item is taken into use -/

theorem KeyRep.insert {key : Nat → Bytes} (h : KeyRep cfg key hash) {k : Bytes}
    (hslot : 0 < i ∧ i < cfg.max_items) (hnew : ∀ j, key j ≠ k) :
    KeyRep cfg (update key i k) (update hash i (cfg.hash k)) := by
  refine ⟨?_, ?_, ?_⟩
  · intro j hj
    by_cases heq : j = i
    · exact heq ▸ hslot
    · rw [update_of_ne heq] at hj
      exact h.slot j hj
  · intro j hj
    by_cases heq : j = i
    · rw [heq, update_self, update_self]
    · rw [update_of_ne heq] at hj
      rw [update_of_ne heq, update_of_ne heq]
      exact h.hashes j hj
  · intro j m hj heq
    by_cases hjI : j = i <;> by_cases hmI : m = i
    · rw [hjI, hmI]
    · rw [hjI, update_self, update_of_ne hmI] at heq
      exact absurd heq.symm (hnew m)
    · rw [hmI, update_self, update_of_ne hjI] at heq
      exact absurd heq (hnew j)
    · rw [update_of_ne hjI] at hj heq
      rw [update_of_ne hmI] at heq
      exact h.unique j m hj heq

/-- The chains are short enough for the walks along them. -/
theorem CacheInv.chain_length (h : CacheInv cfg c lru) {chains : Nat → List Nat}
    (hchains : ChainRep cfg.hashsize c.key c.hash c.prev c.next c.hashtable chains) (a : Nat) :
    (chains a).length ≤ cfg.max_items := by
  have hle := length_le_of_slots (hchains.nodup a)
    fun i hi => h.keys.slot i ((hchains.mem a i).mp hi).1
  omega

/-- What `linkItem` does to the links of chains that do not have the item. -/
theorem linkItem_spec {key : Nat → Bytes} {chains : Nat → List Nat} {slot : Nat}
    (h : ChainRep cfg.hashsize key hash c.prev c.next c.hashtable chains) (hfree : key i = [])
    (hslot : c.hash i % cfg.hashsize = slot) (hshort : (chains slot).length ≤ cfg.max_items) :
    ∃ prev next hashtable,
      linkItem cfg i c = { c with prev := prev, next := next, hashtable := hashtable } ∧
      (∀ j, j ≠ i → j ≠ 0 → next j = if j = (chains slot).getLastD 0 then i else c.next j) ∧
      (∀ j, j ≠ i → prev j = c.prev j) ∧ next i = 0 ∧ prev i = (chains slot).getLastD 0 ∧
      ∀ a, hashtable a = if chains slot = [] ∧ a = slot then i else c.hashtable a := by
  have hhead := h.head slot
  have hseg := h.seg slot
  have hnot : ∀ j ∈ chains slot, j ≠ i := by
    rintro j hj rfl
    exact ((h.mem slot j).mp hj).1 hfree
  unfold linkItem
  rw [hslot]
  dsimp only
  cases hchain : chains slot with
  | nil =>
    rw [hchain] at hhead
    rw [if_pos (show c.hashtable slot = 0 from hhead)]
    refine ⟨_, _, _, rfl, ?_, ?_, ?_, ?_, ?_⟩
    · intro j hj hzero
      rw [update_of_ne hj]
      exact (if_neg hzero).symm
    · exact fun j hj => update_of_ne hj _ _
    · exact update_self _ _ _
    · exact update_self _ _ _
    · intro a
      rw [update_apply]
      simp
  | cons m l =>
    rw [hchain] at hhead hseg hshort hnot
    have hm : c.hashtable slot = m := hhead
    rw [hm, if_neg hseg.1]
    -- the links of the chain are not those of the item
    have hseg' : DoublyLinked.Seg (update c.next i 0) (update c.prev i 0) 0 (m :: l) 0 := by
      apply hseg.congr <;> exact fun j hj => update_of_ne (hnot j hj) _ _
    have hlast : DoublyLinked.last (update c.next i 0) cfg.max_items m = (m :: l).getLastD 0 := by
      rw [length_cons] at hshort
      rw [hseg'.last_eq (by omega), getLastD_cons]
    have hne : i ≠ (m :: l).getLastD 0 :=
      (hnot _ (DoublyLinked.getLastD_mem (cons_ne_nil m l) 0)).symm
    rw [hlast]
    refine ⟨_, _, _, rfl, ?_, ?_, ?_, ?_, ?_⟩
    · intro j hj _
      rw [update_apply, update_of_ne hj]
    · intro j hj
      rw [update_of_ne hj, update_of_ne hj]
    · rw [update_of_ne hne, update_self]
    · exact update_self _ _ _
    · exact fun a => (if_neg fun hand => cons_ne_nil m l hand.1).symm

/-- The LRU part of an insertion. -/
theorem CacheInv.lru_add {d : CacheState} (h : CacheInv cfg c lru) (hi : i ≠ 0)
    (hfree : c.key i = [])
    (hsame : d.lru_next = c.lru_next ∧ d.lru_prev = c.lru_prev ∧ d.lru_head = c.lru_head ∧
      d.lru_tail = c.lru_tail) (now expires : Nat) (flags : CacheFlags) :
    ∃ lru_prev lru_next lru_head lru_tail next_scan expires',
      (if cfg.purge_lru then (lru_add_item i d, expires) else scheduleExpiry now expires flags d) =
        ({ d with
            lru_prev := lru_prev, lru_next := lru_next, lru_head := lru_head, lru_tail := lru_tail
            next_scan := next_scan }, expires') ∧
      (cfg.purge_lru = true → IsList lru_next lru_prev lru_head lru_tail (lru ++ [i])) := by
  by_cases hpurge : cfg.purge_lru = true
  · rw [if_pos hpurge]
    obtain ⟨hnext, hprev, hhead, htail⟩ := hsame
    have hlist : IsList d.lru_next d.lru_prev d.lru_head d.lru_tail lru := by
      rw [hnext, hprev, hhead, htail]
      exact h.list hpurge
    obtain ⟨lru_prev, lru_next, lru_head, lru_tail, heq, hlist'⟩ :=
      lru_add_item_spec hlist hi fun hmem => (h.lru_mem hpurge i).mp hmem hfree
    rw [heq]
    exact ⟨lru_prev, lru_next, lru_head, lru_tail, d.next_scan, expires, rfl, fun _ => hlist'⟩
  · rw [if_neg hpurge]
    unfold scheduleExpiry
    split
    · exact ⟨_, _, _, _, _, _, rfl, fun h => absurd h hpurge⟩
    · exact ⟨_, _, _, _, d.next_scan, _, rfl, fun h => absurd h hpurge⟩

/-- The top of the stack is taken into use for a new key. -/
theorem CacheInv.store {rest : List Nat} {first : Nat} {key val : Bytes} (h : CacheInv cfg c lru)
    (hunused : c.unused = i :: rest) (hkey : key ≠ []) (hnew : ∀ j, c.key j ≠ key)
    (hval : 0 < val.length) (hplace : Placeable cfg c.blocks_bitmap i first val.length)
    {bitmap : Nat → UInt8} {pos : Nat}
    (hbits : cfg.use_blocks_bitmap = true → ∀ block, blockUsed bitmap block =
      if first ≤ block ∧ block < first + neededBlocks cfg.blocksize val.length then true
      else blockUsed c.blocks_bitmap block) (hpos : pos < cfg.blocks) (now expires : Nat)
    (flags : CacheFlags) :
    CacheInv cfg
      (storeItem cfg now i first key val expires flags
        { c with unused := rest, blocks_bitmap := bitmap, blocks_bitmap_pos := pos })
      (lru ++ [i]) := by
  obtain ⟨chains, hchains⟩ := h.chains
  have hstack := h.stack
  rw [hunused] at hstack
  obtain ⟨hslot, hfree⟩ := (h.stack.mem i).mp (by rw [hunused]; exact mem_cons_self)
  have hzero : i ≠ 0 := by omega
  obtain ⟨lru_prev, lru_next, lru_head, lru_tail, next_scan, expires', heq, hlist⟩ :=
    h.lru_add (d := { c with
      unused := rest, blocks_bitmap := bitmap, blocks_bitmap_pos := pos
      first_block := update c.first_block i first }) hzero hfree ⟨rfl, rfl, rfl, rfl⟩ now expires
      flags
  -- the fields of the item, and what is in the state besides them
  have hfill : fillItem cfg now i first key val expires flags
      { c with unused := rest, blocks_bitmap := bitmap, blocks_bitmap_pos := pos } =
      { c with
        unused := rest, blocks_bitmap := bitmap, blocks_bitmap_pos := pos
        first_block := update c.first_block i first
        lru_prev := lru_prev, lru_next := lru_next, lru_head := lru_head, lru_tail := lru_tail
        next_scan := next_scan
        expires := update c.expires i expires'
        hash := update c.hash i (cfg.hash key)
        hits := update c.hits i 0
        flags := update c.flags i flags
        data := writeData c.data (first * cfg.blocksize)
          (if flags.math then int64Bytes (cacheMath flags cfg.math_initial (int64 val)) else val)
        valsize := update c.valsize i val.length
        key := update c.key i key } := by
    unfold fillItem
    dsimp only at heq ⊢
    rw [heq]
  unfold storeItem
  -- the item is linked into the chain of its key
  generalize fillItem cfg now i first key val expires flags
    { c with unused := rest, blocks_bitmap := bitmap, blocks_bitmap_pos := pos } = d at hfill
  have hchains' : ChainRep cfg.hashsize c.key c.hash d.prev d.next d.hashtable chains := by
    rw [hfill]
    exact hchains
  have hhash : d.hash i % cfg.hashsize = cfg.hash key % cfg.hashsize := by
    rw [hfill]
    exact congrArg (fun a => a % cfg.hashsize) (update_self _ _ _)
  obtain ⟨prev, next, hashtable, hlink, hnext, hprev, hnextI, hprevI, htable⟩ :=
    linkItem_spec hchains' hfree hhash (h.chain_length hchains _)
  rw [hlink]
  subst hfill
  refine ⟨h.keys.insert hslot hnew,
    ⟨_, hchains.snoc hfree hzero hkey rfl hnext hprev hnextI hprevI htable⟩, hstack.pop hkey, ?_, hlist, ?_⟩
  · exact h.blocks.place hfree hkey hval hslot.2 hplace hbits hpos
  · intro hpurge j
    dsimp only
    rw [mem_append, mem_singleton, h.lru_mem hpurge]
    by_cases hj : j = i
    · rw [hj, update_self]
      exact iff_of_true (.inr rfl) hkey
    · rw [update_of_ne hj]
      exact or_iff_left hj

/-! ### An item is used again -/

/-- An item in use becomes the last one of the LRU list. -/
theorem CacheInv.touch (h : CacheInv cfg c lru) (hi : c.key i ≠ [])
    (hpurge : cfg.purge_lru = true) :
    ∃ lru_prev lru_next lru_head lru_tail,
      lru_add_item i (lru_remove_item i c) =
        { c with lru_prev := lru_prev, lru_next := lru_next, lru_head := lru_head, lru_tail := lru_tail } ∧
      CacheInv cfg (lru_add_item i (lru_remove_item i c)) (lru.erase i ++ [i]) := by
  have hlist := h.list hpurge
  have hmem := (h.lru_mem hpurge i).mpr hi
  obtain ⟨prev, next, head, tail, hremove, hlist'⟩ := lru_remove_item_spec hlist hmem
  rw [hremove]
  obtain ⟨lru_prev, lru_next, lru_head, lru_tail, hadd, hlist''⟩ :=
    lru_add_item_spec
      (c := { c with lru_prev := prev, lru_next := next, lru_head := head, lru_tail := tail }) hlist'
      (hlist.seg.ne_zero hmem) hlist.nodup.not_mem_erase
  rw [hadd]
  refine ⟨lru_prev, lru_next, lru_head, lru_tail, rfl, h.keys, h.chains, h.stack, h.blocks,
    fun _ => hlist'', ?_⟩
  intro _ j
  rw [mem_append, mem_singleton, hlist.nodup.mem_erase_iff, h.lru_mem hpurge]
  by_cases hj : j = i
  · rw [hj]
    exact iff_of_true (.inr rfl) hi
  · exact ⟨fun hor => (hor.resolve_right hj).2, fun hlive => .inl ⟨hj, hlive⟩⟩

/-- An item in use gets blocks for another value. -/
theorem BlockRep.move {key : Nat → Bytes} {first_block valsize : Nat → Nat}
    {bitmap bitmap' : Nat → UInt8} {pos pos' first len : Nat}
    (h : BlockRep cfg key first_block valsize bitmap pos) (hi : key i ≠ []) (hlen : 0 < len)
    (hslot : i < cfg.max_items) (hplace : Placeable cfg bitmap i first len)
    (hbits : cfg.use_blocks_bitmap = true → ∀ block, blockUsed bitmap' block =
      if first_block i ≤ block ∧ block < first_block i + neededBlocks cfg.blocksize (valsize i) then false
      else if first ≤ block ∧ block < first + neededBlocks cfg.blocksize len then true
      else blockUsed bitmap block) (hpos : pos' < cfg.blocks) :
    BlockRep cfg key (update first_block i first) (update valsize i len) bitmap' pos' := by
  -- as if the old blocks were given up before the new ones are taken
  let freed := cache_unmark_blocks cfg.blocksize bitmap (first_block i) (valsize i)
  have hfreed : ∀ block, blockUsed freed block =
      if first_block i ≤ block ∧ block < first_block i + neededBlocks cfg.blocksize (valsize i) then false
      else blockUsed bitmap block :=
    blockUsed_unmark bitmap _ cfg.blocksize_pos (h.sized i hi)
  have hplace' : Placeable cfg freed i first len := by
    unfold Placeable at hplace ⊢
    by_cases huse : cfg.use_blocks_bitmap = true
    · rw [if_pos huse] at hplace ⊢
      refine ⟨hplace.1, ?_⟩
      intro block hfirst hstop
      rw [hfreed]
      split
      · rfl
      · exact hplace.2 block hfirst hstop
    · rw [if_neg huse] at hplace ⊢
      exact hplace
  have hmoved : BlockRep cfg (update (update key i []) i (key i))
      (update first_block i first) (update (update valsize i 0) i len) bitmap'
      pos' := (h.release hi fun _ => hfreed).place (update_self i [] key) hi hlen hslot hplace' ?_
    hpos
  · rwa [update_idem, update_idem, update_eq_self] at hmoved
  · intro huse block
    rw [hbits huse, hfreed]
    by_cases hold : first_block i ≤ block ∧
        block < first_block i + neededBlocks cfg.blocksize (valsize i)
    · -- an old block is marked, so it is not one of the new
      rw [if_pos hold, if_pos hold]
      have hinside := h.inside i hi
      have hset := (h.used huse block (by
        unfold CacheConfig.blocks_bitmap_size
        split <;> omega)).mpr (.inr ⟨i, hi, hold⟩)
      unfold Placeable at hplace
      rw [if_pos huse] at hplace
      refine (if_neg fun hnew => ?_).symm
      rw [hplace.2 block hnew.1 hnew.2] at hset
      cases hset
    · rw [if_neg hold, if_neg hold]

end Upsgi
