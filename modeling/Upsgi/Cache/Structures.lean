import Upsgi.Cache.Model

/-! # The structures of a cache

    A cache keeps its items in several structures at once: the chains of the
    hash table, the stack of unused items, the blocks and, with LRU purge, one
    more list.  An item is in use when its key is not empty.  For each structure
    there is an invariant here, in terms of the fields it is made of, and what
    it becomes when an item is taken into use or given up.
-/

namespace Upsgi

open Framing (Bytes)
open DoublyLinked (Seg)
open List Function

/-! ### Chains -/

/-- The items in use are linked in the chains of their hashes. -/
structure ChainRep (hashsize : Nat) (key : Nat → Bytes) (hash prev next hashtable : Nat → Nat)
    (chains : Nat → List Nat) : Prop where
  seg : ∀ h, Seg next prev 0 (chains h) 0
  head : ∀ h, hashtable h = (chains h).headD 0
  nodup : ∀ h, (chains h).Nodup
  mem : ∀ h i, i ∈ chains h ↔ key i ≠ [] ∧ hash i % hashsize = h

section Chains

variable {hashsize : Nat} {key : Nat → Bytes} {hash prev next hashtable : Nat → Nat}
  {chains : Nat → List Nat} {next' prev' hashtable' : Nat → Nat} {i : Nat}

section

variable (h : ChainRep hashsize key hash prev next hashtable chains)
include h

theorem ChainRep.apart {a b : Nat} (hne : a ≠ b) : ∀ j ∈ chains a, j ∉ chains b := by
  intro j hja hjb
  rw [h.mem] at hja hjb
  exact hne (hja.2.symm.trans hjb.2)

/-- An item is unlinked from its chain. -/
theorem ChainRep.erase (hi : key i ≠ [])
    (hnext : ∀ j, j ≠ i → next' j = if prev i ≠ 0 ∧ j = prev i then next i else next j)
    (hprev : ∀ j, j ≠ i → prev' j = if next i ≠ 0 ∧ j = next i then prev i else prev j)
    (htable : ∀ a, hashtable' a =
      if prev i = 0 ∧ a = hash i % hashsize then next i else hashtable a) :
    ChainRep hashsize (update key i []) (update hash i 0) prev' next' hashtable'
      (update chains (hash i % hashsize) ((chains (hash i % hashsize)).erase i)) := by
  have hmem : i ∈ chains (hash i % hashsize) := (h.mem _ _).mpr ⟨hi, rfl⟩
  generalize hslot : hash i % hashsize = slot at *
  obtain ⟨hseg, hhead, _⟩ := (h.seg slot).erase hnext hprev (h.nodup slot) hmem
  refine ⟨?_, ?_, ?_, ?_⟩
  · refine (forall_update_iff chains fun _ l => Seg next' prev' 0 l 0).mpr ⟨hseg, fun a ha => ?_⟩
    exact (h.seg slot).erase_apart hnext hprev (h.nodup slot) hmem (h.seg a) (h.apart ha)
  · intro a
    rw [htable]
    by_cases ha : a = slot
    · rw [ha, update_self, hhead, h.head]
      by_cases hzero : prev i = 0
      · rw [if_pos hzero, if_pos ⟨hzero, rfl⟩]
      · rw [if_neg hzero, if_neg (fun hand => hzero hand.1)]
    · rw [update_of_ne ha, if_neg (fun hand => ha hand.2), h.head]
  · exact (forall_update_iff chains fun _ => Nodup).mpr
      ⟨(h.nodup slot).erase i, fun a _ => h.nodup a⟩
  · intro a j
    by_cases hj : j = i
    · -- the item is in no chain any more
      rw [hj, update_self]
      refine iff_of_false ?_ (fun hand => hand.1 rfl)
      by_cases ha : a = slot
      · rw [ha, update_self]
        exact (h.nodup slot).not_mem_erase
      · rw [update_of_ne ha]
        exact fun hmem' => h.apart ha i hmem' hmem
    · rw [update_of_ne hj, update_of_ne hj, ← h.mem]
      by_cases ha : a = slot
      · rw [ha, update_self]
        exact mem_erase_of_ne hj
      · rw [update_of_ne ha]

end

/-- An item is linked at the end of a chain. -/
theorem ChainRep.snoc (h : ChainRep hashsize key hash prev next hashtable chains) (hfree : key i = [])
    (hi : i ≠ 0) {k : Bytes} (hk : k ≠ []) {hashK slot : Nat} (hslot : hashK % hashsize = slot)
    (hnext : ∀ j, j ≠ i → j ≠ 0 → next' j = if j = (chains slot).getLastD 0 then i else next j)
    (hprev : ∀ j, j ≠ i → prev' j = prev j) (hnextI : next' i = 0)
    (hprevI : prev' i = (chains slot).getLastD 0)
    (htable : ∀ a, hashtable' a = if chains slot = [] ∧ a = slot then i else hashtable a) :
    ChainRep hashsize (update key i k) (update hash i hashK) prev' next' hashtable'
      (update chains slot (chains slot ++ [i])) := by
  have hnot : ∀ a, i ∉ chains a := fun a hmem => ((h.mem a i).mp hmem).1 hfree
  have hne : ∀ a, ∀ j ∈ chains a, j ≠ i := fun a j hj heq => hnot a (heq ▸ hj)
  refine ⟨?_, ?_, ?_, ?_⟩
  · refine (forall_update_iff chains fun _ l => Seg next' prev' 0 l 0).mpr ⟨?_, fun a ha => ?_⟩
    · apply (h.seg slot).snoc (h.nodup slot) hi _ _ hnextI hprevI
      · exact fun j hj => hnext j (hne slot j hj) ((h.seg slot).ne_zero hj)
      · exact fun j hj => hprev j (hne slot j hj)
    · -- the last item of the chain is in no other one
      apply (h.seg a).congr
      · intro j hj
        rw [hnext j (hne a j hj) ((h.seg a).ne_zero hj)]
        apply if_neg
        intro heq
        by_cases hnil : chains slot = []
        · rw [hnil] at heq
          exact (h.seg a).ne_zero hj heq
        · exact h.apart ha j hj (heq ▸ DoublyLinked.getLastD_mem hnil 0)
      · exact fun j hj => hprev j (hne a j hj)
  · intro a
    rw [htable, h.head]
    by_cases ha : a = slot
    · rw [ha, update_self]
      cases hchain : chains slot with
      | nil => exact if_pos ⟨rfl, rfl⟩
      | cons j l => exact if_neg (fun hand => cons_ne_nil j l hand.1)
    · rw [update_of_ne ha, if_neg (fun hand => ha hand.2)]
  · refine (forall_update_iff chains fun _ => Nodup).mpr ⟨?_, fun a _ => h.nodup a⟩
    exact List.Nodup.append (h.nodup slot) (nodup_singleton i) (disjoint_singleton.mpr (hnot slot))
  · intro a j
    by_cases hj : j = i
    · rw [hj, update_self, update_self, hslot]
      by_cases ha : a = slot
      · rw [ha, update_self]
        exact iff_of_true (mem_append_right _ (mem_singleton_self i)) ⟨hk, rfl⟩
      · rw [update_of_ne ha]
        exact iff_of_false (hnot a) (fun hand => ha hand.2.symm)
    · rw [update_of_ne hj, update_of_ne hj, ← h.mem]
      by_cases ha : a = slot
      · rw [ha, update_self, mem_append, mem_singleton]
        exact or_iff_left hj
      · rw [update_of_ne ha]

end Chains

/-! ### The stack of unused items -/

/-- The stack holds the items that are not in use, and the others are counted. -/
structure StackRep (max_items : Nat) (key : Nat → Bytes) (unused : List Nat) (n_items : Nat) :
    Prop where
  nodup : unused.Nodup
  mem : ∀ i, i ∈ unused ↔ (0 < i ∧ i < max_items) ∧ key i = []
  count : n_items + unused.length + 1 = max_items

/-- Distinct items are at most as many as there are. -/
theorem length_le_of_slots {max_items : Nat} {l : List Nat} (hnodup : l.Nodup)
    (h : ∀ i ∈ l, 0 < i ∧ i < max_items) : l.length ≤ max_items - 1 := by
  have hsub : l ⊆ List.range' 1 (max_items - 1) := by
    intro i hi
    have := h i hi
    rw [mem_range'_1]
    omega
  have hle := (subperm_of_subset hnodup hsub).length_le
  rwa [length_range'] at hle

/-- What is in use when an item is given up is another item. -/
theorem live_of_update {key : Nat → Bytes} {i j : Nat} (hj : update key i [] j ≠ []) :
    j ≠ i ∧ key j ≠ [] := by
  rw [update_apply, ne_eq, ite_eq_left_iff, Classical.not_imp] at hj
  exact hj

section Stack

variable {max_items : Nat} {key : Nat → Bytes} {unused : List Nat} {n_items i : Nat}

theorem StackRep.push (h : StackRep max_items key unused n_items) (hslot : 0 < i ∧ i < max_items)
    (hi : key i ≠ []) :
    StackRep max_items (update key i []) (i :: unused) (n_items - 1) := by
  have hnot : i ∉ unused := fun hmem => hi ((h.mem i).mp hmem).2
  have hnodup : (i :: unused).Nodup := nodup_cons.mpr ⟨hnot, h.nodup⟩
  refine ⟨hnodup, ?_, ?_⟩
  · intro j
    rw [mem_cons, h.mem]
    by_cases hj : j = i
    · rw [hj, update_self]
      exact iff_of_true (.inl rfl) ⟨hslot, rfl⟩
    · rw [update_of_ne hj]
      exact or_iff_right hj
  · -- the item in use is one of those that are counted
    have hle : (i :: unused).length ≤ max_items - 1 := by
      apply length_le_of_slots hnodup
      intro j hj
      rcases mem_cons.mp hj with rfl | hj
      · exact hslot
      · exact ((h.mem j).mp hj).1
    have hcount := h.count
    rw [length_cons] at hle ⊢
    omega

theorem StackRep.pop (h : StackRep max_items key (i :: unused) n_items) {k : Bytes} (hk : k ≠ []) :
    StackRep max_items (update key i k) unused (n_items + 1) := by
  obtain ⟨hnot, hnodup⟩ := nodup_cons.mp h.nodup
  refine ⟨hnodup, ?_, ?_⟩
  · intro j
    by_cases hj : j = i
    · rw [hj, update_self]
      exact iff_of_false hnot (fun hand => hk hand.2)
    · rw [update_of_ne hj, ← h.mem, mem_cons]
      exact (or_iff_right hj).symm
  · have hcount := h.count
    rw [length_cons] at hcount
    omega

end Stack

/-! ### Blocks -/

/-- The block is one of those the item takes. -/
def Occupies (blocksize : Nat) (first_block valsize : Nat → Nat) (i block : Nat) : Prop :=
  first_block i ≤ block ∧ block < first_block i + neededBlocks blocksize (valsize i)

/-- The blocks of the items in use. -/
structure BlockRep (cfg : CacheConfig) (key : Nat → Bytes) (first_block valsize : Nat → Nat)
    (bitmap : Nat → UInt8) (pos : Nat) : Prop where
  sized : ∀ i, key i ≠ [] → 0 < valsize i
  inside : ∀ i, key i ≠ [] → first_block i + neededBlocks cfg.blocksize (valsize i) ≤ cfg.blocks
  apart : ∀ i j block, key i ≠ [] → key j ≠ [] → Occupies cfg.blocksize first_block valsize i block →
    Occupies cfg.blocksize first_block valsize j block → i = j
  /-- Without a bitmap each item has the block of its own number. -/
  own : cfg.use_blocks_bitmap = false → ∀ i, key i ≠ [] →
    first_block i = i ∧ valsize i ≤ cfg.blocksize
  /-- With a bitmap its bits are those of the blocks, and the padding. -/
  used : cfg.use_blocks_bitmap = true → ∀ block, block < cfg.blocks_bitmap_size * 8 →
    (blockUsed bitmap block = true ↔
      cfg.blocks ≤ block ∨ ∃ i, key i ≠ [] ∧ Occupies cfg.blocksize first_block valsize i block)
  pos : pos < cfg.blocks

/-- A value that fits into a block takes one. -/
theorem neededBlocks_eq_one {blocksize len : Nat} (hlen : 0 < len) (hle : len ≤ blocksize) :
    neededBlocks blocksize len = 1 := by
  rw [neededBlocks_eq len (by omega), Nat.div_eq_iff (by omega)]
  omega

section Blocks

variable {cfg : CacheConfig} {key : Nat → Bytes} {first_block valsize : Nat → Nat}
  {bitmap bitmap' : Nat → UInt8} {pos pos' i first len : Nat}

/-- Only the blocks of the items in use matter. -/
theorem BlockRep.of_live (h : BlockRep cfg key first_block valsize bitmap pos)
    {first_block' valsize' : Nat → Nat} (hfirst : ∀ j, key j ≠ [] → first_block' j = first_block j)
    (hsize : ∀ j, key j ≠ [] → valsize' j = valsize j) :
    BlockRep cfg key first_block' valsize' bitmap pos := by
  have hsame : ∀ j, key j ≠ [] → ∀ block, Occupies cfg.blocksize first_block' valsize' j block ↔
      Occupies cfg.blocksize first_block valsize j block := by
    intro j hj block
    unfold Occupies
    rw [hfirst j hj, hsize j hj]
  refine ⟨?_, ?_, ?_, ?_, ?_, h.pos⟩
  · intro j hj
    rw [hsize j hj]
    exact h.sized j hj
  · intro j hj
    rw [hfirst j hj, hsize j hj]
    exact h.inside j hj
  · intro j m block hj hm
    rw [hsame j hj, hsame m hm]
    exact h.apart j m block hj hm
  · intro huse j hj
    rw [hfirst j hj, hsize j hj]
    exact h.own huse j hj
  · intro huse block hblock
    rw [h.used huse block hblock]
    apply or_congr_right
    apply exists_congr
    intro j
    apply and_congr_right
    intro hj
    exact (hsame j hj block).symm

/-- The blocks of an item are given up. -/
theorem BlockRep.release (h : BlockRep cfg key first_block valsize bitmap pos) (hi : key i ≠ [])
    (hbits : cfg.use_blocks_bitmap = true → ∀ block, blockUsed bitmap' block =
      if first_block i ≤ block ∧ block < first_block i + neededBlocks cfg.blocksize (valsize i) then false
      else blockUsed bitmap block) :
    BlockRep cfg (update key i []) first_block (update valsize i 0) bitmap' pos := by
  -- what is still in use has the blocks it had
  have hsame : ∀ j, j ≠ i → ∀ block, Occupies cfg.blocksize first_block (update valsize i 0) j
      block ↔ Occupies cfg.blocksize first_block valsize j block := by
    intro j hj block
    unfold Occupies
    rw [update_of_ne hj]
  refine ⟨?_, ?_, ?_, ?_, ?_, h.pos⟩
  · intro j hj
    obtain ⟨hne, hj⟩ := live_of_update hj
    rw [update_of_ne hne]
    exact h.sized j hj
  · intro j hj
    obtain ⟨hne, hj⟩ := live_of_update hj
    rw [update_of_ne hne]
    exact h.inside j hj
  · intro j m block hj hm hocc hocc'
    obtain ⟨hne, hj⟩ := live_of_update hj
    obtain ⟨hne', hm⟩ := live_of_update hm
    exact h.apart j m block hj hm ((hsame j hne block).mp hocc) ((hsame m hne' block).mp hocc')
  · intro huse j hj
    obtain ⟨hne, hj⟩ := live_of_update hj
    rw [update_of_ne hne]
    exact h.own huse j hj
  · intro huse block hblock
    rw [hbits huse]
    by_cases hocc : first_block i ≤ block ∧ block < first_block i + neededBlocks cfg.blocksize (valsize i)
    · rw [if_pos hocc]
      refine iff_of_false Bool.false_ne_true ?_
      have hinside := h.inside i hi
      rintro (hpad | ⟨j, hj, hocc'⟩)
      · exact absurd hocc.2 (by omega)
      · obtain ⟨hne, hj⟩ := live_of_update hj
        exact hne (h.apart j i block hj hi ((hsame j hne block).mp hocc') hocc)
    · rw [if_neg hocc, h.used huse block hblock]
      apply or_congr_right
      constructor
      · rintro ⟨j, hj, hocc'⟩
        have hne : j ≠ i := fun heq => hocc (heq ▸ hocc')
        refine ⟨j, ?_, (hsame j hne block).mpr hocc'⟩
        rw [update_of_ne hne]
        exact hj
      · rintro ⟨j, hj, hocc'⟩
        obtain ⟨hne, hj⟩ := live_of_update hj
        exact ⟨j, hj, (hsame j hne block).mp hocc'⟩

/-- Where a value of `len` bytes may be put for the item `i`. -/
def Placeable (cfg : CacheConfig) (bitmap : Nat → UInt8) (i first len : Nat) : Prop :=
  if cfg.use_blocks_bitmap then
    first + neededBlocks cfg.blocksize len ≤ cfg.blocks ∧
      FreeBlocks bitmap first (first + neededBlocks cfg.blocksize len)
  else first = i ∧ len ≤ cfg.blocksize

section

variable (h : BlockRep cfg key first_block valsize bitmap pos) (hfree : key i = [])
include h hfree

/-- The blocks of a place are inside, and no item in use has them. -/
theorem BlockRep.placeable (hlen : 0 < len) (hslot : i < cfg.max_items)
    (hplace : Placeable cfg bitmap i first len) :
    first + neededBlocks cfg.blocksize len ≤ cfg.blocks ∧
      ∀ j block, key j ≠ [] → first ≤ block → block < first + neededBlocks cfg.blocksize len →
        ¬ Occupies cfg.blocksize first_block valsize j block := by
  unfold Placeable at hplace
  split at hplace
  · next huse =>
    obtain ⟨hinside, hblocks⟩ := hplace
    refine ⟨hinside, ?_⟩
    intro j block hj hfirst hstop hocc
    have hsize : block < cfg.blocks_bitmap_size * 8 := by
      unfold CacheConfig.blocks_bitmap_size
      split <;> omega
    have hset := (h.used huse block hsize).mpr (.inr ⟨j, hj, hocc⟩)
    rw [hblocks block hfirst hstop] at hset
    cases hset
  · next huse =>
    obtain ⟨rfl, hle⟩ := hplace
    have hitems := cfg.items_le_blocks
    rw [neededBlocks_eq_one hlen hle]
    refine ⟨by omega, ?_⟩
    intro j block hj hfirst hstop hocc
    obtain ⟨hfirstJ, hleJ⟩ := h.own (Bool.eq_false_iff.mpr huse) j hj
    unfold Occupies at hocc
    rw [hfirstJ, neededBlocks_eq_one (h.sized j hj) hleJ] at hocc
    obtain rfl : j = first := by omega
    exact hj hfree

/-- An item that was not in use takes blocks. -/
theorem BlockRep.place {k : Bytes} (hk : k ≠ []) (hlen : 0 < len) (hslot : i < cfg.max_items)
    (hplace : Placeable cfg bitmap i first len)
    (hbits : cfg.use_blocks_bitmap = true → ∀ block, blockUsed bitmap' block =
      if first ≤ block ∧ block < first + neededBlocks cfg.blocksize len then true
      else blockUsed bitmap block) (hpos : pos' < cfg.blocks) :
    BlockRep cfg (update key i k) (update first_block i first)
      (update valsize i len) bitmap' pos' := by
  obtain ⟨hinside, hnone⟩ := h.placeable hfree hlen hslot hplace
  have hsame : ∀ j, j ≠ i → ∀ block,
      Occupies cfg.blocksize (update first_block i first) (update valsize i len) j block ↔
        Occupies cfg.blocksize first_block valsize j block := by
    intro j hj block
    unfold Occupies
    rw [update_of_ne hj, update_of_ne hj]
  have hnew : ∀ block,
      Occupies cfg.blocksize (update first_block i first) (update valsize i len) i block ↔
        first ≤ block ∧ block < first + neededBlocks cfg.blocksize len := by
    intro block
    unfold Occupies
    rw [update_self, update_self]
  have hlive : ∀ j, j ≠ i → update key i k j ≠ [] → key j ≠ [] := by
    intro j hne hj
    rwa [update_of_ne hne] at hj
  refine ⟨?_, ?_, ?_, ?_, ?_, hpos⟩
  · intro j hj
    by_cases hne : j = i
    · rw [hne, update_self]
      exact hlen
    · rw [update_of_ne hne]
      exact h.sized j (hlive j hne hj)
  · intro j hj
    by_cases hne : j = i
    · rw [hne, update_self, update_self]
      exact hinside
    · rw [update_of_ne hne, update_of_ne hne]
      exact h.inside j (hlive j hne hj)
  · intro j m block hj hm hocc hocc'
    by_cases hjI : j = i <;> by_cases hmI : m = i
    · rw [hjI, hmI]
    · rw [hjI, hnew] at hocc
      exact absurd ((hsame m hmI block).mp hocc') (hnone m block (hlive m hmI hm) hocc.1 hocc.2)
    · rw [hmI, hnew] at hocc'
      exact absurd ((hsame j hjI block).mp hocc) (hnone j block (hlive j hjI hj) hocc'.1 hocc'.2)
    · exact h.apart j m block (hlive j hjI hj) (hlive m hmI hm) ((hsame j hjI block).mp hocc)
        ((hsame m hmI block).mp hocc')
  · intro huse j hj
    by_cases hne : j = i
    · rw [hne, update_self, update_self]
      unfold Placeable at hplace
      rwa [huse, if_neg Bool.false_ne_true] at hplace
    · rw [update_of_ne hne, update_of_ne hne]
      exact h.own huse j (hlive j hne hj)
  · intro huse block hblock
    rw [hbits huse]
    by_cases hin : first ≤ block ∧ block < first + neededBlocks cfg.blocksize len
    · rw [if_pos hin]
      refine iff_of_true rfl (.inr ⟨i, ?_, (hnew block).mpr hin⟩)
      rw [update_self]
      exact hk
    · rw [if_neg hin, h.used huse block hblock]
      apply or_congr_right
      constructor
      · rintro ⟨j, hj, hocc⟩
        have hne : j ≠ i := fun heq => hj (heq ▸ hfree)
        refine ⟨j, ?_, (hsame j hne block).mpr hocc⟩
        rw [update_of_ne hne]
        exact hj
      · rintro ⟨j, hj, hocc⟩
        have hne : j ≠ i := by
          rintro rfl
          exact hin ((hnew block).mp hocc)
        exact ⟨j, hlive j hne hj, (hsame j hne block).mp hocc⟩

end

/-- What the search for blocks finds is a place. -/
theorem BlockRep.findBlocks {c : CacheState}
    (h : BlockRep cfg key first_block valsize c.blocks_bitmap c.blocks_bitmap_pos)
    (huse : cfg.use_blocks_bitmap = true) (hlen : 0 < len)
    (hfound : findBlocks cfg len c = some first) : Placeable cfg c.blocks_bitmap i first len := by
  have hpos := h.pos
  have hsize : c.blocks_bitmap_pos / 8 < cfg.blocks_bitmap_size := by
    unfold CacheConfig.blocks_bitmap_size
    split <;> omega
  obtain ⟨hinside, hfree⟩ := upsgi_cache_find_free_blocks_sound hsize hfound
  have hneeded := neededBlocks_pos cfg.blocksize_pos hlen
  unfold Placeable
  rw [if_pos huse]
  refine ⟨?_, hfree⟩
  -- the padding is never free
  by_contra hover
  have hlast := hfree (first + neededBlocks cfg.blocksize len - 1) (by omega) (by omega)
  rw [(h.used huse _ (by omega)).mpr (.inl (by omega))] at hlast
  cases hlast

end Blocks

end Upsgi
