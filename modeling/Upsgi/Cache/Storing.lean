import Upsgi.Cache.Items

/-! # Storing in a cache

    An insertion and an update, as changes of the map from keys to items and of
    the order of the keys.  The bytes of a value are found again as long as its
    blocks are not written to, and these are no other item's.
-/

namespace Upsgi

open Framing (Bytes)
open List Function

/-! ### Memory -/

section

variable (data : Nat → UInt8)
include data

theorem length_readData (offset len : Nat) :
    (readData data offset len).length = len := by
  unfold readData
  rw [length_map, length_range]

theorem readData_writeData (offset : Nat) (bytes : Bytes) :
    readData (writeData data offset bytes) offset bytes.length = bytes := by
  unfold readData writeData
  apply ext_getElem
  · rw [length_map, length_range]
  intro k _ hk
  rw [getElem_map, getElem_range, if_pos (by omega), Nat.add_sub_cancel_left]
  simp [hk]

/-- A write somewhere else. -/
theorem readData_writeData_of_apart {offset offset' len : Nat} {bytes : Bytes}
    (h : ∀ a, offset ≤ a → a < offset + len → ¬ (offset' ≤ a ∧ a < offset' + bytes.length)) :
    readData (writeData data offset' bytes) offset len = readData data offset len := by
  apply map_congr_left
  intro k hk
  rw [mem_range] at hk
  exact if_neg (h (offset + k) (by omega) (by omega))

/-- The first bytes of what is read. -/
theorem take_readData (offset : Nat) {len n : Nat} (h : n ≤ len) :
    (readData data offset len).take n = readData data offset n := by
  unfold readData
  rw [← map_take, take_range, Nat.min_eq_left h]

end

/-- A byte of a value is in one of its blocks. -/
theorem block_of_byte {blocksize first len a : Nat} (hblock : 0 < blocksize)
    (hle : first * blocksize ≤ a) (hlt : a < first * blocksize + len) :
    first ≤ a / blocksize ∧ a / blocksize < first + neededBlocks blocksize len := by
  have hneeded := le_neededBlocks_mul blocksize len hblock
  constructor
  · exact (Nat.le_div_iff_mul_le hblock).mpr hle
  · rw [Nat.div_lt_iff_lt_mul hblock, Nat.add_mul]
    omega

theorem length_int64Bytes (num : Int64) : (int64Bytes num).length = 8 := by
  unfold int64Bytes
  rw [length_map, length_range]

/-- The values of other items are not touched by a write to blocks they do not
    have. -/
theorem value_writeData {cfg : CacheConfig} {data : Nat → UInt8} {first_block valsize : Nat → Nat}
    {j first : Nat} {bytes : Bytes}
    (h : ∀ block, first ≤ block → block < first + neededBlocks cfg.blocksize bytes.length →
      ¬ Occupies cfg.blocksize first_block valsize j block) :
    readData (writeData data (first * cfg.blocksize) bytes) (first_block j * cfg.blocksize) (valsize j) =
      readData data (first_block j * cfg.blocksize) (valsize j) := by
  apply readData_writeData_of_apart
  intro a hle hlt hwritten
  obtain ⟨hfirst, hstop⟩ := block_of_byte cfg.blocksize_pos hwritten.1 hwritten.2
  exact h (a / cfg.blocksize) hfirst hstop (block_of_byte cfg.blocksize_pos hle hlt)

/-! ### Insertion -/

/-- The expiry that is stored. -/
def cachedExpiry (cfg : CacheConfig) (now expires : Nat) (flags : CacheFlags) : Nat :=
  if cfg.purge_lru then expires
  else if expires ≠ 0 ∧ flags.absexpire = false then (expires + now) % 2 ^ 64
  else expires

/-- The value that is stored for `val` when `num` is the number it is computed
    from. -/
def cachedValue (num : Int64) (val : Bytes) (flags : CacheFlags) : Bytes :=
  if flags.math then int64Bytes (cacheMath flags num (int64 val)) else val

theorem length_cachedValue (num : Int64) (val : Bytes) {flags : CacheFlags}
    (hmath : flags.math = true → val.length = 8) : (cachedValue num val flags).length = val.length := by
  unfold cachedValue
  split
  · next h => rw [length_int64Bytes, hmath h]
  · rfl

theorem linkItem_frame (cfg : CacheConfig) (i : Nat) (c : CacheState) :
    ∃ prev next hashtable,
      linkItem cfg i c = { c with prev := prev, next := next, hashtable := hashtable } := by
  unfold linkItem
  dsimp only
  split <;> exact ⟨_, _, _, rfl⟩

theorem scheduleExpiry_eq (now expires : Nat) (flags : CacheFlags) (c : CacheState) :
    ∃ next_scan, scheduleExpiry now expires flags c =
      ({ c with next_scan := next_scan },
        if expires ≠ 0 ∧ flags.absexpire = false then (expires + now) % 2 ^ 64 else expires) := by
  unfold scheduleExpiry
  split
  · exact ⟨_, rfl⟩
  · exact ⟨c.next_scan, rfl⟩

/-- What becomes of the item and of the fields beside the links. -/
theorem scheduled_frame (cfg : CacheConfig) (i now expires : Nat) (flags : CacheFlags) (d : CacheState) :
    ∃ lru_prev lru_next lru_head lru_tail next_scan,
      (if cfg.purge_lru then (lru_add_item i d, expires) else scheduleExpiry now expires flags d) =
        ({ d with
            lru_prev := lru_prev, lru_next := lru_next, lru_head := lru_head, lru_tail := lru_tail
            next_scan := next_scan }, cachedExpiry cfg now expires flags) := by
  unfold cachedExpiry
  split
  · rw [lru_add_item_eq]
    exact ⟨_, _, _, _, d.next_scan, rfl⟩
  · obtain ⟨next_scan, hsched⟩ := scheduleExpiry_eq now expires flags d
    rw [hsched]
    exact ⟨_, _, _, _, next_scan, rfl⟩

theorem storeItem_fields (cfg : CacheConfig) (now i first : Nat) (key val : Bytes) (expires : Nat)
    (flags : CacheFlags) (c : CacheState) :
    let d := storeItem cfg now i first key val expires flags c
    d.key = update c.key i key ∧ d.flags = update c.flags i flags ∧
      d.valsize = update c.valsize i val.length ∧
      d.first_block = update c.first_block i first ∧
      d.expires = update c.expires i (cachedExpiry cfg now expires flags) ∧
      d.data = writeData c.data (first * cfg.blocksize) (cachedValue cfg.math_initial val flags) := by
  unfold storeItem
  obtain ⟨prev, next, hashtable, hlink⟩ :=
    linkItem_frame cfg i (fillItem cfg now i first key val expires flags c)
  rw [hlink]
  unfold fillItem
  obtain ⟨_, _, _, _, _, hsched⟩ := scheduled_frame cfg i now expires flags
    { c with first_block := update c.first_block i first }
  dsimp only at hsched ⊢
  rw [hsched]
  exact ⟨rfl, rfl, rfl, rfl, rfl, rfl⟩

section Insertion

variable {cfg : CacheConfig} {c : CacheState} {order : List Bytes}

/-- An item that is not in use is stored under a new key. -/
theorem Holds.store (h : Holds cfg c order) {i first : Nat} {rest : List Nat} {key val : Bytes}
    {flags : CacheFlags} (hunused : c.unused = i :: rest) (hkey : key ≠ [])
    (hnew : c.find cfg key = none) (hval : 0 < val.length) (hmath : flags.math = true → val.length = 8)
    (hplace : Placeable cfg c.blocks_bitmap i first val.length) (bitmap : Nat → UInt8) {pos : Nat}
    (hbits : cfg.use_blocks_bitmap = true → ∀ block, blockUsed bitmap block =
      if first ≤ block ∧ block < first + neededBlocks cfg.blocksize val.length then true
      else blockUsed c.blocks_bitmap block) (hpos : pos < cfg.blocks) (now expires : Nat) :
    let d := storeItem cfg now i first key val expires flags
      { c with unused := rest, blocks_bitmap := bitmap, blocks_bitmap_pos := pos }
    Holds cfg d (order ++ [key]) ∧
      d.find cfg = update (c.find cfg) key
        (some ⟨cachedValue cfg.math_initial val flags, flags, cachedExpiry cfg now expires flags⟩) := by
  obtain ⟨lru, hinv, horder⟩ := h
  have hnew' : ∀ j, c.key j ≠ key := by
    intro j hj
    have hlive := find_live (i := j) hinv.keys (by rw [hj]; exact hkey)
    rw [hj, hnew] at hlive
    cases hlive
  obtain ⟨hslot, hfree⟩ := (hinv.stack.mem i).mp (by rw [hunused]; exact mem_cons_self)
  have hinv' := hinv.store hunused hkey hnew' hval hplace hbits hpos now expires flags
  obtain ⟨hkeyD, hflags, hvalsize, hfirst, hexpires, hdata⟩ := storeItem_fields cfg now i first key val
    expires flags { c with unused := rest, blocks_bitmap := bitmap, blocks_bitmap_pos := pos }
  intro d
  have hlive : d.key i = key := by rw [hkeyD, update_self]
  refine ⟨⟨lru ++ [i], hinv', ?_⟩, ?_⟩
  · intro hpurge
    rw [horder hpurge, map_append, map_singleton, hlive]
    congr 1
    apply map_congr_left
    intro j hj
    have hne : j ≠ i := by
      rintro rfl
      exact (hinv.lru_mem hpurge j).mp hj hfree
    rw [hkeyD, update_of_ne hne]
  · have hlen := length_cachedValue cfg.math_initial val hmath
    funext k
    by_cases hk : k = key
    · -- the new item is what was written
      have hfound := find_live (c := d) (i := i) hinv'.keys (by rw [hlive]; exact hkey)
      rw [hlive] at hfound
      rw [hk, hfound, update_self]
      unfold CacheState.itemAt CacheState.value
      rw [hflags, hvalsize, hfirst, hexpires, hdata, update_self, update_self,
        update_self, update_self, ← hlen, readData_writeData]
    · rw [update_of_ne hk]
      by_cases hnil : k = []
      · rw [hnil]
        rfl
      · apply find_of_ne hinv.keys hinv'.keys (i := i)
        · exact fun j hj => by rw [hkeyD, update_of_ne hj]
        · intro j hj hlive
          obtain ⟨_, hnone⟩ := hinv.blocks.placeable hfree hval hslot.2 hplace
          unfold CacheState.itemAt CacheState.value
          rw [hflags, hvalsize, hfirst, hexpires, hdata, update_of_ne hj,
            update_of_ne hj, update_of_ne hj, update_of_ne hj]
          rw [value_writeData]
          intro block hle hlt
          rw [hlen] at hlt
          exact hnone j block hlive hle hlt
        · rw [hfree]
          exact hnil
        · rw [hlive]
          exact hk

end Insertion

/-! ### Update -/

section Update

variable {cfg : CacheConfig} {c : CacheState} {order : List Bytes} {i : Nat}

/-- The key becomes the most recently used one. -/
def moveToEnd (k : Bytes) (order : List Bytes) : List Bytes :=
  (order.filter fun k' => decide (k' ≠ k)) ++ [k]

/-- A change of the LRU list only. -/
theorem Holds.touch (h : Holds cfg c order) (hi : c.key i ≠ []) (hpurge : cfg.purge_lru = true) :
    ∃ lru_prev lru_next lru_head lru_tail,
      lru_add_item i (lru_remove_item i c) =
        { c with lru_prev := lru_prev, lru_next := lru_next, lru_head := lru_head, lru_tail := lru_tail } ∧
      Holds cfg (lru_add_item i (lru_remove_item i c)) (moveToEnd (c.key i) order) := by
  obtain ⟨lru, hinv, horder⟩ := h
  obtain ⟨lru_prev, lru_next, lru_head, lru_tail, heq, hinv'⟩ := hinv.touch hi hpurge
  refine ⟨lru_prev, lru_next, lru_head, lru_tail, heq, lru.erase i ++ [i], hinv', ?_⟩
  intro _
  unfold moveToEnd
  rw [heq, map_append, map_singleton, horder hpurge]
  rw [hinv.map_erase hpurge hi]

/-- One item gets another expiry or another value. -/
theorem find_update_item {d : CacheState} (hc : KeyRep cfg c.key c.hash) (hd : KeyRep cfg d.key d.hash)
    (hi : c.key i ≠ []) (hkey : d.key = c.key)
    (hitem : ∀ j, j ≠ i → c.key j ≠ [] → d.itemAt cfg j = c.itemAt cfg j) :
    d.find cfg = update (c.find cfg) (c.key i) (some (d.itemAt cfg i)) := by
  funext k
  by_cases hk : k = c.key i
  · rw [hk, update_self]
    have hlive := find_live (c := d) (i := i) hd (by rw [hkey]; exact hi)
    rwa [hkey] at hlive
  · rw [update_of_ne hk]
    apply find_of_ne hc hd (i := i) _ hitem hk
    · rw [hkey]
      exact hk
    · exact fun j _ => by rw [hkey]

/-- The order after `refreshItem`. -/
def refreshedOrder (cfg : CacheConfig) (flags : CacheFlags) (k : Bytes) (order : List Bytes) :
    List Bytes :=
  if cfg.purge_lru = true ∧ flags.fixexpire = false then moveToEnd k order else order

/-- `refreshItem` changes the expiry of an item and its place in the order. -/
theorem Holds.refresh (h : Holds cfg c order) (hi : c.key i ≠ []) (now expires : Nat)
    (flags : CacheFlags) :
    ∃ lru_prev lru_next lru_head lru_tail next_scan expiresF,
      refreshItem cfg now i expires flags c =
        { c with
          lru_prev := lru_prev, lru_next := lru_next, lru_head := lru_head, lru_tail := lru_tail
          next_scan := next_scan, expires := expiresF } ∧
      (expiresF = if flags.fixexpire then c.expires
        else update c.expires i (cachedExpiry cfg now expires flags)) ∧
      Holds cfg (refreshItem cfg now i expires flags c) (refreshedOrder cfg flags (c.key i) order) := by
  unfold refreshItem refreshedOrder
  by_cases hfix : flags.fixexpire = true
  · rw [if_pos hfix, if_pos hfix, if_neg (by rw [hfix]; exact fun hand => nomatch hand.2)]
    exact ⟨_, _, _, _, _, _, rfl, rfl, h⟩
  · rw [if_neg hfix, if_neg hfix]
    rw [Bool.not_eq_true] at hfix
    by_cases hpurge : cfg.purge_lru = true
    · rw [if_pos hpurge, if_pos ⟨hpurge, hfix⟩]
      obtain ⟨lru_prev, lru_next, lru_head, lru_tail, heq, lru, hinv, horder⟩ := h.touch hi hpurge
      rw [heq] at hinv horder ⊢
      refine ⟨lru_prev, lru_next, lru_head, lru_tail, c.next_scan, _, rfl, ?_, lru, ?_, horder⟩
      · unfold cachedExpiry
        rw [if_pos hpurge]
      · exact { hinv with }
    · rw [if_neg hpurge, if_neg fun hand => hpurge hand.1]
      obtain ⟨lru, hinv, horder⟩ := h
      obtain ⟨next_scan, hsched⟩ := scheduleExpiry_eq now expires flags c
      rw [hsched]
      refine ⟨_, _, _, _, next_scan, _, rfl, ?_, lru, ?_, horder⟩
      · unfold cachedExpiry
        rw [if_neg hpurge]
      · exact { hinv with }

/-- An item in use gets a value, with the blocks from `first` on. -/
theorem Holds.revalue (h : Holds cfg c order) (hi : c.key i ≠ []) {first : Nat} (bytes : Bytes)
    (hlen : 0 < bytes.length) (hplace : Placeable cfg c.blocks_bitmap i first bytes.length)
    (bitmap : Nat → UInt8) {pos : Nat}
    (hbits : cfg.use_blocks_bitmap = true → ∀ block, blockUsed bitmap block =
      if c.first_block i ≤ block ∧ block < c.first_block i + neededBlocks cfg.blocksize (c.valsize i) then
        false
      else if first ≤ block ∧ block < first + neededBlocks cfg.blocksize bytes.length then true
      else blockUsed c.blocks_bitmap block) (hpos : pos < cfg.blocks) :
    let d := { c with
      first_block := update c.first_block i first
      valsize := update c.valsize i bytes.length
      blocks_bitmap := bitmap, blocks_bitmap_pos := pos
      data := writeData c.data (first * cfg.blocksize) bytes }
    Holds cfg d order ∧
      d.find cfg = update (c.find cfg) (c.key i) (some ⟨bytes, c.flags i, c.expires i⟩) := by
  obtain ⟨lru, hinv, horder⟩ := h
  obtain ⟨_, hslot⟩ := hinv.keys.slot i hi
  have hblocks := hinv.blocks.move hi hlen hslot hplace hbits hpos
  intro d
  have hinv' : CacheInv cfg d lru :=
    { hinv with blocks := hblocks }
  refine ⟨⟨lru, hinv', horder⟩, ?_⟩
  rw [find_update_item hinv.keys hinv'.keys hi rfl]
  · congr 2
    show CacheItem.mk (readData (writeData c.data (first * cfg.blocksize) bytes)
      (update c.first_block i first i * cfg.blocksize)
      (update c.valsize i bytes.length i)) _ _ = _
    rw [update_self, update_self, readData_writeData]
  · intro j hj hlive
    show CacheItem.mk (readData (writeData c.data (first * cfg.blocksize) bytes)
      (update c.first_block i first j * cfg.blocksize)
      (update c.valsize i bytes.length j)) _ _ = _
    rw [update_of_ne hj, update_of_ne hj, value_writeData]
    · rfl
    · -- the new blocks are not those of another item
      intro block hle hlt hocc
      refine hj (hblocks.apart j i block hlive hi ?_ ?_)
      · unfold Occupies
        rw [update_of_ne hj, update_of_ne hj]
        exact hocc
      · unfold Occupies
        rw [update_self, update_self]
        exact ⟨hle, hlt⟩

end Update

end Upsgi
