import Upsgi.Cache.Storing

/-! # The operations of a cache

    For each operation, all that it can do to the map from keys to items and to
    the order of the keys.  `cache_full` is called from inside of
    `upsgi_cache_set2`; `fullCalls` has the states in which that happens.
-/

namespace Upsgi

open Framing (Bytes)
open Function List

section Lookups

variable {cfg : CacheConfig} {c d : CacheState} {order : List Bytes} {now : Nat} {key : Bytes}

/-! ### Lookup -/

/-- The key is found, and has not expired lazily. -/
def Fresh (cfg : CacheConfig) (now : Nat) (it : CacheItem) : Prop :=
  ¬ (cfg.lazy_expire = true ∧ it.Due now)

instance (cfg : CacheConfig) (now : Nat) (it : CacheItem) : Decidable (Fresh cfg now it) :=
  inferInstanceAs (Decidable (¬ (cfg.lazy_expire = true ∧ it.Due now)))

/-- A lookup without success: the key was not there, or its item has expired and
    is removed. -/
structure Missed (cfg : CacheConfig) (now : Nat) (key : Bytes) (c d : CacheState) : Prop where
  removes : Removes cfg (fun k it => k = key ∧ ¬ Fresh cfg now it) c d
  absent : d.find cfg key = none

/-- The results of a lookup. -/
inductive Lookup (cfg : CacheConfig) (now : Nat) (key : Bytes) (c : CacheState) :
    CacheState × Nat → Prop
  | found (i : Nat) (hi : i ≠ 0) (hkey : c.key i = key) (hne : key ≠ [])
      (hfresh : Fresh cfg now (c.itemAt cfg i)) : Lookup cfg now key c (c, i)
  | missed (d : CacheState) (h : Missed cfg now key c d) : Lookup cfg now key c (d, 0)

theorem Missed.of_none (h : c.find cfg key = none) : Missed cfg now key c c :=
  ⟨.refl, h⟩

/-- `check_lazy` for an item that has the key. -/
theorem check_lazy_lookup (h : Holds cfg c order) {i : Nat} (hkey : c.key i = key) (hne : key ≠ []) :
    Lookup cfg now key c (check_lazy cfg now i c) := by
  have hi : c.key i ≠ [] := hkey ▸ hne
  have hzero : i ≠ 0 := by
    have := (h.keys.slot i hi).1
    omega
  unfold check_lazy
  split
  · next hnot =>
    refine .found i hzero hkey hne ?_
    rintro ⟨hlazy, hdue⟩
    rcases hnot with hnot | hnot
    · exact hdue.1 hnot
    · rw [hlazy] at hnot
      cases hnot
  · next hnot =>
    rw [not_or, Bool.not_eq_false] at hnot
    split
    · next hle =>
      have hexpired : ¬ Fresh cfg now (c.itemAt cfg i) := not_not_intro ⟨hnot.2, hnot.1, hle⟩
      refine .missed _ ⟨h.removes_del fun _ => ⟨hkey, hexpired⟩, ?_⟩
      rw [(h.del hi).2, hkey, update_self]
    · next hlt => exact .found i hzero hkey hne fun hand => hlt hand.2.2

/-- A key that is in no chain is not there. -/
theorem find_none_of_chain (h : KeyRep cfg c.key c.hash) {chains : Nat → List Nat}
    (hchains : ChainRep cfg.hashsize c.key c.hash c.prev c.next c.hashtable chains)
    (hnone : (chains (cfg.hash key % cfg.hashsize)).find? (c.hasKey (cfg.hash key) key) = none) :
    c.find cfg key = none := by
  apply find_eq_none
  intro i hi hkey
  have hhash : c.hash i = cfg.hash key := by rw [h.hashes i hi, hkey]
  have hmem : i ∈ chains (cfg.hash key % cfg.hashsize) := (hchains.mem _ i).mpr ⟨hi, by rw [hhash]⟩
  have hnot := find?_eq_none.mp hnone i hmem
  unfold CacheState.hasKey at hnot
  rw [hhash, hkey, decide_eq_true rfl, decide_eq_true rfl] at hnot
  exact hnot rfl

theorem upsgi_cache_get_index_lookup (h : Holds cfg c order) (now : Nat) (key : Bytes) :
    Lookup cfg now key c (upsgi_cache_get_index cfg now key c) := by
  obtain ⟨lru, hinv, _⟩ := id h
  obtain ⟨chains, hchains⟩ := hinv.chains
  have hseg := hchains.seg (cfg.hash key % cfg.hashsize)
  have hhead := hchains.head (cfg.hash key % cfg.hashsize)
  have hmem := hchains.mem (cfg.hash key % cfg.hashsize)
  have hshort := hinv.chain_length hchains (cfg.hash key % cfg.hashsize)
  have habsent : (chains (cfg.hash key % cfg.hashsize)).find? (c.hasKey (cfg.hash key) key) = none →
      c.find cfg key = none := find_none_of_chain hinv.keys hchains
  -- the walk along the chain
  have hwalk := hseg.find_eq (c.hasKey (cfg.hash key) key) (Nat.le_succ_of_le hshort)
  generalize chains (cfg.hash key % cfg.hashsize) = chain at *
  unfold upsgi_cache_get_index
  dsimp only
  cases chain with
  | nil =>
    rw [if_pos (show c.hashtable _ = 0 from hhead)]
    exact .missed c (.of_none (habsent rfl))
  | cons m l =>
    have hm : c.hashtable (cfg.hash key % cfg.hashsize) = m := hhead
    rw [hm, if_neg hseg.1, if_neg (not_not_intro ((hmem m).mp mem_cons_self).2),
      show DoublyLinked.find c.next (c.hasKey (cfg.hash key) key) (cfg.max_items + 1) m = _ from hwalk]
    cases hfind : (m :: l).find? (c.hasKey (cfg.hash key) key) with
    | none => exact .missed c (.of_none (habsent hfind))
    | some i =>
      have hi := ((hmem i).mp (mem_of_find?_eq_some hfind)).1
      have hhas := find?_some hfind
      unfold CacheState.hasKey at hhas
      rw [Bool.and_eq_true, decide_eq_true_eq, decide_eq_true_eq] at hhas
      have hzero : i ≠ 0 := hseg.ne_zero (mem_of_find?_eq_some hfind)
      rw [Option.getD_some, if_neg hzero]
      exact check_lazy_lookup h hhas.2 (hhas.2 ▸ hi)

/-! ### Removals -/

/-- `cache_full` only removes. -/
theorem Holds.removes_full (h : Holds cfg c order) (now : Nat) :
    Removes cfg (fun _ _ => True) c (cache_full cfg now c) := by
  unfold cache_full
  dsimp only
  -- the LRU item
  generalize hfirst : (if cfg.purge_lru ∧ c.lru_head ≠ 0 then delItem cfg c.lru_head c else c) = c₁
  have hpurge : Removes cfg (fun _ _ => True) c c₁ := by
    rw [← hfirst]
    split
    · exact h.removes_del fun _ => trivial
    · exact .refl
  have h₁ := hpurge.holds order h
  -- what has expired
  generalize hsecond : (if cfg.sweep_on_full ≠ 0 ∧ c₁.next_scan ≤ now then _ else _) = swept
  have hsweep : Removes cfg (fun _ _ => True) c₁ swept.1 := by
    rw [← hsecond]
    split
    · have hscan := h₁.quiet ((now + cfg.sweep_on_full) % 2 ^ 64) c₁.hits
      have hquiet : Removes cfg (fun _ _ => True) c₁
          { c₁ with next_scan := (now + cfg.sweep_on_full) % 2 ^ 64 } :=
        .of_find rfl fun _ h => h.quiet _ _
      refine hquiet.trans (Removes.foldl Prod.fst _ _ (_, 0) ?_ hscan)
      intro acc i order h
      unfold sweepFull
      split
      · exact h.removes_del fun _ => trivial
      · exact .refl
    · exact .refl
  have h₂ := hsweep.holds _ h₁
  -- and everything
  apply (hpurge.trans hsweep).trans
  split
  · exact Removes.foldl id _ _ swept.1 (fun c i order h => h.removes_del fun _ => trivial) h₂
  · exact .refl

/-- A round of the sweeper removes an item only when its time is over. -/
theorem Holds.removes_sweepSlot (h : Holds cfg c order) (now i : Nat) :
    Removes cfg (fun _ it => it.Due now) c (sweepSlot cfg now c i) := by
  unfold sweepSlot
  generalize hreset : (if i = 1 then { c with next_scan := 0 } else c) = c₁
  have hquiet : Removes cfg (fun _ it => it.Due now) c c₁ := by
    rw [← hreset]
    split
    · exact .of_find rfl fun _ h => h.quiet _ _
    · exact .refl
  apply hquiet.trans
  dsimp only
  split
  · next hne =>
    split
    · next hle => exact (hquiet.holds order h).removes_del fun _ => ⟨hne, hle⟩
    · split
      · exact .of_find rfl fun _ h => h.quiet _ _
      · exact .refl
  · exact .refl

theorem Holds.removes_sweeper (h : Holds cfg c order) (now : Nat) :
    Removes cfg (fun _ it => it.Due now) c (cache_sweeper_free_items cfg now c) := by
  unfold cache_sweeper_free_items
  split
  · exact .refl
  · split
    · exact .refl
    · exact Removes.foldl id _ _ c (fun c i order h => h.removes_sweepSlot now i) h

/-! ### Reads -/

/-- The results of a read: the key is not there, must not be read, or is hit. -/
inductive Hit (cfg : CacheConfig) (touch : Bool) (now : Nat) (key : Bytes) (c : CacheState) :
    CacheState × Option Nat → Prop
  | missed (d : CacheState) (h : Missed cfg now key c d) : Hit cfg touch now key c (d, none)
  | ungettable (it : CacheItem) (hfind : c.find cfg key = some it) (hfresh : Fresh cfg now it)
      (hflag : it.flags.ungettable = true) : Hit cfg touch now key c (c, none)
  | hit (i : Nat) (d : CacheState) (hfind : c.find cfg key = some (d.itemAt cfg i))
      (hfresh : Fresh cfg now (d.itemAt cfg i)) (hflag : (d.itemAt cfg i).flags.ungettable = false)
      (hsame : d.find cfg = c.find cfg)
      (hholds : ∀ order, Holds cfg c order →
        Holds cfg d (if touch = true ∧ cfg.purge_lru = true then moveToEnd key order else order)) :
      Hit cfg touch now key c (d, some i)

theorem cacheHit_hit (h : Holds cfg c order) (touch : Bool) (now : Nat) (key : Bytes) :
    Hit cfg touch now key c (cacheHit cfg touch now key c) := by
  have hlookup := upsgi_cache_get_index_lookup h now key
  unfold cacheHit
  generalize upsgi_cache_get_index cfg now key c = result at hlookup ⊢
  cases hlookup with
  | missed d hmiss => exact .missed d hmiss
  | found i hi hkey hne hfresh =>
    have hlive : c.key i ≠ [] := hkey ▸ hne
    have hfind : c.find cfg key = some (c.itemAt cfg i) := by
      rw [← hkey]
      exact find_live h.keys hlive
    dsimp only
    rw [if_neg hi]
    by_cases hflag : (c.flags i).ungettable = true
    · rw [if_pos hflag]
      exact .ungettable (c.itemAt cfg i) hfind hfresh hflag
    · rw [if_neg hflag]
      rw [Bool.not_eq_true] at hflag
      by_cases htouch : touch = true ∧ cfg.purge_lru = true
      · rw [if_pos (by rw [htouch.1, htouch.2]; rfl)]
        obtain ⟨lru_prev, lru_next, lru_head, lru_tail, heq, _⟩ := h.touch hlive htouch.2
        refine .hit i _ ?_ ?_ ?_ ?_ ?_
        · rw [heq]
          exact hfind
        · rw [heq]
          exact hfresh
        · rw [heq]
          exact hflag
        · rw [heq]
          rfl
        · intro order h
          obtain ⟨_, _, _, _, _, hholds⟩ := h.touch hlive htouch.2
          rw [if_pos htouch, ← hkey]
          exact hholds.quiet _ _
      · rw [if_neg (by rw [Bool.and_eq_true]; exact htouch)]
        refine .hit i _ hfind hfresh hflag rfl ?_
        intro order h
        rw [if_neg htouch]
        exact h.quiet _ _

end Lookups

/-! ### Calls of `cache_full` -/

/-- What `upsgi_cache_set2` does not refuse at once. -/
def Acceptable (cfg : CacheConfig) (key val : Bytes) (flags : CacheFlags) : Prop :=
  ¬ (key.length = 0 ∨ val.length = 0) ∧ ¬ cfg.keysize < key.length ∧
    ¬ cfg.max_item_size < val.length ∧ ¬ (flags.math = true ∧ val.length ≠ 8)

instance (cfg : CacheConfig) (key val : Bytes) (flags : CacheFlags) :
    Decidable (Acceptable cfg key val flags) :=
  inferInstanceAs (Decidable (¬ (key.length = 0 ∨ val.length = 0) ∧ ¬ cfg.keysize < key.length ∧
    ¬ cfg.max_item_size < val.length ∧ ¬ (flags.math = true ∧ val.length ≠ 8)))

/-- The states in which an insertion calls `cache_full`. -/
def insertFullCalls (cfg : CacheConfig) (now len : Nat) (c : CacheState) : List CacheState :=
  (if c.unused = [] then [c] else []) ++
    let c := if c.unused = [] then cache_full cfg now c else c
    match c.unused with
    | [] => []
    | index :: _ =>
        if cfg.use_blocks_bitmap ∧ findBlocks cfg len c = none then [unplaced index c] else []

/-- The states in which an operation calls `cache_full`, in order. -/
def fullCalls (cfg : CacheConfig) (now : Nat) (c : CacheState) : CacheOp → List CacheState
  | .set key val expires flags =>
      if Acceptable cfg key val flags then
        let (c, index) := upsgi_cache_get_index cfg now key c
        if index = 0 then insertFullCalls cfg now val.length c
        else if flags.update then
          let c := refreshItem cfg now index expires flags c
          if cfg.use_blocks_bitmap ∧ findBlocks cfg val.length c = none then [c] else []
        else []
      else []
  | _ => []

/-! ### Insertion -/

/-- An item is stored under a key that was not there. -/
structure Stores (cfg : CacheConfig) (now : Nat) (key val : Bytes) (expires : Nat) (flags : CacheFlags)
    (c d : CacheState) : Prop where
  holds : ∀ order, Holds cfg c order → Holds cfg d (order ++ [key])
  find : d.find cfg = Function.update (c.find cfg) key
    (some ⟨cachedValue cfg.math_initial val flags, flags, cachedExpiry cfg now expires flags⟩)

/-- An insertion calls `cache_full` when all items are in use. -/
inductive MakesRoom (cfg : CacheConfig) (now : Nat) (c : CacheState) :
    CacheState → List CacheState → Prop
  | unused (h : c.unused ≠ []) : MakesRoom cfg now c c []
  | full (h : c.unused = []) : MakesRoom cfg now c (cache_full cfg now c) [c]

/-- The results of an insertion: all items stay in use, there are no blocks, or
    the item is stored. -/
inductive InsertCase (cfg : CacheConfig) (now : Nat) (key val : Bytes) (expires : Nat)
    (flags : CacheFlags) (c : CacheState) : CacheState × Int → List CacheState → Prop
  | full (c₁ : CacheState) (calls : List CacheState) (hroom : MakesRoom cfg now c c₁ calls)
      (h : c₁.unused = []) : InsertCase cfg now key val expires flags c (c₁, -1) calls
  | noBlocks (c₁ c₂ : CacheState) (calls : List CacheState) (hroom : MakesRoom cfg now c c₁ calls)
      (hfind : c₂.find cfg = c₁.find cfg) (hholds : ∀ order, Holds cfg c₁ order → Holds cfg c₂ order) :
      InsertCase cfg now key val expires flags c (cache_full cfg now c₂, -1) (calls ++ [c₂])
  | stored (c₁ d : CacheState) (calls : List CacheState) (hroom : MakesRoom cfg now c c₁ calls)
      (hstores : Stores cfg now key val expires flags c₁ d) :
      InsertCase cfg now key val expires flags c (d, 0) calls

section Insertion

variable {cfg : CacheConfig} {c d : CacheState} {order : List Bytes} {now : Nat} {key val : Bytes}
  {expires : Nat} {flags : CacheFlags}

theorem MakesRoom.removes {c₁ : CacheState} {calls : List CacheState} (hroom : MakesRoom cfg now c c₁ calls)
    (h : Holds cfg c order) : Removes cfg (fun _ _ => True) c c₁ := by
  cases hroom with
  | unused _ => exact .refl
  | full _ => exact h.removes_full now

/-- An item on the stack may lose its blocks. -/
theorem Holds.lose_blocks (h : Holds cfg c order) {i : Nat} (hi : i ∈ c.unused) :
    Holds cfg (unplaced i c) order ∧ (unplaced i c).find cfg = c.find cfg := by
  obtain ⟨lru, hinv, horder⟩ := h
  have hfree := ((hinv.stack.mem i).mp hi).2
  have hlive : ∀ j, c.key j ≠ [] → j ≠ i := fun j hj heq => hj (heq ▸ hfree)
  have hblocks := hinv.blocks.of_live
    (fun j hj => update_of_ne (hlive j hj) (2 ^ 64 - 1) c.first_block) fun _ _ => rfl
  have hinv' : CacheInv cfg (unplaced i c) lru :=
    { hinv with blocks := hblocks }
  refine ⟨⟨lru, hinv', horder⟩, ?_⟩
  funext k
  by_cases hnil : k = []
  · rw [hnil]
    rfl
  · apply find_of_ne hinv.keys hinv'.keys (i := i) (fun _ _ => rfl)
    · intro j hj _
      show CacheItem.mk (readData c.data (update c.first_block i (2 ^ 64 - 1) j * cfg.blocksize)
        (c.valsize j)) (c.flags j) (c.expires j) = _
      rw [update_of_ne hj]
      rfl
    · rw [hfree]
      exact hnil
    · show k ≠ c.key i
      rw [hfree]
      exact hnil

section

variable (h : Acceptable cfg key val flags)
include h

theorem Acceptable.key_ne_nil : key ≠ [] := by
  rintro rfl
  exact h.1 (.inl rfl)

theorem Acceptable.val_pos : 0 < val.length :=
  Nat.pos_of_ne_zero fun hzero => h.1 (.inr hzero)

theorem Acceptable.math (hmath : flags.math = true) :
    val.length = 8 := by
  by_contra hne
  exact h.2.2.2 ⟨hmath, hne⟩

/-- Without a bitmap a value fits into a block. -/
theorem Acceptable.placeable (huse : ¬ cfg.use_blocks_bitmap = true) (bitmap : Nat → UInt8)
    (i : Nat) : Placeable cfg bitmap i i val.length := by
  have hsize := h.2.2.1
  unfold CacheConfig.max_item_size at hsize
  rw [if_neg huse] at hsize
  unfold Placeable
  rw [if_neg huse]
  exact ⟨rfl, Nat.le_of_not_lt hsize⟩

end

/-- The place where the next search begins is inside of the blocks. -/
theorem nextPos_lt (cfg : CacheConfig) (stop : Nat) :
    (if cfg.blocks ≤ stop then 0 else stop) < cfg.blocks := by
  have := cfg.max_items_pos
  have := cfg.items_le_blocks
  split <;> omega

theorem takeBlocks_eq (cfg : CacheConfig) (first len : Nat) (c : CacheState) :
    takeBlocks cfg first len c =
      { c with
        blocks_bitmap := (cache_mark_blocks cfg.blocksize c.blocks_bitmap first len).1
        blocks_bitmap_pos :=
          if cfg.blocks ≤ first + neededBlocks cfg.blocksize len then 0
          else first + neededBlocks cfg.blocksize len } := rfl

theorem cacheInsert_cases (h : Holds cfg c order) (hok : Acceptable cfg key val flags)
    (hnone : c.find cfg key = none) (now expires : Nat) :
    InsertCase cfg now key val expires flags c (cacheInsert cfg now key val expires flags c)
      (insertFullCalls cfg now val.length c) := by
  unfold cacheInsert insertFullCalls
  dsimp only
  -- the room that is there or is made
  obtain ⟨c₁, calls, hcalls, hc₁, hroom⟩ : ∃ c₁ calls, (if c.unused = [] then [c] else []) = calls ∧
      (if c.unused = [] then cache_full cfg now c else c) = c₁ ∧ MakesRoom cfg now c c₁ calls := by
    by_cases hempty : c.unused = []
    · exact ⟨_, _, if_pos hempty, if_pos hempty, .full hempty⟩
    · exact ⟨_, _, if_neg hempty, if_neg hempty, .unused hempty⟩
  rw [hcalls, hc₁]
  have hremoves := hroom.removes h
  have h₁ := hremoves.holds order h
  have hnone₁ : c₁.find cfg key = none := (hremoves.kept key).elim id fun hsame => hsame.trans hnone
  cases hunused : c₁.unused with
  | nil =>
    rw [append_nil]
    exact .full c₁ calls hroom hunused
  | cons i rest =>
    dsimp only
    by_cases huse : cfg.use_blocks_bitmap = true
    · rw [if_pos huse]
      cases hfound : findBlocks cfg val.length c₁ with
      | none =>
        rw [if_pos ⟨huse, rfl⟩]
        have hmem : i ∈ c₁.unused := hunused ▸ mem_cons_self
        exact .noBlocks c₁ (unplaced i c₁) calls hroom (h₁.lose_blocks hmem).2
          fun _ h => (h.lose_blocks hmem).1
      | some first =>
        have hsome : ¬ (cfg.use_blocks_bitmap = true ∧ some first = none) := fun hand => nomatch hand.2
        dsimp only
        rw [if_neg hsome, append_nil, takeBlocks_eq]
        -- the blocks that were found are marked
        have hplace : Placeable cfg c₁.blocks_bitmap i first val.length := by
          obtain ⟨_, hinv, _⟩ := h₁
          exact hinv.blocks.findBlocks huse hok.val_pos hfound
        have hbits : cfg.use_blocks_bitmap = true → ∀ block,
            blockUsed (cache_mark_blocks cfg.blocksize c₁.blocks_bitmap first val.length).1 block =
              if first ≤ block ∧ block < first + neededBlocks cfg.blocksize val.length then true
              else blockUsed c₁.blocks_bitmap block :=
          fun _ => blockUsed_mark c₁.blocks_bitmap first cfg.blocksize_pos hok.val_pos
        have hstore := fun order (h : Holds cfg c₁ order) =>
          h.store hunused hok.key_ne_nil hnone₁ hok.val_pos hok.math hplace _ hbits
            (nextPos_lt cfg (first + neededBlocks cfg.blocksize val.length)) now expires
        exact .stored c₁ _ calls hroom ⟨fun order h => (hstore order h).1, (hstore _ h₁).2⟩
    · rw [if_neg huse, if_neg fun hand => huse hand.1, append_nil]
      have hplace := hok.placeable huse c₁.blocks_bitmap i
      have hpos : c₁.blocks_bitmap_pos < cfg.blocks := by
        obtain ⟨_, hinv, _⟩ := h₁
        exact hinv.blocks.pos
      have hstore := fun order (h : Holds cfg c₁ order) =>
        h.store hunused hok.key_ne_nil hnone₁ hok.val_pos hok.math hplace
          c₁.blocks_bitmap (fun htrue => absurd htrue huse) hpos now expires
      exact .stored c₁ _ calls hroom ⟨fun order h => (hstore order h).1, (hstore _ h₁).2⟩

end Insertion

/-! ### Update -/

/-- The expiry of an item that is updated. -/
def refreshedExpiry (cfg : CacheConfig) (now expires : Nat) (flags : CacheFlags) (it : CacheItem) : Nat :=
  if flags.fixexpire then it.expires else cachedExpiry cfg now expires flags

/-- The item of the key has another expiry, and its place in the order. -/
structure Refreshes (cfg : CacheConfig) (now : Nat) (key : Bytes) (expires : Nat) (flags : CacheFlags)
    (it : CacheItem) (c d : CacheState) : Prop where
  holds : ∀ order, Holds cfg c order → Holds cfg d (refreshedOrder cfg flags key order)
  find : d.find cfg = Function.update (c.find cfg) key
    (some { it with expires := refreshedExpiry cfg now expires flags it })

/-- The item of the key has another value as well.  The number it is computed
    from is that of the old value only without a bitmap. -/
structure Updates (cfg : CacheConfig) (now : Nat) (key val : Bytes) (expires : Nat) (flags : CacheFlags)
    (it : CacheItem) (c d : CacheState) : Prop where
  holds : ∀ order, Holds cfg c order → Holds cfg d (refreshedOrder cfg flags key order)
  find : ∃ num, d.find cfg = Function.update (c.find cfg) key
      (some ⟨cachedValue num val flags, it.flags, refreshedExpiry cfg now expires flags it⟩) ∧
    (cfg.use_blocks_bitmap = false → 8 ≤ it.value.length → num = int64 (it.value.take 8))

/-- The results of an update: there are no blocks, or the value is stored. -/
inductive UpdateCase (cfg : CacheConfig) (now : Nat) (key val : Bytes) (expires : Nat)
    (flags : CacheFlags) (it : CacheItem) (c : CacheState) : CacheState × Int → List CacheState → Prop
  | noBlocks (d : CacheState) (huse : cfg.use_blocks_bitmap = true)
      (hnone : findBlocks cfg val.length c = none)
      (h : Refreshes cfg now key expires flags it c d) :
      UpdateCase cfg now key val expires flags it c (cache_full cfg now d, -1) [d]
  | updated (d : CacheState) (h : Updates cfg now key val expires flags it c d) :
      UpdateCase cfg now key val expires flags it c (d, 0) []

section Update

variable {cfg : CacheConfig} {c : CacheState} {order : List Bytes} {i : Nat} {key val : Bytes}
  {flags : CacheFlags}

/-- `refreshItem` in terms of keys. -/
theorem refreshItem_refreshes (h : Holds cfg c order) (hi : c.key i ≠ []) (now expires : Nat)
    (flags : CacheFlags) :
    Refreshes cfg now (c.key i) expires flags (c.itemAt cfg i) c
      (refreshItem cfg now i expires flags c) := by
  refine ⟨?_, ?_⟩
  · intro order h
    obtain ⟨_, _, _, _, _, _, _, _, hholds⟩ := h.refresh hi now expires flags
    exact hholds
  · obtain ⟨_, _, _, _, _, expiresF, heq, hexpires, hholds⟩ := h.refresh hi now expires flags
    have hkeys := hholds.keys
    rw [heq] at hkeys ⊢
    rw [find_update_item h.keys hkeys hi rfl]
    · congr 2
      show CacheItem.mk (c.value cfg i) (c.flags i) (expiresF i) = CacheItem.mk _ _ _
      congr 1
      unfold refreshedExpiry
      rw [hexpires]
      split
      · rfl
      · exact update_self _ _ _
    · intro j hj _
      show CacheItem.mk (c.value cfg j) (c.flags j) (expiresF j) = CacheItem.mk _ _ _
      congr 1
      rw [hexpires]
      split
      · rfl
      · exact update_of_ne hj _ _

/-- The value of an update, after the expiry. -/
theorem Refreshes.revalue {d e : CacheState} {now expires : Nat} {it : CacheItem}
    (h : Refreshes cfg now key expires flags it c d) (num : Int64)
    (hrevalue : ∀ order, Holds cfg d order → Holds cfg e order ∧
      e.find cfg = update (d.find cfg) key
        (some ⟨cachedValue num val flags, it.flags, refreshedExpiry cfg now expires flags it⟩))
    (hc : Holds cfg c order)
    (hnum : cfg.use_blocks_bitmap = false → 8 ≤ it.value.length → num = int64 (it.value.take 8)) :
    Updates cfg now key val expires flags it c e where
  holds := fun order hc => (hrevalue _ (h.holds order hc)).1
  find := by
    refine ⟨num, ?_, hnum⟩
    rw [(hrevalue _ (h.holds order hc)).2, h.find, update_idem]

theorem cacheUpdate_cases (h : Holds cfg c order) (hok : Acceptable cfg key val flags)
    (hkey : c.key i = key) (now expires : Nat) :
    UpdateCase cfg now key val expires flags (c.itemAt cfg i) c
      (cacheUpdate cfg now i val expires flags c)
      (let d := refreshItem cfg now i expires flags c
       if cfg.use_blocks_bitmap ∧ findBlocks cfg val.length d = none then [d] else []) := by
  have hi : c.key i ≠ [] := hkey ▸ hok.key_ne_nil
  have hrefresh := refreshItem_refreshes h hi now expires flags
  have hd := hrefresh.holds order h
  obtain ⟨_, _, _, _, _, expiresF, heq, hexpires, _⟩ := h.refresh hi now expires flags
  have hexpiresI : expiresF i = refreshedExpiry cfg now expires flags (c.itemAt cfg i) := by
    unfold refreshedExpiry
    rw [hexpires]
    split
    · rfl
    · exact update_self _ _ _
  rw [hkey] at hrefresh
  unfold cacheUpdate
  dsimp only
  generalize refreshItem cfg now i expires flags c = d at hrefresh hd heq ⊢
  -- nothing but the expiry of the item is new in `d`
  have hkeyD : d.key = c.key := by rw [heq]
  have hliveD : d.key i ≠ [] := by rw [hkeyD]; exact hi
  have hflagsD : d.flags i = (c.itemAt cfg i).flags := by rw [heq]; rfl
  have hexpiresD : d.expires i = refreshedExpiry cfg now expires flags (c.itemAt cfg i) := by
    rw [← hexpiresI, heq]
  have hlen := fun num => length_cachedValue num val hok.math
  by_cases huse : cfg.use_blocks_bitmap = true
  · rw [if_pos huse]
    cases hfound : findBlocks cfg val.length d with
    | none =>
      rw [if_pos ⟨huse, rfl⟩]
      refine .noBlocks d huse ?_ hrefresh
      rw [heq] at hfound
      exact hfound
    | some first =>
      have hsome : ¬ (cfg.use_blocks_bitmap = true ∧ some first = none) := fun hand => nomatch hand.2
      dsimp only
      rw [if_neg hsome, takeBlocks_eq]
      unfold storeValue
      dsimp only
      rw [update_self]
      have hplace : Placeable cfg d.blocks_bitmap i first val.length := by
        obtain ⟨_, hinv, _⟩ := hd
        exact hinv.blocks.findBlocks huse hok.val_pos hfound
      have hsized : 0 < d.valsize i := by
        obtain ⟨_, hinv, _⟩ := hd
        exact hinv.blocks.sized i hliveD
      refine .updated _ (hrefresh.revalue (int64 (readData d.data (first * cfg.blocksize) 8)) ?_ h
        fun hfalse => absurd (huse.symm.trans hfalse) (by decide))
      intro order hd
      rw [← hkey, ← hkeyD, ← hflagsD, ← hexpiresD]
      have hrevalue := hd.revalue hliveD (cachedValue (int64 (readData d.data (first * cfg.blocksize) 8))
        val flags) (by rw [hlen]; exact hok.val_pos) (by rw [hlen]; exact hplace)
        (cache_unmark_blocks cfg.blocksize
          (cache_mark_blocks cfg.blocksize d.blocks_bitmap first val.length).1 (d.first_block i)
          (d.valsize i)) ?_ (nextPos_lt cfg (first + neededBlocks cfg.blocksize val.length))
      · rw [hlen] at hrevalue
        exact hrevalue
      · intro _ block
        rw [blockUsed_unmark _ _ cfg.blocksize_pos hsized,
          blockUsed_mark _ _ cfg.blocksize_pos hok.val_pos, hlen]
  · rw [if_neg huse, if_neg fun hand => huse hand.1]
    unfold storeValue
    have hown : d.first_block i = i := by
      obtain ⟨_, hinv, _⟩ := hd
      exact (hinv.blocks.own (Bool.eq_false_iff.mpr huse) i hliveD).1
    have hpos : d.blocks_bitmap_pos < cfg.blocks := by
      obtain ⟨_, hinv, _⟩ := hd
      exact hinv.blocks.pos
    have hplace : Placeable cfg d.blocks_bitmap i (d.first_block i) val.length := by
      rw [hown]
      exact hok.placeable huse d.blocks_bitmap i
    refine .updated _ (hrefresh.revalue
      (int64 (readData d.data (d.first_block i * cfg.blocksize) 8)) ?_ h ?_)
    · intro order hd
      rw [← hkey, ← hkeyD, ← hflagsD, ← hexpiresD]
      have hrevalue := hd.revalue hliveD
        (cachedValue (int64 (readData d.data (d.first_block i * cfg.blocksize) 8)) val flags)
        (by rw [hlen]; exact hok.val_pos) (by rw [hlen]; exact hplace) d.blocks_bitmap
        (fun htrue => absurd htrue huse) hpos
      rw [hlen, update_eq_self] at hrevalue
      exact hrevalue
    · -- the old value is still in its place
      intro _ hsize
      have hsize : 8 ≤ c.valsize i := by
        unfold CacheState.itemAt CacheState.value at hsize
        rwa [length_readData] at hsize
      rw [heq]
      exact congrArg int64 (take_readData c.data _ hsize).symm

end Update

/-! ### All of `upsgi_cache_set2` -/

/-- The results of `upsgi_cache_set2`, with the calls of `cache_full`. -/
inductive SetCase (cfg : CacheConfig) (now : Nat) (key val : Bytes) (expires : Nat) (flags : CacheFlags)
    (c : CacheState) : CacheState × Int → List CacheState → Prop
  | refused (h : ¬ Acceptable cfg key val flags) : SetCase cfg now key val expires flags c (c, -1) []
  | present (it : CacheItem) (hfind : c.find cfg key = some it) (hfresh : Fresh cfg now it)
      (hflag : flags.update = false) : SetCase cfg now key val expires flags c (c, -1) []
  | update (it : CacheItem) (result : CacheState × Int) (calls : List CacheState)
      (hok : Acceptable cfg key val flags) (hfind : c.find cfg key = some it)
      (hfresh : Fresh cfg now it) (hflag : flags.update = true)
      (h : UpdateCase cfg now key val expires flags it c result calls) :
      SetCase cfg now key val expires flags c result calls
  | insert (c₀ : CacheState) (result : CacheState × Int) (calls : List CacheState)
      (hok : Acceptable cfg key val flags) (hmiss : Missed cfg now key c c₀)
      (h : InsertCase cfg now key val expires flags c₀ result calls) :
      SetCase cfg now key val expires flags c result calls

/-- What is refused at once leaves the cache as it was. -/
theorem upsgi_cache_set2_refused {cfg : CacheConfig} {key val : Bytes} {flags : CacheFlags}
    (h : ¬ Acceptable cfg key val flags) (now expires : Nat) (c : CacheState) :
    upsgi_cache_set2 cfg now key val expires flags c = (c, -1) := by
  unfold upsgi_cache_set2
  split
  · rfl
  · split
    · rfl
    · split
      · rfl
      · split
        · rfl
        · next h₁ h₂ h₃ h₄ => exact absurd ⟨h₁, h₂, h₃, h₄⟩ h

theorem upsgi_cache_set2_cases {cfg : CacheConfig} {c : CacheState} {order : List Bytes}
    (h : Holds cfg c order) (now : Nat) (key val : Bytes) (expires : Nat) (flags : CacheFlags) :
    SetCase cfg now key val expires flags c (upsgi_cache_set2 cfg now key val expires flags c)
      (fullCalls cfg now c (.set key val expires flags)) := by
  by_cases hok : Acceptable cfg key val flags
  · have hlookup := upsgi_cache_get_index_lookup h now key
    unfold upsgi_cache_set2 fullCalls
    dsimp only
    rw [if_pos hok, if_neg hok.1, if_neg hok.2.1, if_neg hok.2.2.1, if_neg hok.2.2.2]
    generalize upsgi_cache_get_index cfg now key c = found at hlookup ⊢
    cases hlookup with
    | missed c₀ hmiss =>
      exact .insert c₀ _ _ hok hmiss
        (cacheInsert_cases (hmiss.removes.holds order h) hok hmiss.absent now expires)
    | found i hi hkey hne hfresh =>
      have hfind : c.find cfg key = some (c.itemAt cfg i) := by
        rw [← hkey]
        exact find_live h.keys (hkey ▸ hne)
      rw [if_neg hi, if_neg hi]
      by_cases hflag : flags.update = true
      · rw [if_pos hflag, if_pos hflag]
        exact .update _ _ _ hok hfind hfresh hflag (cacheUpdate_cases h hok hkey now expires)
      · rw [if_neg hflag, if_neg hflag]
        exact .present _ hfind hfresh (Bool.eq_false_iff.mpr hflag)
  · unfold fullCalls
    dsimp only
    rw [upsgi_cache_set2_refused hok, if_neg hok]
    exact .refused hok

end Upsgi
