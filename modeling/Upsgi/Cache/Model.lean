import Upsgi.Cache.Blocks
import Upsgi.Lib.DoublyLinked
import Upsgi.Lib.Framing

/-! # The cache

    The cache of `core/cache.c`, without a backing store and without other
    nodes.  Its items are an array; an item that is in use is in the chain of
    its hash, and with LRU purge in a second list, and all others are on a stack.
    Item 0 is not used, as 0 is the null pointer of the links.

    The fields of the items are kept one by one: `c.next i` is the field `next`
    of the item `i`.  The functions here follow the source statement by
    statement; time is given to each call.
-/

namespace Upsgi

open Framing (Bytes)

/-! ### Configuration and state -/

/-- The bits of `flags`, named after the macros `UPSGI_CACHE_FLAG_*`. -/
structure CacheFlags where
  ungettable : Bool := false
  update : Bool := false
  absexpire : Bool := false
  math : Bool := false
  inc : Bool := false
  dec : Bool := false
  mul : Bool := false
  div : Bool := false
  fixexpire : Bool := false
  deriving DecidableEq, Repr

/-- The options of a cache, with what `upsgi_cache_create` checks. -/
structure CacheConfig where
  keysize : Nat
  blocks : Nat
  blocksize : Nat
  hash : Bytes → Nat
  hashsize : Nat
  max_items : Nat
  use_blocks_bitmap : Bool
  purge_lru : Bool
  lazy_expire : Bool
  sweep_on_full : Nat
  clear_on_full : Bool
  no_expire : Bool
  math_initial : Int64
  blocksize_pos : 0 < blocksize
  hashsize_pos : 0 < hashsize
  max_items_pos : 0 < max_items
  items_le_blocks : max_items ≤ blocks

/-- `max_item_size`. -/
def CacheConfig.max_item_size (cfg : CacheConfig) : Nat :=
  if cfg.use_blocks_bitmap then cfg.blocksize * cfg.blocks % 2 ^ 64 else cfg.blocksize

/-- `blocks_bitmap_size`. -/
def CacheConfig.blocks_bitmap_size (cfg : CacheConfig) : Nat :=
  cfg.blocks / 8 + if 0 < cfg.blocks % 8 then 1 else 0

/-- The items, from the first to the last. -/
def CacheConfig.slots (cfg : CacheConfig) : List Nat :=
  List.range' 1 (cfg.max_items - 1)

structure CacheState where
  flags : Nat → CacheFlags
  /-- The first `keysize` bytes of the key; none when the item is not in use. -/
  key : Nat → Bytes
  hash : Nat → Nat
  valsize : Nat → Nat
  first_block : Nat → Nat
  expires : Nat → Nat
  hits : Nat → Nat
  prev : Nat → Nat
  next : Nat → Nat
  lru_prev : Nat → Nat
  lru_next : Nat → Nat
  hashtable : Nat → Nat
  /-- `unused_blocks_stack` up to its pointer, the top first. -/
  unused : List Nat
  blocks_bitmap : Nat → UInt8
  blocks_bitmap_pos : Nat
  n_items : Nat
  data : Nat → UInt8
  next_scan : Nat
  lru_head : Nat
  lru_tail : Nat

def upsgi_cache_init (cfg : CacheConfig) : CacheState where
  flags := fun _ => {}
  key := fun _ => []
  hash := fun _ => 0
  valsize := fun _ => 0
  first_block := fun _ => 0
  expires := fun _ => 0
  hits := fun _ => 0
  prev := fun _ => 0
  next := fun _ => 0
  lru_prev := fun _ => 0
  lru_next := fun _ => 0
  hashtable := fun _ => 0
  unused := cfg.slots.reverse
  blocks_bitmap :=
    if 0 < cfg.blocks % 8 then
      Function.update (fun _ => 0) (cfg.blocks_bitmap_size - 1) (0xff >>> UInt8.ofNat (cfg.blocks % 8))
    else fun _ => 0
  blocks_bitmap_pos := 0
  n_items := 0
  data := fun _ => 0
  next_scan := 0
  lru_head := 0
  lru_tail := 0

/-! ### The LRU list -/

def lru_remove_item (index : Nat) (c : CacheState) : CacheState :=
  let c :=
    if c.lru_next index ≠ 0 then
      { c with lru_prev := Function.update c.lru_prev (c.lru_next index) (c.lru_prev index) }
    else { c with lru_tail := c.lru_prev index }
  if c.lru_prev index ≠ 0 then
    { c with lru_next := Function.update c.lru_next (c.lru_prev index) (c.lru_next index) }
  else { c with lru_head := c.lru_next index }

def lru_add_item (index : Nat) (c : CacheState) : CacheState :=
  let c :=
    if c.lru_tail ≠ 0 then { c with lru_next := Function.update c.lru_next c.lru_tail index }
    else { c with lru_head := index }
  let c := { c with lru_next := Function.update c.lru_next index 0 }
  let c := { c with lru_prev := Function.update c.lru_prev index c.lru_tail }
  { c with lru_tail := index }

/-! ### Deletion -/

/-- The part of `upsgi_cache_del2` that takes an item out of its chain. -/
def unlinkItem (cfg : CacheConfig) (index : Nat) (c : CacheState) : CacheState :=
  let c :=
    if c.prev index ≠ 0 then { c with next := Function.update c.next (c.prev index) (c.next index) }
    else
      { c with hashtable :=
          Function.update c.hashtable (c.hash index % cfg.hashsize) (c.next index) }
  let c :=
    if c.next index ≠ 0 then { c with prev := Function.update c.prev (c.next index) (c.prev index) }
    else c
  if c.prev index = 0 ∧ c.next index = 0 then
    { c with hashtable := Function.update c.hashtable (c.hash index % cfg.hashsize) 0 }
  else c

/-- The part of `upsgi_cache_del2` for an item that is in use. -/
def releaseItem (cfg : CacheConfig) (index : Nat) (c : CacheState) : CacheState :=
  let c :=
    if cfg.use_blocks_bitmap then
      { c with blocks_bitmap :=
          cache_unmark_blocks cfg.blocksize c.blocks_bitmap (c.first_block index) (c.valsize index) }
    else c
  let c := { c with unused := index :: c.unused }
  let c := unlinkItem cfg index c
  let c := if cfg.purge_lru then lru_remove_item index c else c
  { c with n_items := c.n_items - 1 }

/-- `upsgi_cache_del2` with an index. -/
def delItem (cfg : CacheConfig) (index : Nat) (c : CacheState) : CacheState :=
  let c := if 0 < (c.key index).length then releaseItem cfg index c else c
  { c with
    key := Function.update c.key index []
    valsize := Function.update c.valsize index 0
    hash := Function.update c.hash index 0
    prev := Function.update c.prev index 0
    next := Function.update c.next index 0
    expires := Function.update c.expires index 0 }

/-! ### Lookup -/

/-- `check_lazy`: the index, or 0 for an item that has just expired. -/
def check_lazy (cfg : CacheConfig) (now slot : Nat) (c : CacheState) : CacheState × Nat :=
  if c.expires slot = 0 ∨ cfg.lazy_expire = false then (c, slot)
  else if c.expires slot ≤ now then (delItem cfg slot c, 0)
  else (c, slot)

/-- Whether an item has the key. -/
def CacheState.hasKey (c : CacheState) (hash : Nat) (key : Bytes) (i : Nat) : Bool :=
  decide (c.hash i = hash) && decide (c.key i = key)

/-- `upsgi_cache_get_index`.  The walk along the chain ends when it comes to more
    items than there are. -/
def upsgi_cache_get_index (cfg : CacheConfig) (now : Nat) (key : Bytes) (c : CacheState) :
    CacheState × Nat :=
  let hash := cfg.hash key
  let hash_key := hash % cfg.hashsize
  let slot := c.hashtable hash_key
  if slot = 0 then (c, 0)
  else if c.hash slot % cfg.hashsize ≠ hash_key then (c, 0)
  else
    let slot := DoublyLinked.find c.next (c.hasKey hash key) (cfg.max_items + 1) slot
    if slot = 0 then (c, 0) else check_lazy cfg now slot c

/-- `upsgi_cache_exists2`: the index in 32 bits. -/
def upsgi_cache_exists2 (cfg : CacheConfig) (now : Nat) (key : Bytes) (c : CacheState) :
    CacheState × Nat :=
  let (c, index) := upsgi_cache_get_index cfg now key c
  (c, index % 2 ^ 32)

/-- `upsgi_cache_del2` with a key. -/
def upsgi_cache_del2 (cfg : CacheConfig) (now : Nat) (key : Bytes) (c : CacheState) :
    CacheState × Int :=
  let (c, index) := upsgi_cache_get_index cfg now key c
  if index = 0 then (c, -1) else (delItem cfg index c, 0)

/-! ### Reads -/

/-- The bytes in a part of the memory. -/
def readData (data : Nat → UInt8) (offset len : Nat) : Bytes :=
  (List.range len).map fun k => data (offset + k)

/-- `memcpy` to the memory. -/
def writeData (data : Nat → UInt8) (offset : Nat) (bytes : Bytes) : Nat → UInt8 :=
  fun a => if offset ≤ a ∧ a < offset + bytes.length then bytes.getD (a - offset) 0 else data a

/-- The value of an item. -/
def CacheState.value (cfg : CacheConfig) (c : CacheState) (i : Nat) : Bytes :=
  readData c.data (c.first_block i * cfg.blocksize) (c.valsize i)

/-- What the functions that read an item have in common: the item that was hit.
    With `touch` it becomes the last one of the LRU list. -/
def cacheHit (cfg : CacheConfig) (touch : Bool) (now : Nat) (key : Bytes) (c : CacheState) :
    CacheState × Option Nat :=
  let (c, index) := upsgi_cache_get_index cfg now key c
  if index = 0 then (c, none)
  else if (c.flags index).ungettable then (c, none)
  else
    let c := if touch && cfg.purge_lru then lru_add_item index (lru_remove_item index c) else c
    ({ c with hits := Function.update c.hits index (c.hits index + 1) }, some index)

def upsgi_cache_get2 (cfg : CacheConfig) (now : Nat) (key : Bytes) (c : CacheState) :
    CacheState × Option Bytes :=
  let (c, index) := cacheHit cfg true now key c
  (c, index.map (c.value cfg))

/-- `upsgi_cache_get3`: with the expiry. -/
def upsgi_cache_get3 (cfg : CacheConfig) (now : Nat) (key : Bytes) (c : CacheState) :
    CacheState × Option (Bytes × Nat) :=
  let (c, index) := cacheHit cfg true now key c
  (c, index.map fun i => (c.value cfg i, c.expires i))

/-- `upsgi_cache_get4`: with the hits before this one, and without a move in the
    LRU list. -/
def upsgi_cache_get4 (cfg : CacheConfig) (now : Nat) (key : Bytes) (c : CacheState) :
    CacheState × Option (Bytes × Nat) :=
  let (c, index) := cacheHit cfg false now key c
  (c, index.map fun i => (c.value cfg i, c.hits i - 1))

/-- Eight bytes as a number, the lowest byte first. -/
def int64 (bytes : Bytes) : Int64 :=
  (UInt64.ofNat (bytes.foldr (fun byte num => byte.toNat + 256 * num) 0)).toInt64

def int64Bytes (num : Int64) : Bytes :=
  (List.range 8).map fun k => UInt8.ofNat (num.toUInt64.toNat / 256 ^ k)

/-- `upsgi_cache_num2`: the number at the place of the value. -/
def upsgi_cache_num2 (cfg : CacheConfig) (now : Nat) (key : Bytes) (c : CacheState) :
    CacheState × Int64 :=
  let (c, index) := cacheHit cfg false now key c
  match index with
  | none => (c, 0)
  | some i => (c, int64 (readData c.data (c.first_block i * cfg.blocksize) 8))

/-! ### A full cache -/

/-- One round of the loop of `cache_full` that removes what has expired; the
    second component counts. -/
def sweepFull (cfg : CacheConfig) (now : Nat) (acc : CacheState × Nat) (i : Nat) : CacheState × Nat :=
  if 0 < acc.1.expires i ∧ acc.1.expires i ≤ now then (delItem cfg i acc.1, acc.2 + 1) else acc

def cache_full (cfg : CacheConfig) (now : Nat) (c : CacheState) : CacheState :=
  let c := if cfg.purge_lru ∧ c.lru_head ≠ 0 then delItem cfg c.lru_head c else c
  let (c, removed) :=
    if cfg.sweep_on_full ≠ 0 ∧ c.next_scan ≤ now then
      cfg.slots.foldl (sweepFull cfg now) ({ c with next_scan := (now + cfg.sweep_on_full) % 2 ^ 64 }, 0)
    else (c, 0)
  if cfg.clear_on_full ∧ removed = 0 then cfg.slots.foldl (fun c i => delItem cfg i c) c else c

/-! ### Storing -/

/-- What `flags` say to do with a number. -/
def cacheMath (flags : CacheFlags) (num delta : Int64) : Int64 :=
  if flags.inc then num + delta
  else if flags.dec then num - delta
  else if flags.mul then num * delta
  else if flags.div then (if delta = 0 then 0 else num / delta)
  else num

/-- A relative expiry becomes an absolute one, and a scan is scheduled for it. -/
def scheduleExpiry (now expires : Nat) (flags : CacheFlags) (c : CacheState) : CacheState × Nat :=
  if expires ≠ 0 ∧ flags.absexpire = false then
    let expires := (expires + now) % 2 ^ 64
    ({ c with next_scan := if c.next_scan = 0 ∨ expires < c.next_scan then expires else c.next_scan },
      expires)
  else (c, expires)

/-- Marks the blocks of a value and moves the place where the next search
    begins. -/
def takeBlocks (cfg : CacheConfig) (first len : Nat) (c : CacheState) : CacheState :=
  let (blocks_bitmap, needed_blocks) := cache_mark_blocks cfg.blocksize c.blocks_bitmap first len
  { c with
    blocks_bitmap := blocks_bitmap
    blocks_bitmap_pos := if cfg.blocks ≤ first + needed_blocks then 0 else first + needed_blocks }

/-- The search for the blocks of a value. -/
def findBlocks (cfg : CacheConfig) (len : Nat) (c : CacheState) : Option Nat :=
  upsgi_cache_find_free_blocks cfg.blocksize cfg.blocks_bitmap_size c.blocks_bitmap c.blocks_bitmap_pos
    len

/-- The end of an insertion: the item is linked behind the last one of its
    chain. -/
def linkItem (cfg : CacheConfig) (index : Nat) (c : CacheState) : CacheState :=
  let slot := c.hash index % cfg.hashsize
  let c := { c with prev := Function.update c.prev index 0, next := Function.update c.next index 0 }
  let last_index := c.hashtable slot
  if last_index = 0 then { c with hashtable := Function.update c.hashtable slot index }
  else
    let last_index := DoublyLinked.last c.next cfg.max_items last_index
    { c with
      next := Function.update c.next last_index index
      prev := Function.update c.prev index last_index }

/-- The fields of an item that is inserted, with the blocks from `first` on. -/
def fillItem (cfg : CacheConfig) (now index first : Nat) (key val : Bytes) (expires : Nat)
    (flags : CacheFlags) (c : CacheState) : CacheState :=
  let c := { c with first_block := Function.update c.first_block index first }
  let (c, expires) :=
    if cfg.purge_lru then (lru_add_item index c, expires) else scheduleExpiry now expires flags c
  let value :=
    if flags.math then int64Bytes (cacheMath flags cfg.math_initial (int64 val)) else val
  { c with
    expires := Function.update c.expires index expires
    hash := Function.update c.hash index (cfg.hash key)
    hits := Function.update c.hits index 0
    flags := Function.update c.flags index flags
    data := writeData c.data (first * cfg.blocksize) value
    valsize := Function.update c.valsize index val.length
    key := Function.update c.key index key }

/-- An insertion into the item `index`. -/
def storeItem (cfg : CacheConfig) (now index first : Nat) (key val : Bytes) (expires : Nat)
    (flags : CacheFlags) (c : CacheState) : CacheState :=
  let c := linkItem cfg index (fillItem cfg now index first key val expires flags c)
  { c with n_items := c.n_items + 1 }

/-- No blocks were found for the item. -/
def unplaced (index : Nat) (c : CacheState) : CacheState :=
  { c with first_block := Function.update c.first_block index (2 ^ 64 - 1) }

/-- The part of `upsgi_cache_set2` for a key that is not there. -/
def cacheInsert (cfg : CacheConfig) (now : Nat) (key val : Bytes) (expires : Nat) (flags : CacheFlags)
    (c : CacheState) : CacheState × Int :=
  let c := if c.unused = [] then cache_full cfg now c else c
  match c.unused with
  | [] => (c, -1)
  | index :: unused =>
      if cfg.use_blocks_bitmap then
        match findBlocks cfg val.length c with
        | none =>
            -- the stack is as before
            (cache_full cfg now (unplaced index c), -1)
        | some first =>
            (storeItem cfg now index first key val expires flags
              (takeBlocks cfg first val.length { c with unused := unused }), 0)
      else (storeItem cfg now index index key val expires flags { c with unused := unused }, 0)

/-- The part of `upsgi_cache_set2` that stores the value of an item that was
    there.  A number is computed from what is at the place of the new value. -/
def storeValue (cfg : CacheConfig) (index : Nat) (val : Bytes) (flags : CacheFlags) (c : CacheState) :
    CacheState :=
  let offset := c.first_block index * cfg.blocksize
  let value :=
    if flags.math then int64Bytes (cacheMath flags (int64 (readData c.data offset 8)) (int64 val))
    else val
  { c with
    data := writeData c.data offset value
    valsize := Function.update c.valsize index val.length }

/-- The expiry and the place in the LRU list of an item that is updated. -/
def refreshItem (cfg : CacheConfig) (now index expires : Nat) (flags : CacheFlags) (c : CacheState) :
    CacheState :=
  if flags.fixexpire then c
  else
    let (c, expires) :=
      if cfg.purge_lru then (lru_add_item index (lru_remove_item index c), expires)
      else scheduleExpiry now expires flags c
    { c with expires := Function.update c.expires index expires }

/-- The part of `upsgi_cache_set2` for a key that is there. -/
def cacheUpdate (cfg : CacheConfig) (now index : Nat) (val : Bytes) (expires : Nat)
    (flags : CacheFlags) (c : CacheState) : CacheState × Int :=
  let c := refreshItem cfg now index expires flags c
  if cfg.use_blocks_bitmap then
    match findBlocks cfg val.length c with
    | none => (cache_full cfg now c, -1)
    | some first =>
        let old_first_block := c.first_block index
        let c := { c with first_block := Function.update c.first_block index first }
        let c := takeBlocks cfg first val.length c
        let c :=
          { c with blocks_bitmap :=
              cache_unmark_blocks cfg.blocksize c.blocks_bitmap old_first_block (c.valsize index) }
        (storeValue cfg index val flags c, 0)
  else (storeValue cfg index val flags c, 0)

def upsgi_cache_set2 (cfg : CacheConfig) (now : Nat) (key val : Bytes) (expires : Nat)
    (flags : CacheFlags) (c : CacheState) : CacheState × Int :=
  if key.length = 0 ∨ val.length = 0 then (c, -1)
  else if cfg.keysize < key.length then (c, -1)
  else if cfg.max_item_size < val.length then (c, -1)
  else if flags.math ∧ val.length ≠ 8 then (c, -1)
  else
    let (c, index) := upsgi_cache_get_index cfg now key c
    if index = 0 then cacheInsert cfg now key val expires flags c
    else if flags.update then cacheUpdate cfg now index val expires flags c
    else (c, -1)

/-! ### The sweeper -/

/-- One round of the loop of `cache_sweeper_free_items`, for which it takes the
    lock. -/
def sweepSlot (cfg : CacheConfig) (now : Nat) (c : CacheState) (i : Nat) : CacheState :=
  let c := if i = 1 then { c with next_scan := 0 } else c
  if c.expires i ≠ 0 then
    if c.expires i ≤ now then delItem cfg i c
    else if c.next_scan = 0 ∨ c.expires i < c.next_scan then { c with next_scan := c.expires i }
    else c
  else c

def cache_sweeper_free_items (cfg : CacheConfig) (now : Nat) (c : CacheState) : CacheState :=
  if cfg.no_expire ∨ cfg.purge_lru ∨ cfg.lazy_expire then c
  else if c.next_scan = 0 ∨ now < c.next_scan then c
  else cfg.slots.foldl (sweepSlot cfg now) c

/-! ### Runs -/

/-- What is done with a cache under its lock. -/
inductive CacheOp where
  | set (key val : Bytes) (expires : Nat) (flags : CacheFlags)
  | del (key : Bytes)
  | get2 (key : Bytes)
  | get3 (key : Bytes)
  | get4 (key : Bytes)
  | num2 (key : Bytes)
  | exists2 (key : Bytes)
  /-- A whole sweep. -/
  | sweep
  /-- One round of a sweep that lets other operations in between. -/
  | sweepSlot (i : Nat)
  deriving DecidableEq, Repr

/-- One operation at the time `now`. -/
def cacheStep (cfg : CacheConfig) (now : Nat) (c : CacheState) : CacheOp → CacheState
  | .set key val expires flags => (upsgi_cache_set2 cfg now key val expires flags c).1
  | .del key => (upsgi_cache_del2 cfg now key c).1
  | .get2 key => (upsgi_cache_get2 cfg now key c).1
  | .get3 key => (upsgi_cache_get3 cfg now key c).1
  | .get4 key => (upsgi_cache_get4 cfg now key c).1
  | .num2 key => (upsgi_cache_num2 cfg now key c).1
  | .exists2 key => (upsgi_cache_exists2 cfg now key c).1
  | .sweep => cache_sweeper_free_items cfg now c
  | .sweepSlot i => if i ∈ cfg.slots then sweepSlot cfg now c i else c

end Upsgi
