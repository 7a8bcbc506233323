import Mathlib

/-! # The block bitmap of a cache

    The bitmap of `core/cache.c` has a bit for each block, set while the block
    is in use; the highest bit of a byte is the one of its first block.  Items
    take consecutive blocks.  Whole bytes are written at a time, so what is said
    here is which bits these writes and the search for free blocks are about.
-/

namespace Upsgi

open Function

/-! ### Marks -/

/-- The number of blocks for `len` bytes. -/
def neededBlocks (blocksize len : Nat) : Nat :=
  len / blocksize + if 0 < len % blocksize then 1 else 0

/-- The bit `num & (1 << (7 - bit_pos))`. -/
def usedBit (num : UInt8) (bit_pos : Nat) : Bool :=
  num.toBitVec.getLsbD (7 - bit_pos)

/-- Whether a block is in use. -/
def blockUsed (bitmap : Nat → UInt8) (block : Nat) : Bool :=
  usedBit (bitmap (block / 8)) (block % 8)

/-- The mask for the first byte of the blocks from bit `first` on, when they end
    with the bit `last` of the same byte or go on behind it. -/
def firstMask (one : Bool) (first last : Nat) : UInt8 :=
  let mask : UInt8 := 0xff >>> UInt8.ofNat first
  if one then mask >>> UInt8.ofNat (7 - last) <<< UInt8.ofNat (7 - last) else mask

/-- The mask for the last byte of blocks that end with the bit `last`. -/
def lastMask (last : Nat) : UInt8 :=
  0xff <<< UInt8.ofNat (7 - last)

/-- The writes of `cache_mark_blocks` and `cache_unmark_blocks`: `edge` is done to
    the bytes at both ends, and the bytes between them become `fill`. -/
def writeBlocks (edge : UInt8 → UInt8 → UInt8) (fill : UInt8) (bitmap : Nat → UInt8)
    (index needed_blocks : Nat) : Nat → UInt8 :=
  let first_byte := index / 8
  let last_byte := (index + needed_blocks - 1) / 8
  let last_byte_bit := (index + needed_blocks - 1) % 8
  let needed_bytes := last_byte - first_byte + 1
  let mask := firstMask (needed_bytes = 1) (index % 8) last_byte_bit
  let bitmap := Function.update bitmap first_byte (edge (bitmap first_byte) mask)
  let bitmap :=
    if 1 < needed_bytes then
      Function.update bitmap last_byte (edge (bitmap last_byte) (lastMask last_byte_bit))
    else bitmap
  if 2 < needed_bytes then
    -- `memset`
    fun j => if first_byte + 1 ≤ j ∧ j < first_byte + 1 + (needed_bytes - 2) then fill else bitmap j
  else bitmap

/-- `cache_mark_blocks`: the bitmap and the number of blocks. -/
def cache_mark_blocks (blocksize : Nat) (bitmap : Nat → UInt8) (index len : Nat) :
    (Nat → UInt8) × Nat :=
  let needed_blocks := neededBlocks blocksize len
  (writeBlocks (fun byte mask => byte ||| mask) 0xff bitmap index needed_blocks, needed_blocks)

def cache_unmark_blocks (blocksize : Nat) (bitmap : Nat → UInt8) (index len : Nat) : Nat → UInt8 :=
  writeBlocks (fun byte mask => byte &&& ~~~mask) 0 bitmap index (neededBlocks blocksize len)

variable {blocksize needed_blocks blocks_bitmap_size : Nat} {edge : UInt8 → UInt8 → UInt8}
    {bitmap : Nat → UInt8} {run : FreeRun}

theorem neededBlocks_eq (len : Nat) (hblock : 0 < blocksize) :
    neededBlocks blocksize len = (len + blocksize - 1) / blocksize := by
  have hdiv := Nat.div_add_mod len blocksize
  have hmod := Nat.mod_lt len hblock
  symm
  unfold neededBlocks
  split
  · rw [Nat.div_eq_iff hblock, Nat.add_mul, Nat.mul_comm]
    omega
  · rw [Nat.div_eq_iff hblock, Nat.add_zero, Nat.mul_comm]
    omega

theorem neededBlocks_pos {len : Nat} (hblock : 0 < blocksize) (hlen : 0 < len) :
    0 < neededBlocks blocksize len := by
  rw [neededBlocks_eq len hblock]
  exact Nat.div_pos (by omega) hblock

/-- The blocks hold what they are taken for. -/
theorem le_neededBlocks_mul (blocksize len : Nat) (hblock : 0 < blocksize) :
    len ≤ neededBlocks blocksize len * blocksize := by
  have hdiv := Nat.div_add_mod (len + blocksize - 1) blocksize
  have hmod := Nat.mod_lt (len + blocksize - 1) hblock
  rw [neededBlocks_eq len hblock, Nat.mul_comm]
  omega

/-! ### Bits of masks -/

theorem usedBit_firstMask_one {first last bit : Nat} (hfirst : first < 8) (hlast : last < 8)
    (hbit : bit < 8) : usedBit (firstMask true first last) bit = decide (first ≤ bit ∧ bit ≤ last) := by
  have hall : ∀ first last bit : Fin 8, usedBit (firstMask true first last) bit =
      decide (first.val ≤ bit.val ∧ bit.val ≤ last.val) := by decide +kernel
  exact hall ⟨first, hfirst⟩ ⟨last, hlast⟩ ⟨bit, hbit⟩

theorem usedBit_firstMask {first last bit : Nat} (hfirst : first < 8) (hbit : bit < 8) :
    usedBit (firstMask false first last) bit = decide (first ≤ bit) := by
  have hall : ∀ first bit : Fin 8, usedBit (0xff >>> UInt8.ofNat first.val) bit =
      decide (first.val ≤ bit.val) := by decide +kernel
  exact hall ⟨first, hfirst⟩ ⟨bit, hbit⟩

theorem usedBit_lastMask {last bit : Nat} (hlast : last < 8) (hbit : bit < 8) :
    usedBit (lastMask last) bit = decide (bit ≤ last) := by
  have hall : ∀ last bit : Fin 8, usedBit (lastMask last) bit =
      decide (bit.val ≤ last.val) := by decide +kernel
  exact hall ⟨last, hlast⟩ ⟨bit, hbit⟩

/-- A write at the ends that changes exactly the bits of the mask, to `value`. -/
structure EdgeWrite (edge : UInt8 → UInt8 → UInt8) (fill : UInt8) (value : Bool) : Prop where
  edge : ∀ byte mask bit, bit < 8 →
    usedBit (edge byte mask) bit = if usedBit mask bit then value else usedBit byte bit
  fill : ∀ bit, bit < 8 → usedBit fill bit = value

theorem edgeWrite_mark : EdgeWrite (fun byte mask => byte ||| mask) 0xff true where
  edge := by
    intro byte mask bit _
    unfold usedBit
    rw [UInt8.toBitVec_or, BitVec.getLsbD_or]
    cases mask.toBitVec.getLsbD (7 - bit) <;> simp
  fill := by
    intro bit hbit
    have hall : ∀ bit : Fin 8, usedBit 0xff bit = true := by decide
    exact hall ⟨bit, hbit⟩

theorem edgeWrite_unmark : EdgeWrite (fun byte mask => byte &&& ~~~mask) 0 false where
  edge := by
    intro byte mask bit hbit
    unfold usedBit
    rw [UInt8.toBitVec_and, UInt8.toBitVec_not, BitVec.getLsbD_and, BitVec.getLsbD_not]
    have hlt : 7 - bit < 8 := by omega
    cases mask.toBitVec.getLsbD (7 - bit) <;> simp [hlt]
  fill := by
    intro bit hbit
    have hall : ∀ bit : Fin 8, usedBit 0 bit = false := by decide
    exact hall ⟨bit, hbit⟩

/-- Blocks in one byte. -/
theorem writeBlocks_one {fill : UInt8} {index : Nat}
    (h : (index + needed_blocks - 1) / 8 = index / 8) (j : Nat) :
    writeBlocks edge fill bitmap index needed_blocks j =
      if j = index / 8 then
        edge (bitmap j) (firstMask true (index % 8) ((index + needed_blocks - 1) % 8))
      else bitmap j := by
  unfold writeBlocks
  rw [h, Nat.sub_self, Nat.zero_add, if_neg (by decide), if_neg (by decide), update_apply]
  split
  · next hj =>
    rw [hj]
    rfl
  · rfl

/-- Blocks in several bytes. -/
theorem writeBlocks_many {fill : UInt8} {index : Nat}
    (h : index / 8 < (index + needed_blocks - 1) / 8) (j : Nat) :
    writeBlocks edge fill bitmap index needed_blocks j =
      if j = index / 8 then
        edge (bitmap j) (firstMask false (index % 8) ((index + needed_blocks - 1) % 8))
      else if j = (index + needed_blocks - 1) / 8 then
        edge (bitmap j) (lastMask ((index + needed_blocks - 1) % 8))
      else if index / 8 < j ∧ j < (index + needed_blocks - 1) / 8 then fill
      else bitmap j := by
  unfold writeBlocks
  generalize index / 8 = first_byte at h ⊢
  generalize (index + needed_blocks - 1) / 8 = last_byte at h ⊢
  rw [decide_eq_false (show ¬ last_byte - first_byte + 1 = 1 by omega),
    if_pos (show 1 < last_byte - first_byte + 1 by omega)]
  have hlast : last_byte ≠ first_byte := by omega
  -- the bytes at the ends are not those of the `memset`
  by_cases hj : j = first_byte
  · rw [if_pos hj, hj]
    split
    · beta_reduce
      rw [if_neg (by omega), update_of_ne hlast.symm, update_self]
    · rw [update_of_ne hlast.symm, update_self]
  · by_cases hj' : j = last_byte
    · rw [if_pos hj', hj']
      split
      · beta_reduce
        rw [if_neg (by omega), update_self, update_of_ne hlast]
      · rw [update_self, update_of_ne hlast]
    · split
      · beta_reduce
        by_cases hbetween : first_byte < j ∧ j < last_byte
        · rw [if_pos hbetween, if_pos (by omega)]
        · rw [if_neg hbetween, if_neg (by omega), update_of_ne hj', update_of_ne hj]
      · rw [if_neg (by omega), update_of_ne hj', update_of_ne hj]

/-- The writes change exactly the bits of the blocks. -/
theorem blockUsed_writeBlocks {fill : UInt8} {value : Bool} (h : EdgeWrite edge fill value)
    (bitmap : Nat → UInt8) {index : Nat} (hneeded : 0 < needed_blocks) (block : Nat) :
    blockUsed (writeBlocks edge fill bitmap index needed_blocks) block =
      if index ≤ block ∧ block < index + needed_blocks then value else blockUsed bitmap block := by
  have hbit : block % 8 < 8 := Nat.mod_lt _ (by decide)
  have hfirst : index % 8 < 8 := Nat.mod_lt _ (by decide)
  have hlast : (index + needed_blocks - 1) % 8 < 8 := Nat.mod_lt _ (by decide)
  unfold blockUsed
  by_cases hone : (index + needed_blocks - 1) / 8 = index / 8
  · rw [writeBlocks_one hone]
    split
    · rw [h.edge _ _ _ hbit, usedBit_firstMask_one hfirst hlast hbit]
      simp only [decide_eq_true_eq]
      congr 1
      rw [eq_iff_iff]
      omega
    · rw [if_neg (by omega)]
  · rw [writeBlocks_many (by omega)]
    split
    · rw [h.edge _ _ _ hbit, usedBit_firstMask hfirst hbit]
      simp only [decide_eq_true_eq]
      congr 1
      rw [eq_iff_iff]
      omega
    · split
      · rw [h.edge _ _ _ hbit, usedBit_lastMask hlast hbit]
        simp only [decide_eq_true_eq]
        congr 1
        rw [eq_iff_iff]
        omega
      · split
        · rw [h.fill _ hbit, if_pos (by omega)]
        · rw [if_neg (by omega)]

theorem blockUsed_mark {len : Nat} (bitmap : Nat → UInt8) (index : Nat) (hblock : 0 < blocksize)
    (hlen : 0 < len) (block : Nat) :
    blockUsed (cache_mark_blocks blocksize bitmap index len).1 block =
      if index ≤ block ∧ block < index + neededBlocks blocksize len then true
      else blockUsed bitmap block :=
  blockUsed_writeBlocks edgeWrite_mark bitmap (neededBlocks_pos hblock hlen) block

theorem blockUsed_unmark {len : Nat} (bitmap : Nat → UInt8) (index : Nat) (hblock : 0 < blocksize)
    (hlen : 0 < len) (block : Nat) :
    blockUsed (cache_unmark_blocks blocksize bitmap index len) block =
      if index ≤ block ∧ block < index + neededBlocks blocksize len then false
      else blockUsed bitmap block :=
  blockUsed_writeBlocks edgeWrite_unmark bitmap (neededBlocks_pos hblock hlen) block

/-! ### The search for free blocks -/

/-- The free blocks up to the present one: how many there are, and the first. -/
structure FreeRun where
  found : Nat
  base : Option Nat
  deriving DecidableEq, Repr

/-- The loop over the last `left` bits of the byte `j`; an error is the return
    value of the search. -/
def scanByte (num : UInt8) (j needed_blocks : Nat) : Nat → FreeRun → Except Nat FreeRun
  | 0, run => .ok run
  | left + 1, run =>
      let bit_pos := 7 - left
      if usedBit num bit_pos then scanByte num j needed_blocks left ⟨0, none⟩
      else
        let base := run.base.getD (j * 8 + bit_pos)
        if run.found + 1 = needed_blocks then .error base
        else scanByte num j needed_blocks left ⟨run.found + 1, some base⟩

/-- The loop over `need_to_scan` bytes from the byte `j` on.  It goes on at the
    beginning of the bitmap when it has come to its end; blocks are not taken
    across that place. -/
def scanBytes (bitmap : Nat → UInt8) (blocks_bitmap_size needed_blocks bitmap_byte : Nat) :
    Nat → Nat → Nat → FreeRun → Option Nat
  | 0, _, _, _ => none
  | need_to_scan + 1, bitmap_bit, j, run =>
      match scanByte (bitmap j) j needed_blocks (if j = bitmap_byte then 8 - bitmap_bit else 8) run with
      | .error base => some base
      | .ok run =>
          if blocks_bitmap_size ≤ j + 1 then
            -- `bitmap_bit` is for the first round only
            scanBytes bitmap blocks_bitmap_size needed_blocks bitmap_byte need_to_scan 0 0 ⟨0, none⟩
          else
            scanBytes bitmap blocks_bitmap_size needed_blocks bitmap_byte need_to_scan bitmap_bit
              (j + 1) run

/-- `upsgi_cache_find_free_blocks`; `none` is 0xffffffffffffffff. -/
def upsgi_cache_find_free_blocks (blocksize blocks_bitmap_size : Nat) (bitmap : Nat → UInt8)
    (blocks_bitmap_pos need : Nat) : Option Nat :=
  let bitmap_byte := blocks_bitmap_pos / 8
  let bitmap_bit := blocks_bitmap_pos % 8
  let need_to_scan := blocks_bitmap_size + if 0 < bitmap_bit then 1 else 0
  scanBytes bitmap blocks_bitmap_size (neededBlocks blocksize need) bitmap_byte need_to_scan bitmap_bit
    bitmap_byte ⟨0, none⟩

/-- The blocks from `first` up to `stop` are free. -/
def FreeBlocks (bitmap : Nat → UInt8) (first stop : Nat) : Prop :=
  ∀ block, first ≤ block → block < stop → blockUsed bitmap block = false

/-- The run ends before the block `stop`. -/
def FreeRun.EndsAt (run : FreeRun) (bitmap : Nat → UInt8) (stop : Nat) : Prop :=
  match run.base with
  | none => run.found = 0
  | some base => base + run.found = stop ∧ FreeBlocks bitmap base stop

theorem FreeRun.EndsAt.extend {stop : Nat} (h : run.EndsAt bitmap stop)
    (hfree : blockUsed bitmap stop = false) :
    FreeRun.EndsAt ⟨run.found + 1, some (run.base.getD stop)⟩ bitmap (stop + 1) := by
  unfold FreeRun.EndsAt at h
  cases hbase : run.base with
  | none =>
    rw [hbase] at h
    have hzero : run.found = 0 := h
    refine ⟨?_, ?_⟩
    · show stop + (run.found + 1) = stop + 1
      omega
    · intro block hfirst hstop
      obtain rfl : block = stop := by
        have : stop ≤ block := hfirst
        omega
      exact hfree
  | some base =>
    rw [hbase] at h
    refine ⟨?_, ?_⟩
    · show base + (run.found + 1) = stop + 1
      omega
    · intro block hfirst hstop
      by_cases hlt : block < stop
      · exact h.2 block hfirst hlt
      · obtain rfl : block = stop := by omega
        exact hfree

/-- The block of a bit. -/
theorem blockUsed_byte (bitmap : Nat → UInt8) (j : Nat) {bit_pos : Nat} (h : bit_pos < 8) :
    blockUsed bitmap (j * 8 + bit_pos) = usedBit (bitmap j) bit_pos := by
  unfold blockUsed
  rw [show (j * 8 + bit_pos) / 8 = j by omega, show (j * 8 + bit_pos) % 8 = bit_pos by omega]

/-- A bitmap is known by its bits. -/
theorem bitmap_ext {bitmap' : Nat → UInt8}
    (h : ∀ block, blockUsed bitmap block = blockUsed bitmap' block) : bitmap = bitmap' := by
  funext j
  apply UInt8.eq_of_toBitVec_eq
  apply BitVec.eq_of_getLsbD_eq
  intro bit hbit
  have hbits := h (j * 8 + (7 - bit))
  rw [blockUsed_byte _ _ (by omega), blockUsed_byte _ _ (by omega)] at hbits
  unfold usedBit at hbits
  rwa [show 7 - (7 - bit) = bit by omega] at hbits

/-- Marking and unmarking are about the bits of the blocks for `len` bytes and no other bits. -/
theorem blocks_marked_exactly (bitmap : Nat → UInt8) (index : Nat) {len : Nat}
    (hblock : 0 < blocksize) (hlen : 0 < len) :
    let stop := index + (len + blocksize - 1) / blocksize
    let marked := (cache_mark_blocks blocksize bitmap index len).1
    (∀ block, blockUsed marked block =
      if index ≤ block ∧ block < stop then true else blockUsed bitmap block) ∧
    (∀ block, blockUsed (cache_unmark_blocks blocksize bitmap index len) block =
      if index ≤ block ∧ block < stop then false else blockUsed bitmap block) ∧
    (FreeBlocks bitmap index stop → cache_unmark_blocks blocksize marked index len = bitmap) := by
  dsimp only
  rw [← neededBlocks_eq len hblock]
  refine ⟨blockUsed_mark bitmap index hblock hlen, blockUsed_unmark bitmap index hblock hlen, ?_⟩
  intro hfree
  apply bitmap_ext
  intro block
  rw [blockUsed_unmark _ index hblock hlen, blockUsed_mark bitmap index hblock hlen]
  split_ifs with hin
  · exact (hfree block hin.1 hin.2).symm
  · rfl

/-- Twelve blocks from the sixth one on, with an empty bitmap. -/
theorem blocks_marked_exactly_twelve :
    cache_unmark_blocks 4 (cache_mark_blocks 4 (fun _ => 0) 5 45).1 5 45 = fun _ => 0 :=
  (blocks_marked_exactly _ 5 (by decide) (by decide)).2.2 fun block _ _ => by
    unfold blockUsed usedBit
    simp

/-- A scan of the rest of a byte: the run it goes on with, or the free blocks it
    has found.  Neither begins before `start` in a scan from there on. -/
theorem scanByte_sound (bitmap : Nat → UInt8) (j needed_blocks left start : Nat) (run : FreeRun)
    (hleft : left ≤ 8) (hstart : start ≤ j * 8 + (8 - left))
    (h : run.EndsAt bitmap (j * 8 + (8 - left))) (hplace : ∀ base ∈ run.base, start ≤ base) :
    match scanByte (bitmap j) j needed_blocks left run with
    | .ok run => run.EndsAt bitmap (j * 8 + 8) ∧ ∀ base ∈ run.base, start ≤ base
    | .error base => base + needed_blocks ≤ j * 8 + 8 ∧
        FreeBlocks bitmap base (base + needed_blocks) ∧ start ≤ base := by
  induction left generalizing run with
  | zero => exact ⟨h, hplace⟩
  | succ left ih =>
    have hpos : j * 8 + (8 - (left + 1)) = j * 8 + (7 - left) := by omega
    have hnext : j * 8 + (8 - left) = j * 8 + (7 - left) + 1 := by omega
    have hblock := blockUsed_byte bitmap j (show 7 - left < 8 by omega)
    rw [hpos] at h hstart
    have hbase : start ≤ run.base.getD (j * 8 + (7 - left)) := by
      cases hrun : run.base with
      | none => exact hstart
      | some base => exact hplace base hrun
    unfold scanByte
    by_cases hused : usedBit (bitmap j) (7 - left) = true
    · rw [if_pos hused]
      exact ih ⟨0, none⟩ (by omega) (by omega) rfl nofun
    · rw [if_neg hused]
      have hextended := h.extend (hblock.trans (Bool.eq_false_iff.mpr hused))
      by_cases hfound : run.found + 1 = needed_blocks
      · rw [if_pos hfound]
        obtain ⟨hstop, hfree⟩ := hextended
        rw [hfound] at hstop
        dsimp only at hstop ⊢
        rw [hstop]
        exact ⟨by omega, hfree, hbase⟩
      · rw [if_neg hfound]
        refine ih _ (by omega) (by omega) (hnext ▸ hextended) fun base hmem => ?_
        cases hmem
        exact hbase

/-- What is found in the scan of `need_to_scan` bytes from `j` on is free and
    inside the bitmap.  It lies behind `start`, or the scan has gone on at the
    beginning and it lies in the bytes that were left then. -/
theorem scanBytes_sound (bitmap : Nat → UInt8) {bitmap_byte : Nat}
    (need_to_scan bitmap_bit j start : Nat) (run : FreeRun) {base : Nat}
    (hj : j < blocks_bitmap_size) (hround : bitmap_bit = 0 ∨ bitmap_byte ≤ j)
    (hstart : start ≤ j * 8 + (8 - if j = bitmap_byte then 8 - bitmap_bit else 8))
    (h : run.EndsAt bitmap (j * 8 + (8 - if j = bitmap_byte then 8 - bitmap_bit else 8)))
    (hplace : ∀ base ∈ run.base, start ≤ base)
    (hfound : scanBytes bitmap blocks_bitmap_size needed_blocks bitmap_byte need_to_scan bitmap_bit j
      run = some base) :
    (base + needed_blocks ≤ blocks_bitmap_size * 8 ∧
        FreeBlocks bitmap base (base + needed_blocks)) ∧
      base + needed_blocks ≤ (j + need_to_scan) * 8 ∧
      (start ≤ base ∨ base + needed_blocks ≤ (j + need_to_scan - blocks_bitmap_size) * 8) := by
  induction need_to_scan generalizing bitmap_bit j start run with
  | zero => cases hfound
  | succ need_to_scan ih =>
    have hbyte := scanByte_sound bitmap j needed_blocks
      (if j = bitmap_byte then 8 - bitmap_bit else 8) start run (by split <;> omega) hstart h hplace
    unfold scanBytes at hfound
    split at hfound
    · next base' hscan =>
      cases hfound
      rw [hscan] at hbyte
      obtain ⟨hle, hfree, hplace⟩ := hbyte
      exact ⟨⟨by omega, hfree⟩, by omega, .inl hplace⟩
    · next run' hscan =>
      rw [hscan] at hbyte
      split at hfound
      · -- the bytes that are left are scanned from the beginning of the bitmap
        obtain ⟨hfree, hrest⟩ := ih 0 0 0 ⟨0, none⟩ (by omega) (.inl rfl) (Nat.zero_le _) rfl
          nofun hfound
        exact ⟨hfree, by omega, .inr (by omega)⟩
      · -- the next byte is scanned from its first bit on
        have hnext : j * 8 + 8 =
            (j + 1) * 8 + (8 - if j + 1 = bitmap_byte then 8 - bitmap_bit else 8) := by
          split <;> omega
        have hrest := ih bitmap_bit (j + 1) start run' (by omega) (by omega) (by omega)
          (hnext ▸ hbyte.1) hbyte.2 hfound
        rw [show j + 1 + need_to_scan = j + (need_to_scan + 1) by omega] at hrest
        exact hrest

/-- What the search finds is free and inside the bitmap. -/
theorem upsgi_cache_find_free_blocks_sound {blocks_bitmap_pos need base : Nat}
    (hpos : blocks_bitmap_pos / 8 < blocks_bitmap_size)
    (hfound : upsgi_cache_find_free_blocks blocksize blocks_bitmap_size bitmap blocks_bitmap_pos need =
      some base) :
    base + neededBlocks blocksize need ≤ blocks_bitmap_size * 8 ∧
      FreeBlocks bitmap base (base + neededBlocks blocksize need) :=
  (scanBytes_sound bitmap _ _ _ 0 _ hpos (.inr le_rfl) (Nat.zero_le _)
    (show FreeRun.EndsAt ⟨0, none⟩ bitmap _ from rfl) nofun hfound).1

/-! ### What the search does not find -/

/-- No `needed_blocks` consecutive blocks from `start` up to `stop` are free. -/
def NoFreeRun (bitmap : Nat → UInt8) (needed_blocks start stop : Nat) : Prop :=
  ∀ first, start ≤ first → first + needed_blocks ≤ stop →
    ¬ FreeBlocks bitmap first (first + needed_blocks)

/-- The run is the longest one before `stop`, in a scan from `start` on that has
    not found enough. -/
structure FreeRun.Longest (run : FreeRun) (bitmap : Nat → UInt8) (needed_blocks start stop : Nat) :
    Prop where
  short : run.found < needed_blocks
  inside : start + run.found ≤ stop
  before : start + run.found = stop ∨ blockUsed bitmap (stop - run.found - 1) = true
  none : NoFreeRun bitmap needed_blocks start stop

theorem FreeRun.longest_start (h : 0 < needed_blocks)
    (start : Nat) : FreeRun.Longest ⟨0, none⟩ bitmap needed_blocks start start where
  short := h
  inside := le_rfl
  before := .inl rfl
  none := fun _ _ _ => by omega

/-- The next block is in use. -/
theorem FreeRun.Longest.used {run : FreeRun} {bitmap : Nat → UInt8} {needed_blocks start stop : Nat}
    (h : run.Longest bitmap needed_blocks start stop) (hused : blockUsed bitmap stop = true) :
    FreeRun.Longest ⟨0, Option.none⟩ bitmap needed_blocks start (stop + 1) where
  short := Nat.lt_of_le_of_lt (Nat.zero_le _) h.short
  inside := by
    have := h.inside
    show start + 0 ≤ stop + 1
    omega
  before := .inr hused
  none := by
    intro first hfirst hle hfree
    have := h.short
    by_cases hlt : first + needed_blocks ≤ stop
    · exact h.none first hfirst hlt hfree
    · rw [hfree stop (by omega) (by omega)] at hused
      cases hused

/-- The next block is free as well, and that is not enough. -/
theorem FreeRun.Longest.free {start stop : Nat} (h : run.Longest bitmap needed_blocks start stop)
    (hmore : run.found + 1 ≠ needed_blocks) (base : Option Nat) :
    FreeRun.Longest ⟨run.found + 1, base⟩ bitmap needed_blocks start (stop + 1) where
  short := by
    have := h.short
    show run.found + 1 < needed_blocks
    omega
  inside := by
    have := h.inside
    show start + (run.found + 1) ≤ stop + 1
    omega
  before := by
    have := h.inside
    show start + (run.found + 1) = stop + 1 ∨ blockUsed bitmap (stop + 1 - (run.found + 1) - 1) = true
    rw [Nat.add_sub_add_right]
    exact h.before.imp_left fun heq => by omega
  none := by
    intro first hfirst hle hfree
    have hshort := h.short
    have hinside := h.inside
    by_cases hlt : first + needed_blocks ≤ stop
    · exact h.none first hfirst hlt hfree
    · -- it would begin before the longest one
      rcases h.before with hstart | hused
      · omega
      · rw [hfree (stop - run.found - 1) (by omega) (by omega)] at hused
        cases hused

theorem scanByte_longest (bitmap : Nat → UInt8) (j needed_blocks left start : Nat) (run run' : FreeRun)
    (hleft : left ≤ 8) (h : run.Longest bitmap needed_blocks start (j * 8 + (8 - left)))
    (hscan : scanByte (bitmap j) j needed_blocks left run = .ok run') :
    run'.Longest bitmap needed_blocks start (j * 8 + 8) := by
  induction left generalizing run with
  | zero =>
    obtain rfl : run = run' := Except.ok.inj hscan
    exact h
  | succ left ih =>
    have hpos : j * 8 + (8 - (left + 1)) = j * 8 + (7 - left) := by omega
    have hnext : j * 8 + (8 - left) = j * 8 + (7 - left) + 1 := by omega
    have hblock := blockUsed_byte bitmap j (show 7 - left < 8 by omega)
    rw [hpos] at h
    rw [hnext] at ih
    unfold scanByte at hscan
    dsimp only at hscan
    split at hscan
    · next hused => exact ih ⟨0, none⟩ (by omega) (h.used (hblock.trans hused)) hscan
    · split at hscan
      · cases hscan
      · next hmore => exact ih _ (by omega) (h.free hmore _) hscan

/-- The bytes from `j` up to `stop`, without going on at the beginning. -/
theorem scanBytes_longest (bitmap : Nat → UInt8) {bitmap_byte : Nat}
    (n need_to_scan bitmap_bit j start : Nat) (run : FreeRun)
    (hfit : j + n < blocks_bitmap_size + 1) (hround : bitmap_bit = 0 ∨ bitmap_byte ≤ j)
    (hmany : n ≤ need_to_scan) (h : run.Longest bitmap needed_blocks start
      (j * 8 + (8 - if j = bitmap_byte then 8 - bitmap_bit else 8)))
    (hnone : scanBytes bitmap blocks_bitmap_size needed_blocks bitmap_byte need_to_scan bitmap_bit j
      run = none) :
    (0 < n → NoFreeRun bitmap needed_blocks start ((j + n) * 8)) ∧
      (j + n = blocks_bitmap_size → 0 < n →
        scanBytes bitmap blocks_bitmap_size needed_blocks bitmap_byte (need_to_scan - n) 0 0 ⟨0, none⟩ =
          none) := by
  induction n generalizing need_to_scan bitmap_bit j run with
  | zero => exact ⟨nofun, nofun⟩
  | succ n ih =>
    obtain ⟨need_to_scan, rfl⟩ := Nat.exists_eq_succ_of_ne_zero (show need_to_scan ≠ 0 by omega)
    unfold scanBytes at hnone
    split at hnone
    · cases hnone
    · next run' hscan =>
      have hbyte := scanByte_longest bitmap j needed_blocks
        (if j = bitmap_byte then 8 - bitmap_bit else 8) start run run' (by split <;> omega) h hscan
      split at hnone
      · next hend =>
        -- the last byte
        obtain rfl : n = 0 := by omega
        refine ⟨fun _ => ?_, fun _ _ => hnone⟩
        rw [show (j + (0 + 1)) * 8 = j * 8 + 8 by omega]
        exact hbyte.none
      · next hmore =>
        have hnext : j * 8 + 8 =
            (j + 1) * 8 + (8 - if j + 1 = bitmap_byte then 8 - bitmap_bit else 8) := by
          split <;> omega
        have hrest := ih need_to_scan bitmap_bit (j + 1) run' (by omega) (by omega) (by omega)
          (hnext ▸ hbyte) hnone
        rw [show j + (n + 1) = j + 1 + n by omega, show need_to_scan + 1 - (n + 1) = need_to_scan - n by
          omega]
        by_cases hzero : n = 0
        · rw [hzero]
          refine ⟨fun _ => ?_, fun heq _ => absurd heq (by omega)⟩
          rw [show (j + 1 + 0) * 8 = j * 8 + 8 by omega]
          exact hbyte.none
        · exact ⟨fun _ => hrest.1 (by omega), fun heq _ => hrest.2 heq (by omega)⟩

/-- A search without success: there are no free blocks from the place where it
    begins, and none before the end of the byte of that place. -/
theorem upsgi_cache_find_free_blocks_none {blocks_bitmap_pos need : Nat}
    (hpos : blocks_bitmap_pos / 8 < blocks_bitmap_size) (hneeded : 0 < neededBlocks blocksize need)
    (hnone : upsgi_cache_find_free_blocks blocksize blocks_bitmap_size bitmap blocks_bitmap_pos need =
      none) :
    NoFreeRun bitmap (neededBlocks blocksize need) blocks_bitmap_pos (blocks_bitmap_size * 8) ∧
      NoFreeRun bitmap (neededBlocks blocksize need) 0 ((blocks_bitmap_pos + 7) / 8 * 8) := by
  unfold upsgi_cache_find_free_blocks at hnone
  -- the first round, up to the end of the bitmap
  have hfirst := scanBytes_longest bitmap (blocks_bitmap_size - blocks_bitmap_pos / 8) _ _ _
    blocks_bitmap_pos ⟨0, none⟩ (by omega) (.inr le_rfl) (by omega) (by
      rw [if_pos rfl, show blocks_bitmap_pos / 8 * 8 + (8 - (8 - blocks_bitmap_pos % 8)) =
        blocks_bitmap_pos by omega]
      exact FreeRun.longest_start hneeded _) hnone
  rw [show blocks_bitmap_pos / 8 + (blocks_bitmap_size - blocks_bitmap_pos / 8) = blocks_bitmap_size by
    omega] at hfirst
  refine ⟨hfirst.1 (by omega), ?_⟩
  -- the second round, up to the byte where the first one began
  have hrest := hfirst.2 rfl (by omega)
  by_cases hzero : blocks_bitmap_pos = 0
  · intro first _ hle
    exfalso
    omega
  · have hsecond := scanBytes_longest bitmap ((blocks_bitmap_pos + 7) / 8) _ 0 0 0 ⟨0, none⟩ (by omega)
      (.inl rfl) (by split <;> omega) (by
        rw [show 0 * 8 + (8 - if 0 = blocks_bitmap_pos / 8 then 8 - 0 else 8) = 0 by split <;> omega]
        exact FreeRun.longest_start hneeded _) hrest
    rw [Nat.zero_add] at hsecond
    exact hsecond.1 (by omega)

/-! ### Which free blocks the search can find -/

/-- The free blocks that are found begin behind the place where the search
    begins, or end in its byte. -/
theorem upsgi_cache_find_free_blocks_place {blocks_bitmap_pos need base : Nat}
    (hpos : blocks_bitmap_pos / 8 < blocks_bitmap_size)
    (hfound : upsgi_cache_find_free_blocks blocksize blocks_bitmap_size bitmap blocks_bitmap_pos need =
      some base) :
    blocks_bitmap_pos ≤ base ∨
      base + neededBlocks blocksize need ≤ (blocks_bitmap_pos + 7) / 8 * 8 := by
  have hplace := (scanBytes_sound bitmap _ _ _ blocks_bitmap_pos ⟨0, none⟩ hpos
    (.inr le_rfl) (by rw [if_pos rfl]; omega)
    (show FreeRun.EndsAt ⟨0, none⟩ bitmap _ from rfl) nofun hfound).2.2
  refine hplace.imp_right fun hle => Nat.le_trans hle (Nat.mul_le_mul_right 8 ?_)
  split <;> omega

/-- No run is long enough for no blocks at all: the count is compared after a
    block was added. -/
theorem scanByte_none_needed (num : UInt8) (j left : Nat) (run : FreeRun) :
    ∃ run', scanByte num j 0 left run = .ok run' := by
  induction left generalizing run with
  | zero => exact ⟨run, rfl⟩
  | succ left ih =>
    unfold scanByte
    dsimp only
    split <;> exact ih _

theorem scanBytes_none_needed (bitmap : Nat → UInt8) (blocks_bitmap_size bitmap_byte need_to_scan
    bitmap_bit j : Nat) (run : FreeRun) :
    scanBytes bitmap blocks_bitmap_size 0 bitmap_byte need_to_scan bitmap_bit j run = none := by
  induction need_to_scan generalizing bitmap_bit j run with
  | zero => rfl
  | succ need_to_scan ih =>
    obtain ⟨run', hscan⟩ := scanByte_none_needed (bitmap j) j
      (if j = bitmap_byte then 8 - bitmap_bit else 8) run
    unfold scanBytes
    rw [hscan]
    dsimp only
    split <;> exact ih _ _ _

/-- `needed_blocks` consecutive free blocks in the bitmap. -/
def FreeRunAt (bitmap : Nat → UInt8) (blocks_bitmap_size needed_blocks first : Nat) : Prop :=
  first + needed_blocks ≤ blocks_bitmap_size * 8 ∧ FreeBlocks bitmap first (first + needed_blocks)

/-- The search fails only if there are no such blocks at all, and what it
    returns is the first of them. -/
def SearchComplete (blocksize blocks_bitmap_size : Nat) (bitmap : Nat → UInt8)
    (blocks_bitmap_pos need : Nat) : Prop :=
  match upsgi_cache_find_free_blocks blocksize blocks_bitmap_size bitmap blocks_bitmap_pos need with
  | none => ∀ first, ¬FreeRunAt bitmap blocks_bitmap_size (neededBlocks blocksize need) first
  | some first => FreeRunAt bitmap blocks_bitmap_size (neededBlocks blocksize need) first

/-- The search is complete for a value that is not empty as long as free blocks
    do not all lie across the place where it begins: some are behind it, or
    end with its byte. -/
theorem free_blocks_search_complete_iff {blocksize blocks_bitmap_size : Nat} {bitmap : Nat → UInt8}
    {blocks_bitmap_pos need : Nat} (hblock : 0 < blocksize)
    (hpos : blocks_bitmap_pos < blocks_bitmap_size * 8) :
    SearchComplete blocksize blocks_bitmap_size bitmap blocks_bitmap_pos need ↔
      0 < need ∧
        ((∃ first, FreeRunAt bitmap blocks_bitmap_size (neededBlocks blocksize need) first) →
          ∃ first, FreeRunAt bitmap blocks_bitmap_size (neededBlocks blocksize need) first ∧
            (blocks_bitmap_pos ≤ first ∨
              first + neededBlocks blocksize need ≤ (blocks_bitmap_pos + 7) / 8 * 8)) := by
  have hbyte : blocks_bitmap_pos / 8 < blocks_bitmap_size := by omega
  unfold SearchComplete
  constructor
  · intro hcomplete
    cases hfind : upsgi_cache_find_free_blocks blocksize blocks_bitmap_size bitmap blocks_bitmap_pos
      need with
    | none =>
      rw [hfind] at hcomplete
      refine ⟨Nat.pos_of_ne_zero fun hzero => ?_, fun ⟨first, hrun⟩ => absurd hrun (hcomplete first)⟩
      -- no blocks are free at any place
      refine hcomplete 0 ⟨?_, fun block _ hlt => ?_⟩
      · simp [hzero, neededBlocks]
      · simp [hzero, neededBlocks] at hlt
    | some base =>
      rw [hfind] at hcomplete
      refine ⟨Nat.pos_of_ne_zero fun hzero => ?_, fun _ => ⟨base, hcomplete, ?_⟩⟩
      · have hnone : neededBlocks blocksize need = 0 := by simp [hzero, neededBlocks]
        unfold upsgi_cache_find_free_blocks at hfind
        rw [hnone, scanBytes_none_needed] at hfind
        cases hfind
      · exact upsgi_cache_find_free_blocks_place hbyte hfind
  · rintro ⟨hneed, hplaced⟩
    split
    · next hfind =>
      obtain ⟨hbehind, hbefore⟩ := upsgi_cache_find_free_blocks_none hbyte
        (neededBlocks_pos hblock hneed) hfind
      intro first hrun
      obtain ⟨first', hrun', hside⟩ := hplaced ⟨first, hrun⟩
      rcases hside with hside | hside
      · exact hbehind first' hside hrun'.1 hrun'.2
      · exact hbefore first' (Nat.zero_le _) hside hrun'.2
    · next base hfind => exact upsgi_cache_find_free_blocks_sound hbyte hfind

/-- Sixteen blocks, of which the two in the middle are free. -/
def middleFree : Nat → UInt8 :=
  fun j => if j = 0 then 0xfe else 0x7f

theorem freeRunAt_middleFree : FreeRunAt middleFree 2 (neededBlocks 1 2) 7 := by
  refine ⟨by decide, fun block hfirst hstop => ?_⟩
  have hneeded : neededBlocks 1 2 = 2 := by decide
  obtain rfl | rfl : block = 7 ∨ block = 8 := by omega
  · decide
  · decide

theorem free_blocks_search_complete_middle :
    (0 < 1 ∧ 0 < 2 * 8) ∧ SearchComplete 1 2 middleFree 0 2 :=
  ⟨by decide, (free_blocks_search_complete_iff (by decide) (by decide)).mpr
    ⟨by decide, fun _ => ⟨7, freeRunAt_middleFree, .inl (Nat.zero_le _)⟩⟩⟩

/-- A search that begins between the two sees each of them alone. -/
theorem free_blocks_search_misses : ¬SearchComplete 1 2 middleFree 8 2 := by
  have hnone : upsgi_cache_find_free_blocks 1 2 middleFree 8 2 = none := by decide
  unfold SearchComplete
  exact fun hno => hno 7 freeRunAt_middleFree

end Upsgi
