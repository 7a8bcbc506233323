import Upsgi.Cache.Lru

/-! # An update that fails

    In a cache with a bitmap an update needs new blocks.  `upsgi_cache_set2` looks
    for them when it has already stored the new expiry of the item and scheduled
    a scan for it, and only the place of the old blocks is put back when there
    are none.  A key that has expired lazily is gone by then as well.
-/

namespace Upsgi

open Framing (Bytes)

/-- The items of two states are the same, and so are `next_scan` and the
    bitmap. -/
structure SameCache (cfg : CacheConfig) (c d : CacheState) : Prop where
  key : d.key = c.key
  flags : d.flags = c.flags
  value : ∀ i, d.value cfg i = c.value cfg i
  valsize : d.valsize = c.valsize
  expires : d.expires = c.expires
  hits : d.hits = c.hits
  next_scan : d.next_scan = c.next_scan
  blocks_bitmap : d.blocks_bitmap = c.blocks_bitmap

theorem SameCache.refl (cfg : CacheConfig) (c : CacheState) : SameCache cfg c c :=
  ⟨rfl, rfl, fun _ => rfl, rfl, rfl, rfl, rfl, rfl⟩

/-- The expiry that an update stores is the one that the item has, and no earlier
    scan has to be scheduled for it. -/
def ExpiryKept (now expires : Nat) (flags : CacheFlags) (it : CacheItem) (next_scan : Nat) : Prop :=
  if expires ≠ 0 ∧ flags.absexpire = false then
    it.expires = (expires + now) % 2 ^ 64 ∧
      (next_scan = it.expires ∨ (next_scan ≠ 0 ∧ next_scan < it.expires))
  else it.expires = expires

section Failure

variable {cfg : CacheConfig} {c : CacheState} {order : List Bytes} {now i expires : Nat}
  {key val : Bytes} {flags : CacheFlags}

/-! ### What a failure leaves -/

/-- Without the three options `cache_full` has nothing to do. -/
theorem cache_full_eq_self (hpurge : cfg.purge_lru = false) (hsweep : cfg.sweep_on_full = 0)
    (hclear : cfg.clear_on_full = false) (now : Nat) (c : CacheState) : cache_full cfg now c = c := by
  simp [cache_full, hpurge, hsweep, hclear]

section

variable (huse : cfg.use_blocks_bitmap = true) (hpurge : cfg.purge_lru = false)
    (hsweep : cfg.sweep_on_full = 0) (hclear : cfg.clear_on_full = false)
include huse hpurge hsweep hclear

/-- An update fails when there are no blocks, with the expiry already stored. -/
theorem cacheUpdate_failed (hfail : (cacheUpdate cfg now i val expires flags c).2 = -1) :
    (cacheUpdate cfg now i val expires flags c).1 = refreshItem cfg now i expires flags c := by
  unfold cacheUpdate at hfail ⊢
  rw [if_pos huse] at hfail ⊢
  cases hfind : findBlocks cfg val.length (refreshItem cfg now i expires flags c) with
  | none => exact cache_full_eq_self hpurge hsweep hclear now _
  | some first =>
    rw [hfind] at hfail
    cases hfail

/-- An insertion that fails brings no key. -/
theorem cacheInsert_failed (hfail : (cacheInsert cfg now key val expires flags c).2 = -1) :
    (cacheInsert cfg now key val expires flags c).1.key = c.key := by
  unfold cacheInsert at hfail ⊢
  simp only [cache_full_eq_self hpurge hsweep hclear, ite_self, if_pos huse] at hfail ⊢
  cases hunused : c.unused with
  | nil => rfl
  | cons index unused =>
    simp only [hunused] at hfail
    cases hfind : findBlocks cfg val.length c with
    | none => rfl
    | some first =>
      rw [hfind] at hfail
      cases hfail

end

/-- The next scan does not move for an expiry that is not before it. -/
theorem next_scan_kept_iff (next_scan e : Nat) :
    (if next_scan = 0 ∨ e < next_scan then e else next_scan) = next_scan ↔
      next_scan = e ∨ (next_scan ≠ 0 ∧ next_scan < e) := by
  split <;> omega

theorem same_of_expiry_iff (e next_scan : Nat) :
    SameCache cfg c
        { c with expires := Function.update c.expires i e, next_scan := next_scan } ↔
      c.expires i = e ∧ next_scan = c.next_scan := by
  constructor
  · intro hsame
    have hexpires : Function.update c.expires i e i = c.expires i := congrFun hsame.expires i
    rw [Function.update_self] at hexpires
    exact ⟨hexpires.symm, hsame.next_scan⟩
  · rintro ⟨hexpires, hscan⟩
    refine ⟨rfl, rfl, fun _ => rfl, rfl, ?_, rfl, hscan, rfl⟩
    exact Function.update_eq_self_iff.mpr hexpires.symm

/-- `refreshItem` touches the expiry of its item and the next scan. -/
theorem refreshItem_same_iff (hpurge : cfg.purge_lru = false) :
    SameCache cfg c (refreshItem cfg now i expires flags c) ↔
      flags.fixexpire = true ∨ ExpiryKept now expires flags (c.itemAt cfg i) c.next_scan := by
  unfold refreshItem
  by_cases hfix : flags.fixexpire = true
  · rw [if_pos hfix]
    exact iff_of_true (SameCache.refl cfg c) (.inl hfix)
  · rw [if_neg hfix, or_iff_right hfix, if_neg (Bool.eq_false_iff.mp hpurge)]
    have hitem : (c.itemAt cfg i).expires = c.expires i := rfl
    unfold scheduleExpiry ExpiryKept
    rw [hitem]
    by_cases hrelative : expires ≠ 0 ∧ flags.absexpire = false
    · rw [if_pos hrelative, if_pos hrelative]
      refine (same_of_expiry_iff _ _).trans (and_congr_right fun hexpires => ?_)
      rw [hexpires]
      exact next_scan_kept_iff _ _
    · rw [if_neg hrelative, if_neg hrelative]
      exact (same_of_expiry_iff expires c.next_scan).trans (and_iff_left rfl)

/-! ### A call that fails -/

/-- When the key has just expired it is not put back. -/
theorem Missed.not_same {d e : CacheState} {it : CacheItem} (hmiss : Missed cfg now key c d)
    (hd : Holds cfg d order) (hfind : c.find cfg key = some it) (hkeys : e.key = d.key) :
    ¬ SameCache cfg c e := by
  intro hsame
  obtain ⟨j, hj, hne, -⟩ := find_eq_some hfind
  have hdj : d.key j = key := by rw [← hkeys, hsame.key, hj]
  have hlive := find_live hd.keys (i := j) (by rw [hdj]; exact hne)
  rw [hdj, hmiss.absent] at hlive
  cases hlive

theorem Holds.failed_update_iff (h : Holds cfg c order) (huse : cfg.use_blocks_bitmap = true)
    (hpurge : cfg.purge_lru = false) (hsweep : cfg.sweep_on_full = 0)
    (hclear : cfg.clear_on_full = false) {it : CacheItem} (hfind : c.find cfg key = some it)
    (hflag : flags.update = true) (hfail : (upsgi_cache_set2 cfg now key val expires flags c).2 = -1) :
    SameCache cfg c (upsgi_cache_set2 cfg now key val expires flags c).1 ↔
      (Acceptable cfg key val flags →
        Fresh cfg now it ∧
          (flags.fixexpire = true ∨ ExpiryKept now expires flags it c.next_scan)) := by
  by_cases hok : Acceptable cfg key val flags
  · have hlookup := upsgi_cache_get_index_lookup h now key
    unfold upsgi_cache_set2 at hfail ⊢
    rw [if_neg hok.1, if_neg hok.2.1, if_neg hok.2.2.1, if_neg hok.2.2.2] at hfail ⊢
    generalize upsgi_cache_get_index cfg now key c = found at hlookup hfail ⊢
    rw [imp_iff_right hok]
    cases hlookup with
    | missed d hmiss =>
      dsimp only at hfail ⊢
      have hkeys := cacheInsert_failed huse hpurge hsweep hclear hfail
      have hstale := (hmiss.removes.lost key it hfind hmiss.absent).2
      exact iff_of_false (hmiss.not_same (hmiss.removes.holds order h) hfind hkeys)
        fun hkept => hstale hkept.1
    | found i hi hkey hne hfresh =>
      dsimp only at hfail ⊢
      rw [if_neg hi, if_pos hflag] at hfail ⊢
      have hlive := find_live h.keys (i := i) (hkey ▸ hne)
      rw [hkey, hfind, Option.some.injEq] at hlive
      subst hlive
      rw [cacheUpdate_failed huse hpurge hsweep hclear hfail, refreshItem_same_iff hpurge]
      exact (and_iff_right hfresh).symm
  · rw [upsgi_cache_set2_refused hok]
    exact iff_of_true (SameCache.refl cfg c) fun hacc => absurd hacc hok

end Failure

/-- In a cache with a bitmap and without LRU purge, `sweep_on_full` and
    `clear_on_full`, after any operations, an update of a key that is there and
    that fails changes nothing exactly if it was refused at once, or the item
    has not expired lazily and its expiry and the next scan were to stay as
    they are. -/
theorem failed_update_changes_nothing_iff (cfg : CacheConfig) (huse : cfg.use_blocks_bitmap = true)
    (hpurge : cfg.purge_lru = false) (hsweep : cfg.sweep_on_full = 0)
    (hclear : cfg.clear_on_full = false) (run : List (Nat × CacheOp)) (now : Nat) (key val : Bytes)
    (expires : Nat) (flags : CacheFlags) (hflag : flags.update = true) (it : CacheItem)
    (hfind : (cacheRun cfg (upsgi_cache_init cfg) run).find cfg key = some it)
    (hfail : (upsgi_cache_set2 cfg now key val expires flags
      (cacheRun cfg (upsgi_cache_init cfg) run)).2 = -1) :
    SameCache cfg (cacheRun cfg (upsgi_cache_init cfg) run)
        (upsgi_cache_set2 cfg now key val expires flags (cacheRun cfg (upsgi_cache_init cfg) run)).1 ↔
      (Acceptable cfg key val flags →
        Fresh cfg now it ∧
          (flags.fixexpire = true ∨
            ExpiryKept now expires flags it (cacheRun cfg (upsgi_cache_init cfg) run).next_scan)) := by
  obtain ⟨order, h⟩ := cacheRun_holds (upsgi_cache_init_holds cfg) run
  exact h.failed_update_iff huse hpurge hsweep hclear hfind hflag hfail

/-- A cache with a bitmap that has two items and three blocks of one byte. -/
def bitmapCache : CacheConfig :=
  { lruCache with purge_lru := false, lazy_expire := true }

/-- A value of two of the three blocks. -/
def twoBlocksRun : List (Nat × CacheOp) :=
  [(100, .set [1] [7, 7] 50 {})]

/-- With `fixexpire` the update that finds no blocks changes nothing. -/
theorem failed_update_fixexpire :
    SameCache bitmapCache (cacheRun bitmapCache (upsgi_cache_init bitmapCache) twoBlocksRun)
      (upsgi_cache_set2 bitmapCache 110 [1] [8, 8] 10 { update := true, fixexpire := true }
        (cacheRun bitmapCache (upsgi_cache_init bitmapCache) twoBlocksRun)).1 := by
  have hfind : (cacheRun bitmapCache (upsgi_cache_init bitmapCache) twoBlocksRun).find bitmapCache [1] =
      some ⟨[7, 7], {}, 150⟩ := by decide +kernel
  have hfail : (upsgi_cache_set2 bitmapCache 110 [1] [8, 8] 10 { update := true, fixexpire := true }
      (cacheRun bitmapCache (upsgi_cache_init bitmapCache) twoBlocksRun)).2 = -1 := by decide +kernel
  exact (failed_update_changes_nothing_iff bitmapCache rfl rfl rfl rfl twoBlocksRun 110 [1] [8, 8] 10
    { update := true, fixexpire := true } rfl _ hfind hfail).mpr
      fun _ => ⟨by decide, .inl rfl⟩

/-- An update with another expiry fails: the item keeps its value and has the new
    expiry, and the next scan is earlier. -/
theorem failed_update_moves_expiry :
    (cacheRun bitmapCache (upsgi_cache_init bitmapCache) twoBlocksRun).find bitmapCache [1] =
        some ⟨[7, 7], {}, 150⟩ ∧
      (cacheRun bitmapCache (upsgi_cache_init bitmapCache) twoBlocksRun).next_scan = 150 ∧
      (upsgi_cache_set2 bitmapCache 110 [1] [8, 8] 10 { update := true }
        (cacheRun bitmapCache (upsgi_cache_init bitmapCache) twoBlocksRun)).2 = -1 ∧
      (upsgi_cache_set2 bitmapCache 110 [1] [8, 8] 10 { update := true }
          (cacheRun bitmapCache (upsgi_cache_init bitmapCache) twoBlocksRun)).1.find bitmapCache [1] =
        some ⟨[7, 7], {}, 120⟩ ∧
      (upsgi_cache_set2 bitmapCache 110 [1] [8, 8] 10 { update := true }
        (cacheRun bitmapCache (upsgi_cache_init bitmapCache) twoBlocksRun)).1.next_scan = 120 := by
  decide +kernel

end Upsgi
