import Upsgi.Cache.Lru

/-! # The time of the next scan

    The sweeper has a thread of its own.  It looks at `next_scan`, and when a scan
    is due it goes through the items and takes the lock for one item at a time, so
    that other operations come in between.  Here the sweeper and the others are one
    transition system, and `next_scan` is followed through all interleavings.
-/

namespace Upsgi

open Framing (Bytes)
open Function

/-! ### The sweeper and the others -/

/-- A cache and the item at which the sweep in progress goes on. -/
structure SweptCache where
  cache : CacheState
  slot : Option Nat

/-- What a thread does under the lock. -/
inductive SweepAction where
  /-- An operation of another thread. -/
  | call (op : CacheOp)
  /-- The sweeper looks whether a scan is due. -/
  | check
  /-- One round of its loop. -/
  | round

/-- The operations that are the sweeper's own. -/
def CacheOp.isSweep : CacheOp → Bool
  | .sweep => true
  | .sweepSlot _ => true
  | _ => false

/-- The loop goes on at the item, if there is such an item. -/
def sweepAt (cfg : CacheConfig) (i : Nat) : Option Nat :=
  if i < cfg.max_items then some i else none

def sweepAction (cfg : CacheConfig) (now : Nat) (s : SweptCache) : SweepAction → SweptCache
  | .call op => if op.isSweep then s else { s with cache := cacheStep cfg now s.cache op }
  | .check =>
      if s.slot ≠ none then s
      else if cfg.no_expire ∨ cfg.purge_lru ∨ cfg.lazy_expire then s
      else if s.cache.next_scan = 0 ∨ now < s.cache.next_scan then s
      else { s with slot := sweepAt cfg 1 }
  | .round =>
      match s.slot with
      | none => s
      | some i => ⟨sweepSlot cfg now s.cache i, sweepAt cfg (i + 1)⟩

/-- The state after actions, each at its time. -/
def sweepRun (cfg : CacheConfig) (s : SweptCache) (run : List (Nat × SweepAction)) : SweptCache :=
  run.foldl (fun s step => sweepAction cfg step.1 s step.2) s

theorem sweepRun_rounds (cfg : CacheConfig) (now : Nat) (c : CacheState) (n i : Nat)
    (hn : i + n = cfg.max_items) :
    sweepRun cfg ⟨c, sweepAt cfg i⟩ (List.replicate n (now, .round)) =
      ⟨(List.range' i n).foldl (sweepSlot cfg now) c, none⟩ := by
  induction n generalizing c i with
  | zero =>
    have hend : sweepAt cfg i = none := if_neg (by omega)
    rw [hend]
    rfl
  | succ n ih =>
    have hslot : sweepAt cfg i = some i := if_pos (by omega)
    rw [hslot]
    exact ih (sweepSlot cfg now c i) (i + 1) (by omega)

/-- When nothing comes in between, the rounds are `cache_sweeper_free_items`. -/
theorem sweepRun_whole (cfg : CacheConfig) (now : Nat) (c : CacheState) :
    sweepRun cfg ⟨c, none⟩ ((now, .check) :: List.replicate (cfg.max_items - 1) (now, .round)) =
      ⟨cache_sweeper_free_items cfg now c, none⟩ := by
  have hidle : ∀ n, sweepRun cfg ⟨c, none⟩ (List.replicate n (now, .round)) = ⟨c, none⟩ := by
    intro n
    induction n with
    | zero => rfl
    | succ n ih => exact ih
  have hitems := cfg.max_items_pos
  show sweepRun cfg (sweepAction cfg now ⟨c, none⟩ .check) _ = _
  unfold cache_sweeper_free_items sweepAction
  dsimp only
  rw [if_neg (not_not_intro rfl)]
  split
  · exact hidle _
  · split
    · exact hidle _
    · exact sweepRun_rounds cfg now c (cfg.max_items - 1) 1 (by omega)

/-! ### Items with a scan -/

/-- A scan is scheduled, and not later than the expiry. -/
def ScanBy (next_scan expires : Nat) : Prop :=
  next_scan ≠ 0 ∧ next_scan ≤ expires

/-- If the item is in use and expires, there is a scan for it. -/
def Scanned (c : CacheState) (i : Nat) : Prop :=
  c.key i ≠ [] → c.expires i ≠ 0 → ScanBy c.next_scan (c.expires i)

/-- The items that the sweep in progress does not come to any more: all of them
    when there is none. -/
def SweptCache.Passed (cfg : CacheConfig) (s : SweptCache) (i : Nat) : Prop :=
  i ∈ cfg.slots ∧ ∀ j, s.slot = some j → i < j

/-! ### The condition -/

/-- The time that `cache_full` sets `next_scan` to. -/
def fullScan (cfg : CacheConfig) (now : Nat) : Nat :=
  (now + cfg.sweep_on_full) % 2 ^ 64

/-- The set inserts the key, or updates its expiry. -/
def GivesExpiry (cfg : CacheConfig) (c : CacheState) (key : Bytes) (flags : CacheFlags) : Prop :=
  c.find cfg key = none ∨ (flags.update = true ∧ flags.fixexpire = false)

/-- The set finds no item or no blocks. -/
def FindsFull (cfg : CacheConfig) (c : CacheState) (key val : Bytes) (flags : CacheFlags) : Prop :=
  (c.find cfg key = none ∧ c.unused = []) ∨
    ((c.find cfg key = none ∨ flags.update = true) ∧ cfg.use_blocks_bitmap = true ∧
      findBlocks cfg val.length c = none)

/-- What a set has to meet for no item to be left without a scan.  A relative
    expiry does not wrap; an absolute one is not before the next scan; and when the
    set finds the cache full while a scan is due, what has not expired yet does not
    expire before the scan that the clean-up schedules. -/
structure ScannedSet (cfg : CacheConfig) (now : Nat) (s : SweptCache) (key val : Bytes) (expires : Nat)
    (flags : CacheFlags) : Prop where
  relative : GivesExpiry cfg s.cache key flags → expires ≠ 0 → flags.absexpire = false →
    expires + now < 2 ^ 64
  absolute : GivesExpiry cfg s.cache key flags → expires ≠ 0 → flags.absexpire = true →
    ScanBy s.cache.next_scan expires
  others : FindsFull cfg s.cache key val flags → cfg.sweep_on_full ≠ 0 → s.cache.next_scan ≤ now →
    ∀ i, s.Passed cfg i → s.cache.key i ≠ [] → s.cache.expires i ≠ 0 →
      s.cache.expires i ≤ now ∨ ScanBy (fullScan cfg now) (s.cache.expires i)
  own : FindsFull cfg s.cache key val flags → cfg.sweep_on_full ≠ 0 → s.cache.next_scan ≤ now →
    GivesExpiry cfg s.cache key flags → expires ≠ 0 →
      (flags.absexpire = true ∨ s.cache.find cfg key ≠ none) →
        ScanBy (fullScan cfg now) (if flags.absexpire then expires else expires + now)

/-- The condition of an action. -/
def ScannedAction (cfg : CacheConfig) (now : Nat) (s : SweptCache) : SweepAction → Prop
  | .call (.set key val expires flags) =>
      Acceptable cfg key val flags → ScannedSet cfg now s key val expires flags
  | _ => True

/-- All actions of a run meet it in the states they are done in. -/
def ScannedRun (cfg : CacheConfig) : SweptCache → List (Nat × SweepAction) → Prop
  | _, [] => True
  | s, (now, a) :: run => ScannedAction cfg now s a ∧ ScannedRun cfg (sweepAction cfg now s a) run

/-! ### Removals -/

/-- Items were removed, and the next scan is as before. -/
structure Thins (c d : CacheState) : Prop where
  next_scan : d.next_scan = c.next_scan
  item : ∀ i, d.key i ≠ [] → c.key i ≠ [] ∧ d.expires i = c.expires i

section Scans

variable {cfg : CacheConfig} {c d e : CacheState} {now : Nat}

theorem Thins.refl (c : CacheState) : Thins c c :=
  ⟨rfl, fun _ hi => ⟨hi, rfl⟩⟩

theorem Thins.trans (h : Thins c d) (h' : Thins d e) : Thins c e := by
  refine ⟨h'.next_scan.trans h.next_scan, fun i hi => ?_⟩
  obtain ⟨hd, hexpires⟩ := h'.item i hi
  obtain ⟨hc, hexpires'⟩ := h.item i hd
  exact ⟨hc, hexpires.trans hexpires'⟩

theorem Thins.scanned (h : Thins c d) {i : Nat} (hi : Scanned c i) : Scanned d i := by
  intro hkey hne
  obtain ⟨hc, hexpires⟩ := h.item i hkey
  rw [hexpires] at hne ⊢
  rw [h.next_scan]
  exact hi hc hne

theorem delItem_next_scan (cfg : CacheConfig) (i : Nat) (c : CacheState) :
    (delItem cfg i c).next_scan = c.next_scan := by
  unfold delItem releaseItem
  simp only [unlinkItem_eq, lru_remove_item_eq]
  split
  · split <;> split <;> rfl
  · rfl

theorem Thins.del (cfg : CacheConfig) (i : Nat) (c : CacheState) : Thins c (delItem cfg i c) := by
  obtain ⟨hkey, _, _, _, hexpires, _⟩ := delItem_fields cfg i c
  refine ⟨delItem_next_scan cfg i c, fun j hj => ?_⟩
  rw [hkey] at hj
  have hne : j ≠ i := by
    rintro rfl
    exact hj (update_self j [] c.key)
  rw [update_of_ne hne] at hj
  rw [hexpires, update_of_ne hne]
  exact ⟨hj, rfl⟩

theorem Thins.clear (cfg : CacheConfig) (l : List Nat) (c : CacheState) :
    Thins c (l.foldl (fun c i => delItem cfg i c) c) := by
  induction l generalizing c with
  | nil => exact .refl c
  | cons i l ih => exact (Thins.del cfg i c).trans (ih _)

/-! ### A full cache -/

/-- The item is not left in the cache when it has expired. -/
def Unexpired (now : Nat) (c : CacheState) (i : Nat) : Prop :=
  c.key i ≠ [] → ¬ (0 < c.expires i ∧ c.expires i ≤ now)

theorem Thins.unexpired (h : Thins c d) {i : Nat} (hi : Unexpired now c i) : Unexpired now d i := by
  intro hkey
  obtain ⟨hlive, hexpires⟩ := h.item i hkey
  rw [hexpires]
  exact hi hlive

/-- The loop of `cache_full` leaves none of its items expired. -/
theorem sweepFull_fold (cfg : CacheConfig) (now : Nat) (l : List Nat) (acc : CacheState × Nat) :
    Thins acc.1 (l.foldl (sweepFull cfg now) acc).1 ∧
      ∀ i ∈ l, Unexpired now (l.foldl (sweepFull cfg now) acc).1 i := by
  induction l generalizing acc with
  | nil => exact ⟨.refl _, nofun⟩
  | cons j l ih =>
    obtain ⟨hthins, hleft⟩ := ih (sweepFull cfg now acc j)
    have hround : Thins acc.1 (sweepFull cfg now acc j).1 ∧
        Unexpired now (sweepFull cfg now acc j).1 j := by
      unfold sweepFull
      split
      · refine ⟨.del cfg j acc.1, fun hkey => absurd ?_ hkey⟩
        rw [(delItem_fields cfg j acc.1).1, update_self]
      · next hnot => exact ⟨.refl _, fun _ => hnot⟩
    refine ⟨hround.1.trans hthins, fun i hi => ?_⟩
    rcases List.mem_cons.mp hi with rfl | hi
    · -- the rounds behind it do not bring the item back
      exact hthins.unexpired hround.2
    · exact hleft i hi

/-- The two ways of `cache_full` without LRU purge. -/
theorem cache_full_thins (hpurge : cfg.purge_lru = false) (now : Nat) (c : CacheState) :
    (¬ (cfg.sweep_on_full ≠ 0 ∧ c.next_scan ≤ now) ∧ Thins c (cache_full cfg now c)) ∨
      ((cfg.sweep_on_full ≠ 0 ∧ c.next_scan ≤ now) ∧
        Thins { c with next_scan := fullScan cfg now } (cache_full cfg now c) ∧
        ∀ i ∈ cfg.slots, Unexpired now (cache_full cfg now c) i) := by
  have hhead : ¬ (cfg.purge_lru = true ∧ c.lru_head ≠ 0) := by
    rw [hpurge]
    exact fun hand => nomatch hand.1
  unfold cache_full
  dsimp only
  rw [if_neg hhead]
  by_cases hdue : cfg.sweep_on_full ≠ 0 ∧ c.next_scan ≤ now
  · refine .inr ⟨hdue, ?_⟩
    rw [if_pos hdue]
    obtain ⟨hthins, hleft⟩ :=
      sweepFull_fold cfg now cfg.slots ({ c with next_scan := fullScan cfg now }, 0)
    unfold fullScan at hthins hleft ⊢
    generalize cfg.slots.foldl (sweepFull cfg now) _ = swept at hthins hleft ⊢
    split
    · have hclear := Thins.clear cfg cfg.slots swept.1
      exact ⟨hthins.trans hclear, fun i hi => hclear.unexpired (hleft i hi)⟩
    · exact ⟨hthins, hleft⟩
  · refine .inl ⟨hdue, ?_⟩
    rw [if_neg hdue]
    split
    · exact .clear cfg cfg.slots c
    · exact .refl c

/-- What `cache_full` may do to items that have a scan. -/
theorem cache_full_scanned (hpurge : cfg.purge_lru = false) {P : Nat → Prop}
    (hP : ∀ i, P i → i ∈ cfg.slots) (hscan : ∀ i, P i → Scanned c i)
    (hfull : cfg.sweep_on_full ≠ 0 → c.next_scan ≤ now → ∀ i, P i → c.key i ≠ [] → c.expires i ≠ 0 →
      c.expires i ≤ now ∨ ScanBy (fullScan cfg now) (c.expires i)) :
    ∀ i, P i → Scanned (cache_full cfg now c) i := by
  intro i hi
  rcases cache_full_thins hpurge now c with ⟨_, hthins⟩ | ⟨⟨hsweep, hdue⟩, hthins, hleft⟩
  · exact hthins.scanned (hscan i hi)
  · intro hkey hne
    obtain ⟨hlive, hexpires⟩ := hthins.item i hkey
    have hnot := hleft i (hP i hi) hkey
    rw [hthins.next_scan]
    rw [hexpires] at hne hnot ⊢
    rcases hfull hsweep hdue i hi hlive hne with hle | hby
    · exact absurd ⟨Nat.pos_of_ne_zero hne, hle⟩ hnot
    · exact hby

/-! ### Expiries that are set -/

/-- The expiry that a set gives to its item. -/
def givenExpiry (now expires : Nat) (flags : CacheFlags) : Nat :=
  if expires ≠ 0 ∧ flags.absexpire = false then (expires + now) % 2 ^ 64 else expires

/-- The next scan after a set. -/
def givenScan (now expires : Nat) (flags : CacheFlags) (next_scan : Nat) : Nat :=
  if expires ≠ 0 ∧ flags.absexpire = false then
    if next_scan = 0 ∨ (expires + now) % 2 ^ 64 < next_scan then (expires + now) % 2 ^ 64 else next_scan
  else next_scan

theorem scheduleExpiry_scan (now expires : Nat) (flags : CacheFlags) (c : CacheState) :
    scheduleExpiry now expires flags c =
      ({ c with next_scan := givenScan now expires flags c.next_scan }, givenExpiry now expires flags) := by
  unfold scheduleExpiry givenScan givenExpiry
  split <;> rfl

section Given

variable {expires next_scan : Nat} {flags : CacheFlags}

section

variable (hrel : expires ≠ 0 → flags.absexpire = false → expires + now < 2 ^ 64)
include hrel

/-- An expiry keeps the scans of others and has one itself. -/
theorem givenScan_scanBy (habs : expires ≠ 0 → flags.absexpire = true → ScanBy next_scan expires) :
    (∀ x, ScanBy next_scan x → ScanBy (givenScan now expires flags next_scan) x) ∧
      (givenExpiry now expires flags ≠ 0 →
        ScanBy (givenScan now expires flags next_scan) (givenExpiry now expires flags)) := by
  unfold givenScan givenExpiry ScanBy
  split
  · next hset =>
    rw [Nat.mod_eq_of_lt (hrel hset.1 hset.2)]
    have hpos : 0 < expires := Nat.pos_of_ne_zero hset.1
    split
    · next hearlier => exact ⟨fun x hx => by omega, fun _ => by omega⟩
    · next hlater => exact ⟨fun x hx => hx, fun _ => by omega⟩
  · next hnot =>
    refine ⟨fun x hx => hx, fun hne => habs hne ?_⟩
    exact eq_true_of_ne_false fun hflag => hnot ⟨hne, hflag⟩

/-- A scan that is due was due before, as a relative expiry is later than now. -/
theorem givenScan_due (hdue : givenScan now expires flags next_scan ≤ now) : next_scan ≤ now := by
  unfold givenScan at hdue
  split at hdue
  · next hset =>
    rw [Nat.mod_eq_of_lt (hrel hset.1 hset.2)] at hdue
    have hpos : 0 < expires := Nat.pos_of_ne_zero hset.1
    split at hdue
    · omega
    · exact hdue
  · exact hdue

end

theorem givenExpiry_scanBy {scan : Nat}
    (hrel : expires ≠ 0 → flags.absexpire = false → expires + now < 2 ^ 64)
    (hne : givenExpiry now expires flags ≠ 0)
    (hby : expires ≠ 0 → ScanBy scan (if flags.absexpire then expires else expires + now)) :
    ScanBy scan (givenExpiry now expires flags) := by
  unfold givenExpiry at hne ⊢
  split at hne
  · next hset =>
    have hby := hby hset.1
    rw [if_neg (Bool.eq_false_iff.mp hset.2)] at hby
    rw [if_pos hset, Nat.mod_eq_of_lt (hrel hset.1 hset.2)]
    exact hby
  · next hnot =>
    have hflag : flags.absexpire = true :=
      eq_true_of_ne_false fun hflag => hnot ⟨hne, hflag⟩
    have hby := hby hne
    rw [if_pos hflag] at hby
    rw [if_neg hnot]
    exact hby

/-- The expiry of the item `i` is set, and a scan is scheduled for it. -/
structure GivesScan (now expires : Nat) (flags : CacheFlags) (i : Nat) (c d : CacheState) : Prop where
  key : ∀ j, j ≠ i → d.key j = c.key j
  expiry : d.expires = Function.update c.expires i (givenExpiry now expires flags)
  scan : d.next_scan = givenScan now expires flags c.next_scan

theorem GivesScan.scanned {i j : Nat} (h : GivesScan now expires flags i c d)
    (hrel : expires ≠ 0 → flags.absexpire = false → expires + now < 2 ^ 64)
    (habs : expires ≠ 0 → flags.absexpire = true → ScanBy c.next_scan expires) (hj : Scanned c j) :
    Scanned d j := by
  obtain ⟨hothers, hown⟩ := givenScan_scanBy hrel habs
  unfold Scanned
  rw [h.expiry, h.scan]
  by_cases hji : j = i
  · rw [hji, update_self]
    exact fun _ hne => hown hne
  · rw [update_of_ne hji, h.key j hji]
    exact fun hkey hne => hothers _ (hj hkey hne)

end Given

theorem linkItem_scan (cfg : CacheConfig) (i : Nat) (c : CacheState) :
    (linkItem cfg i c).key = c.key ∧ (linkItem cfg i c).expires = c.expires ∧
      (linkItem cfg i c).next_scan = c.next_scan := by
  unfold linkItem
  dsimp only
  split <;> exact ⟨rfl, rfl, rfl⟩

theorem storeItem_givesScan (hpurge : cfg.purge_lru = false) (now i first : Nat) (key val : Bytes)
    (expires : Nat) (flags : CacheFlags) (c : CacheState) :
    GivesScan now expires flags i c (storeItem cfg now i first key val expires flags c) := by
  have hnot : ¬ cfg.purge_lru = true := Bool.eq_false_iff.mp hpurge
  have hfill : GivesScan now expires flags i c (fillItem cfg now i first key val expires flags c) := by
    unfold fillItem
    dsimp only
    rw [if_neg hnot, scheduleExpiry_scan]
    exact ⟨fun j hj => update_of_ne hj _ _, rfl, rfl⟩
  obtain ⟨hkey, hexpires, hnext⟩ := linkItem_scan cfg i (fillItem cfg now i first key val expires flags c)
  exact ⟨fun j hj => (congrFun hkey j).trans (hfill.key j hj), hexpires.trans hfill.expiry,
    hnext.trans hfill.scan⟩

/-- Without LRU purge an update sets the expiry and the next scan only. -/
theorem refreshItem_scan (hpurge : cfg.purge_lru = false) (now i expires : Nat) (flags : CacheFlags)
    (c : CacheState) :
    refreshItem cfg now i expires flags c =
      if flags.fixexpire then c
      else
        { c with
          next_scan := givenScan now expires flags c.next_scan
          expires := update c.expires i (givenExpiry now expires flags) } := by
  unfold refreshItem
  rw [if_neg (Bool.eq_false_iff.mp hpurge), scheduleExpiry_scan]

/-! ### Sets -/

section Sets

variable {s : SweptCache} {key val : Bytes} {expires : Nat} {flags : CacheFlags}

theorem SweptCache.Passed.mem_slots {i : Nat} (h : s.Passed cfg i) : i ∈ cfg.slots :=
  h.1

section

variable (hpurge : cfg.purge_lru = false) (hset : ScannedSet cfg now s key val expires flags)
include hpurge hset

section

variable (hnone : s.cache.find cfg key = none) (hscan : ∀ i, s.Passed cfg i → Scanned s.cache i)
include hnone hscan

/-- The room for an insertion: the cache as it was, or `cache_full` has cleaned
    up, or it had nothing to clean up. -/
theorem makesRoom_scanned
    (hd : (if s.cache.unused = [] then cache_full cfg now s.cache else s.cache) = d) :
    (∀ i, s.Passed cfg i → Scanned d i) ∧
      (d = s.cache ∨
        (d.next_scan = s.cache.next_scan ∧ ¬ (cfg.sweep_on_full ≠ 0 ∧ s.cache.next_scan ≤ now)) ∨
        (d.next_scan = fullScan cfg now ∧ s.cache.unused = [] ∧ cfg.sweep_on_full ≠ 0 ∧
          s.cache.next_scan ≤ now)) := by
  by_cases hempty : s.cache.unused = []
  · have hfull : FindsFull cfg s.cache key val flags := .inl ⟨hnone, hempty⟩
    rw [if_pos hempty] at hd
    rw [← hd]
    refine ⟨cache_full_scanned hpurge (fun _ => SweptCache.Passed.mem_slots) hscan (hset.others hfull), ?_⟩
    rcases cache_full_thins hpurge now s.cache with ⟨hnot, hthins⟩ | ⟨hdue, hthins, _⟩
    · exact .inr (.inl ⟨hthins.next_scan, hnot⟩)
    · exact .inr (.inr ⟨hthins.next_scan, hempty, hdue⟩)
  · rw [if_neg hempty] at hd
    rw [← hd]
    exact ⟨hscan, .inl rfl⟩

theorem cacheInsert_scanned :
    ∀ i, s.Passed cfg i → Scanned (cacheInsert cfg now key val expires flags s.cache).1 i := by
  have hgives : GivesExpiry cfg s.cache key flags := .inl hnone
  unfold cacheInsert
  dsimp only
  generalize hd : (if s.cache.unused = [] then cache_full cfg now s.cache else s.cache) = d
  obtain ⟨hscanD, hroom⟩ := makesRoom_scanned hpurge hset hnone hscan hd
  -- an absolute expiry has its scan also after a clean-up
  have habs : expires ≠ 0 → flags.absexpire = true → ScanBy d.next_scan expires := by
    intro hne hflag
    rcases hroom with hsame | ⟨hnext, _⟩ | ⟨hnext, hempty, hsweep, hdue⟩
    · rw [hsame]
      exact hset.absolute hgives hne hflag
    · rw [hnext]
      exact hset.absolute hgives hne hflag
    · have hown := hset.own (.inl ⟨hnone, hempty⟩) hsweep hdue hgives hne (.inl hflag)
      rw [if_pos hflag] at hown
      rw [hnext]
      exact hown
  cases hunused : d.unused with
  | nil => exact hscanD
  | cons index unused =>
    dsimp only
    by_cases huse : cfg.use_blocks_bitmap = true
    · rw [if_pos huse]
      cases hfound : findBlocks cfg val.length d with
      | none =>
        refine cache_full_scanned hpurge (fun _ => SweptCache.Passed.mem_slots) hscanD ?_
        intro hsweep hdue i hi hkey hne
        rcases hroom with hsame | ⟨hnext, hnot⟩ | ⟨hnext, _⟩
        · subst hsame
          exact hset.others (.inr ⟨.inl hnone, huse, hfound⟩) hsweep hdue i hi hkey hne
        · exact absurd ⟨hsweep, hnext ▸ hdue⟩ hnot
        · -- a second clean-up schedules the same scan
          rw [← hnext]
          exact .inr (hscanD i hi hkey hne)
      | some first =>
        intro i hi
        have hstore := storeItem_givesScan hpurge now index first key val expires flags
          (takeBlocks cfg first val.length { d with unused := unused })
        dsimp only
        exact hstore.scanned (hset.relative hgives) habs (hscanD i hi)
    · rw [if_neg huse]
      intro i hi
      exact (storeItem_givesScan hpurge now index index key val expires flags
        { d with unused := unused }).scanned (hset.relative hgives) habs (hscanD i hi)

end

section

variable (hsome : s.cache.find cfg key ≠ none) (hflag : flags.update = true)
include hsome hflag

/-- An update sets the expiry first.  When there are no blocks for the value,
    `cache_full` finds it set. -/
theorem refreshItem_scanned {index : Nat} (hscan : ∀ i, s.Passed cfg i → Scanned s.cache i)
    (hd : refreshItem cfg now index expires flags s.cache = d) :
    (∀ i, s.Passed cfg i → Scanned d i) ∧
      (cfg.use_blocks_bitmap = true → findBlocks cfg val.length d = none → cfg.sweep_on_full ≠ 0 →
        d.next_scan ≤ now → ∀ i, s.Passed cfg i → d.key i ≠ [] → d.expires i ≠ 0 →
          d.expires i ≤ now ∨ ScanBy (fullScan cfg now) (d.expires i)) := by
  rw [refreshItem_scan hpurge] at hd
  by_cases hfix : flags.fixexpire = true
  · rw [if_pos hfix] at hd
    subst hd
    exact ⟨hscan, fun huse hfound => hset.others (.inr ⟨.inr hflag, huse, hfound⟩)⟩
  · have hgives : GivesExpiry cfg s.cache key flags := .inr ⟨hflag, Bool.eq_false_iff.mpr hfix⟩
    rw [if_neg hfix] at hd
    have hgiven : GivesScan now expires flags index s.cache d := by
      rw [← hd]
      exact ⟨fun _ _ => rfl, rfl, rfl⟩
    have hkeys : d.key = s.cache.key := by rw [← hd]
    have hblocks : findBlocks cfg val.length d = findBlocks cfg val.length s.cache := by
      rw [← hd]
      rfl
    refine ⟨fun i hi => hgiven.scanned (hset.relative hgives) (hset.absolute hgives) (hscan i hi), ?_⟩
    intro huse hfound hsweep hdue i hi hkey hne
    have hfull : FindsFull cfg s.cache key val flags := .inr ⟨.inr hflag, huse, hblocks ▸ hfound⟩
    rw [hgiven.scan] at hdue
    have hdue := givenScan_due (hset.relative hgives) hdue
    rw [hgiven.expiry] at hne ⊢
    rw [hkeys] at hkey
    by_cases hindex : i = index
    · -- the update fails, but its expiry stays
      rw [hindex, update_self] at hne ⊢
      exact .inr (givenExpiry_scanBy (hset.relative hgives) hne fun hne' =>
        hset.own hfull hsweep hdue hgives hne' (.inr hsome))
    · rw [update_of_ne hindex] at hne ⊢
      exact hset.others hfull hsweep hdue i hi hkey hne

theorem cacheUpdate_scanned (index : Nat) (hscan : ∀ i, s.Passed cfg i → Scanned s.cache i) :
    ∀ i, s.Passed cfg i → Scanned (cacheUpdate cfg now index val expires flags s.cache).1 i := by
  unfold cacheUpdate
  generalize hd : refreshItem cfg now index expires flags s.cache = d
  obtain ⟨hscanD, hfull⟩ := refreshItem_scanned hpurge hset hsome hflag hscan hd
  by_cases huse : cfg.use_blocks_bitmap = true
  · rw [if_pos huse]
    cases hfound : findBlocks cfg val.length d with
    | none =>
      exact cache_full_scanned hpurge (fun _ => SweptCache.Passed.mem_slots) hscanD (hfull huse hfound)
    | some first =>
      dsimp only
      exact hscanD
  · rw [if_neg huse]
    exact hscanD

end

end

/-- Without lazy expiry a lookup changes nothing. -/
theorem upsgi_cache_get_index_fst (hlazy : cfg.lazy_expire = false) (now : Nat) (key : Bytes)
    (c : CacheState) : (upsgi_cache_get_index cfg now key c).1 = c := by
  unfold upsgi_cache_get_index check_lazy
  dsimp only
  split
  · rfl
  · split
    · rfl
    · split
      · rfl
      · rw [if_pos (.inr hlazy)]

theorem upsgi_cache_set2_scanned (hpurge : cfg.purge_lru = false) (hlazy : cfg.lazy_expire = false)
    {order : List Bytes} (h : Holds cfg s.cache order)
    (hset : Acceptable cfg key val flags → ScannedSet cfg now s key val expires flags)
    (hscan : ∀ i, s.Passed cfg i → Scanned s.cache i) :
    ∀ i, s.Passed cfg i → Scanned (upsgi_cache_set2 cfg now key val expires flags s.cache).1 i := by
  by_cases hok : Acceptable cfg key val flags
  · obtain ⟨hempty, hkeysize, hsize, hmath⟩ := hok
    have hset := hset ⟨hempty, hkeysize, hsize, hmath⟩
    have hsame := upsgi_cache_get_index_fst hlazy now key s.cache
    have hlookup := upsgi_cache_get_index_lookup h now key
    unfold upsgi_cache_set2
    rw [if_neg hempty, if_neg hkeysize, if_neg hsize, if_neg hmath]
    generalize upsgi_cache_get_index cfg now key s.cache = result at hsame hlookup ⊢
    cases hlookup with
    | missed d hmiss =>
      have hsame : d = s.cache := hsame
      subst hsame
      exact cacheInsert_scanned hpurge hset hmiss.absent hscan
    | found i hi hkey hne _ =>
      have hsome : s.cache.find cfg key ≠ none := by
        rw [← hkey, find_live h.keys (hkey ▸ hne)]
        exact Option.some_ne_none _
      dsimp only
      rw [if_neg hi]
      by_cases hflag : flags.update = true
      · rw [if_pos hflag]
        exact cacheUpdate_scanned hpurge hset hsome hflag i hscan
      · rw [if_neg hflag]
        exact hscan
  · rw [upsgi_cache_set2_refused hok]
    exact hscan

end Sets

/-! ### The other operations -/

/-- Without LRU purge and lazy expiry a read changes the hits only. -/
theorem cacheHit_thins (hpurge : cfg.purge_lru = false) (hlazy : cfg.lazy_expire = false) (touch : Bool)
    (now : Nat) (key : Bytes) (c : CacheState) : Thins c (cacheHit cfg touch now key c).1 := by
  have hsame := upsgi_cache_get_index_fst hlazy now key c
  unfold cacheHit
  generalize upsgi_cache_get_index cfg now key c = result at hsame ⊢
  obtain ⟨d, index⟩ := result
  have hsame : d = c := hsame
  subst hsame
  dsimp only
  rw [hpurge, Bool.and_false]
  split
  · exact .refl d
  · split
    · exact .refl d
    · exact ⟨rfl, fun _ hi => ⟨hi, rfl⟩⟩

theorem upsgi_cache_del2_thins (hlazy : cfg.lazy_expire = false) (now : Nat) (key : Bytes)
    (c : CacheState) : Thins c (upsgi_cache_del2 cfg now key c).1 := by
  have hsame := upsgi_cache_get_index_fst hlazy now key c
  unfold upsgi_cache_del2
  generalize upsgi_cache_get_index cfg now key c = result at hsame ⊢
  obtain ⟨d, index⟩ := result
  have hsame : d = c := hsame
  subst hsame
  dsimp only
  split
  · exact .refl d
  · exact .del cfg index d

/-- A round of the sweeper gives its item a scan.  The first one takes those of
    all others away. -/
theorem sweepSlot_scanned (cfg : CacheConfig) (now : Nat) (c : CacheState) {i j : Nat}
    (hj : j = i ∨ (i ≠ 1 ∧ Scanned c j)) : Scanned (sweepSlot cfg now c i) j := by
  unfold sweepSlot
  generalize hreset : (if i = 1 then { c with next_scan := 0 } else c) = d
  have hd : j = i ∨ Scanned d j := by
    rcases hj with heq | ⟨hne, hscan⟩
    · exact .inl heq
    · rw [← hreset, if_neg hne]
      exact .inr hscan
  dsimp only
  split
  · next hexpires =>
    split
    · rcases hd with rfl | hscan
      · intro hkey
        rw [(delItem_fields cfg j d).1, update_self] at hkey
        nomatch hkey
      · exact (Thins.del cfg i d).scanned hscan
    · next hlater =>
      split
      · next hearlier =>
        rcases hd with rfl | hscan
        · exact fun _ _ => ⟨hexpires, le_rfl⟩
        · intro hkey hne
          have hby := hscan hkey hne
          refine ⟨hexpires, ?_⟩
          -- the scan was scheduled, so it has become earlier
          have hlt := hearlier.resolve_left hby.1
          exact Nat.le_trans (Nat.le_of_lt hlt) hby.2
      · next hnot =>
        rw [not_or, Nat.not_lt] at hnot
        rcases hd with rfl | hscan
        · exact fun _ _ => hnot
        · exact hscan
  · next hzero =>
    rcases hd with rfl | hscan
    · exact fun _ hne => absurd hne hzero
    · exact hscan

/-! ### Runs -/

/-- What holds in all interleavings. -/
structure SweepInv (cfg : CacheConfig) (s : SweptCache) : Prop where
  holds : ∃ order, Holds cfg s.cache order
  slot : ∀ i, s.slot = some i → i ∈ cfg.slots
  scans : ∀ i, s.Passed cfg i → Scanned s.cache i

theorem sweepInv_init (cfg : CacheConfig) : SweepInv cfg ⟨upsgi_cache_init cfg, none⟩ :=
  ⟨⟨[], upsgi_cache_init_holds cfg⟩, nofun, nofun⟩

theorem sweepAt_mem_slots {i j : Nat} (hi : 0 < i) (hslot : sweepAt cfg i = some j) : j ∈ cfg.slots := by
  unfold sweepAt at hslot
  split at hslot
  · next hlt =>
    cases hslot
    exact mem_slots.mpr ⟨hi, hlt⟩
  · cases hslot

/-- The calls of other threads. -/
theorem SweepInv.call {s : SweptCache} (hpurge : cfg.purge_lru = false) (hlazy : cfg.lazy_expire = false)
    (h : SweepInv cfg s) (op : CacheOp) (hop : op.isSweep = false)
    (hok : ScannedAction cfg now s (.call op)) :
    SweepInv cfg { s with cache := cacheStep cfg now s.cache op } := by
  obtain ⟨order, hholds⟩ := h.holds
  obtain ⟨order', hholds', _⟩ := cacheStep_order hholds now op
  refine ⟨⟨order', hholds'⟩, h.slot, ?_⟩
  have hread : ∀ touch key i, s.Passed cfg i → Scanned (cacheHit cfg touch now key s.cache).1 i :=
    fun touch key i hi => (cacheHit_thins hpurge hlazy touch now key s.cache).scanned (h.scans i hi)
  show ∀ i, s.Passed cfg i → Scanned (cacheStep cfg now s.cache op) i
  cases op with
  | set key val expires flags => exact upsgi_cache_set2_scanned hpurge hlazy hholds hok h.scans
  | del key =>
    exact fun i hi => (upsgi_cache_del2_thins hlazy now key s.cache).scanned (h.scans i hi)
  | get2 key | get3 key => exact hread true key
  | get4 key => exact hread false key
  | num2 key =>
    have hnum : (upsgi_cache_num2 cfg now key s.cache).1 = (cacheHit cfg false now key s.cache).1 := by
      unfold upsgi_cache_num2
      dsimp only
      split <;> rfl
    intro i hi
    show Scanned (upsgi_cache_num2 cfg now key s.cache).1 i
    rw [hnum]
    exact hread false key i hi
  | exists2 key =>
    intro i hi
    show Scanned (upsgi_cache_get_index cfg now key s.cache).1 i
    rw [upsgi_cache_get_index_fst hlazy]
    exact h.scans i hi
  | sweep | sweepSlot i => cases hop

/-- The rounds of the sweeper. -/
theorem SweepInv.round {s : SweptCache} (h : SweepInv cfg s) {i : Nat} (hslot : s.slot = some i) :
    SweepInv cfg ⟨sweepSlot cfg now s.cache i, sweepAt cfg (i + 1)⟩ := by
  obtain ⟨order, hholds⟩ := h.holds
  refine ⟨⟨_, (hholds.removes_sweepSlot now i).holds order hholds⟩, fun j hj =>
    sweepAt_mem_slots (Nat.succ_pos i) hj, ?_⟩
  rintro j ⟨hj, hpassed⟩
  apply sweepSlot_scanned
  have hle : j ≤ i := by
    by_cases hlast : i + 1 < cfg.max_items
    · exact Nat.le_of_lt_succ (hpassed (i + 1) (if_pos hlast))
    · have := (mem_slots.mp hj).2
      omega
  by_cases heq : j = i
  · exact .inl heq
  · have hfirst := (mem_slots.mp hj).1
    refine .inr ⟨by omega, h.scans j ⟨hj, fun k hk => ?_⟩⟩
    rw [hslot] at hk
    cases hk
    omega

section

variable {s : SweptCache} (hpurge : cfg.purge_lru = false) (hlazy : cfg.lazy_expire = false)
    (h : SweepInv cfg s)
include hpurge hlazy h

theorem SweepInv.action (a : SweepAction)
    (hok : ScannedAction cfg now s a) : SweepInv cfg (sweepAction cfg now s a) := by
  cases a with
  | call op =>
    unfold sweepAction
    dsimp only
    split
    · exact h
    · next hop => exact h.call hpurge hlazy op (Bool.eq_false_iff.mpr hop) hok
  | check =>
    unfold sweepAction
    dsimp only
    split
    · exact h
    · next hidle =>
      split
      · exact h
      · split
        · exact h
        · -- the sweep has passed nothing yet, so less is asked than before
          refine ⟨h.holds, fun i hi => sweepAt_mem_slots Nat.one_pos hi, fun i hi => h.scans i ⟨hi.1, ?_⟩⟩
          intro j hj
          exact absurd (hj ▸ Option.some_ne_none j) hidle
  | round =>
    unfold sweepAction
    dsimp only
    split
    · exact h
    · next i hslot => exact h.round hslot

theorem SweepInv.run (run : List (Nat × SweepAction)) (hok : ScannedRun cfg s run) :
    SweepInv cfg (sweepRun cfg s run) := by
  induction run generalizing s with
  | nil => exact h
  | cons step run ih => exact ih (h.action hpurge hlazy step.2 hok.1) hok.2

end

end Scans

/-- In a cache without LRU purge and lazy expiry, after any interleaving of the
    sweeper with the others whose sets meet the condition: when no sweep is in
    progress and an item expires, a scan is scheduled, and not later than any
    item expires. -/
theorem cache_scan_of_run (cfg : CacheConfig) (hpurge : cfg.purge_lru = false)
    (hlazy : cfg.lazy_expire = false) (run : List (Nat × SweepAction))
    (hok : ScannedRun cfg ⟨upsgi_cache_init cfg, none⟩ run)
    (hidle : (sweepRun cfg ⟨upsgi_cache_init cfg, none⟩ run).slot = none)
    (hlive : ∃ i, (sweepRun cfg ⟨upsgi_cache_init cfg, none⟩ run).cache.key i ≠ [] ∧
      (sweepRun cfg ⟨upsgi_cache_init cfg, none⟩ run).cache.expires i ≠ 0) :
    (sweepRun cfg ⟨upsgi_cache_init cfg, none⟩ run).cache.next_scan ≠ 0 ∧
      ∀ i, (sweepRun cfg ⟨upsgi_cache_init cfg, none⟩ run).cache.key i ≠ [] →
        (sweepRun cfg ⟨upsgi_cache_init cfg, none⟩ run).cache.expires i ≠ 0 →
          (sweepRun cfg ⟨upsgi_cache_init cfg, none⟩ run).cache.next_scan ≤
            (sweepRun cfg ⟨upsgi_cache_init cfg, none⟩ run).cache.expires i := by
  have hinv := (sweepInv_init cfg).run hpurge hlazy run hok
  generalize sweepRun cfg ⟨upsgi_cache_init cfg, none⟩ run = s at hinv hidle hlive ⊢
  obtain ⟨order, hholds⟩ := hinv.holds
  have hscan : ∀ i, s.cache.key i ≠ [] → s.cache.expires i ≠ 0 →
      ScanBy s.cache.next_scan (s.cache.expires i) := by
    intro i hkey
    refine hinv.scans i ⟨mem_slots.mpr (hholds.keys.slot i hkey), fun j hj => ?_⟩ hkey
    rw [hidle] at hj
    cases hj
  obtain ⟨i, hkey, hne⟩ := hlive
  exact ⟨(hscan i hkey hne).1, fun j hkey hne => (hscan j hkey hne).2⟩

/-- A cache of two items that is cleaned up when it is full. -/
def scanCache : CacheConfig :=
  { lruCache with use_blocks_bitmap := false, purge_lru := false, sweep_on_full := 60 }

/-- A key is set while the sweeper removes another one. -/
def scanRun : List (Nat × SweepAction) :=
  [(1000, .call (.set [1] [7] 5 {})), (1006, .check), (1006, .round), (1007, .call (.set [2] [8] 10 {})),
    (1007, .round)]

/-- The scan is the one for the new key. -/
theorem cache_scan_of_run_between :
    (sweepRun scanCache ⟨upsgi_cache_init scanCache, none⟩ scanRun).slot = none ∧
      (sweepRun scanCache ⟨upsgi_cache_init scanCache, none⟩ scanRun).cache.next_scan ≠ 0 := by
  have hidle : (sweepRun scanCache ⟨upsgi_cache_init scanCache, none⟩ scanRun).slot = none := by
    decide +kernel
  -- both sets are relative and find an item that is not in use
  have hset : ∀ (now : Nat) (s : SweptCache) (key val : Bytes) (expires : Nat), s.cache.unused ≠ [] →
      expires + now < 2 ^ 64 → ScannedSet scanCache now s key val expires {} := by
    intro now s key val expires hunused hlt
    have hroom : ¬ FindsFull scanCache s.cache key val {} := by
      rintro (⟨_, hempty⟩ | ⟨_, huse, _⟩)
      · exact hunused hempty
      · cases huse
    exact ⟨fun _ _ _ => hlt, nofun, fun hfull => absurd hfull hroom,
      fun hfull => absurd hfull hroom⟩
  have hok : ScannedRun scanCache ⟨upsgi_cache_init scanCache, none⟩ scanRun := by
    refine ⟨fun _ => hset _ _ _ _ _ ?_ (by decide), trivial, trivial,
      fun _ => hset _ _ _ _ _ ?_ (by decide), trivial, trivial⟩
    · decide +kernel
    · decide +kernel
  refine ⟨hidle, (cache_scan_of_run scanCache rfl rfl scanRun hok hidle ?_).1⟩
  have hlive : ∃ i ∈ scanCache.slots,
      (sweepRun scanCache ⟨upsgi_cache_init scanCache, none⟩ scanRun).cache.key i ≠ [] ∧
        (sweepRun scanCache ⟨upsgi_cache_init scanCache, none⟩ scanRun).cache.expires i ≠ 0 := by
    decide +kernel
  obtain ⟨i, _, hlive⟩ := hlive
  exact ⟨i, hlive⟩

/-- No scan is scheduled for an absolute expiry; and a clean-up schedules one that
    is later than an item expires. -/
theorem cache_scan_missing :
    (∃ i ∈ scanCache.slots,
      (sweepRun scanCache ⟨upsgi_cache_init scanCache, none⟩
          [(1000, .call (.set [1] [7] 1010 { absexpire := true }))]).cache.key i ≠ [] ∧
        (sweepRun scanCache ⟨upsgi_cache_init scanCache, none⟩
          [(1000, .call (.set [1] [7] 1010 { absexpire := true }))]).cache.expires i = 1010 ∧
        (sweepRun scanCache ⟨upsgi_cache_init scanCache, none⟩
          [(1000, .call (.set [1] [7] 1010 { absexpire := true }))]).cache.next_scan = 0) ∧
      ∃ i ∈ scanCache.slots,
        (sweepRun scanCache ⟨upsgi_cache_init scanCache, none⟩
            [(1000, .call (.set [1] [7] 5 {})), (1000, .call (.set [2] [8] 10 {})),
              (1006, .call (.set [3] [9] 0 {}))]).cache.key i = [2] ∧
          (sweepRun scanCache ⟨upsgi_cache_init scanCache, none⟩
            [(1000, .call (.set [1] [7] 5 {})), (1000, .call (.set [2] [8] 10 {})),
              (1006, .call (.set [3] [9] 0 {}))]).cache.expires i = 1010 ∧
          (sweepRun scanCache ⟨upsgi_cache_init scanCache, none⟩
            [(1000, .call (.set [1] [7] 5 {})), (1000, .call (.set [2] [8] 10 {})),
              (1006, .call (.set [3] [9] 0 {}))]).cache.next_scan = 1066 := by
  decide +kernel

end Upsgi
