import Upsgi.Cache.Lru

/-! # The time to live of cached items

    An item that is stored with a relative expiry has a deadline.  With lazy
    expiry it is read before the deadline and not from then on.  That needs the
    deadline to be stored as such, and it is not with LRU purge (the relative
    expiry is stored), with the flag `fixexpire` (the old expiry stays), and when
    an update fails for lack of blocks (the expiry has changed already).
-/

namespace Upsgi

open Framing (Bytes)

/-! ### Deadlines -/

/-- What is noted down about a key: the deadline of its last `set`, if that had a
    relative expiry, and whether the key was deleted or evicted since. -/
structure Lease where
  deadline : Option Nat
  gone : Bool
  deriving DecidableEq, Repr

/-- The deadline of an operation at the time `now`. -/
def deadlineOf (now : Nat) : CacheOp → Option Nat
  | .set _ _ expires flags =>
      if expires ≠ 0 ∧ flags.absexpire = false then some (now + expires) else none
  | _ => none

def leaseNote (cfg : CacheConfig) (now : Nat) (c : CacheState) (op : CacheOp)
    (leases : Bytes → Lease) : Bytes → Lease :=
  fun k =>
    if SetsKey cfg now c k op then ⟨deadlineOf now op, false⟩
    else if op = .del k ∨ Evicted cfg now c k op then { leases k with gone := true }
    else leases k

/-- The leases that a run leaves. -/
def cacheLeases (cfg : CacheConfig) (run : List (Nat × CacheOp)) : Bytes → Lease :=
  notedRun cfg (leaseNote cfg) (upsgi_cache_init cfg) (fun _ => ⟨none, false⟩) run

/-- A `set` whose expiry can be kept: it inserts no `ungettable` item, its
    deadline is a number of 64 bits, it does not keep an old expiry, and it has
    blocks. -/
def TimedSet (cfg : CacheConfig) (now : Nat) (c : CacheState) : CacheOp → Prop
  | .set key val expires flags =>
      (flags.ungettable = true → Seen cfg now c key) ∧
        (∀ d ∈ deadlineOf now (.set key val expires flags),
          d < 2 ^ 64 ∧ (Seen cfg now c key → flags.fixexpire = false)) ∧
        FittingUpdate cfg now c (.set key val expires flags)
  | _ => True

/-! ### One step -/

/-- The lease of a key fits what is found for it at the time `now`. -/
structure KeyLeased (now : Nat) (lease : Lease) (found : Option CacheItem) : Prop where
  gettable : ∀ it ∈ found, it.flags.ungettable = false
  nonzero : ∀ d ∈ lease.deadline, d ≠ 0
  expires : ∀ d ∈ lease.deadline, ∀ it ∈ found, it.expires = d
  there : ∀ d ∈ lease.deadline, lease.gone = false → found ≠ none ∨ d ≤ now

structure Leased (cfg : CacheConfig) (now : Nat) (c : CacheState) (leases : Bytes → Lease) : Prop where
  holds : ∃ order, Holds cfg c order
  keys : ∀ k, KeyLeased now (leases k) (c.find cfg k)

variable {k : Bytes}

section Leases

variable {cfg : CacheConfig} {c : CacheState} {leases : Bytes → Lease} {past now : Nat} {op : CacheOp}

/-- Without LRU purge a relative expiry becomes the deadline. -/
theorem cachedExpiry_deadline (hpurge : cfg.purge_lru = false) {key val : Bytes} {expires d : Nat}
    {flags : CacheFlags} (hd : d ∈ deadlineOf now (.set key val expires flags)) (hlt : d < 2 ^ 64) :
    cachedExpiry cfg now expires flags = d := by
  unfold deadlineOf at hd
  dsimp only at hd
  unfold cachedExpiry
  rw [if_neg (by rw [hpurge]; decide)]
  split at hd
  · next hrelative =>
    cases hd
    rw [if_pos hrelative, Nat.add_comm expires now, Nat.mod_eq_of_lt hlt]
  · cases hd

theorem deadlineOf_ne_zero {d : Nat} (hd : d ∈ deadlineOf now op) : d ≠ 0 := by
  unfold deadlineOf at hd
  split at hd
  · split at hd
    · next hrelative =>
      cases hd
      omega
    · cases hd
  · cases hd

/-- A lease that is not renewed keeps its deadline. -/
theorem leaseNote_deadline (hset : ¬ SetsKey cfg now c k op) :
    (leaseNote cfg now c op leases k).deadline = (leases k).deadline := by
  unfold leaseNote
  rw [if_neg hset]
  split <;> rfl

theorem leaseNote_gone (hset : ¬ SetsKey cfg now c k op)
    (hgone : (leaseNote cfg now c op leases k).gone = false) :
    (leases k).gone = false ∧ ¬ (op = .del k ∨ Evicted cfg now c k op) := by
  unfold leaseNote at hgone
  rw [if_neg hset] at hgone
  split at hgone
  · cases hgone
  · next hnot => exact ⟨hgone, hnot⟩

theorem leaseNote_set (hset : SetsKey cfg now c k op) :
    leaseNote cfg now c op leases k = ⟨deadlineOf now op, false⟩ := by
  unfold leaseNote
  rw [if_pos hset]

section

variable (hpurge : cfg.purge_lru = false) (h : Leased cfg past c leases) (hle : past ≤ now)
    (htimed : TimedSet cfg now c op)
include hpurge h hle htimed

theorem Leased.step_key {found : Option CacheItem} (hcase : KeyCase cfg now c k op found) :
    KeyLeased now (leaseNote cfg now c op leases k) found := by
  cases hcase with
  | same hset hevict hdel =>
    refine ⟨(h.keys k).gettable, ?_, ?_, ?_⟩
    · rw [leaseNote_deadline hset]
      exact (h.keys k).nonzero
    · rw [leaseNote_deadline hset]
      exact (h.keys k).expires
    · rw [leaseNote_deadline hset]
      intro d hd hgone
      exact ((h.keys k).there d hd (leaseNote_gone hset hgone).1).imp_right fun hdle => Nat.le_trans hdle hle
  | refreshed it val expires flags hop hok hset hevict hfind hfresh hflag huse hnone =>
    -- only with the old expiry, as every other update has blocks
    have hfix : flags.fixexpire = true := by
      by_contra hfix
      rw [hop] at htimed
      obtain ⟨order, hholds⟩ := h.holds
      exact hholds.findBlocks_of_fits hok.val_pos
        (htimed.2.2 huse hflag (Bool.eq_false_iff.mpr hfix) ⟨it, hfind, hfresh⟩) hnone
    refine ⟨?_, ?_, ?_, fun _ _ _ => .inl (Option.some_ne_none _)⟩
    · rintro _ ⟨⟩
      exact (h.keys k).gettable it hfind
    · rw [leaseNote_deadline hset]
      exact (h.keys k).nonzero
    · rw [leaseNote_deadline hset]
      rintro d hd _ ⟨⟩
      show refreshedExpiry cfg now expires flags it = d
      unfold refreshedExpiry
      rw [if_pos hfix]
      exact (h.keys k).expires d hd it hfind
  | removed hset hwhy =>
    refine ⟨nofun, ?_, nofun, ?_⟩
    · rw [leaseNote_deadline hset]
      exact (h.keys k).nonzero
    · rw [leaseNote_deadline hset]
      intro d hd hgone
      obtain ⟨_, hnot⟩ := leaseNote_gone hset hgone
      rw [not_or] at hnot
      -- what is left is that the time is over
      rcases hwhy with hop | hevicted | ⟨it, hfind, hdue⟩
      · exact absurd hop hnot.1
      · exact absurd hevicted hnot.2
      · rw [← (h.keys k).expires d hd it hfind]
        exact .inr hdue.2
  | stored val expires flags hop hset hmiss =>
    rw [leaseNote_set hset]
    rw [hop] at htimed
    have hnot : ¬ Seen cfg now c k := fun ⟨it, hfind, hfresh⟩ => hmiss it hfind hfresh
    refine ⟨?_, fun d hd => deadlineOf_ne_zero hd, ?_, fun _ _ _ => .inl (Option.some_ne_none _)⟩
    · rintro _ ⟨⟩
      exact Bool.eq_false_iff.mpr fun htrue => hnot (htimed.1 htrue)
    · rintro d hd _ ⟨⟩
      have hd : d ∈ deadlineOf now (.set k val expires flags) := hop ▸ hd
      exact cachedExpiry_deadline hpurge hd (htimed.2.1 d hd).1
  | updated it val expires flags num hop hset hfind hfresh hflag _ =>
    rw [leaseNote_set hset]
    rw [hop] at htimed
    refine ⟨?_, fun d hd => deadlineOf_ne_zero hd, ?_, fun _ _ _ => .inl (Option.some_ne_none _)⟩
    · rintro _ ⟨⟩
      exact (h.keys k).gettable it hfind
    · rintro d hd _ ⟨⟩
      have hd : d ∈ deadlineOf now (.set k val expires flags) := hop ▸ hd
      obtain ⟨hlt, hfix⟩ := htimed.2.1 d hd
      show refreshedExpiry cfg now expires flags it = d
      unfold refreshedExpiry
      rw [hfix ⟨it, hfind, hfresh⟩]
      exact cachedExpiry_deadline hpurge hd hlt

theorem Leased.step :
    Leased cfg now (cacheStep cfg now c op) (leaseNote cfg now c op leases) := by
  obtain ⟨order, hholds⟩ := h.holds
  obtain ⟨order', hholds', _⟩ := cacheStep_order hholds now op
  have hkey := fun k => h.step_key hpurge hle htimed (cacheStep_key hholds now k op)
  exact ⟨⟨order', hholds'⟩, hkey⟩

end

/-! ### Runs -/

theorem leased_init (cfg : CacheConfig) :
    Leased cfg 0 (upsgi_cache_init cfg) fun _ => ⟨none, false⟩ := by
  have hnone : ∀ k, (upsgi_cache_init cfg).find cfg k = none :=
    fun k => find_eq_none nofun
  refine ⟨⟨[], upsgi_cache_init_holds cfg⟩, fun k => ?_⟩
  rw [hnone]
  exact ⟨nofun, nofun, nofun,
    nofun⟩

/-- Time may pass. -/
theorem Leased.later (h : Leased cfg past c leases) (hle : past ≤ now) : Leased cfg now c leases :=
  ⟨h.holds, fun k => ⟨(h.keys k).gettable, (h.keys k).nonzero, (h.keys k).expires,
    fun d hd hgone => ((h.keys k).there d hd hgone).imp_right fun hdle => Nat.le_trans hdle hle⟩⟩

/-- Operations at times that do not decrease, up to `now`. -/
theorem Leased.run (hpurge : cfg.purge_lru = false) (h : Leased cfg past c leases)
    (run : List (Nat × CacheOp)) (htimed : EachStep cfg (TimedSet cfg) c run)
    (htimes : (past :: (run.map Prod.fst ++ [now])).Pairwise (· ≤ ·)) :
    Leased cfg now (cacheRun cfg c run) (notedRun cfg (leaseNote cfg) c leases run) := by
  induction run generalizing c leases past with
  | nil => exact h.later (List.rel_of_pairwise_cons htimes List.mem_cons_self)
  | cons step run ih =>
    obtain ⟨hfirst, hrest⟩ := List.pairwise_cons.mp htimes
    exact ih (h.step hpurge (hfirst step.1 List.mem_cons_self) htimed.1) htimed.2 hrest

/-- A read of a leased key succeeds exactly before its deadline. -/
theorem Leased.hit (hlazy : cfg.lazy_expire = true) (h : Leased cfg now c leases) {touch : Bool}
    {d : Nat} (hd : d ∈ (leases k).deadline) {result : CacheState × Option Nat}
    (hhit : Hit cfg touch now k c result) :
    (d ≤ now → result.2 = none) ∧ (now < d → (leases k).gone = false → result.2 ≠ none) := by
  -- a found item with the deadline has expired when that is over
  have hexpired : ∀ it ∈ c.find cfg k, d ≤ now → ¬ Fresh cfg now it := by
    intro it hfind hle
    have hexpires := (h.keys k).expires d hd it hfind
    have hnonzero := (h.keys k).nonzero d hd
    exact not_not_intro ⟨hlazy, by rw [hexpires]; exact hnonzero, by rw [hexpires]; exact hle⟩
  cases hhit with
  | missed e hmiss =>
    refine ⟨fun _ => rfl, fun hlt hgone => ?_⟩
    rcases (h.keys k).there d hd hgone with hsome | hle
    · obtain ⟨it, hfind⟩ := Option.ne_none_iff_exists'.mp hsome
      have hdue := not_fresh_due (hmiss.removes.lost k it hfind hmiss.absent).2
      have hle := hdue.2
      rw [(h.keys k).expires d hd it hfind] at hle
      exact absurd hle (Nat.not_le_of_lt hlt)
    · exact absurd hle (Nat.not_le_of_lt hlt)
  | ungettable it hfind _ hflag =>
    rw [(h.keys k).gettable it hfind] at hflag
    cases hflag
  | hit i e hfind hfresh _ _ _ =>
    exact ⟨fun hle => absurd hfresh (hexpired _ hfind hle), fun _ _ => Option.some_ne_none i⟩

end Leases

/-- In a cache with lazy expiry and without LRU purge, after operations at times
    that do not decrease, a key is read before its deadline unless it was deleted
    or evicted, and is not read from the deadline on. -/
theorem cache_deadline_of_run (cfg : CacheConfig) (hlazy : cfg.lazy_expire = true)
    (hpurge : cfg.purge_lru = false) (run : List (Nat × CacheOp)) (now : Nat)
    (htimes : (run.map Prod.fst ++ [now]).Pairwise (· ≤ ·))
    (htimed : EachStep cfg (TimedSet cfg) (upsgi_cache_init cfg) run) (k : Bytes) (d : Nat)
    (hd : (cacheLeases cfg run k).deadline = some d) :
    (d ≤ now →
      (upsgi_cache_get2 cfg now k (cacheRun cfg (upsgi_cache_init cfg) run)).2 = none ∧
        (upsgi_cache_get3 cfg now k (cacheRun cfg (upsgi_cache_init cfg) run)).2 = none ∧
        (upsgi_cache_get4 cfg now k (cacheRun cfg (upsgi_cache_init cfg) run)).2 = none) ∧
      (now < d → (cacheLeases cfg run k).gone = false →
        (upsgi_cache_get2 cfg now k (cacheRun cfg (upsgi_cache_init cfg) run)).2 ≠ none ∧
          (upsgi_cache_get3 cfg now k (cacheRun cfg (upsgi_cache_init cfg) run)).2 ≠ none ∧
          (upsgi_cache_get4 cfg now k (cacheRun cfg (upsgi_cache_init cfg) run)).2 ≠ none) := by
  have hleased : Leased cfg now (cacheRun cfg (upsgi_cache_init cfg) run) (cacheLeases cfg run) :=
    (leased_init cfg).run hpurge run htimed (List.pairwise_cons.mpr ⟨fun _ _ => Nat.zero_le _, htimes⟩)
  generalize cacheRun cfg (upsgi_cache_init cfg) run = c at hleased ⊢
  obtain ⟨order, hholds⟩ := hleased.holds
  have hread := fun touch => hleased.hit hlazy hd (cacheHit_hit hholds touch now k)
  -- a get returns something when its item is hit
  have hget2 : (upsgi_cache_get2 cfg now k c).2 = none ↔ (cacheHit cfg true now k c).2 = none :=
    Option.map_eq_none_iff
  have hget3 : (upsgi_cache_get3 cfg now k c).2 = none ↔ (cacheHit cfg true now k c).2 = none :=
    Option.map_eq_none_iff
  have hget4 : (upsgi_cache_get4 cfg now k c).2 = none ↔ (cacheHit cfg false now k c).2 = none :=
    Option.map_eq_none_iff
  rw [ne_eq, ne_eq, ne_eq, hget2, hget3, hget4]
  refine ⟨fun hle => ?_, fun hlt hgone => ?_⟩
  · exact ⟨(hread true).1 hle, (hread true).1 hle, (hread false).1 hle⟩
  · exact ⟨(hread true).2 hlt hgone, (hread true).2 hlt hgone, (hread false).2 hlt hgone⟩

/-- A cache with lazy expiry. -/
def lazyCache (purge_lru : Bool) : CacheConfig :=
  { lruCache with use_blocks_bitmap := false, purge_lru, lazy_expire := true }

/-- A key with 60 seconds to live. -/
def lazyRun : List (Nat × CacheOp) := [(1000, .set [1] [7] 60 {})]

/-- The key is read after 59 seconds and not after 60. -/
theorem cache_deadline_of_run_minute :
    (cacheLeases (lazyCache false) lazyRun [1]).deadline = some 1060 ∧
      (upsgi_cache_get2 (lazyCache false) 1059 [1]
        (cacheRun (lazyCache false) (upsgi_cache_init (lazyCache false)) lazyRun)).2 ≠ none ∧
      (upsgi_cache_get2 (lazyCache false) 1060 [1]
        (cacheRun (lazyCache false) (upsgi_cache_init (lazyCache false)) lazyRun)).2 = none := by
  have hd : (cacheLeases (lazyCache false) lazyRun [1]).deadline = some 1060 := by decide +kernel
  have hgone : (cacheLeases (lazyCache false) lazyRun [1]).gone = false := by decide +kernel
  have htimed : EachStep (lazyCache false) (TimedSet (lazyCache false))
      (upsgi_cache_init (lazyCache false)) lazyRun := by
    refine ⟨⟨nofun, ?_, nofun⟩, trivial⟩
    rintro _ ⟨⟩
    exact ⟨by decide, fun _ => rfl⟩
  refine ⟨hd, ?_, ?_⟩
  · exact ((cache_deadline_of_run (lazyCache false) rfl rfl lazyRun 1059 (by decide) htimed [1] 1060 hd).2
      (by decide) hgone).1
  · exact ((cache_deadline_of_run (lazyCache false) rfl rfl lazyRun 1060 (by decide) htimed [1] 1060 hd).1
      (by decide)).1

/-- With LRU purge the key is never read: its expiry is the time 60. -/
theorem cache_deadline_lru :
    (cacheLeases (lazyCache true) lazyRun [1]) = ⟨some 1060, false⟩ ∧
      (upsgi_cache_get2 (lazyCache true) 1000 [1]
        (cacheRun (lazyCache true) (upsgi_cache_init (lazyCache true)) lazyRun)).2 = none := by
  decide +kernel

end Upsgi
