import Upsgi.Cache.Steps

/-! # Runs of a cache

    What an operation does to one key.  `KeyCase` has all the cases; what a run
    does to a key follows from them by induction.
-/

namespace Upsgi

open Framing (Bytes)
open List Function

/-! ### The beginning -/

/-- The bits of the bitmap are at first those of the padding. -/
theorem blockUsed_init (cfg : CacheConfig) {block : Nat} (hblock : block < cfg.blocks_bitmap_size * 8) :
    blockUsed (upsgi_cache_init cfg).blocks_bitmap block = true ↔ cfg.blocks ≤ block := by
  have hbit : block % 8 < 8 := Nat.mod_lt _ (by decide)
  have hpad : cfg.blocks % 8 < 8 := Nat.mod_lt _ (by decide)
  have hzero : usedBit 0 (block % 8) = false := edgeWrite_unmark.fill _ hbit
  unfold CacheConfig.blocks_bitmap_size at hblock
  unfold blockUsed upsgi_cache_init CacheConfig.blocks_bitmap_size
  dsimp only
  by_cases hm : 0 < cfg.blocks % 8
  · rw [if_pos hm] at hblock
    rw [if_pos hm, if_pos hm, Nat.add_sub_cancel]
    by_cases hlast : block / 8 = cfg.blocks / 8
    · -- the last byte has the padding behind its blocks
      have hmask : usedBit (firstMask false (cfg.blocks % 8) 0) (block % 8) =
          decide (cfg.blocks % 8 ≤ block % 8) := usedBit_firstMask hpad hbit
      rw [hlast, update_self]
      rw [show firstMask false (cfg.blocks % 8) 0 = 0xff >>> UInt8.ofNat (cfg.blocks % 8) from rfl] at hmask
      rw [hmask, decide_eq_true_eq]
      omega
    · rw [update_of_ne hlast, hzero]
      exact iff_of_false Bool.false_ne_true (by omega)
  · rw [if_neg hm] at hblock
    rw [if_neg hm, hzero]
    exact iff_of_false Bool.false_ne_true (by omega)

theorem upsgi_cache_init_holds (cfg : CacheConfig) : Holds cfg (upsgi_cache_init cfg) [] := by
  have hfree : ∀ i, ¬ (upsgi_cache_init cfg).key i ≠ [] := fun _ h => h rfl
  have hblocks : 0 < cfg.blocks := by
    have := cfg.max_items_pos
    have := cfg.items_le_blocks
    omega
  refine ⟨[], ⟨⟨?_, ?_, ?_⟩, ⟨fun _ => [], ?_⟩, ⟨?_, ?_, ?_⟩, ?_, fun _ => ?_, fun _ i => ?_⟩,
    fun _ => rfl⟩
  · exact fun i h => absurd h (hfree i)
  · exact fun i h => absurd h (hfree i)
  · exact fun i _ h => absurd h (hfree i)
  · exact ⟨fun _ => trivial, fun _ => rfl, fun _ => nodup_nil,
      fun _ i => iff_of_false not_mem_nil fun hand => hfree i hand.1⟩
  · exact nodup_reverse.mpr (nodup_slots cfg)
  · intro i
    show i ∈ cfg.slots.reverse ↔ _
    rw [mem_reverse, mem_slots]
    exact (and_iff_left rfl).symm
  · show 0 + cfg.slots.reverse.length + 1 = cfg.max_items
    have := cfg.max_items_pos
    rw [length_reverse, CacheConfig.slots, length_range']
    omega
  · refine ⟨?_, ?_, ?_, ?_, ?_, hblocks⟩
    · exact fun i h => absurd h (hfree i)
    · exact fun i h => absurd h (hfree i)
    · exact fun i _ _ h => absurd h (hfree i)
    · exact fun _ i h => absurd h (hfree i)
    · intro _ block hblock
      rw [blockUsed_init cfg hblock]
      exact (or_iff_left fun ⟨i, hi, _⟩ => hfree i hi).symm
  · exact ⟨trivial, rfl, rfl, nodup_nil⟩
  · exact iff_of_false not_mem_nil (hfree i)

/-! ### One key in one step -/

/-- The key is there, and a lookup does not remove it. -/
def Seen (cfg : CacheConfig) (now : Nat) (c : CacheState) (k : Bytes) : Prop :=
  ∃ it ∈ c.find cfg k, Fresh cfg now it

instance (cfg : CacheConfig) (now : Nat) (c : CacheState) (k : Bytes) : Decidable (Seen cfg now c k) :=
  inferInstanceAs (Decidable (∃ it ∈ c.find cfg k, Fresh cfg now it))

/-- The operation is a `set` of the key that succeeds. -/
def SetsKey (cfg : CacheConfig) (now : Nat) (c : CacheState) (k : Bytes) : CacheOp → Prop
  | .set key val expires flags =>
      key = k ∧ (upsgi_cache_set2 cfg now key val expires flags c).2 = 0
  | _ => False

/-- A call of `cache_full` in the operation removes the key. -/
def Evicted (cfg : CacheConfig) (now : Nat) (c : CacheState) (k : Bytes) (op : CacheOp) : Prop :=
  ∃ e ∈ fullCalls cfg now c op, e.find cfg k ≠ none ∧ (cache_full cfg now e).find cfg k = none

instance (cfg : CacheConfig) (now : Nat) (c : CacheState) (k : Bytes) (op : CacheOp) :
    Decidable (SetsKey cfg now c k op) :=
  match op with
  | .set key val expires flags =>
      inferInstanceAs (Decidable (key = k ∧ (upsgi_cache_set2 cfg now key val expires flags c).2 = 0))
  | .del _ | .get2 _ | .get3 _ | .get4 _ | .num2 _ | .exists2 _ | .sweep | .sweepSlot _ => isFalse id

instance (cfg : CacheConfig) (now : Nat) (c : CacheState) (k : Bytes) (op : CacheOp) :
    Decidable (Evicted cfg now c k op) :=
  inferInstanceAs (Decidable (∃ e ∈ fullCalls cfg now c op,
    e.find cfg k ≠ none ∧ (cache_full cfg now e).find cfg k = none))

/-- All that can happen to a key in an operation; the index is what is found
    after it. -/
inductive KeyCase (cfg : CacheConfig) (now : Nat) (c : CacheState) (k : Bytes) (op : CacheOp) :
    Option CacheItem → Prop
  | same (hset : ¬ SetsKey cfg now c k op) (hevict : ¬ Evicted cfg now c k op)
      (hdel : op = .del k → c.find cfg k = none) : KeyCase cfg now c k op (c.find cfg k)
  /-- An update without blocks. -/
  | refreshed (it : CacheItem) (val : Bytes) (expires : Nat) (flags : CacheFlags)
      (hop : op = .set k val expires flags) (hok : Acceptable cfg k val flags)
      (hset : ¬ SetsKey cfg now c k op) (hevict : ¬ Evicted cfg now c k op)
      (hfind : c.find cfg k = some it) (hfresh : Fresh cfg now it) (hflag : flags.update = true)
      (huse : cfg.use_blocks_bitmap = true)
      (hnone : findBlocks cfg val.length c = none) :
      KeyCase cfg now c k op (some { it with expires := refreshedExpiry cfg now expires flags it })
  | removed (hset : ¬ SetsKey cfg now c k op)
      (hwhy : op = .del k ∨ Evicted cfg now c k op ∨ ∃ it, c.find cfg k = some it ∧ it.Due now) :
      KeyCase cfg now c k op none
  | stored (val : Bytes) (expires : Nat) (flags : CacheFlags) (hop : op = .set k val expires flags)
      (hset : SetsKey cfg now c k op) (hmiss : ∀ it, c.find cfg k = some it → ¬ Fresh cfg now it) :
      KeyCase cfg now c k op
        (some ⟨cachedValue cfg.math_initial val flags, flags, cachedExpiry cfg now expires flags⟩)
  | updated (it : CacheItem) (val : Bytes) (expires : Nat) (flags : CacheFlags) (num : Int64)
      (hop : op = .set k val expires flags) (hset : SetsKey cfg now c k op)
      (hfind : c.find cfg k = some it) (hfresh : Fresh cfg now it) (hflag : flags.update = true)
      (hnum : cfg.use_blocks_bitmap = false → 8 ≤ it.value.length → num = int64 (it.value.take 8)) :
      KeyCase cfg now c k op
        (some ⟨cachedValue num val flags, it.flags, refreshedExpiry cfg now expires flags it⟩)

variable {result : CacheState × Option Nat} {calls : List CacheState} {y : Option CacheItem}

section Keys

variable {cfg : CacheConfig} {now : Nat} {c d : CacheState} {k : Bytes} {op : CacheOp}
  {order : List Bytes}

/-- An operation that only removes, and that for the time or because it is told
    to. -/
theorem Removes.keyCase {P : Bytes → CacheItem → Prop} (h : Removes cfg P c d)
    (hP : ∀ it, P k it → op = .del k ∨ it.Due now) (hset : ¬ SetsKey cfg now c k op)
    (hcalls : fullCalls cfg now c op = []) (hdel : op = .del k → d.find cfg k = none) :
    KeyCase cfg now c k op (d.find cfg k) := by
  have hevict : ¬ Evicted cfg now c k op := by
    unfold Evicted
    rw [hcalls]
    exact fun ⟨_, hmem, _⟩ => not_mem_nil hmem
  cases hfind : c.find cfg k with
  | none =>
    have hsame : d.find cfg k = c.find cfg k := (h.kept k).elim (fun hnone => hnone.trans hfind.symm) id
    rw [hsame]
    exact .same hset hevict fun _ => hfind
  | some it =>
    rcases h.kept k with hnone | hsame
    · rw [hnone]
      refine .removed hset ?_
      rcases hP it (h.lost k it hfind hnone) with hop | hdue
      · exact .inl hop
      · exact .inr (.inr ⟨it, hfind, hdue⟩)
    · rw [hsame]
      exact .same hset hevict fun hop => hsame.symm.trans (hdel hop)

theorem not_fresh_due {it : CacheItem} (h : ¬ Fresh cfg now it) : it.Due now :=
  (not_not.mp h).2

/-- A lookup that finds nothing. -/
theorem Missed.removes_due {key : Bytes} (h : Missed cfg now key c d) :
    Removes cfg (fun k it => op = .del k ∨ it.Due now) c d :=
  h.removes.mono fun _ _ hP => .inr (not_fresh_due hP.2)

/-- A read. -/
theorem Hit.keyCase {touch : Bool} {key : Bytes} (h : Hit cfg touch now key c result)
    (hset : ¬ SetsKey cfg now c k op) (hcalls : fullCalls cfg now c op = []) (hdel : op ≠ .del k) :
    KeyCase cfg now c k op (result.1.find cfg k) := by
  cases h with
  | missed d hmiss =>
    exact hmiss.removes_due.keyCase (fun _ => id) hset hcalls fun hop => absurd hop hdel
  | ungettable it _ _ _ =>
    exact (Removes.refl (P := fun _ _ => False)).keyCase (fun _ hfalse => hfalse.elim) hset hcalls
      fun hop => absurd hop hdel
  | hit i d _ _ _ hsame hholds =>
    show KeyCase cfg now c k op (d.find cfg k)
    rw [hsame]
    exact (Removes.refl (P := fun _ _ => False)).keyCase (fun _ hfalse => hfalse.elim) hset hcalls
      fun hop => absurd hop hdel

/-- What becomes of a key in calls of `cache_full`, from the item `x` to `y`: it
    stays, or one of them removes it. -/
def Traced (cfg : CacheConfig) (now : Nat) (k : Bytes) (calls : List CacheState)
    (x y : Option CacheItem) : Prop :=
  (y = x ∧ ∀ e ∈ calls, ¬ (e.find cfg k ≠ none ∧ (cache_full cfg now e).find cfg k = none)) ∨
    (y = none ∧ ∃ e ∈ calls, e.find cfg k ≠ none ∧ (cache_full cfg now e).find cfg k = none)

theorem Traced.nil (x : Option CacheItem) : Traced cfg now k [] x x :=
  .inl ⟨rfl, nofun⟩

theorem Traced.call (h : Holds cfg c order) :
    Traced cfg now k [c] (c.find cfg k) ((cache_full cfg now c).find cfg k) := by
  by_cases hlost : c.find cfg k ≠ none ∧ (cache_full cfg now c).find cfg k = none
  · exact .inr ⟨hlost.2, c, mem_singleton_self c, hlost⟩
  · refine .inl ⟨?_, ?_⟩
    · rcases (h.removes_full now).kept k with hnone | hsame
      · rw [hnone]
        by_contra hne
        exact hlost ⟨fun heq => hne heq.symm, hnone⟩
      · exact hsame
    · intro e he
      rw [mem_singleton.mp he]
      exact hlost

/-- A key that is not there is not removed. -/
theorem Traced.of_none (h : Traced cfg now k calls none y) : y = none :=
  h.elim (fun hsame => hsame.1) (fun hlost => hlost.1)

theorem Traced.append {calls' : List CacheState} {x z : Option CacheItem}
    (h : Traced cfg now k calls x y) (h' : Traced cfg now k calls' y z) :
    Traced cfg now k (calls ++ calls') x z := by
  rcases h with ⟨rfl, hkept⟩ | ⟨rfl, e, he, hlost⟩
  · rcases h' with ⟨rfl, hkept'⟩ | ⟨rfl, e, he, hlost⟩
    · refine .inl ⟨rfl, ?_⟩
      intro e he
      exact (mem_append.mp he).elim (hkept e) (hkept' e)
    · exact .inr ⟨rfl, e, mem_append_right _ he, hlost⟩
  · exact .inr ⟨h'.of_none, e, mem_append_left _ he, hlost⟩

theorem MakesRoom.traced {c₁ : CacheState} (hroom : MakesRoom cfg now c c₁ calls)
    (h : Holds cfg c order) (k : Bytes) :
    Traced cfg now k calls (c.find cfg k) (c₁.find cfg k) := by
  cases hroom with
  | unused _ => exact .nil _
  | full _ => exact .call h

/-- A key that is only touched by `cache_full`. -/
theorem Traced.keyCase (h : Traced cfg now k (fullCalls cfg now c op) (c.find cfg k) y)
    (hset : ¬ SetsKey cfg now c k op) (hdel : op ≠ .del k) : KeyCase cfg now c k op y := by
  rcases h with ⟨rfl, hkept⟩ | ⟨rfl, hlost⟩
  · exact .same hset (fun ⟨e, he, hlost⟩ => hkept e he hlost) fun hop => absurd hop hdel
  · exact .removed hset (.inr (.inl hlost))

/-- A lookup that finds nothing leaves the other keys. -/
theorem Missed.find_of_ne {key : Bytes} (h : Missed cfg now key c d) (hk : k ≠ key) :
    d.find cfg k = c.find cfg k := by
  rcases h.removes.kept k with hnone | hsame
  · cases hfind : c.find cfg k with
    | none => exact hnone
    | some it => exact absurd (h.removes.lost k it hfind hnone).1 hk
  · exact hsame

end Keys

section SetKeys

variable {cfg : CacheConfig} {now : Nat} {c : CacheState} {k key val : Bytes} {expires : Nat}
  {flags : CacheFlags} {order : List Bytes} {result : CacheState × Int} {calls : List CacheState}

/-- Whether the key is set can be seen from the result. -/
theorem setsKey_set (hresult : upsgi_cache_set2 cfg now key val expires flags c = result) :
    SetsKey cfg now c k (.set key val expires flags) ↔ key = k ∧ result.2 = 0 := by
  show key = k ∧ (upsgi_cache_set2 cfg now key val expires flags c).2 = 0 ↔ _
  rw [hresult]

section

variable (h : Holds cfg c order)
    (hresult : upsgi_cache_set2 cfg now key val expires flags c = result)
    (hcalls : fullCalls cfg now c (.set key val expires flags) = calls)
include h hresult hcalls

/-- An update, at one key. -/
theorem UpdateCase.keyCase {it : CacheItem} (hok : Acceptable cfg key val flags)
    (hfind : c.find cfg key = some it) (hfresh : Fresh cfg now it) (hflag : flags.update = true)
    (hcase : UpdateCase cfg now key val expires flags it c result calls) :
    KeyCase cfg now c k (.set key val expires flags) (result.1.find cfg k) := by
  have hsets := setsKey_set (k := k) hresult
  have hdel : CacheOp.set key val expires flags ≠ .del k := nofun
  cases hcase with
  | updated d hupdates =>
    obtain ⟨num, hfindD, hnum⟩ := hupdates.find
    show KeyCase _ _ _ _ _ (d.find cfg k)
    by_cases hk : k = key
    · rw [hk, hfindD, update_self]
      exact .updated it val expires flags num rfl ((setsKey_set hresult).mpr ⟨rfl, rfl⟩) hfind hfresh hflag
        hnum
    · apply Traced.keyCase _ _ hdel
      · rw [hcalls, hfindD, update_of_ne hk]
        exact .nil _
      · exact fun hand => hk hand.1.symm
  | noBlocks d huse hnone hrefreshes =>
    have hset : ¬ SetsKey cfg now c k (.set key val expires flags) := by
      rw [hsets]
      exact fun hand => nomatch hand.2
    have htraced : Traced cfg now k [d] (d.find cfg k) ((cache_full cfg now d).find cfg k) :=
      .call (hrefreshes.holds order h)
    show KeyCase _ _ _ _ _ ((cache_full cfg now d).find cfg k)
    rw [hrefreshes.find] at htraced
    by_cases hk : k = key
    · -- the item of the key is there with its new expiry, or evicted
      rw [hk] at htraced hset ⊢
      rw [update_self] at htraced
      rw [← hcalls] at htraced
      rcases htraced with ⟨hsame, hkept⟩ | ⟨hlost, hevict⟩
      · rw [hsame]
        exact .refreshed it val expires flags rfl hok hset (fun ⟨e, he, hlost⟩ => hkept e he hlost) hfind hfresh
          hflag huse hnone
      · rw [hlost]
        exact .removed hset (.inr (.inl hevict))
    · rw [update_of_ne hk] at htraced
      apply Traced.keyCase _ hset hdel
      rw [hcalls]
      exact htraced

/-- An insertion, at one key. -/
theorem InsertCase.keyCase {c₀ : CacheState} (hmiss : Missed cfg now key c c₀)
    (hcase : InsertCase cfg now key val expires flags c₀ result calls) :
    KeyCase cfg now c k (.set key val expires flags) (result.1.find cfg k) := by
  have hsets := setsKey_set (k := k) hresult
  have hdel : CacheOp.set key val expires flags ≠ .del k := nofun
  have h₀ := hmiss.removes.holds order h
  -- without success only `cache_full` is at work after the lookup
  have hfailed : result.2 ≠ 0 → Traced cfg now k calls (c₀.find cfg k) (result.1.find cfg k) →
      KeyCase cfg now c k (.set key val expires flags) (result.1.find cfg k) := by
    intro hret htraced
    have hset : ¬ SetsKey cfg now c k (.set key val expires flags) := by
      rw [hsets]
      exact fun hand => hret hand.2
    by_cases hk : k = key
    · rw [hk] at htraced hset ⊢
      rw [hmiss.absent] at htraced
      cases hfind : c.find cfg key with
      | none =>
        apply Traced.keyCase _ hset nofun
        rw [hcalls, hfind]
        exact htraced
      | some it =>
        rw [htraced.of_none]
        have hexpired := (hmiss.removes.lost key it hfind hmiss.absent).2
        exact .removed hset (.inr (.inr ⟨it, hfind, not_fresh_due hexpired⟩))
    · apply Traced.keyCase _ hset hdel
      rw [hcalls, ← hmiss.find_of_ne hk]
      exact htraced
  cases hcase with
  | full c₁ _ hroom _ => exact hfailed nofun (hroom.traced h₀ k)
  | noBlocks c₁ c₂ calls hroom hfind hholds =>
    apply hfailed nofun
    have h₁ := (hroom.removes h₀).holds _ h₀
    have htraced := hroom.traced h₀ k
    rw [← hfind] at htraced
    exact htraced.append (.call (hholds _ h₁))
  | stored c₁ d _ hroom hstores =>
    show KeyCase _ _ _ _ _ (d.find cfg k)
    by_cases hk : k = key
    · rw [hk, hstores.find, update_self]
      refine .stored val expires flags rfl ((setsKey_set hresult).mpr ⟨rfl, rfl⟩) ?_
      exact fun it hfind => (hmiss.removes.lost key it hfind hmiss.absent).2
    · apply Traced.keyCase _ _ hdel
      · rw [hcalls, ← hmiss.find_of_ne hk, hstores.find, update_of_ne hk]
        exact hroom.traced h₀ k
      · exact fun hand => hk hand.1.symm

end

/-- `upsgi_cache_set2`, at one key. -/
theorem upsgi_cache_set2_key (h : Holds cfg c order) (now : Nat) (k key val : Bytes) (expires : Nat)
    (flags : CacheFlags) :
    KeyCase cfg now c k (.set key val expires flags)
      ((upsgi_cache_set2 cfg now key val expires flags c).1.find cfg k) := by
  have hcase := upsgi_cache_set2_cases h now key val expires flags
  generalize hresult : upsgi_cache_set2 cfg now key val expires flags c = result at hcase ⊢
  generalize hcalls : fullCalls cfg now c (.set key val expires flags) = calls at hcase
  have hsame : calls = [] → result = (c, -1) →
      KeyCase cfg now c k (.set key val expires flags) (result.1.find cfg k) := by
    intro hnil hret
    apply Traced.keyCase _ _ (fun heq => by cases heq)
    · rw [hcalls, hnil, hret]
      exact .nil _
    · rw [setsKey_set hresult, hret]
      exact fun hand => nomatch hand.2
  cases hcase with
  | refused _ | present _ _ _ _ => exact hsame rfl rfl
  | update it _ _ hok hfind hfresh hflag hcase =>
    exact hcase.keyCase h hresult hcalls hok hfind hfresh hflag
  | insert c₀ _ _ _ hmiss hcase => exact hcase.keyCase h hresult hcalls hmiss

end SetKeys

/-- The operations that are no `set` and do not move a key to the end of the order. -/
def OnlyRemoves : CacheOp → Prop
  | .set _ _ _ _ | .get2 _ | .get3 _ => False
  | _ => True

section Steps

variable {cfg : CacheConfig} {now : Nat} {c : CacheState} {op : CacheOp} {order : List Bytes}

/-- A read that leaves the order alone. -/
theorem Hit.removes {key : Bytes} (h : Hit cfg false now key c result) :
    Removes cfg (fun k it => op = .del k ∨ it.Due now) c result.1 := by
  cases h with
  | missed d hmiss => exact hmiss.removes_due
  | ungettable _ _ _ _ => exact .refl
  | hit i d _ _ _ hsame hholds => exact .of_find hsame hholds

/-- A deletion, after which the key is not there. -/
theorem cacheStep_del (h : Holds cfg c order) (now : Nat) (key : Bytes) :
    Removes cfg (fun k it => CacheOp.del key = .del k ∨ it.Due now) c
        (cacheStep cfg now c (.del key)) ∧
      (cacheStep cfg now c (.del key)).find cfg key = none := by
  have hlookup := upsgi_cache_get_index_lookup h now key
  unfold cacheStep upsgi_cache_del2
  dsimp only
  generalize upsgi_cache_get_index cfg now key c = result at hlookup ⊢
  cases hlookup with
  | missed d hmiss => exact ⟨hmiss.removes_due, hmiss.absent⟩
  | found i hi hkey hne _ =>
    rw [if_neg hi]
    refine ⟨h.removes_del fun _ => .inl (by rw [hkey]), ?_⟩
    rw [(h.del (hkey ▸ hne)).2, hkey, update_self]

/-- They remove keys for the time, or because they are told to. -/
theorem cacheStep_removes (h : Holds cfg c order) (now : Nat) (op : CacheOp) (hop : OnlyRemoves op) :
    Removes cfg (fun k it => op = .del k ∨ it.Due now) c (cacheStep cfg now c op) := by
  cases op with
  | set _ _ _ _ | get2 _ | get3 _ => cases hop
  | del key => exact (cacheStep_del h now key).1
  | get4 key => exact (cacheHit_hit h false now key).removes
  | num2 key =>
    have hremoves : Removes cfg (fun k it => CacheOp.num2 key = .del k ∨ it.Due now) c _ :=
      (cacheHit_hit h false now key).removes
    unfold cacheStep upsgi_cache_num2
    dsimp only
    generalize cacheHit cfg false now key c = result at hremoves ⊢
    obtain ⟨d, _ | i⟩ := result
    · exact hremoves
    · exact hremoves
  | exists2 key =>
    have hlookup := upsgi_cache_get_index_lookup h now key
    unfold cacheStep upsgi_cache_exists2
    dsimp only
    generalize upsgi_cache_get_index cfg now key c = result at hlookup ⊢
    cases hlookup with
    | missed d hmiss => exact hmiss.removes_due
    | found _ _ _ _ _ => exact .refl
  | sweep => exact (h.removes_sweeper now).mono fun _ _ => .inr
  | sweepSlot i =>
    unfold cacheStep
    dsimp only
    split
    · exact (h.removes_sweepSlot now i).mono fun _ _ => .inr
    · exact .refl

/-- Every operation, at one key. -/
theorem cacheStep_key (h : Holds cfg c order) (now : Nat) (k : Bytes) (op : CacheOp) :
    KeyCase cfg now c k op ((cacheStep cfg now c op).find cfg k) := by
  have hremoves := cacheStep_removes h now op
  cases op with
  | set key val expires flags => exact upsgi_cache_set2_key h now k key val expires flags
  | get2 key | get3 key => exact (cacheHit_hit h true now key).keyCase id rfl nofun
  | del key =>
    refine (hremoves trivial).keyCase (fun _ => id) id rfl fun heq => ?_
    cases heq
    exact (cacheStep_del h now k).2
  | get4 _ | num2 _ | exists2 _ | sweep | sweepSlot _ =>
    exact (hremoves trivial).keyCase (fun _ => id) id rfl nofun

end Steps

/-! ### The order in one step -/

/-- The operation is a use of the key: it inserts it, updates it with its expiry,
    or gets it with `upsgi_cache_get2` or `upsgi_cache_get3`. -/
def Uses (cfg : CacheConfig) (now : Nat) (c : CacheState) (k : Bytes) : CacheOp → Prop
  | .set key val expires flags =>
      SetsKey cfg now c k (.set key val expires flags) ∧
        (flags.fixexpire = false ∨ ∀ it, c.find cfg k = some it → ¬ Fresh cfg now it)
  | .get2 key => key = k ∧ (upsgi_cache_get2 cfg now key c).2 ≠ none
  | .get3 key => key = k ∧ (upsgi_cache_get3 cfg now key c).2 ≠ none
  | _ => False

/-- The operation updates the key together with its expiry, and there are no
    blocks for the value. -/
def UpdateFails (cfg : CacheConfig) (now : Nat) (c : CacheState) : CacheOp → Prop
  | .set key val _ flags =>
      cfg.use_blocks_bitmap = true ∧ flags.update = true ∧ flags.fixexpire = false ∧
        Acceptable cfg key val flags ∧ (∃ it, c.find cfg key = some it ∧ Fresh cfg now it) ∧
        findBlocks cfg val.length c = none
  | _ => False

/-- What can become of the order. -/
inductive OrderCase (cfg : CacheConfig) (now : Nat) (c : CacheState) (op : CacheOp) (order : List Bytes) :
    List Bytes → Prop
  | kept (order' : List Bytes) (hsub : order'.Sublist order) (huse : ∀ k, ¬ Uses cfg now c k op) :
      OrderCase cfg now c op order order'
  | used (k : Bytes) (l : List Bytes) (hsub : l.Sublist order) (hnot : k ∉ l)
      (huse : ∀ k', Uses cfg now c k' op ↔ k' = k) : OrderCase cfg now c op order (l ++ [k])
  | failed (order' : List Bytes) (h : UpdateFails cfg now c op) : OrderCase cfg now c op order order'

section Orders

variable {cfg : CacheConfig} {now : Nat} {c d : CacheState} {op : CacheOp} {order : List Bytes}

/-- The order after an operation. -/
def OrderAfter (cfg : CacheConfig) (now : Nat) (c : CacheState) (op : CacheOp) (order : List Bytes)
    (d : CacheState) : Prop :=
  ∃ order', Holds cfg d order' ∧ (cfg.purge_lru = true → OrderCase cfg now c op order order')

theorem Removes.orderAfter {P : Bytes → CacheItem → Prop} (h : Removes cfg P c d)
    (hc : Holds cfg c order) (huse : ∀ k, ¬ Uses cfg now c k op) :
    OrderAfter cfg now c op order d :=
  ⟨_, h.holds order hc, fun _ => .kept _ filter_sublist huse⟩

theorem moveToEnd_case {k : Bytes} (huse : ∀ k', Uses cfg now c k' op ↔ k' = k) :
    OrderCase cfg now c op order (moveToEnd k order) :=
  .used k _ filter_sublist (fun hmem => of_decide_eq_true (mem_filter.mp hmem).2 rfl) huse

/-- A read that is a use of the key it hits. -/
theorem Hit.orderAfter_use {key : Bytes} (hhit : Hit cfg true now key c result)
    (h : Holds cfg c order) (huse : ∀ k, Uses cfg now c k op ↔ key = k ∧ result.2 ≠ none) :
    OrderAfter cfg now c op order result.1 := by
  have hno : result.2 = none → ∀ k, ¬ Uses cfg now c k op := by
    intro hnone k
    rw [huse, hnone]
    exact fun hand => hand.2 rfl
  cases hhit with
  | missed d hmiss => exact hmiss.removes.orderAfter h (hno rfl)
  | ungettable _ _ _ _ => exact (Removes.refl (P := fun _ _ => False)).orderAfter h (hno rfl)
  | hit i d _ _ _ _ hholds =>
    refine ⟨_, hholds order h, ?_⟩
    intro hpurge
    rw [if_pos ⟨rfl, hpurge⟩]
    apply moveToEnd_case
    intro k
    rw [huse]
    exact ⟨fun hand => hand.1.symm, fun heq => ⟨heq.symm, Option.some_ne_none i⟩⟩

/-- The results of `upsgi_cache_set2`, for the order. -/
theorem upsgi_cache_set2_order (h : Holds cfg c order) (now : Nat) (key val : Bytes) (expires : Nat)
    (flags : CacheFlags) :
    OrderAfter cfg now c (.set key val expires flags) order
      (upsgi_cache_set2 cfg now key val expires flags c).1 := by
  have hcase := upsgi_cache_set2_cases h now key val expires flags
  generalize hresult : upsgi_cache_set2 cfg now key val expires flags c = result at hcase ⊢
  generalize fullCalls cfg now c (.set key val expires flags) = calls at hcase
  have huse : ∀ k, Uses cfg now c k (.set key val expires flags) ↔ (key = k ∧ result.2 = 0) ∧
      (flags.fixexpire = false ∨ ∀ it, c.find cfg k = some it → ¬ Fresh cfg now it) := by
    intro k
    rw [← setsKey_set hresult]
    exact Iff.rfl
  -- a `set` that fails is no use
  have hno : result.2 ≠ 0 → ∀ k, ¬ Uses cfg now c k (.set key val expires flags) := by
    intro hret k
    rw [huse]
    exact fun hand => hret hand.1.2
  cases hcase with
  | refused _ | present _ _ _ _ =>
    exact (Removes.refl (P := fun _ _ => False)).orderAfter h (hno nofun)
  | update it _ _ hok hfind hfresh hflag hcase =>
    have hnot : ¬ ∀ it, c.find cfg key = some it → ¬ Fresh cfg now it :=
      fun hall => hall it hfind hfresh
    cases hcase with
    | noBlocks d hbitmap hnone hrefreshes =>
      have hd := hrefreshes.holds order h
      refine ⟨_, (hd.removes_full now).holds _ hd, fun _ => ?_⟩
      by_cases hfix : flags.fixexpire = true
      · unfold refreshedOrder
        rw [hfix, if_neg fun hand => nomatch hand.2]
        exact .kept _ filter_sublist (hno nofun)
      · exact .failed _ ⟨hbitmap, hflag, Bool.eq_false_iff.mpr hfix, hok, ⟨it, hfind, hfresh⟩, hnone⟩
    | updated d hupdates =>
      refine ⟨_, hupdates.holds order h, fun hpurge => ?_⟩
      unfold refreshedOrder
      by_cases hfix : flags.fixexpire = true
      · rw [hfix, if_neg fun hand => nomatch hand.2]
        refine .kept order (List.Sublist.refl order) fun k => ?_
        rintro ⟨⟨rfl, _⟩, hor⟩
        rcases hor with hfalse | hall
        · nomatch hfix.symm.trans hfalse
        · exact hnot hall
      · rw [Bool.not_eq_true] at hfix
        rw [if_pos ⟨hpurge, hfix⟩]
        apply moveToEnd_case
        intro k
        rw [huse]
        exact ⟨fun hand => hand.1.1.symm, fun heq => ⟨⟨heq.symm, rfl⟩, .inl hfix⟩⟩
  | insert c₀ _ _ hok hmiss hcase =>
    have h₀ := hmiss.removes.holds order h
    cases hcase with
    | full c₁ _ hroom _ =>
      refine ⟨_, (hroom.removes h₀).holds _ h₀, fun _ => ?_⟩
      exact .kept _ (filter_sublist.trans filter_sublist) (hno nofun)
    | noBlocks c₁ c₂ _ hroom _ hholds =>
      have h₂ := hholds _ ((hroom.removes h₀).holds _ h₀)
      refine ⟨_, (h₂.removes_full now).holds _ h₂, fun _ => ?_⟩
      exact .kept _ (filter_sublist.trans (filter_sublist.trans filter_sublist))
        (hno nofun)
    | stored c₁ d _ hroom hstores =>
      have hremoves := hroom.removes h₀
      have habsent : c₁.find cfg key = none :=
        (hremoves.kept key).elim id fun hsame => hsame.trans hmiss.absent
      refine ⟨_, hstores.holds _ (hremoves.holds _ h₀), fun _ => ?_⟩
      refine .used key _ (filter_sublist.trans filter_sublist) ?_ ?_
      · exact fun hmem => of_decide_eq_true (mem_filter.mp hmem).2 habsent
      · intro k
        rw [huse]
        refine ⟨fun hand => hand.1.1.symm, ?_⟩
        rintro rfl
        exact ⟨⟨rfl, rfl⟩, .inr fun it hfind => (hmiss.removes.lost k it hfind hmiss.absent).2⟩

/-- Every operation keeps the cache well formed. -/
theorem cacheStep_order (h : Holds cfg c order) (now : Nat) (op : CacheOp) :
    OrderAfter cfg now c op order (cacheStep cfg now c op) := by
  have hremoves := cacheStep_removes h now op
  cases op with
  | set key val expires flags => exact upsgi_cache_set2_order h now key val expires flags
  | get2 key | get3 key =>
    refine (cacheHit_hit h true now key).orderAfter_use h fun k => and_congr_right fun _ => not_congr ?_
    show (Option.map _ (cacheHit cfg true now key c).2) = none ↔ _
    exact Option.map_eq_none_iff
  | del _ | get4 _ | num2 _ | exists2 _ | sweep | sweepSlot _ =>
    exact (hremoves trivial).orderAfter h fun _ => id

end Orders

/-! ### Runs -/

/-- The state after operations, each at its time. -/
def cacheRun (cfg : CacheConfig) (c : CacheState) (run : List (Nat × CacheOp)) : CacheState :=
  run.foldl (fun c step => cacheStep cfg step.1 c step.2) c

/-- A run together with what is noted down about it. -/
def notedRun {γ : Type} (cfg : CacheConfig) (note : Nat → CacheState → CacheOp → γ → γ) :
    CacheState → γ → List (Nat × CacheOp) → γ
  | _, g, [] => g
  | c, g, (now, op) :: run =>
      notedRun cfg note (cacheStep cfg now c op) (note now c op g) run

/-- A condition that all operations of a run meet in the states they are done
    in. -/
def EachStep (cfg : CacheConfig) (Ok : Nat → CacheState → CacheOp → Prop) :
    CacheState → List (Nat × CacheOp) → Prop
  | _, [] => True
  | c, (now, op) :: run => Ok now c op ∧ EachStep cfg Ok (cacheStep cfg now c op) run

theorem cacheRun_holds {cfg : CacheConfig} {c : CacheState} {order : List Bytes} (h : Holds cfg c order)
    (run : List (Nat × CacheOp)) : ∃ order', Holds cfg (cacheRun cfg c run) order' := by
  induction run generalizing c order with
  | nil => exact ⟨order, h⟩
  | cons step run ih =>
    obtain ⟨order', h', _⟩ := cacheStep_order h step.1 step.2
    exact ih h'

/-- What each step keeps about the notes, a run keeps. -/
theorem notedRun_invariant {γ : Type} {cfg : CacheConfig} {note : Nat → CacheState → CacheOp → γ → γ}
    {Ok : Nat → CacheState → CacheOp → Prop} {Inv : CacheState → γ → Prop}
    (hstep : ∀ now c op g, Ok now c op → Inv c g → Inv (cacheStep cfg now c op) (note now c op g))
    (run : List (Nat × CacheOp)) {c : CacheState} {g : γ} (hok : EachStep cfg Ok c run) (h : Inv c g) :
    Inv (cacheRun cfg c run) (notedRun cfg note c g run) := by
  induction run generalizing c g with
  | nil => exact h
  | cons step run ih => exact ih hok.2 (hstep step.1 c step.2 g hok.1 h)

end Upsgi
