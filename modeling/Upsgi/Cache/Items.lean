import Upsgi.Cache.Rep

/-! # What a cache holds

    Seen from outside a cache is a map from keys to items, and with LRU purge
    also an order of the keys.  `CacheState.find` is that map; `Holds` relates a
    state that is well formed to its order.  Here the changes of the
    representation are said in these terms, so that nothing behind this module
    is about links or blocks.
-/

namespace Upsgi

open Framing (Bytes)
open List Function

/-! ### Items by key -/

structure CacheItem where
  value : Bytes
  flags : CacheFlags
  expires : Nat
  deriving DecidableEq, Repr

/-- The time of the item is over. -/
def CacheItem.Due (it : CacheItem) (now : Nat) : Prop :=
  it.expires ≠ 0 ∧ it.expires ≤ now

instance (it : CacheItem) (now : Nat) : Decidable (it.Due now) :=
  inferInstanceAs (Decidable (it.expires ≠ 0 ∧ it.expires ≤ now))

def CacheState.itemAt (cfg : CacheConfig) (c : CacheState) (i : Nat) : CacheItem :=
  ⟨c.value cfg i, c.flags i, c.expires i⟩

/-- The item that has the key. -/
def CacheState.find (cfg : CacheConfig) (c : CacheState) (key : Bytes) : Option CacheItem :=
  if key = [] then none
  else (cfg.slots.find? fun i => decide (c.key i = key)).map (c.itemAt cfg)

section Find

variable {cfg : CacheConfig} {c d : CacheState} {i : Nat} {k : Bytes}

theorem mem_slots : i ∈ cfg.slots ↔ 0 < i ∧ i < cfg.max_items := by
  unfold CacheConfig.slots
  rw [mem_range'_1]
  omega

theorem nodup_slots (cfg : CacheConfig) : cfg.slots.Nodup :=
  show (List.range' 1 (cfg.max_items - 1)).Nodup from nodup_range' 1

theorem find_live (h : KeyRep cfg c.key c.hash) (hi : c.key i ≠ []) :
    c.find cfg (c.key i) = some (c.itemAt cfg i) := by
  unfold CacheState.find
  rw [if_neg hi]
  cases hfind : cfg.slots.find? fun j => decide (c.key j = c.key i) with
  | none =>
    have hnone := find?_eq_none.mp hfind i (mem_slots.mpr (h.slot i hi))
    exact absurd (decide_eq_true rfl) hnone
  | some j =>
    have htrue := find?_some hfind
    rw [h.unique i j hi (of_decide_eq_true htrue).symm]
    rfl

theorem find_eq_none (h : ∀ i, c.key i ≠ [] → c.key i ≠ k) : c.find cfg k = none := by
  unfold CacheState.find
  split
  · rfl
  · next hk =>
    rw [Option.map_eq_none_iff, find?_eq_none]
    intro i _ hi
    have hi := of_decide_eq_true hi
    exact h i (hi ▸ hk) hi

theorem find_eq_some {it : CacheItem} (h : c.find cfg k = some it) :
    ∃ i, c.key i = k ∧ k ≠ [] ∧ it = c.itemAt cfg i := by
  unfold CacheState.find at h
  split at h
  · cases h
  · next hk =>
    obtain ⟨i, hi, rfl⟩ := Option.map_eq_some_iff.mp h
    have htrue := find?_some hi
    exact ⟨i, of_decide_eq_true htrue, hk, rfl⟩

/-- A change of one item is a change at its keys. -/
theorem find_of_ne (hc : KeyRep cfg c.key c.hash) (hd : KeyRep cfg d.key d.hash)
    (hkey : ∀ j, j ≠ i → d.key j = c.key j)
    (hitem : ∀ j, j ≠ i → c.key j ≠ [] → d.itemAt cfg j = c.itemAt cfg j) (hold : k ≠ c.key i)
    (hnew : k ≠ d.key i) : d.find cfg k = c.find cfg k := by
  cases hfind : c.find cfg k with
  | none =>
    apply find_eq_none
    intro j hj heq
    have hne : j ≠ i := by
      rintro rfl
      exact hnew heq.symm
    rw [hkey j hne] at hj heq
    have hsome := find_live hc hj
    rw [heq, hfind] at hsome
    cases hsome
  | some it =>
    obtain ⟨j, rfl, hj, rfl⟩ := find_eq_some hfind
    have hne : j ≠ i := by
      rintro rfl
      exact hold rfl
    have hlive := find_live (i := j) hd (by rw [hkey j hne]; exact hj)
    rwa [hkey j hne, hitem j hne hj] at hlive

end Find

/-! ### Order -/

/-- The state is well formed, and `order` are the keys from the least recently
    used one on. -/
def Holds (cfg : CacheConfig) (c : CacheState) (order : List Bytes) : Prop :=
  ∃ lru, CacheInv cfg c lru ∧ (cfg.purge_lru = true → order = lru.map c.key)

section Order

variable {cfg : CacheConfig} {c : CacheState} {order : List Bytes}

theorem Holds.keys (h : Holds cfg c order) : KeyRep cfg c.key c.hash := by
  obtain ⟨_, hinv, _⟩ := h
  exact hinv.keys

/-- The order has exactly the keys that are found. -/
theorem Holds.mem_order (h : Holds cfg c order) (hpurge : cfg.purge_lru = true) (k : Bytes) :
    k ∈ order ↔ c.find cfg k ≠ none := by
  obtain ⟨lru, hinv, horder⟩ := h
  rw [horder hpurge, mem_map]
  constructor
  · rintro ⟨i, hi, rfl⟩
    rw [find_live hinv.keys ((hinv.lru_mem hpurge i).mp hi)]
    exact Option.some_ne_none _
  · intro hfind
    obtain ⟨it, hit⟩ := Option.ne_none_iff_exists'.mp hfind
    obtain ⟨i, rfl, hi, _⟩ := find_eq_some hit
    exact ⟨i, (hinv.lru_mem hpurge i).mpr hi, rfl⟩

/-- The keys of the LRU list without an item. -/
theorem CacheInv.map_erase {lru : List Nat} {i : Nat} (h : CacheInv cfg c lru)
    (hpurge : cfg.purge_lru = true) (hi : c.key i ≠ []) :
    (lru.erase i).map c.key = (lru.map c.key).filter fun k => decide (k ≠ c.key i) := by
  rw [(h.list hpurge).nodup.erase_eq_filter, filter_map]
  congr 1
  apply filter_congr
  intro j _
  rw [Bool.eq_iff_iff]
  simp only [comp_apply, bne_iff_ne, ne_eq, decide_eq_true_eq]
  exact not_congr ⟨fun heq => heq ▸ rfl, fun heq => (h.keys.unique i j hi heq.symm).symm⟩

/-- What is not part of the representation may change. -/
theorem Holds.quiet (h : Holds cfg c order) (next_scan : Nat) (hits : Nat → Nat) :
    Holds cfg { c with next_scan := next_scan, hits := hits } order := by
  obtain ⟨lru, hinv, horder⟩ := h
  exact ⟨lru, { hinv with }, horder⟩

end Order

/-! ### Deletion -/

section Deletion

variable {cfg : CacheConfig} {c : CacheState} {order : List Bytes} {i : Nat}

/-- The fields of the items after a deletion. -/
theorem delItem_fields (cfg : CacheConfig) (i : Nat) (c : CacheState) :
    (delItem cfg i c).key = update c.key i [] ∧ (delItem cfg i c).flags = c.flags ∧
      (delItem cfg i c).valsize = update c.valsize i 0 ∧
      (delItem cfg i c).first_block = c.first_block ∧
      (delItem cfg i c).expires = update c.expires i 0 ∧ (delItem cfg i c).data = c.data := by
  unfold delItem releaseItem
  simp only [unlinkItem_eq, lru_remove_item_eq]
  split
  · split
    · split <;> exact ⟨rfl, rfl, rfl, rfl, rfl, rfl⟩
    · split <;> exact ⟨rfl, rfl, rfl, rfl, rfl, rfl⟩
  · exact ⟨rfl, rfl, rfl, rfl, rfl, rfl⟩

theorem delItem_itemAt {j : Nat} (hj : j ≠ i) :
    (delItem cfg i c).itemAt cfg j = c.itemAt cfg j := by
  obtain ⟨_, hflags, hvalsize, hfirst, hexpires, hdata⟩ := delItem_fields cfg i c
  unfold CacheState.itemAt CacheState.value
  rw [hflags, hvalsize, hfirst, hexpires, hdata, update_of_ne hj, update_of_ne hj]

/-- A deletion takes the key of the item out of the map and of the order. -/
theorem Holds.del (h : Holds cfg c order) (hi : c.key i ≠ []) :
    Holds cfg (delItem cfg i c) (order.filter fun k => decide (k ≠ c.key i)) ∧
      (delItem cfg i c).find cfg = update (c.find cfg) (c.key i) none := by
  obtain ⟨lru, hinv, horder⟩ := h
  obtain ⟨hkey, _⟩ := delItem_fields cfg i c
  have hinv' := hinv.del_live hi
  refine ⟨⟨lru.erase i, hinv', ?_⟩, ?_⟩
  · intro hpurge
    rw [horder hpurge, ← hinv.map_erase hpurge hi, hkey]
    apply map_congr_left
    intro j hj
    have hne : j ≠ i := by
      rintro rfl
      exact (hinv.list hpurge).nodup.not_mem_erase hj
    exact (update_of_ne hne _ _).symm
  · funext k
    by_cases hk : k = c.key i
    · rw [hk, update_self]
      apply find_eq_none
      intro j hj heq
      -- no other item had this key
      by_cases hne : j = i
      · rw [hne, hkey, update_self] at hj
        exact hj rfl
      · rw [hkey, update_of_ne hne] at heq
        exact hne (hinv.keys.unique i j hi heq.symm).symm
    · rw [update_of_ne hk]
      by_cases hnil : k = []
      · rw [hnil]
        rfl
      · apply find_of_ne hinv.keys hinv'.keys (i := i) _ (fun j hj _ => delItem_itemAt hj) hk
        · rw [hkey, update_self]
          exact hnil
        · exact fun j hj => by rw [hkey, update_of_ne hj]

/-- The deletion of an item that is not in use changes nothing. -/
theorem Holds.del_free (h : Holds cfg c order) (hi : c.key i = []) :
    Holds cfg (delItem cfg i c) order ∧ (delItem cfg i c).find cfg = c.find cfg := by
  obtain ⟨lru, hinv, horder⟩ := h
  obtain ⟨hkey, _⟩ := delItem_fields cfg i c
  have hsame : (delItem cfg i c).key = c.key := by
    rw [hkey, ← hi]
    exact update_eq_self i c.key
  have hinv' := hinv.del_free hi
  refine ⟨⟨lru, hinv', ?_⟩, ?_⟩
  · rw [hsame]
    exact horder
  · funext k
    by_cases hnil : k = []
    · rw [hnil]
      rfl
    · apply find_of_ne hinv.keys hinv'.keys (i := i) _ (fun j hj _ => delItem_itemAt hj)
      · rw [hi]
        exact hnil
      · rw [hsame, hi]
        exact hnil
      · exact fun j _ => by rw [hsame]

end Deletion

/-! ### Removals -/

/-- From `c` to `d` keys are removed, each for the reason `P`, and nothing else
    happens to the map and the order. -/
structure Removes (cfg : CacheConfig) (P : Bytes → CacheItem → Prop) (c d : CacheState) : Prop where
  holds : ∀ order, Holds cfg c order →
    Holds cfg d (order.filter fun k => decide (d.find cfg k ≠ none))
  kept : ∀ k, d.find cfg k = none ∨ d.find cfg k = c.find cfg k
  lost : ∀ k it, c.find cfg k = some it → d.find cfg k = none → P k it

section Removals

variable {cfg : CacheConfig} {P Q : Bytes → CacheItem → Prop} {c d e : CacheState} {order : List Bytes}

/-- An order is only about the keys that are found, with LRU purge. -/
theorem Holds.filter (h : Holds cfg c order) (p : Bytes → Bool)
    (hp : ∀ k, c.find cfg k ≠ none → p k = true) : Holds cfg c (order.filter p) := by
  have hsame : cfg.purge_lru = true → order.filter p = order := by
    intro hpurge
    rw [filter_eq_self]
    exact fun k hk => hp k ((h.mem_order hpurge k).mp hk)
  obtain ⟨lru, hinv, horder⟩ := h
  exact ⟨lru, hinv, fun hpurge => (hsame hpurge).trans (horder hpurge)⟩

/-- The same map gives the same order. -/
theorem Removes.of_find (hfind : d.find cfg = c.find cfg)
    (hholds : ∀ order, Holds cfg c order → Holds cfg d order) : Removes cfg P c d where
  holds := fun order h => (hholds order h).filter _ fun _ hk => decide_eq_true hk
  kept := fun k => .inr (congrFun hfind k)
  lost := fun k it hsome hnone => by
    rw [hfind, hsome] at hnone
    cases hnone

theorem Removes.refl : Removes cfg P c c :=
  .of_find rfl fun _ h => h

theorem Removes.mono (h : Removes cfg P c d) (hPQ : ∀ k it, P k it → Q k it) : Removes cfg Q c d :=
  { h with lost := fun k it hsome hnone => hPQ k it (h.lost k it hsome hnone) }

theorem Removes.trans (h : Removes cfg P c d) (h' : Removes cfg P d e) : Removes cfg P c e where
  holds := by
    intro order hc
    have he := h'.holds _ (h.holds order hc)
    rw [filter_filter] at he
    -- what is found at the end is found in between
    rwa [filter_congr (q := fun k => decide (e.find cfg k ≠ none))] at he
    intro k _
    rcases h'.kept k with hnone | hsame
    · rw [hnone]
      simp
    · rw [hsame]
      simp
  kept := by
    intro k
    rcases h'.kept k with hnone | hsame
    · exact .inl hnone
    · rw [hsame]
      exact h.kept k
  lost := by
    intro k it hsome hnone
    rcases h.kept k with hnone' | hsame
    · exact h.lost k it hsome hnone'
    · exact h'.lost k it (hsame.trans hsome) hnone

/-- One deletion. -/
theorem Holds.removes_del (h : Holds cfg c order) {i : Nat}
    (hP : c.key i ≠ [] → P (c.key i) (c.itemAt cfg i)) : Removes cfg P c (delItem cfg i c) := by
  by_cases hi : c.key i = []
  · exact .of_find (h.del_free hi).2 fun order h => (h.del_free hi).1
  · have hfind := (h.del hi).2
    refine ⟨?_, ?_, ?_⟩
    · intro order h
      rw [hfind]
      have hdel := (h.del hi).1
      have hfilter := hdel.filter (fun k => decide (update (c.find cfg) (c.key i) none k ≠ none))
        (fun k hk => by rw [hfind] at hk; exact decide_eq_true hk)
      rw [filter_filter] at hfilter
      rwa [filter_congr (q := fun k =>
        decide (update (c.find cfg) (c.key i) none k ≠ none))] at hfilter
      intro k _
      by_cases hk : k = c.key i
      · rw [hk, update_self]
        rfl
      · simp [hk]
    · intro k
      rw [hfind]
      by_cases hk : k = c.key i
      · rw [hk, update_self]
        exact .inl rfl
      · rw [update_of_ne hk]
        exact .inr rfl
    · intro k it hsome hnone
      rw [hfind] at hnone
      by_cases hk : k = c.key i
      · rw [hk, find_live h.keys hi] at hsome
        cases hsome
        rw [hk]
        exact hP hi
      · rw [update_of_ne hk, hsome] at hnone
        cases hnone

/-- A loop of removals. -/
theorem Removes.foldl {α : Type} (view : α → CacheState) (step : α → Nat → α) (l : List Nat) (a : α)
    (hstep : ∀ a i order, Holds cfg (view a) order → Removes cfg P (view a) (view (step a i)))
    (h : Holds cfg (view a) order) : Removes cfg P (view a) (view (l.foldl step a)) := by
  induction l generalizing a order with
  | nil => exact .refl
  | cons i l ih =>
    have hfirst := hstep a i order h
    exact hfirst.trans (ih (step a i) (hfirst.holds order h))

end Removals

end Upsgi
