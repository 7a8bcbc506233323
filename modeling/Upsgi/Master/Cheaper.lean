import Upsgi.Master.Chain

/-! # Cheaper mode

    In cheaper mode the master spawns and stops workers as they are needed: `upsgi_calc_cheaper`
    of `core/master_utils.c` asks one of the algorithms `spare`, `spare2`, `backlog` or `manual`
    how many workers to spawn, or with a negative answer to stop.  At least `cheaper_count`
    workers should stay.

    A worker is only stopped when it is idle.  If there is no idle worker, the removal is kept
    in `cheaper_fifo_delta` and carried out at a later call, without asking the algorithm again.
    So the floor holds as long as no worker goes away by itself in the meantime.
-/

namespace Upsgi

/-! ### State -/

inductive CheaperAlgo where
  | spare
  | spare2
  | backlog
  | manual
  deriving DecidableEq, Repr

/-- The options.  With `cheaper_overload` 0 the algorithms would divide by 0, and negative
    numbers are refused by `upsgi_opt_set_int`. -/
structure CheaperConfig where
  cheaper_algo : CheaperAlgo
  cheaper_count : Nat
  cheaper_step : Nat
  cheaper_overload : Nat
  cheaper_idle : Nat
  master_interval : Nat
  cheaper_rss_limit_soft : Nat := 0
  cheaper_rss_limit_hard : Nat := 0
  master : MasterConfig
  count_pos : 0 < cheaper_count
  overload_pos : 0 < cheaper_overload
  deriving DecidableEq

/-- The master with the static variables of `upsgi_calc_cheaper` and of the algorithms. -/
structure Cheaper where
  master : Master
  last_check : Nat := 0
  cheaper_fifo_delta : Int := 0
  overload_count : Nat := 0
  spare_idle_count : Nat := 0
  spare2_idle_count : Nat := 0

/-- What a call reads from outside.  The busy flags change while the master runs: `busy 0` and
    `busy 1` are those that the two loops of an algorithm see, and `busy (k + 2)` those that the
    `k`-th removal sees.  `first` and `now` are the two times that the call reads. -/
structure CheaperInput where
  first : Nat
  now : Nat
  busy : Nat → Nat → Bool
  backlog : Nat
  rss_size : Nat → Nat
  forked : Nat → Bool

namespace Master

/-- The numbers of the workers. -/
def wids (m : Master) : List Nat :=
  List.range' 1 m.numproc

/-- The workers that are not marked as cheaped. -/
def notCheaped (m : Master) : Nat :=
  m.wids.countP fun wid => (m.workers wid).cheaped = false

/-- The workers that are alive and not cheaped. -/
def active (m : Master) : Nat :=
  m.wids.countP fun wid => m.Active wid

/-- The worker can be spawned. -/
def Spawnable (m : Master) (wid : Nat) : Prop :=
  (m.workers wid).cheaped = true ∧ (m.workers wid).process = none

instance (m : Master) (wid : Nat) : Decidable (m.Spawnable wid) :=
  inferInstanceAs (Decidable (_ ∧ _))

/-! ### Algorithms -/

/-- The loop that counts cheaped workers, up to `cheaper_step`. -/
def decheapedLoop (m : Master) (cheaper_step : Nat) : List Nat → Nat → Nat
  | [], decheaped => decheaped
  | wid :: wids, decheaped =>
      if m.Spawnable wid then
        if cheaper_step ≤ decheaped + 1 then decheaped + 1
        else decheapedLoop m cheaper_step wids (decheaped + 1)
      else decheapedLoop m cheaper_step wids decheaped

end Master

namespace Cheaper

/-- An `int` made from an unsigned number. -/
def toInt (n : Nat) : Int :=
  Int.bmod n (2 ^ 32)

/-- The first step of `upsgi_cheaper_algo_spare`: one worker that is not busy is enough. -/
def countOverload (input : CheaperInput) (s : Cheaper) : Cheaper :=
  if s.master.wids.any fun wid => s.master.Active wid ∧ input.busy 0 wid = false then
    { s with overload_count := s.overload_count - 1 }
  else { s with overload_count := (s.overload_count + 1) % 2 ^ 64, spare_idle_count := 0 }

def upsgi_cheaper_algo_spare (cfg : CheaperConfig) (input : CheaperInput) (can_spawn : Bool)
    (s : Cheaper) : Int × Cheaper :=
  let m := s.master
  let s := countOverload input s
  if can_spawn ∧ cfg.cheaper_overload ≤ s.overload_count then
    (m.decheapedLoop cfg.cheaper_step m.wids 0, { s with overload_count := 0 })
  else if s.overload_count = 0 then
    let busy_workers := m.wids.countP fun wid => m.Active wid ∧ input.busy 1 wid = true
    -- one spare worker is stable
    if busy_workers < m.active ∧ m.active - busy_workers = 1 then (0, s)
    else
      let s := { s with spare_idle_count := (s.spare_idle_count + 1) % 2 ^ 64 }
      if cfg.cheaper_count < m.active ∧ s.spare_idle_count % cfg.cheaper_overload = 0 then (-1, s)
      else (0, s)
  else (0, s)

def upsgi_cheaper_algo_spare2 (cfg : CheaperConfig) (input : CheaperInput) (can_spawn : Bool)
    (s : Cheaper) : Int × Cheaper :=
  let m := s.master
  let busy_workers := m.wids.countP fun wid => m.Active wid ∧ input.busy 0 wid = true
  let idle_workers := m.wids.countP fun wid => m.Active wid ∧ input.busy 0 wid = false
  let cheaped_workers := m.numproc - (idle_workers + busy_workers)
  if idle_workers < cfg.cheaper_count then
    let s := { s with spare2_idle_count := 0 }
    if can_spawn then
      (Int.ofNat (min (min (cfg.cheaper_count - idle_workers) cheaped_workers) cfg.cheaper_step), s)
    else (0, s)
  else if idle_workers = cfg.cheaper_count then (0, { s with spare2_idle_count := 0 })
  else
    let s := { s with spare2_idle_count := s.spare2_idle_count + 1 }
    if s.spare2_idle_count < cfg.cheaper_idle then (0, s)
    else (-1, { s with spare2_idle_count := 0 })

def upsgi_cheaper_algo_backlog (cfg : CheaperConfig) (input : CheaperInput) (can_spawn : Bool)
    (s : Cheaper) : Int × Cheaper :=
  let m := s.master
  let backlog := toInt input.backlog
  if can_spawn ∧ toInt cfg.cheaper_overload < backlog then
    (m.decheapedLoop cfg.cheaper_step m.wids 0, s)
  else if backlog < toInt cfg.cheaper_overload then
    if cfg.cheaper_count < m.active then (-1, s) else (0, s)
  else (0, s)

/-- Only the fifo spawns and stops workers. -/
def upsgi_cheaper_algo_manual (s : Cheaper) : Int × Cheaper :=
  (0, s)

def cheaper_algo (cfg : CheaperConfig) (input : CheaperInput) (can_spawn : Bool) (s : Cheaper) :
    Int × Cheaper :=
  match cfg.cheaper_algo with
  | .spare => upsgi_cheaper_algo_spare cfg input can_spawn s
  | .spare2 => upsgi_cheaper_algo_spare2 cfg input can_spawn s
  | .backlog => upsgi_cheaper_algo_backlog cfg input can_spawn s
  | .manual => upsgi_cheaper_algo_manual s

/-! ### Spawning and stopping -/

/-- The loop that spawns `needed_workers` workers. -/
def spawnLoop (input : CheaperInput) : List Nat → Nat → Master → Master
  | [], _, m => m
  | wid :: wids, needed_workers, m =>
      if m.Spawnable wid then
        let m := m.upsgi_respawn_worker input.now (input.forked wid) wid
        if needed_workers - 1 = 0 then m else spawnLoop input wids (needed_workers - 1) m
      else spawnLoop input wids needed_workers m

/-- One round of the search for the worker that was spawned first: the worker and its time. -/
def olderWorker (m : Master) (busy : Nat → Bool) (oldest : Nat × Nat) (wid : Nat) : Nat × Nat :=
  if m.Active wid ∧ busy wid = false ∧ (m.workers wid).last_spawn < oldest.2 then
    (wid, (m.workers wid).last_spawn)
  else oldest

/-- The oldest idle worker, or 0.  The time starts at `INT_MAX`. -/
def oldestWorker (m : Master) (busy : Nat → Bool) : Nat :=
  (m.wids.foldl (olderWorker m busy) (0, 2147483647)).1

/-- One round of the loop that stops workers. -/
def stopWorker (cfg : CheaperConfig) (now : Nat) (busy : Nat → Bool) (s : Cheaper) : Cheaper :=
  let oldest_worker := oldestWorker s.master busy
  if 0 < oldest_worker then
    { s with
      master := (s.master.modify oldest_worker fun w => { w with cheaped := true }).upsgi_curse
        cfg.master now oldest_worker .sigwinch }
  -- return it to the pool
  else { s with cheaper_fifo_delta := s.cheaper_fifo_delta - 1 }

/-- The loop that stops workers; `phase` counts its rounds. -/
def stopLoop (cfg : CheaperConfig) (input : CheaperInput) : Nat → Nat → Cheaper → Cheaper
  | 0, _, s => s
  | k + 1, phase, s =>
      stopLoop cfg input k (phase + 1) (stopWorker cfg input.now (input.busy phase) s)

/-- The part of `upsgi_calc_cheaper` behind the label `safe`. -/
def adjust (cfg : CheaperConfig) (input : CheaperInput) (needed_workers : Int) (s : Cheaper) :
    Cheaper :=
  if 0 < needed_workers then
    { s with master := spawnLoop input s.master.wids needed_workers.toNat s.master }
  else stopLoop cfg input (-needed_workers).toNat 2 s

/-- The memory limits: how many workers they need, and whether the algorithm is ignored. -/
def rssLimits (cfg : CheaperConfig) (input : CheaperInput) (m : Master) : Int × Bool :=
  if cfg.cheaper_rss_limit_soft ≠ 0 then
    let uncheaped := m.wids.filter fun wid => (m.workers wid).cheaped = false
    let total_rss := (uncheaped.map input.rss_size).sum % 2 ^ 64
    if cfg.cheaper_rss_limit_hard ≠ 0 ∧ 1 < uncheaped.length ∧
        cfg.cheaper_rss_limit_hard ≤ total_rss then (-1, true)
    else if cfg.cheaper_rss_limit_soft ≤ total_rss then (0, true)
    else (0, false)
  else (0, false)

/-- The part of `upsgi_calc_cheaper` before the label `safe`: the workers that are needed. -/
def neededWorkers (cfg : CheaperConfig) (input : CheaperInput) (s : Cheaper) : Int × Cheaper :=
  let (needed_workers, ignore_algo) := rssLimits cfg input s.master
  -- a carried removal or a command of the fifo goes before the algorithm
  if s.cheaper_fifo_delta ≠ 0 then
    (if ignore_algo then needed_workers else s.cheaper_fifo_delta, { s with cheaper_fifo_delta := 0 })
  else
    let (needed_workers, s) :=
      if needed_workers = 0 then cheaper_algo cfg input (!ignore_algo) s else (needed_workers, s)
    (if ignore_algo ∧ 0 < needed_workers then 0 else needed_workers, s)

/-- `upsgi_calc_cheaper` in the master; a new worker does not come back from it. -/
def upsgi_calc_cheaper (cfg : CheaperConfig) (input : CheaperInput) (s : Cheaper) : Cheaper :=
  let last_check := if s.last_check = 0 then input.first else s.last_check
  let check_interval := if cfg.master_interval = 0 then 1 else cfg.master_interval
  if input.now < last_check + check_interval then { s with last_check := last_check }
  else
    let (needed_workers, s) := neededWorkers cfg input { s with last_check := input.now }
    adjust cfg input needed_workers s

end Cheaper

/-! ### Events -/

/-- A call, an event of the master, or a command of the fifo. -/
inductive CheaperEvent where
  | calc_cheaper (input : CheaperInput)
  | master (e : MasterEvent)
  | cheaper_increase
  | cheaper_decrease

open Cheaper in
def cheaperStep (cfg : CheaperConfig) (s : Cheaper) : CheaperEvent → Option Cheaper
  | .calc_cheaper input => some (upsgi_calc_cheaper cfg input s)
  | .master e => (masterStep cfg.master s.master e).map fun m => { s with master := m }
  | .cheaper_increase => some { s with cheaper_fifo_delta := s.cheaper_fifo_delta + 1 }
  | .cheaper_decrease => some { s with cheaper_fifo_delta := s.cheaper_fifo_delta - 1 }

/-! ### The workers that are not cheaped -/

/-- A count loses at most one when one element changes. -/
theorem countP_le_succ {α : Type} {p q : α → Bool} {l : List α} (hl : l.Nodup) (a : α)
    (h : ∀ x, x ≠ a → p x = true → q x = true) : l.countP p ≤ l.countP q + 1 := by
  induction l with
  | nil => exact Nat.zero_le _
  | cons x l ih =>
    obtain ⟨hx, hl⟩ := List.nodup_cons.mp hl
    rw [List.countP_cons, List.countP_cons]
    by_cases hxa : x = a
    · have hrest : l.countP p ≤ l.countP q :=
        List.countP_mono_left fun y hy => h y fun hya => hx (hxa ▸ hya ▸ hy)
      split <;> omega
    · have hrest := ih hl
      have hhead := h x hxa
      split
      · rename_i hp
        rw [if_pos (hhead hp)]
        omega
      · omega

namespace Master

variable {m m' : Master}

/-- No more workers are cheaped. -/
structure Keeps (m m' : Master) : Prop where
  numproc : m'.numproc = m.numproc
  cheaped : ∀ wid, (m'.workers wid).cheaped = true → (m.workers wid).cheaped = true

theorem Keeps.refl (m : Master) : Keeps m m :=
  ⟨rfl, fun _ h => h⟩

theorem Keeps.trans {m'' : Master} (h : Keeps m m') (h' : Keeps m' m'') : Keeps m m'' :=
  ⟨h'.numproc.trans h.numproc, fun wid hwid => h.cheaped wid (h'.cheaped wid hwid)⟩

theorem Keeps.notCheaped (h : Keeps m m') : m.notCheaped ≤ m'.notCheaped := by
  unfold Master.notCheaped wids
  rw [h.numproc]
  refine List.countP_mono_left fun wid _ hwid => decide_eq_true ?_
  refine Bool.eq_false_iff.mpr fun hcheaped => ?_
  exact Bool.eq_false_iff.mp (of_decide_eq_true hwid) (h.cheaped wid hcheaped)

/-- At most one more worker is cheaped. -/
structure KeepsBut (wid : Nat) (m m' : Master) : Prop where
  numproc : m'.numproc = m.numproc
  cheaped : ∀ wid', wid' ≠ wid → (m'.workers wid').cheaped = true →
    (m.workers wid').cheaped = true

theorem KeepsBut.notCheaped {wid : Nat} (h : KeepsBut wid m m') :
    m.notCheaped ≤ m'.notCheaped + 1 := by
  unfold Master.notCheaped wids
  rw [h.numproc]
  refine countP_le_succ List.nodup_range' wid fun wid' hne hwid' => decide_eq_true ?_
  refine Bool.eq_false_iff.mpr fun hcheaped => ?_
  exact Bool.eq_false_iff.mp (of_decide_eq_true hwid') (h.cheaped wid' hne hcheaped)

theorem active_le_notCheaped (m : Master) : m.active ≤ m.notCheaped :=
  List.countP_mono_left fun _ _ hwid => decide_eq_true (of_decide_eq_true hwid).2

/-! ### Events of the master -/

theorem Cursed.keeps {now wid : Nat} {signal : MasterSignal} (h : Cursed now wid signal m m') :
    Keeps m m' := by
  refine ⟨h.numproc, fun wid' hwid' => ?_⟩
  by_cases hwid : wid' = wid
  · obtain ⟨no_mercy_at, hself⟩ := h.self
    rw [hwid, hself] at hwid'
    exact hwid ▸ hwid'
  · rwa [h.others wid' hwid] at hwid'

theorem Respawned.keeps {wid : Nat} (h : Respawned wid m m') : Keeps m m' := by
  refine ⟨h.numproc, fun wid' hwid' => ?_⟩
  by_cases hwid : wid' = wid
  · rw [hwid, h.cheaped] at hwid'
    nomatch hwid'
  · rwa [h.others wid' hwid] at hwid'

theorem MercyOk.keeps {now : Nat} (h : MercyOk now m m') : Keeps m m' := by
  induction h with
  | done m => exact .refl m
  | kill wid halive hcurse h ih => exact hcurse.keeps.trans ih

theorem ChainOk.keeps {now : Nat} (h : ChainOk now m m') : Keeps m m' := by
  cases h with
  | idle h | finished h => exact ⟨rfl, fun _ h => h⟩
  | waits => exact .refl m
  | search hchain hle hbefore h =>
    cases h with
    | none h | waits k hk h hserving hcursed => exact ⟨rfl, fun _ h => h⟩
    | victim k hk h hserving hcursed hcurse => exact ⟨hcurse.keeps.numproc, hcurse.keeps.cheaped⟩

/-- A worker that dies is cheaped if it asked for it. -/
theorem DiedOk.keeps {wid : Nat} {go_cheap : Bool} (h : DiedOk wid go_cheap m m') :
    KeepsBut wid m m' ∧ ((m.workers wid).cheaped = true ∨ go_cheap = false → Keeps m m') := by
  have hothers : ∀ wid', wid' ≠ wid →
      (m.modify wid (buryWorker go_cheap)).workers wid' = m.workers wid' :=
    fun wid' hne => modify_workers_of_ne hne m _
  cases h with
  | cheaped hold =>
    refine ⟨⟨rfl, fun wid' hne => ?_⟩, fun hok => ⟨rfl, fun wid' => ?_⟩⟩
    · rw [hothers wid' hne]
      exact id
    · by_cases hwid : wid' = wid
      · intro _
        rw [hwid]
        rcases hok with hcheaped | hcode
        · exact hcheaped
        · exact hold.resolve_right (fun h => nomatch hcode.symm.trans h)
      · rw [hothers wid' hwid]
        exact id
  | respawned hold hcode hrespawned =>
    obtain ⟨hworkers, hnumproc, -, -⟩ := passWorker_frame (m.modify wid (buryWorker go_cheap)) wid
    have hkeeps : Keeps m m' := by
      refine ⟨hrespawned.numproc.trans hnumproc, fun wid' hwid' => ?_⟩
      by_cases hwid : wid' = wid
      · rw [hwid, hrespawned.cheaped] at hwid'
        nomatch hwid'
      · rw [hrespawned.others wid' hwid, hworkers] at hwid'
        rwa [hothers wid' hwid] at hwid'
    exact ⟨⟨hkeeps.numproc, fun wid' _ => hkeeps.cheaped wid'⟩, fun _ => hkeeps⟩

/-- Only a worker that asks for cheap mode is lost. -/
theorem masterStep_keeps {cfg : MasterConfig} {e : MasterEvent}
    (hstep : masterStep cfg m e = some m') :
    Keeps m m' ∨ ∃ wid forked now, e = .died wid true forked now ∧
      (m.workers wid).cheaped = false ∧ KeepsBut wid m m' := by
  cases masterStep_ok hstep with
  | begins h => exact .inl ⟨rfl, fun _ h => h⟩
  | runs h => exact .inl (.refl m)
  | check_chain hnow h | check_mercy hnow h | respawn h => exact .inl h.keeps
  | @died wid now go_cheap forked _ hpos h =>
    by_cases hok : (m.workers wid).cheaped = true ∨ go_cheap = false
    · exact .inl (h.keeps.2 hok)
    · obtain ⟨hcheaped, hcode⟩ := not_or.mp hok
      obtain rfl := Bool.not_eq_false _ ▸ hcode
      exact .inr ⟨wid, forked, now, rfl, Bool.eq_false_iff.mpr hcheaped, h.keeps.1⟩
  | ready wid =>
    refine .inl ⟨rfl, fun wid' hwid' => ?_⟩
    by_cases hwid : wid' = wid
    · rw [hwid, modify_workers_self] at hwid'
      exact hwid ▸ hwid'
    · rwa [modify_workers_of_ne hwid] at hwid'

end Master

namespace Cheaper

variable {cfg : CheaperConfig} {input : CheaperInput} {s : Cheaper}

/-! ### The algorithms -/

/-- What an algorithm answers: it leaves the workers and the carried removals alone, and it
    stops one worker only if more than `cheaper_count` are alive. -/
structure Answers (cfg : CheaperConfig) (s : Cheaper) (answer : Int × Cheaper) : Prop where
  master : answer.2.master = s.master
  delta : answer.2.cheaper_fifo_delta = s.cheaper_fifo_delta
  needed : 0 ≤ answer.1 ∨ answer.1 = -1 ∧ cfg.cheaper_count < s.master.active

theorem spare_answers (can_spawn : Bool) :
    Answers cfg s (upsgi_cheaper_algo_spare cfg input can_spawn s) := by
  unfold upsgi_cheaper_algo_spare
  dsimp only
  have hmaster : (countOverload input s).master = s.master ∧
      (countOverload input s).cheaper_fifo_delta = s.cheaper_fifo_delta := by
    unfold countOverload
    split <;> exact ⟨rfl, rfl⟩
  split
  · exact ⟨hmaster.1, hmaster.2, .inl (Int.natCast_nonneg _)⟩
  · split
    · split
      · exact ⟨hmaster.1, hmaster.2, .inl (Int.le_refl 0)⟩
      · split
        · rename_i hstop
          exact ⟨hmaster.1, hmaster.2, .inr ⟨rfl, hstop.1⟩⟩
        · exact ⟨hmaster.1, hmaster.2, .inl (Int.le_refl 0)⟩
    · exact ⟨hmaster.1, hmaster.2, .inl (Int.le_refl 0)⟩

theorem spare2_answers (can_spawn : Bool) :
    Answers cfg s (upsgi_cheaper_algo_spare2 cfg input can_spawn s) := by
  unfold upsgi_cheaper_algo_spare2
  dsimp only
  have hidle : (s.master.wids.countP fun wid =>
      decide (s.master.Active wid ∧ input.busy 0 wid = false)) ≤ s.master.active :=
    List.countP_mono_left fun _ _ hwid => decide_eq_true (of_decide_eq_true hwid).1
  generalize (s.master.wids.countP fun wid =>
    decide (s.master.Active wid ∧ input.busy 0 wid = false)) = idle_workers at hidle
  split
  · split
    · exact ⟨rfl, rfl, .inl (Int.natCast_nonneg _)⟩
    · exact ⟨rfl, rfl, .inl (Int.le_refl 0)⟩
  · split
    · exact ⟨rfl, rfl, .inl (Int.le_refl 0)⟩
    · split
      · exact ⟨rfl, rfl, .inl (Int.le_refl 0)⟩
      · exact ⟨rfl, rfl, .inr ⟨rfl, by omega⟩⟩

theorem backlog_answers (can_spawn : Bool) :
    Answers cfg s (upsgi_cheaper_algo_backlog cfg input can_spawn s) := by
  unfold upsgi_cheaper_algo_backlog
  dsimp only
  split
  · exact ⟨rfl, rfl, .inl (Int.natCast_nonneg _)⟩
  · split
    · split
      · rename_i hstop
        exact ⟨rfl, rfl, .inr ⟨rfl, hstop⟩⟩
      · exact ⟨rfl, rfl, .inl (Int.le_refl 0)⟩
    · exact ⟨rfl, rfl, .inl (Int.le_refl 0)⟩

theorem cheaper_algo_answers (cfg : CheaperConfig) (input : CheaperInput) (can_spawn : Bool)
    (s : Cheaper) : Answers cfg s (cheaper_algo cfg input can_spawn s) := by
  unfold cheaper_algo
  split
  · exact spare_answers can_spawn
  · exact spare2_answers can_spawn
  · exact backlog_answers can_spawn
  · exact ⟨rfl, rfl, .inl (Int.le_refl 0)⟩

/-! ### A call -/

theorem spawnLoop_keeps (input : CheaperInput) (wids : List Nat) (needed_workers : Nat)
    (m : Master) : Master.Keeps m (spawnLoop input wids needed_workers m) := by
  induction wids generalizing needed_workers m with
  | nil => exact .refl m
  | cons wid wids ih =>
    unfold spawnLoop
    split
    · rename_i hspawnable
      have hkeeps := (@Master.respawn_respawned input.now m wid hspawnable.2
        (input.forked wid)).keeps
      split
      · exact hkeeps
      · exact hkeeps.trans (ih _ _)
    · exact ih _ _

/-- A removal cheaps one worker, or it is carried over. -/
theorem stopWorker_spec (cfg : CheaperConfig) (now : Nat) (busy : Nat → Bool) (s : Cheaper) :
    (∃ wid, Master.KeepsBut wid s.master (stopWorker cfg now busy s).master) ∧
        (stopWorker cfg now busy s).cheaper_fifo_delta = s.cheaper_fifo_delta ∨
      stopWorker cfg now busy s = { s with cheaper_fifo_delta := s.cheaper_fifo_delta - 1 } := by
  unfold stopWorker
  dsimp only
  generalize oldestWorker s.master busy = oldest
  split
  · refine .inl ⟨⟨oldest, ?_⟩, rfl⟩
    have hcurse := (Master.curse_cursed cfg.master now
      (s.master.modify oldest fun w => { w with cheaped := true }) oldest .sigwinch).keeps
    refine ⟨hcurse.numproc, fun wid hne hwid => ?_⟩
    have hwid := hcurse.cheaped wid hwid
    rwa [Master.modify_workers_of_ne hne] at hwid
  · exact .inr rfl

/-- There is at most one carried removal, and then there are more than `cheaper_count` workers
    left. -/
structure Covered (cfg : CheaperConfig) (s : Cheaper) : Prop where
  delta : s.cheaper_fifo_delta = 0 ∨ s.cheaper_fifo_delta = -1
  floor : s.cheaper_fifo_delta = -1 → cfg.cheaper_count < s.master.notCheaped

/-- A state that is not below the floor, or not below a state before. -/
structure CalcOk (cfg : CheaperConfig) (s s' : Cheaper) : Prop where
  covered : Covered cfg s'
  floor : min cfg.cheaper_count s.master.notCheaped ≤ s'.master.notCheaped

theorem adjust_ok {needed_workers : Int} (hdelta : s.cheaper_fifo_delta = 0)
    (hneeded : 0 ≤ needed_workers ∨
      needed_workers = -1 ∧ cfg.cheaper_count < s.master.notCheaped) :
    CalcOk cfg s (adjust cfg input needed_workers s) := by
  unfold adjust
  split
  · have hkeeps := (spawnLoop_keeps input s.master.wids needed_workers.toNat s.master).notCheaped
    exact ⟨⟨.inl hdelta, fun h => nomatch hdelta.symm.trans h⟩, Nat.le_trans (Nat.min_le_right _ _) hkeeps⟩
  · rename_i hpos
    rcases hneeded with hzero | ⟨rfl, hmore⟩
    · obtain rfl : needed_workers = 0 := by omega
      exact ⟨⟨.inl hdelta, fun h => nomatch hdelta.symm.trans h⟩, Nat.min_le_right _ _⟩
    · show CalcOk cfg s (stopWorker cfg input.now (input.busy 2) s)
      rcases stopWorker_spec cfg input.now (input.busy 2) s with ⟨⟨wid, hkeeps⟩, hsame⟩ | hcarried
      · have hlost := hkeeps.notCheaped
        refine ⟨⟨.inl (hsame.trans hdelta), fun h => ?_⟩, by omega⟩
        nomatch (hsame.trans hdelta).symm.trans h
      · rw [hcarried]
        exact ⟨⟨.inr (by dsimp only; omega), fun _ => hmore⟩, Nat.min_le_right _ _⟩

/-- What is needed without memory limits: a removal only with more than `cheaper_count`
    workers. -/
theorem neededWorkers_spec (hrss : cfg.cheaper_rss_limit_soft = 0) (hs : Covered cfg s) :
    (neededWorkers cfg input s).2.master = s.master ∧
      (neededWorkers cfg input s).2.cheaper_fifo_delta = 0 ∧
      (0 ≤ (neededWorkers cfg input s).1 ∨
        (neededWorkers cfg input s).1 = -1 ∧ cfg.cheaper_count < s.master.notCheaped) := by
  have hlimits : rssLimits cfg input s.master = (0, false) := by
    unfold rssLimits
    rw [if_neg (not_not.mpr hrss)]
  unfold neededWorkers
  rw [hlimits]
  dsimp only
  by_cases hcarried : s.cheaper_fifo_delta ≠ 0
  · rw [if_pos hcarried, if_neg nofun]
    have hdelta := hs.delta.resolve_left hcarried
    exact ⟨rfl, rfl, .inr ⟨hdelta, hs.floor hdelta⟩⟩
  · rw [if_neg hcarried, if_pos rfl, if_neg (fun h => nomatch h.1)]
    obtain ⟨hmaster, hdelta, hneeded⟩ := cheaper_algo_answers cfg input true s
    refine ⟨hmaster, hdelta.trans (not_not.mp hcarried), hneeded.imp_right fun ⟨hminus, hmore⟩ => ?_⟩
    exact ⟨hminus, Nat.lt_of_lt_of_le hmore (Master.active_le_notCheaped _)⟩

theorem calc_cheaper_ok (hrss : cfg.cheaper_rss_limit_soft = 0) (hs : Covered cfg s) :
    CalcOk cfg s (upsgi_calc_cheaper cfg input s) := by
  unfold upsgi_calc_cheaper
  dsimp only
  generalize (if s.last_check = 0 then input.first else s.last_check) = last_check
  generalize (if cfg.master_interval = 0 then 1 else cfg.master_interval) = check_interval
  split
  · exact ⟨⟨hs.delta, hs.floor⟩, Nat.min_le_right _ _⟩
  · have hs' : Covered cfg { s with last_check := input.now } := ⟨hs.delta, hs.floor⟩
    obtain ⟨hmaster, hdelta, hneeded⟩ := @neededWorkers_spec cfg input _ hrss hs'
    have hok := @adjust_ok cfg input _ _ hdelta
      (hneeded.imp_right fun ⟨hminus, hmore⟩ => ⟨hminus, by rw [hmaster]; exact hmore⟩)
    refine ⟨hok.covered, ?_⟩
    have hfloor := hok.floor
    rwa [hmaster] at hfloor

/-- A worker asks for cheap mode while a removal is carried over only if the floor is safe
    without both, and there are no commands of the fifo. -/
def FloorSafe (cfg : CheaperConfig) (s : Cheaper) : CheaperEvent → Prop
  | .calc_cheaper _ => True
  | .master (.died wid true _ _) => s.cheaper_fifo_delta ≠ 0 →
      (s.master.workers wid).cheaped = false → cfg.cheaper_count + 2 ≤ s.master.notCheaped
  | .master _ => True
  | .cheaper_increase => False
  | .cheaper_decrease => False

theorem cheaperStep_covered {s' : Cheaper} {e : CheaperEvent}
    (hrss : cfg.cheaper_rss_limit_soft = 0) (hs : Covered cfg s) (hok : FloorSafe cfg s e)
    (hstep : cheaperStep cfg s e = some s') : Covered cfg s' := by
  cases e with
  | calc_cheaper input => exact Option.some.inj hstep ▸ (calc_cheaper_ok hrss hs).covered
  | master e =>
    obtain ⟨m, hm, rfl⟩ := Option.map_eq_some_iff.mp hstep
    refine ⟨hs.delta, fun hdelta => ?_⟩
    have hfloor := hs.floor hdelta
    rcases Master.masterStep_keeps hm with hkeeps | ⟨wid, forked, now, rfl, hcheaped, hkeeps⟩
    · exact Nat.lt_of_lt_of_le hfloor hkeeps.notCheaped
    · have hlost := hkeeps.notCheaped
      have hdelta : s.cheaper_fifo_delta ≠ 0 := by
        have hdelta : s.cheaper_fifo_delta = -1 := hdelta
        omega
      have hsafe : cfg.cheaper_count + 2 ≤ s.master.notCheaped := hok hdelta hcheaped
      show cfg.cheaper_count < m.notCheaped
      omega
  | cheaper_increase | cheaper_decrease => exact hok.elim

/-- A call never brings the workers that are not cheaped below `cheaper_count`, whatever the
    workers do between the calls, as long as none asks for cheap mode when its absence and the
    carried removal together are too much. -/
theorem calc_cheaper_floor (cfg : CheaperConfig) (hrss : cfg.cheaper_rss_limit_soft = 0)
    (s₀ s s' : Cheaper) (hinit : s₀.cheaper_fifo_delta = 0)
    (hreach : Machine.ReachableVia (cheaperStep cfg) (FloorSafe cfg) s₀ s) (input : CheaperInput)
    (hcalc : cheaperStep cfg s (.calc_cheaper input) = some s')
    (hfloor : cfg.cheaper_count ≤ s.master.notCheaped) :
    cfg.cheaper_count ≤ s'.master.notCheaped := by
  have hcovered : Covered cfg s := by
    refine hreach.invariant (Covered cfg) ⟨.inl hinit, fun h => nomatch hinit.symm.trans h⟩ ?_
    exact fun _ _ _ hs hok hstep => cheaperStep_covered hrss hs hok hstep
  have hok := (@calc_cheaper_ok cfg input s hrss hcovered).floor
  cases hcalc
  omega

/-- One worker should stay, and each check may stop one. -/
def oneStays (cheaper_algo : CheaperAlgo) : CheaperConfig :=
  { cheaper_algo, cheaper_count := 1, cheaper_step := 1, cheaper_overload := 1, cheaper_idle := 1
    master_interval := 1, master := ⟨60, 0⟩, count_pos := Nat.one_pos, overload_pos := Nat.one_pos }

/-- A call in which the workers are idle for the first loop of the algorithm, and idle or busy
    later. -/
def idleFirst (now : Nat) (later : Bool) : CheaperInput :=
  { first := now, now, busy := fun phase _ => decide (0 < phase) && later, backlog := 0
    rss_size := fun _ => 0, forked := fun _ => true }

/-- Two workers, the second is stopped after a removal that found no idle worker. -/
theorem calc_cheaper_floor_two : ∃ s s',
    Machine.ReachableVia (cheaperStep (oneStays .backlog)) (FloorSafe (oneStays .backlog))
      { master := Master.allServing 2, last_check := 10 } s ∧
    cheaperStep (oneStays .backlog) s (.calc_cheaper (idleFirst 12 false)) = some s' ∧
    s.cheaper_fifo_delta = -1 ∧ s'.master.notCheaped < s.master.notCheaped ∧
    1 ≤ s'.master.notCheaped := by
  have hinit : Machine.ReachableVia (cheaperStep (oneStays .backlog)) (FloorSafe (oneStays .backlog))
    { master := Master.allServing 2, last_check := 10 }
    { master := Master.allServing 2, last_check := 10 } := .init
  have hcarried := hinit.step (CheaperEvent.calc_cheaper (idleFirst 11 true)) trivial rfl
  refine ⟨_, _, hcarried, rfl, by decide, by decide, ?_⟩
  exact calc_cheaper_floor (oneStays .backlog) rfl _ _ _ rfl hcarried (idleFirst 12 false) rfl
    (by decide)

/-- The last worker is stopped: the removal of one of two workers is carried over, the other
    asks for cheap mode, and then the removal is carried out. -/
def StopsLast (algo : CheaperAlgo) : Prop :=
  ∃ s s', Machine.run (cheaperStep (oneStays algo))
      { master := Master.allServing 2, last_check := 10 }
      [.calc_cheaper (idleFirst 11 true), .master (.died 2 true true 11)] = some s ∧
    cheaperStep (oneStays algo) s (.calc_cheaper (idleFirst 12 false)) = some s' ∧
    s.master.notCheaped = 1 ∧ s'.master.notCheaped = 0

theorem calc_cheaper_below_floor : StopsLast .spare ∧ StopsLast .spare2 ∧ StopsLast .backlog := by
  refine ⟨⟨_, _, rfl, rfl, ?_⟩, ⟨_, _, rfl, rfl, ?_⟩, ⟨_, _, rfl, rfl, ?_⟩⟩ <;> decide

end Cheaper

end Upsgi
