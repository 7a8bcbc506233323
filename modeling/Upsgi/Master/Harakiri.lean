import Mathlib

/-! # Harakiri

    The master looks once in a while for workers with a core whose deadline has passed.
    With a graceful timeout the first signal to such a worker is a graceful one, and the
    worker is killed when a deadline has passed in a later check: `trigger_harakiri` of
    `core/master_utils.c`, `upsgi_master_check_harakiri` and
    `upsgi_master_check_workers_deadline` of `core/master_checks.c`.

    Workers stay alive and do not change their deadlines meanwhile.  The limits for memory and
    lifetime, which do not look at deadlines, are left out.
-/

namespace Upsgi

open List

/-! ### State -/

/-- The deadlines of a core, 0 when there is none. -/
structure HarakiriCore where
  harakiri : Nat
  user_harakiri : Nat
  deriving DecidableEq, Repr

inductive HarakiriSignal where
  /-- `harakiri_graceful_signal`. -/
  | graceful
  /-- `SIGKILL`. -/
  | kill
  deriving DecidableEq, Repr

/-- A worker with `n` cores.  `sent` is not a field of the source: the signals it was sent,
    with their times. -/
structure HarakiriWorker (n : Nat) where
  pid : Int
  pending_harakiri : Nat := 0
  harakiri_count : Nat := 0
  cores : Fin n → HarakiriCore
  sent : List (Nat × HarakiriSignal) := []

structure HarakiriConfig where
  harakiri_graceful_timeout : Nat
  harakiri_queue_threshold : Int
  deriving DecidableEq, Repr

/-- What a check of the master sees. -/
structure DeadlineCheck where
  current_time : Nat
  backlog : Int
  deriving DecidableEq, Repr

/-! ### Functions -/

variable {n : Nat}

namespace HarakiriWorker

def trigger_harakiri (cfg : HarakiriConfig) (now : Nat) (w : HarakiriWorker n) : HarakiriWorker n :=
  if 0 < w.pid then
    let signal := if w.pending_harakiri = 0 ∧ 0 < cfg.harakiri_graceful_timeout then
      HarakiriSignal.graceful else .kill
    { w with
      sent := w.sent ++ [(now, signal)]
      harakiri_count := if w.pending_harakiri = 0 then w.harakiri_count + 1 else w.harakiri_count
      pending_harakiri := w.pending_harakiri + 1 }
  else w

/-- The signal, and the next deadline: it counts from the last one, and it is always that of
    the core, also when `harakiri` is that of the user. -/
def fire (cfg : HarakiriConfig) (now : Nat) (w : HarakiriWorker n) (c : Fin n) (harakiri : Nat) :
    HarakiriWorker n :=
  let w := w.trigger_harakiri cfg now
  if 0 < cfg.harakiri_graceful_timeout then
    { w with
      cores := Function.update w.cores c
        { w.cores c with harakiri := harakiri + cfg.harakiri_graceful_timeout } }
  else w

def upsgi_master_check_harakiri (cfg : HarakiriConfig) (check : DeadlineCheck)
    (w : HarakiriWorker n) (c : Fin n) (harakiri : Nat) : Bool × HarakiriWorker n :=
  if harakiri = 0 ∨ check.current_time < harakiri then (false, w)
  else if w.pending_harakiri = 0 ∧ check.backlog < cfg.harakiri_queue_threshold then (false, w)
  else (true, w.fire cfg check.current_time c harakiri)

/-- The loop over the cores of a worker. -/
def checkCores (cfg : HarakiriConfig) (check : DeadlineCheck) :
    List (Fin n) → HarakiriWorker n → Bool × HarakiriWorker n
  | [], w => (false, w)
  | c :: cs, w =>
      match upsgi_master_check_harakiri cfg check w c (w.cores c).harakiri with
      | (true, w) => (true, w)
      | (false, w) =>
          match upsgi_master_check_harakiri cfg check w c (w.cores c).user_harakiri with
          | (true, w) => (true, w)
          | (false, w) => checkCores cfg check cs w

def checkWorker (cfg : HarakiriConfig) (w : HarakiriWorker n) (check : DeadlineCheck) :
    HarakiriWorker n :=
  (checkCores cfg check (List.finRange n) w).2

end HarakiriWorker

/-- `upsgi_master_check_workers_deadline`, and whether a worker was signalled. -/
def upsgi_master_check_workers_deadline (cfg : HarakiriConfig) (workers : List (HarakiriWorker n))
    (check : DeadlineCheck) : Bool × List (HarakiriWorker n) :=
  (workers.any fun w => (w.checkCores cfg check (List.finRange n)).1,
    workers.map fun w => w.checkWorker cfg check)

/-- The workers after a sequence of checks. -/
def deadlineRun (cfg : HarakiriConfig) (workers : List (HarakiriWorker n))
    (checks : List DeadlineCheck) : List (HarakiriWorker n) :=
  checks.foldl (fun workers check => (upsgi_master_check_workers_deadline cfg workers check).2)
    workers

/-- No worker knows about the others. -/
theorem deadlineRun_get (cfg : HarakiriConfig) (workers : List (HarakiriWorker n))
    (checks : List DeadlineCheck) (i : Nat) :
    (deadlineRun cfg workers checks)[i]? =
      workers[i]?.map fun w => checks.foldl (HarakiriWorker.checkWorker cfg) w := by
  induction checks generalizing workers with
  | nil =>
    show workers[i]? = workers[i]?.map fun w => w
    rw [Option.map_id']
  | cons check checks ih =>
    show (deadlineRun cfg (workers.map fun w => w.checkWorker cfg check) checks)[i]? = _
    rw [ih, getElem?_map, Option.map_map]
    rfl

/-! ### One check -/

namespace HarakiriWorker

variable {cfg : HarakiriConfig} {check : DeadlineCheck} {w w' : HarakiriWorker n}

/-- The deadline is set and has passed. -/
def Due (now deadline : Nat) : Prop :=
  deadline ≠ 0 ∧ deadline ≤ now

/-- The check goes on to the signal when a deadline is due. -/
def Active (cfg : HarakiriConfig) (w : HarakiriWorker n) (check : DeadlineCheck) : Prop :=
  w.pending_harakiri ≠ 0 ∨ cfg.harakiri_queue_threshold ≤ check.backlog

/-- What a check of some cores can do. -/
inductive CheckedOk (cfg : HarakiriConfig) (check : DeadlineCheck) (cs : List (Fin n))
    (w : HarakiriWorker n) : HarakiriWorker n → Prop where
  | quiet (h : Active cfg w check → ∀ c ∈ cs, ¬Due check.current_time (w.cores c).harakiri ∧
      ¬Due check.current_time (w.cores c).user_harakiri) : CheckedOk cfg check cs w w
  | core {c : Fin n} (hc : c ∈ cs) (hactive : Active cfg w check)
      (hdue : Due check.current_time (w.cores c).harakiri) :
      CheckedOk cfg check cs w (w.fire cfg check.current_time c (w.cores c).harakiri)
  | user {c : Fin n} (hc : c ∈ cs) (hactive : Active cfg w check)
      (hdue : Due check.current_time (w.cores c).user_harakiri) :
      CheckedOk cfg check cs w (w.fire cfg check.current_time c (w.cores c).user_harakiri)

theorem check_harakiri_eq (cfg : HarakiriConfig) (check : DeadlineCheck) (w : HarakiriWorker n)
    (c : Fin n) (harakiri : Nat) :
    (Due check.current_time harakiri ∧ Active cfg w check ∧
      upsgi_master_check_harakiri cfg check w c harakiri =
        (true, w.fire cfg check.current_time c harakiri)) ∨
    ((Active cfg w check → ¬Due check.current_time harakiri) ∧
      upsgi_master_check_harakiri cfg check w c harakiri = (false, w)) := by
  unfold upsgi_master_check_harakiri Due Active
  split
  · exact .inr ⟨fun _ hdue => by omega, rfl⟩
  · split
    · exact .inr ⟨fun hactive => by omega, rfl⟩
    · exact .inl ⟨by omega, by omega, rfl⟩

theorem checkCores_ok (cfg : HarakiriConfig) (check : DeadlineCheck) (cs : List (Fin n))
    (w : HarakiriWorker n) : CheckedOk cfg check cs w (checkCores cfg check cs w).2 := by
  induction cs with
  | nil => exact .quiet nofun
  | cons c cs ih =>
    unfold checkCores
    rcases check_harakiri_eq cfg check w c (w.cores c).harakiri with
      ⟨hdue, hactive, heq⟩ | ⟨hcore, heq⟩
    · rw [heq]
      exact .core mem_cons_self hactive hdue
    rw [heq]
    rcases check_harakiri_eq cfg check w c (w.cores c).user_harakiri with
      ⟨hdue, hactive, heq⟩ | ⟨huser, heq⟩
    · dsimp only
      rw [heq]
      exact .user mem_cons_self hactive hdue
    dsimp only
    rw [heq]
    generalize (checkCores cfg check cs w).2 = w' at ih
    cases ih with
    | quiet h =>
      refine .quiet fun hactive c' hc' => ?_
      rcases mem_cons.mp hc' with rfl | hc'
      · exact ⟨hcore hactive, huser hactive⟩
      · exact h hactive c' hc'
    | core hc hactive hdue => exact .core (mem_cons_of_mem c hc) hactive hdue
    | user hc hactive hdue => exact .user (mem_cons_of_mem c hc) hactive hdue

theorem checkWorker_ok (cfg : HarakiriConfig) (w : HarakiriWorker n) (check : DeadlineCheck) :
    CheckedOk cfg check (List.finRange n) w (w.checkWorker cfg check) :=
  checkCores_ok cfg check _ w

/-! ### The signals of a worker -/

variable {limit : Nat}

section Grace

variable {c : Fin n} {harakiri : Nat}

/-- What the signal leaves of a worker that is alive. -/
structure Fired (cfg : HarakiriConfig) (now : Nat) (w : HarakiriWorker n) (c : Fin n)
    (harakiri : Nat) (w' : HarakiriWorker n) : Prop where
  pid : w'.pid = w.pid
  pending : w'.pending_harakiri = w.pending_harakiri + 1
  cores : w'.cores = Function.update w.cores c
    { w.cores c with harakiri := harakiri + cfg.harakiri_graceful_timeout }
  first : w.pending_harakiri = 0 → w'.sent = w.sent ++ [(now, .graceful)]
  again : w.pending_harakiri ≠ 0 → w'.sent = w.sent ++ [(now, .kill)]

theorem fire_fired (hpid : 0 < w.pid) (hg : 0 < cfg.harakiri_graceful_timeout) (now : Nat)
    (c : Fin n) (harakiri : Nat) : Fired cfg now w c harakiri (w.fire cfg now c harakiri) := by
  unfold fire trigger_harakiri
  rw [if_pos hpid, if_pos hg]
  refine ⟨rfl, rfl, rfl, fun hnew => ?_, fun hpending => ?_⟩
  · rw [if_pos ⟨hnew, hg⟩]
  · rw [if_neg (fun hnew => hpending hnew.1)]

/-- No deadline is set for a time before `limit`. -/
def Later (limit deadline : Nat) : Prop :=
  deadline = 0 ∨ limit ≤ deadline

def AllLater (limit : Nat) (cores : Fin n → HarakiriCore) : Prop :=
  ∀ c, Later limit (cores c).harakiri ∧ Later limit (cores c).user_harakiri

theorem Later.of_due {deadline now : Nat} (h : Later limit deadline) (hdue : Due now deadline) :
    limit ≤ deadline :=
  h.resolve_left hdue.1

/-- One core has a new deadline. -/
theorem allLater_update {cores : Fin n → HarakiriCore} :
    AllLater limit (Function.update cores c { cores c with harakiri := harakiri }) ↔
      Later limit harakiri ∧ ∀ c', (c' ≠ c → Later limit (cores c').harakiri) ∧
        Later limit (cores c').user_harakiri := by
  constructor
  · intro h
    have hself := h c
    rw [Function.update_self] at hself
    refine ⟨hself.1, fun c' => ?_⟩
    by_cases hc : c' = c
    · exact ⟨fun hne => absurd hc hne, hc ▸ hself.2⟩
    · have hother := h c'
      rw [Function.update_of_ne hc] at hother
      exact ⟨fun _ => hother.1, hother.2⟩
  · rintro ⟨hnext, h⟩ c'
    by_cases hc : c' = c
    · rw [hc, Function.update_self]
      exact ⟨hnext, (h c).2⟩
    · rw [Function.update_of_ne hc]
      exact ⟨(h c').1 hc, (h c').2⟩

/-- A signalled worker without a deadline before `limit`: it is killed from then on only. -/
structure Spared (limit : Nat) (w : HarakiriWorker n) : Prop where
  alive : 0 < w.pid
  pending : w.pending_harakiri ≠ 0
  deadlines : AllLater limit w.cores

theorem Spared.fire {now : Nat} (h : Spared limit w) (hg : 0 < cfg.harakiri_graceful_timeout)
    (hdue : Due now harakiri) (hlater : Later limit harakiri) :
    Spared limit (w.fire cfg now c harakiri) ∧ limit ≤ now ∧
      (w.fire cfg now c harakiri).sent = w.sent ++ [(now, .kill)] := by
  have hlimit := hlater.of_due hdue
  have hfired := fire_fired h.alive hg now c harakiri
  refine ⟨⟨hfired.pid ▸ h.alive, ?_, ?_⟩, Nat.le_trans hlimit hdue.2, hfired.again h.pending⟩
  · rw [hfired.pending]
    exact Nat.succ_ne_zero _
  · rw [hfired.cores, allLater_update]
    exact ⟨.inr (Nat.le_trans hlimit (Nat.le_add_right _ _)),
      fun c' => ⟨fun _ => (h.deadlines c').1, (h.deadlines c').2⟩⟩

section

variable (h : Spared limit w) (hg : 0 < cfg.harakiri_graceful_timeout)
include h hg

/-- A check sends such a worker nothing, or kills it behind the limit. -/
theorem Spared.checked (check : DeadlineCheck) :
    Spared limit (w.checkWorker cfg check) ∧
      ((w.checkWorker cfg check).sent = w.sent ∨
        limit ≤ check.current_time ∧
          (w.checkWorker cfg check).sent = w.sent ++ [(check.current_time, .kill)]) := by
  have hok := checkWorker_ok cfg w check
  generalize w.checkWorker cfg check = w' at hok
  cases hok with
  | quiet _ => exact ⟨h, .inl rfl⟩
  | @core c _ _ hdue =>
    obtain ⟨hspared, hsent⟩ := h.fire (c := c) hg hdue (h.deadlines c).1
    exact ⟨hspared, .inr hsent⟩
  | @user c _ _ hdue =>
    obtain ⟨hspared, hsent⟩ := h.fire (c := c) hg hdue (h.deadlines c).2
    exact ⟨hspared, .inr hsent⟩

theorem Spared.run (checks : List DeadlineCheck) :
    ∃ kills, (checks.foldl (checkWorker cfg) w).sent = w.sent ++ kills ∧
      ∀ k ∈ kills, limit ≤ k.1 ∧ k.2 = .kill := by
  induction checks generalizing w with
  | nil => exact ⟨[], (append_nil _).symm, nofun⟩
  | cons check checks ih =>
    obtain ⟨hspared, hsent⟩ := h.checked hg check
    obtain ⟨kills, hkills, hlimit⟩ := ih hspared
    rcases hsent with hsent | ⟨hle, hsent⟩
    · exact ⟨kills, by rw [foldl_cons, hkills, hsent], hlimit⟩
    · refine ⟨(check.current_time, .kill) :: kills, ?_, ?_⟩
      · rw [foldl_cons, hkills, hsent, append_assoc]
        rfl
      · exact forall_mem_cons.mpr ⟨⟨hle, rfl⟩, hlimit⟩

end

/-- A signalled worker with a deadline that has passed is killed at once. -/
theorem check_kills (hpid : 0 < w.pid) (hg : 0 < cfg.harakiri_graceful_timeout)
    (hpending : w.pending_harakiri ≠ 0) {check : DeadlineCheck}
    (hdue : Due check.current_time (w.cores c).harakiri ∨
      Due check.current_time (w.cores c).user_harakiri) :
    (w.checkWorker cfg check).sent = w.sent ++ [(check.current_time, .kill)] := by
  have hok := checkWorker_ok cfg w check
  generalize w.checkWorker cfg check = w' at hok
  cases hok with
  | quiet h =>
    obtain ⟨hcore, huser⟩ := h (.inl hpending) c (mem_finRange c)
    exact absurd hdue (not_or.mpr ⟨hcore, huser⟩)
  | core _ _ _ | user _ _ _ => exact (fire_fired hpid hg _ _ _).again hpending

/-- The worker is killed at the earliest `g` seconds after it got the graceful signal. -/
def GracePeriod (g : Nat) (sent : List (Nat × HarakiriSignal)) : Prop :=
  sent.Pairwise fun a b => a.2 = .graceful → b.2 = .kill → a.1 + g ≤ b.1

/-- At the time of the graceful signal, one core has its deadline in this very second, and no
    other deadline, of a core or of the user, is less than `g` seconds away. -/
def OnTime (g now : Nat) (w : HarakiriWorker n) : Prop :=
  ∃ c, (w.cores c).harakiri = now ∧ ∀ c',
    (c' ≠ c → Later (now + g) (w.cores c').harakiri) ∧ Later (now + g) (w.cores c').user_harakiri

/-- The first signal of a worker is sent by this check. -/
def Signals (cfg : HarakiriConfig) (w : HarakiriWorker n) (check : DeadlineCheck) : Prop :=
  Active cfg w check ∧ ∃ c, Due check.current_time (w.cores c).harakiri ∨
    Due check.current_time (w.cores c).user_harakiri

theorem check_of_not_signals (h : ¬Signals cfg w check) : w.checkWorker cfg check = w := by
  have hok := checkWorker_ok cfg w check
  generalize w.checkWorker cfg check = w' at hok
  cases hok with
  | quiet _ => rfl
  | @core c _ hactive hdue => exact absurd ⟨hactive, c, .inl hdue⟩ h
  | @user c _ hactive hdue => exact absurd ⟨hactive, c, .inr hdue⟩ h

theorem checks_of_not_signals {before : List DeadlineCheck}
    (h : ∀ check ∈ before, ¬Signals cfg w check) : before.foldl (checkWorker cfg) w = w := by
  induction before with
  | nil => rfl
  | cons check before ih =>
    obtain ⟨hfirst, hrest⟩ := forall_mem_cons.mp h
    rw [foldl_cons, check_of_not_signals hfirst]
    exact ih hrest

/-- The first signal of a worker leaves no deadline before the end of the grace period
    exactly when it is sent on time. -/
theorem signals_first (hpid : 0 < w.pid) (hg : 0 < cfg.harakiri_graceful_timeout)
    (hnew : w.pending_harakiri = 0) (h : Signals cfg w check) :
    0 < (w.checkWorker cfg check).pid ∧ (w.checkWorker cfg check).pending_harakiri ≠ 0 ∧
      (w.checkWorker cfg check).sent = w.sent ++ [(check.current_time, .graceful)] ∧
      (AllLater (check.current_time + cfg.harakiri_graceful_timeout)
          (w.checkWorker cfg check).cores ↔
        OnTime cfg.harakiri_graceful_timeout check.current_time w) := by
  have hok := checkWorker_ok cfg w check
  generalize w.checkWorker cfg check = w' at hok
  cases hok with
  | quiet hquiet =>
    obtain ⟨hactive, c, hdue⟩ := h
    obtain ⟨hcore, huser⟩ := hquiet hactive c (mem_finRange c)
    exact absurd hdue (not_or.mpr ⟨hcore, huser⟩)
  | @core c _ _ hdue =>
    have hfired := fire_fired hpid hg check.current_time c (w.cores c).harakiri
    refine ⟨hfired.pid ▸ hpid, hfired.pending ▸ Nat.succ_ne_zero _, hfired.first hnew, ?_⟩
    rw [hfired.cores, allLater_update]
    constructor
    · rintro ⟨hnext, hothers⟩
      refine ⟨c, ?_, hothers⟩
      -- the next deadline counts from this one, which has passed
      rcases hnext with hzero | hle
      · omega
      · exact Nat.le_antisymm hdue.2 (Nat.le_of_add_le_add_right hle)
    · rintro ⟨c₁, hnow, hothers⟩
      have hc : c = c₁ := by
        by_contra hne
        have hlater := ((hothers c).1 hne).of_due hdue
        have hle := hdue.2
        omega
      exact ⟨.inr (by rw [hc, hnow]), hc ▸ hothers⟩
  | @user c _ _ hdue =>
    have hfired := fire_fired hpid hg check.current_time c (w.cores c).user_harakiri
    refine ⟨hfired.pid ▸ hpid, hfired.pending ▸ Nat.succ_ne_zero _, hfired.first hnew, ?_⟩
    rw [hfired.cores, allLater_update]
    -- the deadline of the user stays as it is, in the past
    have hpast : ¬Later (check.current_time + cfg.harakiri_graceful_timeout)
        (w.cores c).user_harakiri := by
      intro hlater
      have hlimit := hlater.of_due hdue
      have hle := hdue.2
      omega
    constructor
    · rintro ⟨-, hothers⟩
      exact absurd (hothers c).2 hpast
    · rintro ⟨c₁, -, hothers⟩
      exact absurd (hothers c).2 hpast

end Grace

end HarakiriWorker

open HarakiriWorker in
/-- A worker is not killed within the grace period, whatever checks follow, exactly when the
    check that signals it is on time. -/
theorem harakiri_grace_iff (cfg : HarakiriConfig) (hg : 0 < cfg.harakiri_graceful_timeout)
    (workers : List (HarakiriWorker n)) (i : Nat) (w : HarakiriWorker n)
    (hw : workers[i]? = some w) (hpid : 0 < w.pid) (hnew : w.pending_harakiri = 0)
    (hsent : w.sent = []) (before : List DeadlineCheck) (check : DeadlineCheck)
    (hbefore : ∀ check' ∈ before, ¬Signals cfg w check') (hsignals : Signals cfg w check) :
    (∀ after : List DeadlineCheck,
      (check :: after).Pairwise (fun a b => a.current_time ≤ b.current_time) →
      ∀ w', (deadlineRun cfg workers (before ++ check :: after))[i]? = some w' →
        GracePeriod cfg.harakiri_graceful_timeout w'.sent) ↔
      OnTime cfg.harakiri_graceful_timeout check.current_time w := by
  obtain ⟨hpid₁, hpending₁, hsent₁, hlater⟩ := signals_first hpid hg hnew hsignals
  rw [hsent, nil_append] at hsent₁
  have hrun : ∀ after, (deadlineRun cfg workers (before ++ check :: after))[i]? =
      some (after.foldl (checkWorker cfg) (w.checkWorker cfg check)) := by
    intro after
    rw [deadlineRun_get, hw, Option.map_some, foldl_append, checks_of_not_signals hbefore]
    rfl
  rw [← hlater]
  constructor
  · intro hgrace c
    -- a deadline within the grace period: a check when it is due kills
    have hlate : ∀ deadline,
        (deadline = (((w.checkWorker cfg check).cores c).harakiri) ∨
          deadline = (((w.checkWorker cfg check).cores c).user_harakiri)) →
        Later (check.current_time + cfg.harakiri_graceful_timeout) deadline := by
      intro deadline hdeadline
      by_contra hnot
      obtain ⟨hne, hlt⟩ := not_or.mp hnot
      have hdue : Due (max check.current_time deadline) deadline := ⟨hne, Nat.le_max_right _ _⟩
      have hkill : ((w.checkWorker cfg check).checkWorker cfg
          ⟨max check.current_time deadline, 0⟩).sent =
          (w.checkWorker cfg check).sent ++ [(max check.current_time deadline, .kill)] := by
        refine check_kills (c := c) hpid₁ hg hpending₁ ?_
        rcases hdeadline with rfl | rfl
        · exact .inl hdue
        · exact .inr hdue
      have hpair := hgrace [⟨max check.current_time deadline, 0⟩]
        (pairwise_pair.mpr (Nat.le_max_left _ _)) _ (hrun _)
      rw [foldl_cons, foldl_nil, hkill, hsent₁] at hpair
      have hle : check.current_time + cfg.harakiri_graceful_timeout ≤
          max check.current_time deadline := pairwise_pair.mp hpair rfl rfl
      omega
    exact ⟨hlate _ (.inl rfl), hlate _ (.inr rfl)⟩
  · intro hdeadlines after _ w' hw'
    obtain ⟨kills, hkills, hlimit⟩ := Spared.run ⟨hpid₁, hpending₁, hdeadlines⟩ hg after
    rw [← Option.some.inj ((hrun after).symm.trans hw'), hkills, hsent₁]
    refine pairwise_cons.mpr ⟨fun k hk _ _ => (hlimit k hk).1, ?_⟩
    -- no other graceful signal follows
    refine pairwise_of_forall_mem_list ?_
    intro a ha b _ hgraceful
    nomatch (hlimit a ha).2.symm.trans hgraceful

open HarakiriWorker in
/-- A worker with two cores, one of which is late: it has ten seconds. -/
theorem harakiri_grace_one_core :
    OnTime 10 100 (⟨7, 0, 0, fun c => if c = 0 then ⟨100, 0⟩ else ⟨0, 0⟩, []⟩ : HarakiriWorker 2) ∧
      ∀ w' : HarakiriWorker 2,
        (deadlineRun ⟨10, 0⟩ [⟨7, 0, 0, fun c => if c = 0 then ⟨100, 0⟩ else ⟨0, 0⟩, []⟩]
          [⟨100, 0⟩, ⟨101, 0⟩, ⟨110, 0⟩])[0]? = some w' → GracePeriod 10 w'.sent := by
  have hontime : OnTime 10 100
      (⟨7, 0, 0, fun c => if c = 0 then ⟨100, 0⟩ else ⟨0, 0⟩, []⟩ : HarakiriWorker 2) := by
    refine ⟨0, rfl, fun c' => ⟨fun hne => .inl ?_, .inl ?_⟩⟩
    · dsimp only
      rw [if_neg hne]
    · dsimp only
      split <;> rfl
  refine ⟨hontime, (harakiri_grace_iff ⟨10, 0⟩ (by decide) _ 0 _ rfl (by decide) rfl rfl []
    ⟨100, 0⟩ nofun ⟨.inr (by decide), 0, .inl ⟨by decide, by decide⟩⟩).mpr
    hontime [⟨101, 0⟩, ⟨110, 0⟩] (by decide)⟩

open HarakiriWorker in
/-- Two cores are late: the first check sends the graceful signal, and the next one, a second
    later, kills the worker. -/
theorem harakiri_two_cores :
    ((deadlineRun ⟨10, 0⟩ [(⟨7, 0, 0, fun _ => ⟨100, 0⟩, []⟩ : HarakiriWorker 2)]
      [⟨100, 0⟩, ⟨101, 0⟩]).map HarakiriWorker.sent) = [[(100, .graceful), (101, .kill)]] ∧
    ¬GracePeriod 10 [(100, .graceful), (101, .kill)] := by
  refine ⟨rfl, fun hgrace => ?_⟩
  nomatch pairwise_pair.mp hgrace rfl rfl

end Upsgi
