import Upsgi.Master.Workers

/-! # Chain reloading

    A chain reload replaces the workers one after the other.  When it is over, none of the
    processes that accepted requests when it began is left, and each of them got the signal at
    most once.  That all workers before the next victim accept requests is checked for the one
    before the present position only, and holds when no other worker is starting.
-/

namespace Upsgi

namespace Master

variable {cfg : MasterConfig} {now : Nat} {m m' : Master}

/-! ### What each function changes -/

theorem modify_workers_self (m : Master) (wid : Nat) (f : MasterWorker → MasterWorker) :
    (m.modify wid f).workers wid = f (m.workers wid) :=
  Function.update_self _ _ _

variable {wid' : Nat} {e : MasterEvent} {signal : MasterSignal} {go_cheap : Bool}

theorem modify_workers_of_ne {wid : Nat} (hne : wid' ≠ wid) (m : Master)
    (f : MasterWorker → MasterWorker) : (m.modify wid f).workers wid' = m.workers wid' :=
  Function.update_of_ne hne _ _

/-- The fields of the master that a signal leaves alone. -/
theorem kill_frame (m : Master) (wid : Nat) (signal : MasterSignal) :
    (m.kill wid signal).workers = m.workers ∧
      (m.kill wid signal).chain_reloading = m.chain_reloading ∧
      (m.kill wid signal).spawned = m.spawned ∧ (m.kill wid signal).numproc = m.numproc := by
  unfold kill
  split <;> exact ⟨rfl, rfl, rfl, rfl⟩

theorem kill_sent {wid process : Nat} (h : (m.workers wid).process = some process)
    (signal : MasterSignal) : (m.kill wid signal).sent = m.sent ++ [⟨wid, process, signal⟩] := by
  unfold kill
  rw [h]

/-- A curse writes two times and sends a signal. -/
structure Cursed (now wid : Nat) (signal : MasterSignal) (m m' : Master) : Prop where
  numproc : m'.numproc = m.numproc
  chain_reloading : m'.chain_reloading = m.chain_reloading
  spawned : m'.spawned = m.spawned
  self : ∃ no_mercy_at,
    m'.workers wid = { m.workers wid with cursed_at := now, no_mercy_at := no_mercy_at }
  others : ∀ wid', wid' ≠ wid → m'.workers wid' = m.workers wid'
  sent : ∀ process, (m.workers wid).process = some process →
    m'.sent = m.sent ++ [⟨wid, process, signal⟩]

theorem curse_cursed (cfg : MasterConfig) (now : Nat) (m : Master) (wid : Nat)
    (signal : MasterSignal) : Cursed now wid signal m (m.upsgi_curse cfg now wid signal) := by
  unfold upsgi_curse
  obtain ⟨hworkers, hchain, hspawned, hnumproc⟩ := kill_frame
    (m.modify wid fun w =>
      { w with cursed_at := now, no_mercy_at := now + cfg.worker_reload_mercy }) wid signal
  refine ⟨hnumproc, hchain, hspawned, ⟨now + cfg.worker_reload_mercy, ?_⟩, fun wid' hne => ?_,
    fun process hprocess => ?_⟩
  · rw [hworkers, modify_workers_self]
  · rw [hworkers, modify_workers_of_ne hne]
  · refine kill_sent ?_ signal
    rw [modify_workers_self]
    exact hprocess

/-- The worker is alive, not cheaped and accepting. -/
def Serving (m : Master) (wid : Nat) : Prop :=
  m.Active wid ∧ (m.workers wid).accepting = true

/-- What the search for a victim can do, behind `k` workers that do not serve. -/
inductive SearchOk (now : Nat) (m : Master) (fuel : Nat) : Master → Prop where
  | none (h : ∀ i, i < fuel → ¬m.Serving (m.chain_reloading + i)) :
      SearchOk now m fuel { m with chain_reloading := m.chain_reloading + fuel }
  | waits (k : Nat) (hk : k < fuel) (h : ∀ i, i < k → ¬m.Serving (m.chain_reloading + i))
      (hserving : m.Serving (m.chain_reloading + k))
      (hcursed : (m.workers (m.chain_reloading + k)).cursed_at ≠ 0) :
      SearchOk now m fuel { m with chain_reloading := m.chain_reloading + k }
  | victim (k : Nat) (hk : k < fuel) (h : ∀ i, i < k → ¬m.Serving (m.chain_reloading + i))
      (hserving : m.Serving (m.chain_reloading + k))
      (hcursed : (m.workers (m.chain_reloading + k)).cursed_at = 0) {m' : Master}
      (hcurse : Cursed now (m.chain_reloading + k) .sighup
        { m with chain_reloading := m.chain_reloading + k } m') :
      SearchOk now m fuel m'

theorem chainLoop_ok (cfg : MasterConfig) (now fuel : Nat) (m : Master) :
    SearchOk now m fuel (chainLoop cfg now fuel m) := by
  induction fuel generalizing m with
  | zero => exact .none (nofun)
  | succ fuel ih =>
    unfold chainLoop
    by_cases hserving : m.Active m.chain_reloading ∧
        (m.workers m.chain_reloading).accepting = true
    · rw [if_pos hserving]
      by_cases hcursed : (m.workers m.chain_reloading).cursed_at = 0
      · rw [if_pos hcursed]
        have hcurse := curse_cursed cfg now m m.chain_reloading .sighup
        exact .victim 0 (Nat.succ_pos _) (nofun) hserving hcursed
          { hcurse with }
      · rw [if_neg hcursed]
        exact .waits 0 (Nat.succ_pos _) (nofun) hserving hcursed
    · rw [if_neg hserving]
      -- the numbers of the workers shift by one
      have hshift : ∀ {k : Nat},
          (∀ i, i < k → ¬m.Serving (m.chain_reloading + 1 + i)) →
          ∀ i, i < k + 1 → ¬m.Serving (m.chain_reloading + i) := by
        intro k h i hi
        cases i with
        | zero => exact hserving
        | succ i =>
          have hi' := h i (by omega)
          rwa [Nat.add_right_comm, Nat.add_assoc] at hi'
      have hok := ih { m with chain_reloading := m.chain_reloading + 1 }
      generalize chainLoop cfg now fuel { m with chain_reloading := m.chain_reloading + 1 } = m'
        at hok
      cases hok with
      | none h =>
        rw [Nat.add_assoc, Nat.add_comm 1 fuel]
        exact .none (hshift h)
      | waits k hk h hnext hcursed =>
        rw [Nat.add_assoc, Nat.add_comm 1 k] at hnext hcursed ⊢
        exact .waits (k + 1) (Nat.succ_lt_succ hk) (hshift h) hnext hcursed
      | victim k hk h hnext hcursed hcurse =>
        rw [Nat.add_assoc, Nat.add_comm 1 k] at hnext hcursed hcurse
        exact .victim (k + 1) (Nat.succ_lt_succ hk) (hshift h) hnext hcursed hcurse

/-- What a check can do. -/
inductive ChainOk (now : Nat) (m : Master) : Master → Prop where
  | idle (h : m.chain_reloading = 0) : ChainOk now m { m with last_chain_curse := 0 }
  | waits : ChainOk now m m
  | finished (h : m.numproc < m.chain_reloading) :
      ChainOk now m { m with chain_reloading := 0, last_chain_curse := 0 }
  | search (hchain : m.chain_reloading ≠ 0) (hle : m.chain_reloading ≤ m.numproc)
      (hbefore : ¬(1 < m.chain_reloading ∧ m.Starting (m.chain_reloading - 1))) {m' : Master}
      (h : SearchOk now m (m.numproc + 1 - m.chain_reloading) m') : ChainOk now m m'

theorem check_chain_ok (cfg : MasterConfig) (now : Nat) (m : Master) :
    ChainOk now m (m.upsgi_master_check_chain cfg now) := by
  unfold upsgi_master_check_chain
  by_cases hchain : m.chain_reloading = 0
  · rw [if_pos hchain]
    exact .idle hchain
  rw [if_neg hchain]
  by_cases hbefore : 1 < m.chain_reloading ∧ m.Starting (m.chain_reloading - 1)
  · rw [if_pos hbefore]
    exact .waits
  rw [if_neg hbefore]
  by_cases hover : m.numproc < m.chain_reloading
  · rw [if_pos hover]
    exact .finished hover
  rw [if_neg hover]
  split
  · exact .waits
  · exact .search hchain (Nat.le_of_not_lt hover) hbefore (chainLoop_ok cfg now _ m)

/-- A worker without a process is started, if the fork succeeds. -/
structure Respawned (wid : Nat) (m m' : Master) : Prop where
  numproc : m'.numproc = m.numproc
  chain_reloading : m'.chain_reloading = m.chain_reloading
  sent : m'.sent = m.sent
  others : ∀ wid', wid' ≠ wid → m'.workers wid' = m.workers wid'
  cheaped : (m'.workers wid).cheaped = false
  self : ((m'.workers wid).process = none ∧ m'.spawned = m.spawned) ∨
    ((m'.workers wid).process = some m.spawned ∧ m'.spawned = m.spawned + 1)

theorem respawn_respawned {wid : Nat} (h : (m.workers wid).process = none) (forked : Bool) :
    Respawned wid m (m.upsgi_respawn_worker now forked wid) := by
  unfold upsgi_respawn_worker
  have hreset : ((m.modify wid (resetWorker now)).workers wid).process = none := by
    rw [modify_workers_self]
    exact h
  have hcheaped : ((m.modify wid (resetWorker now)).workers wid).cheaped = false := by
    rw [modify_workers_self]
    rfl
  have hothers : ∀ wid', wid' ≠ wid →
      (m.modify wid (resetWorker now)).workers wid' = m.workers wid' :=
    fun wid' hne => modify_workers_of_ne hne m _
  cases forked with
  | true =>
    rw [if_pos rfl]
    refine ⟨rfl, rfl, rfl, fun wid' hne => ?_, ?_, .inr ⟨?_, rfl⟩⟩
    · rw [modify_workers_of_ne hne]
      exact hothers wid' hne
    · rw [modify_workers_self]
      exact hcheaped
    · rw [modify_workers_self]
      rfl
  | false => exact ⟨rfl, rfl, rfl, hothers, hcheaped, .inl ⟨hreset, rfl⟩⟩

/-- A worker that died is respawned, unless it is cheaped. -/
inductive DiedOk (wid : Nat) (go_cheap : Bool) (m : Master) : Master → Prop where
  | cheaped (h : (m.workers wid).cheaped = true ∨ go_cheap = true) :
      DiedOk wid go_cheap m (m.modify wid (buryWorker go_cheap))
  | respawned (h : (m.workers wid).cheaped = false) (hcode : go_cheap = false) {m' : Master}
      (hrespawned : Respawned wid ((m.modify wid (buryWorker go_cheap)).passWorker wid) m') :
      DiedOk wid go_cheap m m'

/-- The chain moves when the worker at its position died. -/
theorem passWorker_frame (m : Master) (wid : Nat) :
    (m.passWorker wid).workers = m.workers ∧ (m.passWorker wid).numproc = m.numproc ∧
      (m.passWorker wid).spawned = m.spawned ∧ (m.passWorker wid).sent = m.sent := by
  unfold passWorker
  split <;> exact ⟨rfl, rfl, rfl, rfl⟩

theorem passWorker_chain (m : Master) (wid : Nat) :
    (m.chain_reloading = wid ∧ (m.passWorker wid).chain_reloading = wid + 1) ∨
      (m.chain_reloading ≠ wid ∧ (m.passWorker wid).chain_reloading = m.chain_reloading) := by
  unfold passWorker
  by_cases hat : m.chain_reloading = wid
  · rw [if_pos hat]
    exact .inl ⟨hat, congrArg (· + 1) hat⟩
  · rw [if_neg hat]
    exact .inr ⟨hat, rfl⟩

theorem workerDied_ok (now : Nat) (go_cheap forked : Bool) (m : Master) (wid : Nat) :
    DiedOk wid go_cheap m (m.workerDied now go_cheap forked wid) := by
  unfold workerDied
  dsimp only
  have hcheaped : ((m.modify wid (buryWorker go_cheap)).workers wid).cheaped =
      ((m.workers wid).cheaped || go_cheap) := by
    rw [modify_workers_self]
    rfl
  rw [hcheaped]
  cases hflag : ((m.workers wid).cheaped || go_cheap) with
  | true =>
    exact .cheaped (Bool.or_eq_true_iff.mp hflag)
  | false =>
    obtain ⟨hold, hcode⟩ := Bool.or_eq_false_iff.mp hflag
    refine .respawned hold hcode (respawn_respawned ?_ forked)
    rw [(passWorker_frame _ wid).1, modify_workers_self]
    rfl

/-- The kills of a check for mercy, one after the other. -/
inductive MercyOk (now : Nat) : Master → Master → Prop where
  | done (m : Master) : MercyOk now m m
  | kill {m m' m'' : Master} (wid : Nat) (halive : (m.workers wid).process ≠ none)
      (hcurse : Cursed now wid .sigkill m m') (h : MercyOk now m' m'') : MercyOk now m m''

theorem check_mercy_ok (cfg : MasterConfig) (now : Nat) (m : Master) :
    MercyOk now m (m.upsgi_master_check_mercy cfg now) := by
  unfold upsgi_master_check_mercy
  generalize List.range' 1 m.numproc = wids
  induction wids generalizing m with
  | nil => exact .done m
  | cons wid wids ih =>
    rw [List.foldl_cons]
    by_cases hlate : (m.workers wid).process ≠ none ∧ (m.workers wid).cursed_at ≠ 0 ∧
        (m.workers wid).no_mercy_at < now
    · have hkill : mercyWorker cfg now m wid = m.upsgi_curse cfg now wid .sigkill := if_pos hlate
      rw [hkill]
      exact .kill wid hlate.1 (curse_cursed cfg now m wid .sigkill) (ih _)
    · have hspared : mercyWorker cfg now m wid = m := if_neg hlate
      rw [hspared]
      exact ih m

/-- What an event can do. -/
inductive StepOk (m : Master) : MasterEvent → Master → Prop where
  | begins (h : m.chain_reloading = 0) : StepOk m .chain_reload { m with chain_reloading := 1 }
  | runs (h : m.chain_reloading ≠ 0) : StepOk m .chain_reload m
  | check_chain {now : Nat} {m' : Master} (hnow : now ≠ 0) (h : ChainOk now m m') :
      StepOk m (.check_chain now) m'
  | check_mercy {now : Nat} {m' : Master} (hnow : now ≠ 0) (h : MercyOk now m m') :
      StepOk m (.check_mercy now) m'
  | died {wid now : Nat} {go_cheap forked : Bool} {m' : Master} (hpos : 0 < wid)
      (h : DiedOk wid go_cheap m m') : StepOk m (.died wid go_cheap forked now) m'
  | respawn {wid now : Nat} {forked : Bool} {m' : Master} (h : Respawned wid m m') :
      StepOk m (.respawn wid forked now) m'
  | ready (wid : Nat) : StepOk m (.ready wid) (m.modify wid fun w => { w with accepting := true })

theorem masterStep_ok (hstep : masterStep cfg m e = some m') : StepOk m e m' := by
  cases e with
  | chain_reload =>
    cases hstep
    unfold upsgi_chain_reload
    by_cases hchain : m.chain_reloading = 0
    · rw [if_pos hchain]
      exact .begins hchain
    · rw [if_neg hchain]
      exact .runs hchain
  | check_chain time =>
    obtain ⟨hnow, hstep⟩ := Option.ite_none_left_eq_some.mp hstep
    exact .check_chain hnow (Option.some.inj hstep ▸ check_chain_ok cfg time m)
  | check_mercy time =>
    obtain ⟨hnow, hstep⟩ := Option.ite_none_left_eq_some.mp hstep
    exact .check_mercy hnow (Option.some.inj hstep ▸ check_mercy_ok cfg time m)
  | died wid go_cheap forked time =>
    obtain ⟨hworker, hstep⟩ := Option.ite_none_right_eq_some.mp hstep
    exact .died hworker.1 (Option.some.inj hstep ▸ workerDied_ok time go_cheap forked m wid)
  | respawn wid forked time =>
    obtain ⟨hworker, hstep⟩ := Option.ite_none_right_eq_some.mp hstep
    exact .respawn (Option.some.inj hstep ▸ respawn_respawned hworker.2.2 forked)
  | ready wid =>
    obtain ⟨-, hstep⟩ := Option.ite_none_right_eq_some.mp hstep
    exact Option.some.inj hstep ▸ .ready wid

/-! ### One at a time -/

/-- While a chain reload runs, only the worker before its position is starting. -/
def Behind (m : Master) : Prop :=
  m.chain_reloading ≠ 0 → ∀ wid, 0 < wid → wid ≤ m.numproc → m.Starting wid →
    wid + 1 = m.chain_reloading

/-- A chain reload begins when no worker is starting.  While it runs, a worker is only started
    in the place of the present one or of the one before, and when no other is starting. -/
def ChainAlone (m : Master) : MasterEvent → Prop
  | .chain_reload => m.chain_reloading = 0 →
      ∀ wid, 0 < wid → wid ≤ m.numproc → ¬m.Starting wid
  | .died wid go_cheap _ _ => m.chain_reloading ≠ 0 → (m.workers wid).cheaped = false →
      go_cheap = false → (wid = m.chain_reloading ∨ wid + 1 = m.chain_reloading) ∧
        ∀ wid', 0 < wid' → wid' ≤ m.numproc → wid' ≠ wid → ¬m.Starting wid'
  | .respawn wid _ _ => m.chain_reloading ≠ 0 → wid + 1 = m.chain_reloading
  | .check_chain _ => True
  | .check_mercy _ => True
  | .ready _ => True

theorem starting_congr {wid : Nat} (h : m'.workers wid = m.workers wid) :
    m'.Starting wid ↔ m.Starting wid := by
  unfold Starting Active
  rw [h]

/-- The fields of a worker that a curse leaves alone. -/
theorem Cursed.fields {wid : Nat} (h : Cursed now wid signal m m') (wid' : Nat) :
    (m'.workers wid').process = (m.workers wid').process ∧
      (m'.workers wid').cheaped = (m.workers wid').cheaped ∧
      (m'.workers wid').accepting = (m.workers wid').accepting := by
  by_cases hwid : wid' = wid
  · obtain ⟨no_mercy_at, hself⟩ := h.self
    rw [hwid, hself]
    exact ⟨rfl, rfl, rfl⟩
  · rw [h.others wid' hwid]
    exact ⟨rfl, rfl, rfl⟩

theorem Cursed.starting {wid : Nat} (h : Cursed now wid signal m m')
    (wid' : Nat) : m'.Starting wid' ↔ m.Starting wid' := by
  obtain ⟨hprocess, hcheaped, haccepting⟩ := h.fields wid'
  unfold Starting Active
  rw [hprocess, hcheaped, haccepting]

theorem Behind.cursed {wid : Nat} (hm : Behind m) (h : Cursed now wid signal m m') : Behind m' := by
  intro hchain wid' hpos hle hstarting
  rw [h.chain_reloading] at hchain ⊢
  exact hm hchain wid' hpos (h.numproc ▸ hle) ((h.starting wid').mp hstarting)

/-- Nobody is starting when the chain goes on. -/
theorem Behind.nobody (hm : Behind m) (hchain : m.chain_reloading ≠ 0)
    (hbefore : ¬(1 < m.chain_reloading ∧ m.Starting (m.chain_reloading - 1))) (wid : Nat)
    (hpos : 0 < wid) (hle : wid ≤ m.numproc) : ¬m.Starting wid := by
  intro hstarting
  have hnext := hm hchain wid hpos hle hstarting
  refine hbefore ⟨by omega, ?_⟩
  rw [← hnext, Nat.add_sub_cancel]
  exact hstarting

theorem behind_of_nobody (h : ∀ wid, 0 < wid → wid ≤ m.numproc → ¬m.Starting wid) : Behind m :=
  fun _ wid hpos hle hstarting => absurd hstarting (h wid hpos hle)

theorem ChainOk.behind (h : ChainOk now m m') (hm : Behind m) : Behind m' := by
  cases h with
  | idle h => exact fun hchain => absurd h hchain
  | waits => exact hm
  | finished h => exact nofun
  | search hchain hle hbefore h =>
    have hnobody := hm.nobody hchain hbefore
    cases h with
    | none h | waits k hk h hserving hcursed => exact behind_of_nobody hnobody
    | victim k hk h hserving hcursed hcurse =>
      have hmoved : Behind { m with chain_reloading := m.chain_reloading + k } :=
        behind_of_nobody hnobody
      exact hmoved.cursed hcurse

theorem MercyOk.behind (h : MercyOk now m m') (hm : Behind m) : Behind m' := by
  induction h with
  | done m => exact hm
  | kill wid halive hcurse h ih => exact ih (hm.cursed hcurse)

theorem Respawned.behind {wid : Nat} (h : Respawned wid m m')
    (hnext : m.chain_reloading ≠ 0 → wid + 1 = m.chain_reloading)
    (hothers : m.chain_reloading ≠ 0 → ∀ wid', 0 < wid' → wid' ≤ m.numproc → wid' ≠ wid →
      m.Starting wid' → wid' + 1 = m.chain_reloading) : Behind m' := by
  intro hchain wid' hpos hle hstarting
  rw [h.chain_reloading] at hchain ⊢
  by_cases hwid : wid' = wid
  · rw [hwid]
    exact hnext hchain
  · refine hothers hchain wid' hpos (h.numproc ▸ hle) hwid ?_
    exact (starting_congr (h.others wid' hwid)).mp hstarting

theorem DiedOk.behind {wid : Nat} (h : DiedOk wid go_cheap m m') (hm : Behind m) (hpos : 0 < wid)
    (hok : m.chain_reloading ≠ 0 → (m.workers wid).cheaped = false → go_cheap = false →
      (wid = m.chain_reloading ∨ wid + 1 = m.chain_reloading) ∧
        ∀ wid', 0 < wid' → wid' ≤ m.numproc → wid' ≠ wid → ¬m.Starting wid') : Behind m' := by
  have hothers : ∀ wid', wid' ≠ wid →
      ((m.modify wid (buryWorker go_cheap)).Starting wid' ↔ m.Starting wid') :=
    fun wid' hne => starting_congr (modify_workers_of_ne hne m _)
  cases h with
  | cheaped h =>
    intro hchain wid' hpos hle hstarting
    by_cases hwid : wid' = wid
    · rw [hwid] at hstarting
      have hprocess := hstarting.1.1
      rw [modify_workers_self] at hprocess
      nomatch hprocess
    · exact hm hchain wid' hpos hle ((hothers wid' hwid).mp hstarting)
  | respawned h hcode hrespawned =>
    obtain ⟨hworkers, hnumproc, -, -⟩ := passWorker_frame (m.modify wid (buryWorker go_cheap)) wid
    have hsame : ∀ wid', wid' ≠ wid →
        ((m.modify wid (buryWorker go_cheap)).passWorker wid).Starting wid' → m.Starting wid' := by
      intro wid' hne hstarting
      refine (hothers wid' hne).mp ?_
      exact (starting_congr (congrFun hworkers wid')).mp hstarting
    rcases passWorker_chain (m.modify wid (buryWorker go_cheap)) wid with
      ⟨hat, hmoved⟩ | ⟨hat, hmoved⟩
    · have hat : m.chain_reloading = wid := hat
      obtain ⟨-, hnobody⟩ := hok (by omega) h hcode
      refine hrespawned.behind (fun _ => hmoved.symm) ?_
      intro _ wid' hpos' hle hne hstarting
      exact absurd (hsame wid' hne hstarting) (hnobody wid' hpos' (hnumproc ▸ hle) hne)
    · have hmoved : _ = m.chain_reloading := hmoved
      refine hrespawned.behind (fun hchain => ?_) ?_
      · rw [hmoved] at hchain ⊢
        exact (hok hchain h hcode).1.resolve_left (fun heq => hat heq.symm)
      · intro hchain wid' hpos' hle hne hstarting
        rw [hmoved] at hchain ⊢
        exact hm hchain wid' hpos' (hnumproc ▸ hle) (hsame wid' hne hstarting)

theorem masterStep_behind (hm : Behind m) (hok : ChainAlone m e)
    (hstep : masterStep cfg m e = some m') : Behind m' := by
  cases masterStep_ok hstep with
  | begins h => exact behind_of_nobody (hok h)
  | runs h => exact hm
  | check_chain hnow h | check_mercy hnow h => exact h.behind hm
  | died hpos h => exact h.behind hm hpos hok
  | respawn h =>
    refine h.behind hok ?_
    exact fun hchain wid' hpos hle _ hstarting => hm hchain wid' hpos hle hstarting
  | ready wid =>
    intro hchain wid' hpos hle hstarting
    refine hm hchain wid' hpos hle ?_
    by_cases hwid : wid' = wid
    · rw [hwid] at hstarting
      have haccepting := hstarting.2
      rw [modify_workers_self] at haccepting
      nomatch haccepting
    · exact (starting_congr (modify_workers_of_ne hwid m _)).mp hstarting

/-- `numproc` workers that accept requests. -/
def allServing (numproc : Nat) : Master :=
  { numproc, spawned := numproc + 1
    workers := fun wid =>
      if wid ≤ numproc then { process := some wid, accepting := true } else {} }

/-- In a run in which only the chain starts workers, all workers that are alive and not
    cheaped accept requests when the chain takes its next victim. -/
theorem chain_reload_one_at_a_time (cfg : MasterConfig) (m₀ m m' : Master)
    (hidle : m₀.chain_reloading = 0)
    (hreach : Machine.ReachableVia (masterStep cfg) ChainAlone m₀ m) (now w process : Nat)
    (hcheck : masterStep cfg m (.check_chain now) = some m')
    (hvictim : m'.sent = m.sent ++ [⟨w, process, .sighup⟩]) :
    ∀ wid, 0 < wid → wid < w → m.Active wid → (m.workers wid).accepting = true := by
  have hbehind : Behind m := hreach.invariant Behind (fun hchain => absurd hidle hchain)
    (fun _ _ _ hm hok hstep => masterStep_behind hm hok hstep)
  have hok : ChainOk now m m' := by
    cases masterStep_ok hcheck with
    | check_chain hnow h => exact h
  have hsame : m.sent ≠ m.sent ++ [⟨w, process, .sighup⟩] := by
    intro heq
    exact List.cons_ne_nil _ _ (List.append_right_eq_self.mp heq.symm)
  cases hok with
  | idle h | waits | finished h => exact absurd hvictim hsame
  | search hchain hle hbefore h =>
    cases h with
    | none h | waits k hk h hserving hcursed => exact absurd hvictim hsame
    | victim k hk h hserving hcursed hcurse =>
      obtain ⟨victim, hprocess⟩ := Option.ne_none_iff_exists'.mp hserving.1.1
      have hsent := (hcurse.sent victim hprocess).symm.trans hvictim
      have hw : m.chain_reloading + k = w :=
        congrArg SentSignal.wid (List.cons.inj (List.append_cancel_left hsent)).1
      intro wid hpos hlt hactive
      by_contra hnot
      refine hbehind.nobody hchain hbefore wid hpos (by omega) ⟨hactive, ?_⟩
      exact Bool.not_eq_true _ ▸ hnot

/-- The second victim of a chain is taken when the first worker accepts requests again. -/
theorem chain_reload_one_at_a_time_second : ∃ m m',
    Machine.ReachableVia (masterStep ⟨60, 0⟩) ChainAlone (allServing 2) m ∧
      masterStep ⟨60, 0⟩ m (.check_chain 13) = some m' ∧
      m'.sent = m.sent ++ [⟨2, 2, .sighup⟩] ∧ m.Active 1 ∧ (m.workers 1).accepting = true := by
  have hinit : Machine.ReachableVia (masterStep ⟨60, 0⟩) ChainAlone (allServing 2) (allServing 2) :=
    .init
  have hnobody : ChainAlone (allServing 2) .chain_reload := by
    intro _ wid hpos hle hstarting
    change wid ≤ 2 at hle
    obtain rfl | rfl : wid = 1 ∨ wid = 2 := by omega
    · nomatch hstarting.2
    · nomatch hstarting.2
  have hbegun := hinit.step MasterEvent.chain_reload hnobody rfl
  have hfirst := hbegun.step (MasterEvent.check_chain 10) trivial rfl
  have hdied := hfirst.step (MasterEvent.died 1 false true 11) (by
    refine fun _ _ _ => ⟨.inl rfl, fun wid hpos hle hne hstarting => ?_⟩
    change wid ≤ 2 at hle
    obtain rfl : wid = 2 := by omega
    nomatch hstarting.2) rfl
  have hready := hdied.step (MasterEvent.ready 1) trivial rfl
  refine ⟨_, _, hready, rfl, by decide, by decide, ?_⟩
  exact chain_reload_one_at_a_time ⟨60, 0⟩ (allServing 2) _ _ rfl hready 13 2 2 rfl (by decide) 1
    (by decide) (by decide) (by decide)

/-- The worker before the present position is looked at, and the others are not: worker 2 died
    out of turn and is starting when the chain passes it and takes worker 3. -/
theorem chain_passes_starting_worker : ∃ m m',
    Machine.run (masterStep ⟨60, 0⟩) (allServing 3)
      [.chain_reload, .check_chain 10, .died 2 false true 11, .died 1 false true 12,
        .ready 1] = some m ∧
      masterStep ⟨60, 0⟩ m (.check_chain 13) = some m' ∧
      m'.sent = m.sent ++ [⟨3, 3, .sighup⟩] ∧ m.Active 2 ∧ (m.workers 2).accepting = false := by
  refine ⟨_, _, rfl, rfl, ?_⟩
  decide

/-! ### Every process is replaced -/

/-- The process serves as a worker. -/
def Serves (m : Master) (wid process : Nat) : Prop :=
  0 < wid ∧ wid ≤ m.numproc ∧ (m.workers wid).process = some process ∧
    (m.workers wid).accepting = true ∧ (m.workers wid).cheaped = false

instance (m : Master) (wid process : Nat) : Decidable (Serves m wid process) :=
  inferInstanceAs (Decidable (_ ∧ _))

/-- The processes of the workers are different, and none is from the future. -/
structure Processes (m : Master) : Prop where
  bound : ∀ wid process, (m.workers wid).process = some process → process < m.spawned
  apart : ∀ wid wid' process, (m.workers wid).process = some process →
    (m.workers wid').process = some process → wid = wid'

/-- The signals of a chain to a process. -/
def hups (process : Nat) (sent : List SentSignal) : Nat :=
  sent.countP fun s => s.process = process ∧ s.signal = .sighup

/-- How far a chain reload is with a process that served as worker `wid` when it began: the
    process is still there and the chain is not behind it, or it is gone. -/
structure Replacing (m₀ : Master) (wid process : Nat) (m : Master) : Prop where
  spawned : process < m.spawned
  numproc : wid ≤ m.numproc
  place : ∀ wid', (m.workers wid').process = some process →
    wid' = wid ∧ m.chain_reloading ≠ 0 ∧ m.chain_reloading ≤ wid ∧
      (m.workers wid).accepting = true ∧ (m.workers wid).cheaped = false
  hups : hups process m.sent = hups process m₀.sent ∨
    hups process m.sent = hups process m₀.sent + 1 ∧
      ((m.workers wid).process = some process → (m.workers wid).cursed_at ≠ 0)

section Replacing

variable {m₀ : Master} {wid process : Nat}

theorem Serves.replacing (hm : Processes m) (h : Serves m wid process)
    (hchain : m.chain_reloading = 0) : Replacing m wid process m.upsgi_chain_reload := by
  unfold upsgi_chain_reload
  rw [if_pos hchain]
  refine ⟨hm.bound wid process h.2.2.1, h.2.1, fun wid' hwid' => ?_, .inl rfl⟩
  exact ⟨hm.apart wid' wid process hwid' h.2.2.1, Nat.one_ne_zero, h.1, h.2.2.2⟩

/-- A step that sends no signal: it takes the process away or leaves its worker alone. -/
theorem Replacing.frame (h : Replacing m₀ wid process m) (hspawned : m.spawned ≤ m'.spawned)
    (hnumproc : m'.numproc = m.numproc) (hsent : m'.sent = m.sent)
    (hworkers : ∀ wid', (m'.workers wid').process = some process →
      m'.workers wid' = { m.workers wid' with accepting := (m'.workers wid').accepting } ∧
        ((m.workers wid').accepting = true → (m'.workers wid').accepting = true))
    (hchain : (m'.workers wid).process = some process → m.chain_reloading ≠ 0 →
      m.chain_reloading ≤ wid → m'.chain_reloading ≠ 0 ∧ m'.chain_reloading ≤ wid) :
    Replacing m₀ wid process m' := by
  have hold : ∀ wid', (m'.workers wid').process = some process →
      (m.workers wid').process = some process := by
    intro wid' hwid'
    rw [(hworkers wid' hwid').1] at hwid'
    exact hwid'
  refine ⟨Nat.lt_of_lt_of_le h.spawned hspawned, hnumproc ▸ h.numproc, fun wid' hwid' => ?_, ?_⟩
  · obtain ⟨hsame, hne, hle, haccepting, hcheaped⟩ := h.place wid' (hold wid' hwid')
    rw [hsame] at hwid'
    obtain ⟨hworker, hkept⟩ := hworkers wid hwid'
    obtain ⟨hne', hle'⟩ := hchain hwid' hne hle
    refine ⟨hsame, hne', hle', hkept haccepting, ?_⟩
    rw [hworker]
    exact hcheaped
  · rw [hsent]
    refine h.hups.imp_right fun ⟨hcount, hcursed⟩ => ⟨hcount, fun hwid => ?_⟩
    rw [(hworkers wid hwid).1]
    exact hcursed (hold wid hwid)

theorem hups_snoc (process : Nat) (sent : List SentSignal) (s : SentSignal) :
    hups process (sent ++ [s]) =
      hups process sent + if s.process = process ∧ s.signal = .sighup then 1 else 0 := by
  unfold hups
  rw [List.countP_append, List.countP_singleton]
  simp only [decide_eq_true_eq]

section

variable (h : Replacing m₀ wid process m)
include h

/-- A curse changes nothing of the place. -/
theorem Replacing.place_cursed (hcurse : Cursed now wid' signal m m') (w : Nat)
    (hw : (m'.workers w).process = some process) :
    w = wid ∧ m'.chain_reloading ≠ 0 ∧ m'.chain_reloading ≤ wid ∧
      (m'.workers wid).accepting = true ∧ (m'.workers wid).cheaped = false := by
  obtain ⟨-, hcheaped, haccepting⟩ := hcurse.fields wid
  rw [hcurse.chain_reloading, hcheaped, haccepting]
  exact h.place w ((hcurse.fields w).1 ▸ hw)

/-- The chain signals only workers that are not cursed, and afterwards they are. -/
theorem Replacing.cursed (hnow : now ≠ 0) (halive : (m.workers wid').process ≠ none)
    (hfirst : signal = .sighup → (m.workers wid').cursed_at = 0)
    (hcurse : Cursed now wid' signal m m') : Replacing m₀ wid process m' := by
  obtain ⟨process', hprocess'⟩ := Option.ne_none_iff_exists'.mp halive
  obtain ⟨no_mercy_at, hself⟩ := hcurse.self
  refine ⟨hcurse.spawned ▸ h.spawned, hcurse.numproc ▸ h.numproc, h.place_cursed hcurse, ?_⟩
  rw [hcurse.sent process' hprocess', hups_snoc]
  by_cases hhup : process' = process ∧ signal = .sighup
  · obtain ⟨hthis, hsignal⟩ := hhup
    rw [if_pos ⟨hthis, hsignal⟩]
    rw [hthis] at hprocess'
    obtain ⟨rfl, -⟩ := h.place wid' hprocess'
    refine .inr ⟨?_, fun _ => by rw [hself]; exact hnow⟩
    rcases h.hups with hcount | ⟨-, hcursed⟩
    · rw [hcount]
    · exact absurd (hfirst hsignal) (hcursed hprocess')
  · rw [if_neg hhup, Nat.add_zero]
    refine h.hups.imp_right fun ⟨hcount, hcursed⟩ => ⟨hcount, fun hwid => ?_⟩
    by_cases hw : wid = wid'
    · rw [hw, hself]
      exact hnow
    · rw [hcurse.others wid hw] at hwid ⊢
      exact hcursed hwid

/-- The search does not pass the process. -/
theorem Replacing.moved {k : Nat} (hpassed : ∀ i, i < k → ¬m.Serving (m.chain_reloading + i)) :
    Replacing m₀ wid process { m with chain_reloading := m.chain_reloading + k } := by
  refine h.frame (Nat.le_refl _) rfl rfl (fun _ _ => ⟨rfl, id⟩) fun hwid hne hle => ?_
  obtain ⟨-, -, -, haccepting, hcheaped⟩ := h.place wid hwid
  refine ⟨by show _ + k ≠ 0; omega, ?_⟩
  show m.chain_reloading + k ≤ wid
  by_contra hlt
  refine hpassed (wid - m.chain_reloading) (by omega) ?_
  rw [Nat.add_sub_cancel' hle]
  exact ⟨⟨by rw [hwid]; exact Option.some_ne_none _, hcheaped⟩, haccepting⟩

end

theorem ChainOk.replacing (hok : ChainOk now m m') (hnow : now ≠ 0)
    (h : Replacing m₀ wid process m) : Replacing m₀ wid process m' := by
  cases hok with
  | idle _ =>
    exact h.frame (Nat.le_refl _) rfl rfl (fun _ _ => ⟨rfl, id⟩) (fun _ hne hle => ⟨hne, hle⟩)
  | waits => exact h
  | finished hover =>
    -- a chain that is over is behind the place
    refine h.frame (Nat.le_refl _) rfl rfl (fun _ _ => ⟨rfl, id⟩) fun _ _ hle => ?_
    have hnumproc := h.numproc
    omega
  | search _ _ _ hsearch =>
    cases hsearch with
    | none hpassed | waits k hk hpassed hserving hcursed => exact h.moved hpassed
    | victim k hk hpassed hserving hcursed hcurse =>
      exact (h.moved hpassed).cursed hnow hserving.1.1 (fun _ => hcursed) hcurse

theorem MercyOk.replacing (hok : MercyOk now m m') (hnow : now ≠ 0)
    (h : Replacing m₀ wid process m) : Replacing m₀ wid process m' := by
  induction hok with
  | done m => exact h
  | kill wid' halive hcurse hrest ih =>
    refine ih (h.cursed hnow halive ?_ hcurse)
    nofun

/-- A new process is none of those that were there. -/
theorem Replacing.respawned (h : Replacing m₀ wid process m)
    (hrespawned : Respawned wid' m m') : Replacing m₀ wid process m' := by
  have hspawned : m.spawned ≤ m'.spawned := by
    rcases hrespawned.self with ⟨-, hsame⟩ | ⟨-, hnext⟩ <;> omega
  refine h.frame hspawned hrespawned.numproc hrespawned.sent (fun w hw => ?_) ?_
  · have hne : w ≠ wid' := by
      rintro rfl
      have hold := h.spawned
      rcases hrespawned.self with ⟨hnone, -⟩ | ⟨hsome, -⟩
      · nomatch hnone.symm.trans hw
      · have heq := Option.some.inj (hsome.symm.trans hw)
        omega
    rw [hrespawned.others w hne]
    exact ⟨rfl, id⟩
  · intro _ hne hle
    rw [hrespawned.chain_reloading]
    exact ⟨hne, hle⟩

/-- The worker of a process that is still there did not die. -/
theorem ne_of_buried {m : Master} {w : Nat}
    (hw : ((m.modify wid' (buryWorker go_cheap)).workers w).process = some process) : w ≠ wid' := by
  rintro rfl
  rw [modify_workers_self] at hw
  nomatch hw

theorem Replacing.buried {chain : Nat} (h : Replacing m₀ wid process m)
    (hchain : chain = m.chain_reloading ∨ m.chain_reloading = wid' ∧ chain = wid' + 1) :
    Replacing m₀ wid process
      { m.modify wid' (buryWorker go_cheap) with chain_reloading := chain } := by
  refine h.frame (Nat.le_refl _) rfl rfl (fun w hw => ?_) fun hwid hne hle => ?_
  · have hother := modify_workers_of_ne (ne_of_buried hw) m (buryWorker go_cheap)
    rw [hother]
    exact ⟨rfl, id⟩
  · have hother := ne_of_buried hwid
    dsimp only
    omega

theorem DiedOk.replacing (hok : DiedOk wid' go_cheap m m')
    (h : Replacing m₀ wid process m) : Replacing m₀ wid process m' := by
  cases hok with
  | cheaped _ => exact h.buried (.inl rfl)
  | respawned _ _ hrespawned =>
    refine Replacing.respawned ?_ hrespawned
    unfold passWorker
    split
    · rename_i hat
      have hat : m.chain_reloading = wid' := hat
      exact h.buried (.inr ⟨hat, congrArg (· + 1) hat⟩)
    · exact h.buried (.inl rfl)

theorem masterStep_replacing (h : Replacing m₀ wid process m)
    (hstep : masterStep cfg m e = some m') : Replacing m₀ wid process m' := by
  cases masterStep_ok hstep with
  | begins hidle =>
    -- a second reload begins when the process is gone
    exact h.frame (Nat.le_refl _) rfl rfl (fun _ _ => ⟨rfl, id⟩) fun _ hne _ => absurd hidle hne
  | runs _ => exact h
  | check_chain hnow hok | check_mercy hnow hok => exact hok.replacing hnow h
  | died _ hok => exact hok.replacing h
  | respawn hok => exact h.respawned hok
  | ready wid' =>
    refine h.frame (Nat.le_refl _) rfl rfl (fun w _ => ?_) (fun _ hne hle => ⟨hne, hle⟩)
    by_cases hw : w = wid'
    · rw [hw, modify_workers_self]
      exact ⟨rfl, fun _ => rfl⟩
    · rw [modify_workers_of_ne hw]
      exact ⟨rfl, id⟩

end Replacing

/-- When a chain reload is over, no process that served when it began is still a worker, and
    the chain signalled each of them at most once. -/
theorem chain_reload_complete (cfg : MasterConfig) (m₀ m : Master) (hm₀ : Processes m₀)
    (hidle : m₀.chain_reloading = 0) (es : List MasterEvent)
    (hrun : Machine.run (masterStep cfg) m₀ (.chain_reload :: es) = some m) (wid process : Nat)
    (hserves : Serves m₀ wid process) :
    hups process m.sent ≤ hups process m₀.sent + 1 ∧
      (m.chain_reloading = 0 → ∀ wid', (m.workers wid').process ≠ some process) := by
  have hbegun : Machine.run (masterStep cfg) m₀.upsgi_chain_reload es = some m := hrun
  have h : Replacing m₀ wid process m :=
    Machine.run_invariant (Replacing m₀ wid process) (fun _ => True)
      (fun _ _ _ hm _ hstep => masterStep_replacing hm hstep) es m₀.upsgi_chain_reload m
      (hserves.replacing hm₀ hidle) (fun _ _ => trivial) hbegun
  refine ⟨?_, fun hover wid' hwid' => (h.place wid' hwid').2.1 hover⟩
  rcases h.hups with hcount | ⟨hcount, -⟩ <;> omega

theorem allServing_processes (numproc : Nat) : Processes (allServing numproc) := by
  have hsome : ∀ wid process, ((allServing numproc).workers wid).process = some process →
      wid ≤ numproc ∧ wid = process := by
    intro wid process h
    unfold allServing at h
    dsimp only at h
    split at h
    · rename_i hle
      exact ⟨hle, Option.some.inj h⟩
    · nomatch h
  refine ⟨fun wid process h => ?_, fun wid wid' process h h' => ?_⟩
  · obtain ⟨hle, rfl⟩ := hsome wid process h
    exact Nat.lt_succ_of_le hle
  · rw [(hsome wid process h).2, (hsome wid' process h').2]

/-- Two workers are replaced, the second dies before its turn. -/
theorem chain_reload_complete_two : ∃ m,
    Machine.run (masterStep ⟨60, 0⟩) (allServing 2)
      [.chain_reload, .check_chain 10, .died 2 false true 11, .ready 2, .died 1 false true 12,
        .ready 1, .check_chain 13, .died 2 false true 14, .ready 2, .check_chain 15] = some m ∧
    m.chain_reloading = 0 ∧ hups 1 m.sent ≤ 1 ∧ ∀ wid, (m.workers wid).process ≠ some 1 := by
  have hend : (Machine.run (masterStep ⟨60, 0⟩) (allServing 2)
      [.chain_reload, .check_chain 10, .died 2 false true 11, .ready 2, .died 1 false true 12,
        .ready 1, .check_chain 13, .died 2 false true 14, .ready 2, .check_chain 15]).map
        (·.chain_reloading) = some 0 := by decide
  obtain ⟨m, hrun, hover⟩ := Option.map_eq_some_iff.mp hend
  obtain ⟨hhups, hgone⟩ := chain_reload_complete ⟨60, 0⟩ (allServing 2) m (allServing_processes 2)
    rfl _ hrun 1 1 (by decide)
  exact ⟨m, hrun, hover, hhups, hgone hover⟩

end Master

end Upsgi
