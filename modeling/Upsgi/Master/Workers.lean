import Upsgi.Lib.Machine

/-! # The workers of the master

    What the master keeps about its workers, and the functions that change it:
    `upsgi_curse` and `upsgi_respawn_worker` of `core/master_utils.c`, the part of
    `master_loop` for a worker that died, `upsgi_master_check_mercy` of `core/master.c`, and
    `upsgi_master_check_chain` of `core/master_checks.c`.

    Process ids are used again by the system, so a process is known by a number that counts
    the processes of the master.  Exit codes that stop or reload the whole instance are left
    out, and so is the delay for workers that die too fast.
-/

namespace Upsgi

/-! ### State -/

inductive MasterSignal where
  | sighup
  | sigkill
  | sigwinch
  deriving DecidableEq, Repr

/-- The fields of `struct upsgi_worker`.  `process` is `none` when `pid` is 0. -/
structure MasterWorker where
  process : Option Nat := none
  accepting : Bool := false
  cheaped : Bool := false
  cursed_at : Nat := 0
  no_mercy_at : Nat := 0
  last_spawn : Nat := 0
  deriving DecidableEq, Repr

/-- A signal to the process of a worker. -/
structure SentSignal where
  wid : Nat
  process : Nat
  signal : MasterSignal
  deriving DecidableEq, Repr

/-- The workers 1 to `numproc`.  `spawned` and `sent` are not fields of the source: the number
    of processes so far, and the signals that were sent to them. -/
structure Master where
  numproc : Nat
  workers : Nat → MasterWorker
  chain_reloading : Nat := 0
  last_chain_curse : Nat := 0
  spawned : Nat := 0
  sent : List SentSignal := []

structure MasterConfig where
  worker_reload_mercy : Nat
  chain_reload_delay : Nat
  deriving DecidableEq, Repr

/-! ### Functions -/

namespace Master

/-- Writes the fields of a worker. -/
def modify (m : Master) (wid : Nat) (f : MasterWorker → MasterWorker) : Master :=
  { m with workers := Function.update m.workers wid (f (m.workers wid)) }

/-- `kill`, to the process of a worker. -/
def kill (m : Master) (wid : Nat) (signal : MasterSignal) : Master :=
  match (m.workers wid).process with
  | some process => { m with sent := m.sent ++ [⟨wid, process, signal⟩] }
  | none => m

def upsgi_curse (cfg : MasterConfig) (now : Nat) (m : Master) (wid : Nat) (signal : MasterSignal) :
    Master :=
  (m.modify wid fun w =>
    { w with cursed_at := now, no_mercy_at := now + cfg.worker_reload_mercy }).kill wid signal

/-- The fields that are reset before a worker is forked. -/
def resetWorker (current_time : Nat) (w : MasterWorker) : MasterWorker :=
  { w with
    accepting := false, last_spawn := current_time, cursed_at := 0, no_mercy_at := 0
    cheaped := false }

/-- `upsgi_respawn_worker` in the master; `forked` says whether there is a new process. -/
def upsgi_respawn_worker (current_time : Nat) (forked : Bool) (m : Master) (wid : Nat) : Master :=
  let m := m.modify wid (resetWorker current_time)
  if forked then
    { m.modify wid ({ · with process := some m.spawned }) with spawned := m.spawned + 1 }
  else m

/-- The worker has no process any more; one that asked for cheap mode is cheaped. -/
def buryWorker (go_cheap : Bool) (w : MasterWorker) : MasterWorker :=
  { w with process := none, cheaped := w.cheaped || go_cheap }

/-- `if (upsgi.status.chain_reloading == thewid) upsgi.status.chain_reloading++`. -/
def passWorker (m : Master) (wid : Nat) : Master :=
  if m.chain_reloading = wid then { m with chain_reloading := m.chain_reloading + 1 } else m

/-- The end of `master_loop`: a worker died.  With `go_cheap` its exit code is
    `UPSGI_GO_CHEAP_CODE`. -/
def workerDied (current_time : Nat) (go_cheap forked : Bool) (m : Master) (wid : Nat) : Master :=
  let m := m.modify wid (buryWorker go_cheap)
  if (m.workers wid).cheaped then m
  else (m.passWorker wid).upsgi_respawn_worker current_time forked wid

/-- The body of the loop of `upsgi_master_check_mercy`. -/
def mercyWorker (cfg : MasterConfig) (now : Nat) (m : Master) (wid : Nat) : Master :=
  let w := m.workers wid
  if w.process ≠ none ∧ w.cursed_at ≠ 0 ∧ w.no_mercy_at < now then
    m.upsgi_curse cfg now wid .sigkill
  else m

def upsgi_master_check_mercy (cfg : MasterConfig) (now : Nat) (m : Master) : Master :=
  (List.range' 1 m.numproc).foldl (mercyWorker cfg now) m

/-! ### Chain reloading -/

/-- The worker is alive and not cheaped. -/
def Active (m : Master) (wid : Nat) : Prop :=
  (m.workers wid).process ≠ none ∧ (m.workers wid).cheaped = false

/-- The worker is alive and not cheaped, and it does not accept requests yet. -/
def Starting (m : Master) (wid : Nat) : Prop :=
  m.Active wid ∧ (m.workers wid).accepting = false

instance (m : Master) (wid : Nat) : Decidable (m.Active wid) :=
  inferInstanceAs (Decidable (_ ∧ _))

instance (m : Master) (wid : Nat) : Decidable (m.Starting wid) :=
  inferInstanceAs (Decidable (_ ∧ _))

/-- The loop that looks for the next victim, over the worker `chain_reloading` and `k - 1`
    more. -/
def chainLoop (cfg : MasterConfig) (now : Nat) : Nat → Master → Master
  | 0, m => m
  | k + 1, m =>
      if m.Active m.chain_reloading ∧ (m.workers m.chain_reloading).accepting = true then
        -- the worker could have been already cursed
        if (m.workers m.chain_reloading).cursed_at = 0 then
          { m.upsgi_curse cfg now m.chain_reloading .sighup with last_chain_curse := now }
        else m
      else chainLoop cfg now k { m with chain_reloading := m.chain_reloading + 1 }

def upsgi_master_check_chain (cfg : MasterConfig) (now : Nat) (m : Master) : Master :=
  if m.chain_reloading = 0 then { m with last_chain_curse := 0 }
  -- only the worker before the present one is looked at
  else if 1 < m.chain_reloading ∧ m.Starting (m.chain_reloading - 1) then m
  else if m.numproc < m.chain_reloading then
    { m with chain_reloading := 0, last_chain_curse := 0 }
  else if 0 < cfg.chain_reload_delay ∧ 0 < m.last_chain_curse ∧
      now < m.last_chain_curse + cfg.chain_reload_delay then m
  else chainLoop cfg now (m.numproc + 1 - m.chain_reloading) m

def upsgi_chain_reload (m : Master) : Master :=
  if m.chain_reloading = 0 then { m with chain_reloading := 1 } else m

end Master

/-! ### Events -/

inductive MasterEvent where
  | chain_reload
  | check_chain (now : Nat)
  | check_mercy (now : Nat)
  | died (wid : Nat) (go_cheap forked : Bool) (now : Nat)
  /-- A worker without a process is spawned, in cheaper mode or at the end of cheap mode. -/
  | respawn (wid : Nat) (forked : Bool) (now : Nat)
  /-- The worker marks itself as accepting. -/
  | ready (wid : Nat)
  deriving DecidableEq, Repr

open Master in
/-- The events that are possible: workers have their number, only living processes die, and
    the clock does not show 0. -/
def masterStep (cfg : MasterConfig) (m : Master) : MasterEvent → Option Master
  | .chain_reload => some m.upsgi_chain_reload
  | .check_chain now => if now = 0 then none else some (m.upsgi_master_check_chain cfg now)
  | .check_mercy now => if now = 0 then none else some (m.upsgi_master_check_mercy cfg now)
  | .died wid go_cheap forked now =>
      if 0 < wid ∧ wid ≤ m.numproc ∧ (m.workers wid).process ≠ none then
        some (m.workerDied now go_cheap forked wid)
      else none
  | .respawn wid forked now =>
      if 0 < wid ∧ wid ≤ m.numproc ∧ (m.workers wid).process = none then
        some (m.upsgi_respawn_worker now forked wid)
      else none
  | .ready wid =>
      if 0 < wid ∧ wid ≤ m.numproc ∧ (m.workers wid).process ≠ none then
        some (m.modify wid fun w => { w with accepting := true })
      else none

end Upsgi
