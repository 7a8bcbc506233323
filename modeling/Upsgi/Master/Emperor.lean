import Upsgi.Core.Strings

/-! # The end of the Emperor

    `royal_death` (`core/emperor.c`) runs the stop hook for each vassal and then stops each vassal.
    Both walks use the cursor `c_ui`, which is set to the first vassal only once, before the first
    walk.
-/

namespace Upsgi

open Framing List

/-- `upsgi_instance`, with what was written to its pipe. -/
structure Vassal where
  name : Bytes
  status : Nat
  pid : Int
  cursed_at : Nat
  pipe : Bytes
  deriving DecidableEq, Repr

structure Emperor where
  zeus : Bool
  emperor_graceful_shutdown : Bool
  vassals_stop_hook : Option Bytes
  reload_mercy : Nat
  on_royal_death : Nat
  /-- The list behind `ui`. -/
  vassals : List Vassal
  /-- The stop hooks that have run, each with the name of its vassal. -/
  hooks : List (Bytes × Bytes)

namespace Emperor

variable (e : Emperor) (now : Nat)

def stopCommand : UInt8 :=
  if e.emperor_graceful_shutdown then 2 else 0

def emperor_stop (c_ui : Vassal) : Vassal :=
  if c_ui.status = 1 then c_ui
  else if e.zeus then c_ui
  else
    { c_ui with
      pipe := if c_ui.pid ≠ -1 then c_ui.pipe ++ [e.stopCommand] else c_ui.pipe
      status := 1
      cursed_at := now }

/-- The walk that runs the hook: the hooks run, and the vassals from the cursor on. -/
def hookWalk (hook : Bytes) : List Vassal → List (Bytes × Bytes) × List Vassal
  | [] => ([], [])
  | c_ui :: next =>
      let (hooks, rest) := hookWalk hook next
      ((hook, c_ui.name) :: hooks, rest)

def royal_death : Emperor :=
  if e.on_royal_death ≠ 0 then e
  else
    let (hooks, c_ui) := match e.vassals_stop_hook with
      | some hook => hookWalk hook e.vassals
      | none => ([], e.vassals)
    { e with
      hooks := e.hooks ++ hooks
      -- the second walk begins where the cursor is
      vassals := e.vassals.take (e.vassals.length - c_ui.length) ++ c_ui.map (e.emperor_stop now)
      reload_mercy := if e.reload_mercy = 0 then 30 else e.reload_mercy
      on_royal_death := now }

/-- A vassal before and after: it is stopping, and has been told so if it has a process. -/
def Stopped (v v' : Vassal) : Prop :=
  v'.status = 1 ∧ (v.pid ≠ -1 → v.status ≠ 1 → v'.pipe = v.pipe ++ [e.stopCommand])

theorem hookWalk_cursor (hook : Bytes) (vassals : List Vassal) :
    (hookWalk hook vassals).2 = [] := by
  induction vassals with
  | nil => rfl
  | cons c_ui next ih => exact ih

theorem emperor_stop_stopped (hzeus : e.zeus = false) (v : Vassal) :
    e.Stopped v (e.emperor_stop now v) := by
  unfold emperor_stop
  by_cases hstatus : v.status = 1
  · rw [if_pos hstatus]
    exact ⟨hstatus, fun _ hnot => absurd hstatus hnot⟩
  · rw [if_neg hstatus, hzeus, if_neg Bool.false_ne_true]
    exact ⟨rfl, fun hpid _ => if_pos hpid⟩

/-- The first `royal_death` stops every vassal if and only if there is no stop hook, or nothing to
    stop: behind the walk of the hooks the cursor is at the end of the list. -/
theorem royal_death_stops_iff (hzeus : e.zeus = false) (hfirst : e.on_royal_death = 0) :
    Forall₂ e.Stopped e.vassals (e.royal_death now).vassals ↔
      e.vassals_stop_hook = none ∨ ∀ v ∈ e.vassals, v.status = 1 := by
  unfold royal_death
  rw [if_neg (not_not.mpr hfirst)]
  cases hhook : e.vassals_stop_hook with
  | none =>
    refine iff_of_true ?_ (Or.inl rfl)
    simp only [Nat.sub_self, take_zero, nil_append, forall₂_map_right_iff, forall₂_same]
    exact fun v _ => e.emperor_stop_stopped now hzeus v
  | some hook =>
    simp only [hookWalk_cursor, length_nil, Nat.sub_zero, take_length, map_nil, append_nil,
      forall₂_same, reduceCtorEq, false_or]
    -- no vassal was touched
    exact forall₂_congr fun v _ => ⟨And.left, fun h => ⟨h, fun _ hnot => absurd h hnot⟩⟩

/-- A stop hook and one running vassal. -/
def hooked : Emperor :=
  ⟨false, false, some (lit "hook"), 0, 0, [⟨lit "a.ini", 0, 7, 0, []⟩], []⟩

theorem royal_death_stops_iff_plain :
    Forall₂ hooked.Stopped hooked.vassals
      ({ hooked with vassals_stop_hook := none }.royal_death 5).vassals :=
  ({ hooked with vassals_stop_hook := none }.royal_death_stops_iff 5 rfl rfl).mpr (.inl rfl)

/-- The hook has run, and the vassal is as it was. -/
theorem royal_death_after_hooks :
    (hooked.royal_death 5).hooks = [(lit "hook", lit "a.ini")] ∧
      (hooked.royal_death 5).vassals = hooked.vassals := by
  decide

end Emperor

end Upsgi
