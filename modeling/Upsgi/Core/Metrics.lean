import Upsgi.Lib.Framing

/-! # Metrics and a restart

    The metrics of `core/metrics.c`, with a directory that is restored at start-up: the calls
    that change a value, the rounds of `upsgi_metrics_loop`, and `upsgi_setup_metrics`.

    A round writes the file of a metric when its collector changed the value, and the number
    restored from a file is what a collector adds to.  Without a collector a metric is neither
    written nor restored: it starts again from its configured initial value.

    What collectors return is arbitrary.  Overflow, undefined in C, wraps around.
-/

namespace Upsgi

open Framing (Bytes)

/-- Alarms, which change no value, are left out. -/
structure MetricThreshold where
  value : Int64
  reset : Option Int64

/-- A metric as it is configured; `value` is the place of its value in the shared memory, for an
    alias that of its target. -/
structure Metric where
  name : Bytes
  oid : Option Bytes := none
  is_alias : Bool := false
  collector : Bool := false
  value : Nat := 0
  initial_value : Int64 := 0
  freq : Nat := 1
  thresholds : List MetricThreshold := []

/-- The shared memory, and for each name the rest of the metric and its file: the number that
    `strtoll` reads there, which for a number written with `"%lld\n"` is this number. -/
structure MetricState where
  values : Nat → Int64
  initial_value : Bytes → Int64
  last_update : Bytes → Int
  map : Bytes → Int64

/-- `upsgi_metric_find_by_name`, or without a name `upsgi_metric_find_by_oid`. -/
def metricFind (cfg : List Metric) : Option Bytes → Option Bytes → Option Metric
  | some name, _ => cfg.find? (·.name = name)
  | none, some oid => cfg.find? (·.oid = some oid)
  | none, none => none

/-- The calls fail for a metric that is collected and for an alias. -/
def um_op (cfg : List Metric) (name oid : Option Bytes) (s : MetricState) (f : Int64 → Int64) :
    Option MetricState :=
  match metricFind cfg name oid with
  | none => none
  | some um =>
    if um.collector ∨ um.is_alias then none
    else some { s with values := Function.update s.values um.value (f (s.values um.value)) }

section Calls

variable (cfg : List Metric) (name oid : Option Bytes) (value : Int64) (s : MetricState)

def upsgi_metric_set : Option MetricState := um_op cfg name oid s fun _ => value

def upsgi_metric_inc : Option MetricState := um_op cfg name oid s (· + value)

def upsgi_metric_dec : Option MetricState := um_op cfg name oid s (· - value)

def upsgi_metric_mul : Option MetricState := um_op cfg name oid s (· * value)

def upsgi_metric_div : Option MetricState :=
  if value = 0 then none else um_op cfg name oid s (· / value)

end Calls

/-- The `new_value` of a round. -/
def newValue (func : Bytes → Int64) (s : MetricState) (m : Metric) : Int64 :=
  if m.collector then s.initial_value m.name + func m.name else s.values m.value

/-- A metric's turn in a round. -/
def metricTurn (now : Int) (func : Bytes → Int64) (s : MetricState) (m : Metric) : MetricState :=
  if s.last_update m.name ≠ 0 ∧ (now - s.last_update m.name) % 2 ^ 32 < m.freq then s
  else
    let value := s.values m.value
    let new_value := newValue func s m
    { s with
      values := m.thresholds.foldl
        (fun values umt =>
          if umt.value ≤ new_value then umt.reset.elim values (Function.update values m.value)
          else values)
        (Function.update s.values m.value new_value)
      last_update := Function.update s.last_update m.name now
      map := if value ≠ new_value then Function.update s.map m.name new_value else s.map }

/-- The part of the start that concerns values: the initial values are stored before the files
    are read. -/
def upsgi_setup_metrics (cfg : List Metric) (map : Bytes → Int64) : MetricState where
  values := cfg.foldl
    (fun values m =>
      if m.initial_value ≠ 0 then Function.update values m.value m.initial_value else values)
    fun _ => 0
  initial_value := map
  last_update _ := 0
  map := map

inductive MetricCall where
  | set
  | inc
  | dec
  | mul
  | div

def MetricCall.run : MetricCall → List Metric → Option Bytes → Option Bytes → Int64 → MetricState →
    Option MetricState
  | .set => upsgi_metric_set
  | .inc => upsgi_metric_inc
  | .dec => upsgi_metric_dec
  | .mul => upsgi_metric_mul
  | .div => upsgi_metric_div

inductive MetricEvent where
  | call (op : MetricCall) (name oid : Option Bytes) (value : Int64)
  | round (now : Int) (func : Bytes → Int64)

def metricStep (cfg : List Metric) (s : MetricState) : MetricEvent → MetricState
  | .call op name oid value => (op.run cfg name oid value s).getD s
  | .round now func => cfg.foldl (metricTurn now func) s

/-- The initial value at a place, that of the last metric that has one. -/
def initialValue (cfg : List Metric) (place : Nat) : Int64 :=
  cfg.foldl (fun v m => if m.value = place ∧ m.initial_value ≠ 0 then m.initial_value else v) 0

/-- A start gives each place its initial value, whatever the files hold. -/
theorem upsgi_setup_metrics_values (cfg : List Metric) (map : Bytes → Int64) (place : Nat) :
    (upsgi_setup_metrics cfg map).values place = initialValue cfg place := by
  refine (List.foldl_hom (fun values : Nat → Int64 => values place) fun values m => ?_).symm
  by_cases hplace : m.value = place
  · subst hplace
    by_cases hzero : m.initial_value = 0 <;> simp [hzero]
  · by_cases hzero : m.initial_value = 0 <;> simp [hzero, hplace, Ne.symm hplace]

/-- Without a collector a metric's turn writes no file. -/
theorem metricTurn_map {m : Metric} (hm : m.collector = false) (now : Int) (func : Bytes → Int64)
    (s : MetricState) : (metricTurn now func s m).map = s.map := by
  unfold metricTurn
  split
  · rfl
  · simp [newValue, hm]

/-- After calls and rounds, a last round and a restart, a metric without a collector has the
    value of the round if and only if that is its initial value; the round does not store it. -/
theorem restart_value_iff (before after : List Metric) (m : Metric) (hm : m.collector = false)
    (files : Bytes → Int64) (events : List MetricEvent) (now : Int) (func : Bytes → Int64) :
    let cfg := before ++ m :: after
    let s := events.foldl (metricStep cfg) (upsgi_setup_metrics cfg files)
    let turn := before.foldl (metricTurn now func) s
    let restarted := upsgi_setup_metrics cfg (metricStep cfg s (.round now func)).map
    (restarted.values m.value = newValue func turn m ↔
      turn.values m.value = initialValue cfg m.value) ∧
    (metricTurn now func turn m).map = turn.map := by
  intro cfg s turn restarted
  refine ⟨?_, metricTurn_map hm now func turn⟩
  have hvalue : newValue func turn m = turn.values m.value := by
    unfold newValue
    rw [hm]
    rfl
  rw [upsgi_setup_metrics_values, hvalue]
  exact eq_comm

/-- The value of a counter in the round after an event, and after a restart. -/
def counterRestart (event : MetricEvent) : Int64 × Int64 :=
  let counter : Metric := { name := [97] }
  let cfg := [counter]
  let s := metricStep cfg (upsgi_setup_metrics cfg fun _ => 0) event
  (newValue (fun _ => 0) s counter,
    (upsgi_setup_metrics cfg (metricStep cfg s (.round 1 fun _ => 0)).map).values 0)

theorem restart_value_iff_zero :
    (counterRestart (.call .set (some [97]) none 0)).2 = (counterRestart (.call .set (some [97]) none 0)).1 :=
  (restart_value_iff [] [] { name := [97] } rfl (fun _ => 0) [.call .set (some [97]) none 0] 1
    fun _ => 0).1.mpr rfl

theorem restart_loses_value : counterRestart (.call .set (some [97]) none 5) = (5, 0) := by
  decide

end Upsgi
