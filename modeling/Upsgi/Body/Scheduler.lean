import Mathlib

/-! # The body scheduler

    `core/body_scheduler.c`.  Each read of a request body asks for a budget and
    reports what it has read.  A request is first in the interactive lane and can
    be moved to the bulk lane; the core counts what happens.

    Fields have their names of the source without `body_sched_`.  The counters of
    the core that are only ever increased, and the clock, are 64-bit numbers; the
    credit of a request and the numbers of requests of the core stay far below that
    and are natural numbers.
-/

namespace Upsgi

/-! ### State -/

/-- `UPSGI_BODY_SCHED_LANE_*`. -/
inductive SchedLane where
  | none
  | interactive
  | bulk
  deriving DecidableEq, Repr

/-- What the scheduler reads and writes of a request. -/
structure SchedRequest where
  post_cl : UInt64
  body_is_chunked : Bool
  started_at_us : UInt64 := 0
  last_service_us : UInt64 := 0
  bytes_observed : UInt64 := 0
  deficit_bytes : Nat := 0
  last_budget_bytes : Nat := 0
  rounds_observed : UInt32 := 0
  full_budget_turns : UInt32 := 0
  registered : Bool := false
  lane_class : SchedLane := .none
  promoted_by_bytes : Bool := false
  promoted_by_rounds : Bool := false
  promoted_by_residency : Bool := false
  marked_complete : Bool := false
  last_budget_capped : Bool := false
  disabled_fallback_noted : Bool := false
  recent_wait_event : Bool := false
  deriving DecidableEq, Repr

/-- What the scheduler counts for a core.  The last two fields are not in the
    source: they count what should not happen. -/
structure SchedCore where
  rounds : UInt64 := 0
  interactive_turns : UInt64 := 0
  bulk_turns : UInt64 := 0
  requeues : UInt64 := 0
  promotions_to_bulk : UInt64 := 0
  no_credit_skips : UInt64 := 0
  empty_read_events : UInt64 := 0
  eagain_events : UInt64 := 0
  completed_items : UInt64 := 0
  bytes_interactive : UInt64 := 0
  bytes_bulk : UInt64 := 0
  bytes_total : UInt64 := 0
  credit_granted_bytes : UInt64 := 0
  credit_unused_bytes : UInt64 := 0
  active_items : Nat := 0
  interactive_depth_max : Nat := 0
  bulk_depth_max : Nat := 0
  residency_us_max : UInt64 := 0
  residency_us_p50_sample : UInt64 := 0
  residency_us_p95_sample : UInt64 := 0
  items_promoted_by_bytes : UInt64 := 0
  items_promoted_by_rounds : UInt64 := 0
  items_promoted_by_residency : UInt64 := 0
  near_complete_fastfinishes : UInt64 := 0
  overflow_protection_hits : UInt64 := 0
  disabled_fallbacks : UInt64 := 0
  full_budget_turns : UInt64 := 0
  wait_relief_events : UInt64 := 0
  yield_hints : UInt64 := 0
  interactive_depth_current : Nat := 0
  bulk_depth_current : Nat := 0
  residency_hist : List UInt64 := List.replicate 16 0
  /-- Guarded decrements that found zero. -/
  underflows : Nat := 0
  /-- Budgets that fell back because the credit was zero. -/
  zero_grants : Nat := 0
  deriving DecidableEq, Repr

/-- A request together with its core. -/
structure Sched where
  req : SchedRequest
  core : SchedCore

/-! ### Constants -/

def INTERACTIVE_BYTES_THRESHOLD : UInt64 := 256 * 1024
def INTERACTIVE_ROUNDS_THRESHOLD : UInt32 := 4
def INTERACTIVE_RESIDENCY_US_THRESHOLD : UInt64 := 250 * 1000
def NEAR_COMPLETE_BYTES_THRESHOLD : UInt64 := 64 * 1024
def PROMOTION_MIN_BYTES : UInt64 := 64 * 1024
def FULL_BUDGET_PROMOTION_THRESHOLD : UInt32 := 2
def FULL_BUDGET_RATIO_NUM : Nat := 7
def FULL_BUDGET_RATIO_DEN : Nat := 8
def INTERACTIVE_QUANTUM_BYTES : Nat := 64 * 1024
def BULK_QUANTUM_BYTES : Nat := 32 * 1024
def DEFICIT_CAP_MULTIPLIER : Nat := 4

/-- `upsgi_body_sched_residency_bucket_limits_us`. -/
def residency_bucket_limits_us : List UInt64 :=
  [1000, 2000, 4000, 8000, 16000, 32000, 64000, 128000, 256000, 512000, 1000000, 2000000, 4000000,
    8000000, 16000000, 0xffffffffffffffff]

/-! ### Lanes -/

def upsgi_body_sched_lane_quantum (lane : SchedLane) : Nat :=
  if lane = .bulk then BULK_QUANTUM_BYTES else INTERACTIVE_QUANTUM_BYTES

/-- `upsgi_body_sched_is_full_budget_turn`, with products in 64 bits. -/
def upsgi_body_sched_is_full_budget_turn (req : SchedRequest) (observed_bytes : Nat) : Bool :=
  if req.last_budget_bytes = 0 then false
  else if req.last_budget_bytes ≤ observed_bytes then true
  else
    decide (req.last_budget_bytes * FULL_BUDGET_RATIO_NUM % 2 ^ 64 ≤
      observed_bytes * FULL_BUDGET_RATIO_DEN % 2 ^ 64)

def upsgi_body_sched_update_depth_max (uc : SchedCore) : SchedCore :=
  { uc with
    interactive_depth_max := max uc.interactive_depth_max uc.interactive_depth_current
    bulk_depth_max := max uc.bulk_depth_max uc.bulk_depth_current }

/-- `if (depth > 0) depth--` for the interactive lane. -/
def leaveInteractive (uc : SchedCore) : SchedCore :=
  if 0 < uc.interactive_depth_current then
    { uc with interactive_depth_current := uc.interactive_depth_current - 1 }
  else { uc with underflows := uc.underflows + 1 }

/-- The same for the bulk lane. -/
def leaveBulk (uc : SchedCore) : SchedCore :=
  if 0 < uc.bulk_depth_current then { uc with bulk_depth_current := uc.bulk_depth_current - 1 }
  else { uc with underflows := uc.underflows + 1 }

/-- The same for the number of active requests. -/
def leaveActive (uc : SchedCore) : SchedCore :=
  if 0 < uc.active_items then { uc with active_items := uc.active_items - 1 }
  else { uc with underflows := uc.underflows + 1 }

def upsgi_body_sched_promote_to_bulk (s : Sched) : Sched :=
  if s.req.lane_class = .bulk then s
  else
    let uc := leaveInteractive s.core
    let uc := { uc with bulk_depth_current := uc.bulk_depth_current + 1 }
    let uc := upsgi_body_sched_update_depth_max uc
    { req :=
        { s.req with
          lane_class := .bulk
          deficit_bytes :=
            if BULK_QUANTUM_BYTES < s.req.deficit_bytes then BULK_QUANTUM_BYTES
            else s.req.deficit_bytes }
      core := { uc with promotions_to_bulk := uc.promotions_to_bulk + 1 } }

/-- The first rule of `upsgi_body_sched_update_promotions`. -/
def promoteByBytes (s : Sched) : Sched :=
  if s.req.promoted_by_bytes = false ∧ INTERACTIVE_BYTES_THRESHOLD ≤ s.req.bytes_observed then
    upsgi_body_sched_promote_to_bulk
      { req := { s.req with promoted_by_bytes := true }
        core := { s.core with items_promoted_by_bytes := s.core.items_promoted_by_bytes + 1 } }
  else s

/-- The second rule. -/
def promoteByRounds (s : Sched) : Sched :=
  if s.req.promoted_by_rounds = false ∧ INTERACTIVE_ROUNDS_THRESHOLD ≤ s.req.rounds_observed ∧
      PROMOTION_MIN_BYTES ≤ s.req.bytes_observed ∧
      FULL_BUDGET_PROMOTION_THRESHOLD ≤ s.req.full_budget_turns then
    upsgi_body_sched_promote_to_bulk
      { req := { s.req with promoted_by_rounds := true }
        core := { s.core with items_promoted_by_rounds := s.core.items_promoted_by_rounds + 1 } }
  else s

/-- The third rule. -/
def promoteByResidency (residency_us : UInt64) (s : Sched) : Sched :=
  if s.req.promoted_by_residency = false ∧ INTERACTIVE_RESIDENCY_US_THRESHOLD ≤ residency_us ∧
      PROMOTION_MIN_BYTES ≤ s.req.bytes_observed ∧ 0 < s.req.full_budget_turns then
    upsgi_body_sched_promote_to_bulk
      { req := { s.req with promoted_by_residency := true }
        core := { s.core with items_promoted_by_residency := s.core.items_promoted_by_residency + 1 } }
  else s

def upsgi_body_sched_update_promotions (s : Sched) : Sched :=
  if s.req.registered = false then s
  else
    let residency_us := s.req.last_service_us - s.req.started_at_us
    promoteByResidency residency_us (promoteByRounds (promoteByBytes s))

/-! ### Residency -/

/-- One round of the second loop of `upsgi_body_sched_refresh_samples`. -/
def sampleBucket (target50 target95 : UInt64) (acc : UInt64 × UInt64 × UInt64) (bucket : UInt64 × UInt64) :
    UInt64 × UInt64 × UInt64 :=
  let (seen, p50, p95) := acc
  let (count, limit) := bucket
  -- behind the break
  if p95 ≠ 0 then acc
  else
    let seen := seen + count
    let p50 := if p50 = 0 ∧ target50 ≤ seen then limit else p50
    let p95 := if target95 ≤ seen then limit else p95
    (seen, p50, p95)

def upsgi_body_sched_refresh_samples (uc : SchedCore) : SchedCore :=
  let total := uc.residency_hist.foldl (· + ·) 0
  if total = 0 then { uc with residency_us_p50_sample := 0, residency_us_p95_sample := 0 }
  else
    let target50 := (total + 1) / 2
    let target95 := (total * 95 + 99) / 100
    let target95 := if target95 = 0 then 1 else target95
    let (_, p50, p95) :=
      (uc.residency_hist.zip residency_bucket_limits_us).foldl (sampleBucket target50 target95) (0, 0, 0)
    { uc with residency_us_p50_sample := p50, residency_us_p95_sample := p95 }

def upsgi_body_sched_record_residency (uc : SchedCore) (residency_us : UInt64) : SchedCore :=
  let uc :=
    if uc.residency_us_max < residency_us then { uc with residency_us_max := residency_us } else uc
  let bucket := residency_bucket_limits_us.findIdx fun limit => decide (residency_us ≤ limit)
  upsgi_body_sched_refresh_samples
    { uc with residency_hist := uc.residency_hist.modify bucket (· + 1) }

/-! ### Calls -/

/-- `upsgi_body_sched_note_request`, at the time `started`. -/
def upsgi_body_sched_note_request (enabled : Bool) (started : UInt64) (s : Sched) : Sched :=
  if s.req.registered then s
  else if s.req.post_cl = 0 ∧ s.req.body_is_chunked = false then s
  else
    let uc :=
      upsgi_body_sched_update_depth_max
        { s.core with
          active_items := s.core.active_items + 1
          interactive_depth_current := s.core.interactive_depth_current + 1 }
    let req : SchedRequest :=
      { s.req with
        registered := true
        lane_class := .interactive
        started_at_us := started
        last_service_us := started }
    if enabled = false ∧ req.disabled_fallback_noted = false then
      { req := { req with disabled_fallback_noted := true }
        core := { uc with disabled_fallbacks := uc.disabled_fallbacks + 1 } }
    else { req := req, core := uc }

/-- The credit that `upsgi_body_sched_read_budget` adds. -/
def addCredit (quantum : Nat) (s : Sched) : Sched :=
  let deficit_cap := quantum * DEFICIT_CAP_MULTIPLIER
  if s.req.deficit_bytes < deficit_cap then
    let deficit_bytes := s.req.deficit_bytes + quantum
    if deficit_cap < deficit_bytes then
      { req := { s.req with deficit_bytes := deficit_cap }
        core := { s.core with overflow_protection_hits := s.core.overflow_protection_hits + 1 } }
    else { s with req := { s.req with deficit_bytes := deficit_bytes } }
  else
    { s with core := { s.core with overflow_protection_hits := s.core.overflow_protection_hits + 1 } }

/-- A budget is granted. -/
def grantBudget (grant : Nat) (s : Sched) : Sched × Nat :=
  ({ req := { s.req with last_budget_bytes := grant }
     core := { s.core with credit_granted_bytes := s.core.credit_granted_bytes + UInt64.ofNat grant } },
    grant)

/-- The end of `upsgi_body_sched_read_budget`, when the credit was added. -/
def budgetFromCredit (quantum requested_bytes : Nat) (s : Sched) : Sched × Nat :=
  let grant := min requested_bytes s.req.deficit_bytes
  let (s, grant) :=
    if grant = 0 then
      ({ req := { s.req with deficit_bytes := 0 }
         core :=
           { s.core with
             no_credit_skips := s.core.no_credit_skips + 1
             zero_grants := s.core.zero_grants + 1 } }, min requested_bytes quantum)
    else (s, grant)
  let s : Sched :=
    if grant < requested_bytes then
      { req := { s.req with last_budget_capped := true }
        core := { s.core with no_credit_skips := s.core.no_credit_skips + 1 } }
    else s
  grantBudget grant s

def upsgi_body_sched_read_budget (enabled : Bool) (started : UInt64) (requested_bytes : Nat) (s : Sched) :
    Sched × Nat :=
  if requested_bytes = 0 then (s, requested_bytes)
  else
    let s := upsgi_body_sched_note_request enabled started s
    if s.req.registered = false then (s, requested_bytes)
    else
      let s := { s with req := { s.req with last_budget_capped := false, last_budget_bytes := 0 } }
      if enabled = false then grantBudget requested_bytes s
      else
        let s := upsgi_body_sched_update_promotions s
        let quantum := upsgi_body_sched_lane_quantum s.req.lane_class
        if s.req.recent_wait_event then
          grantBudget (min requested_bytes quantum)
            { s with core := { s.core with wait_relief_events := s.core.wait_relief_events + 1 } }
        else budgetFromCredit quantum requested_bytes (addCredit quantum s)

/-- The part of `upsgi_body_sched_note_bytes` that counts the turn. -/
def countTurn (now : UInt64) (observed_bytes : Nat) (s : Sched) : Sched :=
  let observed := UInt64.ofNat observed_bytes
  let req : SchedRequest :=
    { s.req with
      rounds_observed := s.req.rounds_observed + 1
      bytes_observed := s.req.bytes_observed + observed
      last_service_us := now }
  let uc := { s.core with rounds := s.core.rounds + 1 }
  let uc :=
    if req.lane_class = .bulk then
      { uc with bulk_turns := uc.bulk_turns + 1, bytes_bulk := uc.bytes_bulk + observed }
    else
      { uc with
        interactive_turns := uc.interactive_turns + 1
        bytes_interactive := uc.bytes_interactive + observed }
  let uc := { uc with bytes_total := uc.bytes_total + observed }
  let uc := if req.marked_complete = false then { uc with requeues := uc.requeues + 1 } else uc
  { req := req, core := uc }

/-- The part that charges the credit. -/
def chargeCredit (enabled : Bool) (observed_bytes : Nat) (s : Sched) : Sched :=
  let uc :=
    if observed_bytes < s.req.last_budget_bytes then
      { s.core with
        credit_unused_bytes :=
          s.core.credit_unused_bytes + UInt64.ofNat (s.req.last_budget_bytes - observed_bytes) }
    else s.core
  let req :=
    if enabled then
      if observed_bytes ≤ s.req.deficit_bytes then
        { s.req with deficit_bytes := s.req.deficit_bytes - observed_bytes }
      else { s.req with deficit_bytes := 0 }
    else s.req
  { req := req, core := uc }

/-- The part that counts turns that used their budget. -/
def countFullBudget (full_budget_turn : Bool) (s : Sched) : Sched :=
  if full_budget_turn then
    { req := { s.req with full_budget_turns := s.req.full_budget_turns + 1 }
      core := { s.core with full_budget_turns := s.core.full_budget_turns + 1 } }
  else { s with req := { s.req with full_budget_turns := 0 } }

/-- The part that notes the end of a body with a length. -/
def noteComplete (bytes_before : UInt64) (s : Sched) : Sched :=
  if s.req.body_is_chunked = false ∧ 0 < s.req.post_cl ∧ s.req.post_cl ≤ s.req.bytes_observed then
    { req := { s.req with marked_complete := true }
      core :=
        if s.req.post_cl - min bytes_before s.req.post_cl ≤ NEAR_COMPLETE_BYTES_THRESHOLD then
          { s.core with near_complete_fastfinishes := s.core.near_complete_fastfinishes + 1 }
        else s.core }
  else s

/-- The part that yields the processor. -/
def yieldHint (enabled full_budget_turn : Bool) (s : Sched) : Sched :=
  if enabled = true ∧ s.req.last_budget_capped = true ∧ s.req.lane_class = .bulk ∧
      s.req.marked_complete = false ∧ full_budget_turn = true ∧ s.req.recent_wait_event = false then
    { s with core := { s.core with yield_hints := s.core.yield_hints + 1 } }
  else s

/-- `upsgi_body_sched_note_bytes`.  The clock is read when the request is
    registered and when the turn is counted. -/
def upsgi_body_sched_note_bytes (enabled : Bool) (started now : UInt64) (observed_bytes : Nat)
    (s : Sched) : Sched :=
  if observed_bytes = 0 then s
  else
    let s := upsgi_body_sched_note_request enabled started s
    if s.req.registered = false then s
    else
      let bytes_before := s.req.bytes_observed
      let s := chargeCredit enabled observed_bytes (countTurn now observed_bytes s)
      let full_budget_turn := upsgi_body_sched_is_full_budget_turn s.req observed_bytes
      let s := upsgi_body_sched_update_promotions (countFullBudget full_budget_turn s)
      let s := yieldHint enabled full_budget_turn (noteComplete bytes_before s)
      { s with req := { s.req with recent_wait_event := false } }

/-- What `upsgi_body_sched_note_empty_read` and `upsgi_body_sched_note_eagain`
    have in common: a wait is noted, and counted by `count`. -/
def noteWait (count : SchedCore → SchedCore) (enabled : Bool) (started : UInt64) (s : Sched) : Sched :=
  let s := upsgi_body_sched_note_request enabled started s
  if s.req.registered = false then s
  else
    { req := { s.req with recent_wait_event := true, full_budget_turns := 0 }
      core := count s.core }

def upsgi_body_sched_note_empty_read : Bool → UInt64 → Sched → Sched :=
  noteWait fun uc => { uc with empty_read_events := uc.empty_read_events + 1 }

def upsgi_body_sched_note_eagain : Bool → UInt64 → Sched → Sched :=
  noteWait fun uc => { uc with eagain_events := uc.eagain_events + 1 }

def upsgi_body_sched_note_chunked_complete (enabled : Bool) (started : UInt64) (s : Sched) : Sched :=
  let s := upsgi_body_sched_note_request enabled started s
  { s with req := { s.req with marked_complete := true } }

def upsgi_body_sched_finish (now : UInt64) (s : Sched) : Sched :=
  if s.req.registered = false then s
  else
    let uc := leaveActive s.core
    let uc := if s.req.lane_class = .bulk then leaveBulk uc else leaveInteractive uc
    let uc := upsgi_body_sched_record_residency uc (now - s.req.started_at_us)
    let uc :=
      if s.req.marked_complete then { uc with completed_items := uc.completed_items + 1 } else uc
    { req :=
        { s.req with
          registered := false
          deficit_bytes := 0
          last_budget_bytes := 0
          last_budget_capped := false
          disabled_fallback_noted := false
          recent_wait_event := false
          full_budget_turns := 0 }
      core := uc }

/-! ### What the calls do

    Of all these fields the grants and the accounts depend on a few.  They are the
    view; the calls are a few moves on it. -/

structure SchedView where
  post_cl : UInt64
  chunked : Bool
  registered : Bool
  lane : SchedLane
  deficit : Nat
  wait : Bool
  active : Nat
  interactive : Nat
  bulk : Nat
  underflows : Nat
  zero_grants : Nat
  promotions : UInt64
  rounds : UInt64
  interactive_turns : UInt64
  bulk_turns : UInt64
  bytes_interactive : UInt64
  bytes_bulk : UInt64
  bytes_total : UInt64

def Sched.view (s : Sched) : SchedView where
  post_cl := s.req.post_cl
  chunked := s.req.body_is_chunked
  registered := s.req.registered
  lane := s.req.lane_class
  deficit := s.req.deficit_bytes
  wait := s.req.recent_wait_event
  active := s.core.active_items
  interactive := s.core.interactive_depth_current
  bulk := s.core.bulk_depth_current
  underflows := s.core.underflows
  zero_grants := s.core.zero_grants
  promotions := s.core.promotions_to_bulk
  rounds := s.core.rounds
  interactive_turns := s.core.interactive_turns
  bulk_turns := s.core.bulk_turns
  bytes_interactive := s.core.bytes_interactive
  bytes_bulk := s.core.bytes_bulk
  bytes_total := s.core.bytes_total

/-- A request is registered. -/
def SchedView.enter (v : SchedView) : SchedView :=
  { v with registered := true, lane := .interactive, active := v.active + 1,
           interactive := v.interactive + 1 }

/-- It is registered at its first call, if it has a body. -/
def SchedView.note (v : SchedView) : SchedView :=
  if v.registered then v else if v.post_cl = 0 ∧ v.chunked = false then v else v.enter

/-- It moves to the bulk lane. -/
def SchedView.promote (v : SchedView) : SchedView :=
  { v with lane := .bulk, deficit := min v.deficit BULK_QUANTUM_BYTES, interactive := v.interactive - 1,
           bulk := v.bulk + 1, promotions := v.promotions + 1,
           underflows := v.underflows + if 0 < v.interactive then 0 else 1 }

/-- A turn of it is counted in its lane, and charged. -/
def SchedView.turn (enabled : Bool) (observed : Nat) (v : SchedView) : SchedView :=
  { v with deficit := if enabled then v.deficit - observed else v.deficit
           rounds := v.rounds + 1
           interactive_turns := v.interactive_turns + if v.lane = .bulk then 0 else 1
           bulk_turns := v.bulk_turns + if v.lane = .bulk then 1 else 0
           bytes_interactive := v.bytes_interactive + if v.lane = .bulk then 0 else UInt64.ofNat observed
           bytes_bulk := v.bytes_bulk + if v.lane = .bulk then UInt64.ofNat observed else 0
           bytes_total := v.bytes_total + UInt64.ofNat observed }

/-- It leaves. -/
def SchedView.leave (v : SchedView) : SchedView :=
  { v with registered := false, deficit := 0, wait := false, active := v.active - 1
           interactive := if v.lane = .bulk then v.interactive else v.interactive - 1
           bulk := if v.lane = .bulk then v.bulk - 1 else v.bulk
           underflows := v.underflows + (if 0 < v.active then 0 else 1) +
             if 0 < (if v.lane = .bulk then v.bulk else v.interactive) then 0 else 1 }

/-- The credit after a quantum was added. -/
def creditAfter (quantum deficit : Nat) : Nat :=
  if deficit < quantum * DEFICIT_CAP_MULTIPLIER then
    min (deficit + quantum) (quantum * DEFICIT_CAP_MULTIPLIER)
  else deficit

/-- A registered request may move to the bulk lane. -/
inductive Promotes (v : SchedView) : SchedView → Prop
  | stays : Promotes v v
  | moves (hreg : v.registered = true) (hlane : v.lane ≠ .bulk) : Promotes v v.promote

section Views

variable {s : Sched} {v w x : SchedView}

theorem Promotes.trans (h : Promotes v w) (h' : Promotes w x) : Promotes v x := by
  cases h with
  | stays => exact h'
  | moves hreg hlane =>
    cases h' with
    | stays => exact .moves hreg hlane
    | moves _ hbulk => nomatch hbulk

theorem note_request_view (enabled : Bool) (started : UInt64) (s : Sched) :
    (upsgi_body_sched_note_request enabled started s).view = s.view.note := by
  unfold upsgi_body_sched_note_request SchedView.note
  show _ = if s.req.registered then s.view
    else if s.req.post_cl = 0 ∧ s.req.body_is_chunked = false then s.view else s.view.enter
  split
  · rfl
  · split
    · rfl
    · dsimp only
      split <;> rfl

/-! Promotions -/

theorem leaveInteractive_eq (uc : SchedCore) :
    leaveInteractive uc =
      { uc with
        interactive_depth_current := uc.interactive_depth_current - 1
        underflows := uc.underflows + if 0 < uc.interactive_depth_current then 0 else 1 } := by
  unfold leaveInteractive
  split
  · rfl
  · next hzero =>
    have hdepth : uc.interactive_depth_current - 1 = uc.interactive_depth_current := by omega
    rw [hdepth]

theorem leaveBulk_eq (uc : SchedCore) :
    leaveBulk uc =
      { uc with
        bulk_depth_current := uc.bulk_depth_current - 1
        underflows := uc.underflows + if 0 < uc.bulk_depth_current then 0 else 1 } := by
  unfold leaveBulk
  split
  · rfl
  · next hzero =>
    have hdepth : uc.bulk_depth_current - 1 = uc.bulk_depth_current := by omega
    rw [hdepth]

theorem leaveActive_eq (uc : SchedCore) :
    leaveActive uc =
      { uc with
        active_items := uc.active_items - 1
        underflows := uc.underflows + if 0 < uc.active_items then 0 else 1 } := by
  unfold leaveActive
  split
  · rfl
  · next hzero =>
    have hitems : uc.active_items - 1 = uc.active_items := by omega
    rw [hitems]

theorem promote_to_bulk_view (s : Sched) (hreg : s.req.registered = true) :
    Promotes s.view (upsgi_body_sched_promote_to_bulk s).view := by
  by_cases hlane : s.req.lane_class = .bulk
  · have hsame : upsgi_body_sched_promote_to_bulk s = s := if_pos hlane
    rw [hsame]
    exact .stays
  · have hcut : (if BULK_QUANTUM_BYTES < s.req.deficit_bytes then BULK_QUANTUM_BYTES
        else s.req.deficit_bytes) = min s.req.deficit_bytes BULK_QUANTUM_BYTES := by
      rw [Nat.min_def]
      split
      · next hlt => rw [if_neg (Nat.not_le_of_lt hlt)]
      · next hle => rw [if_pos (Nat.le_of_not_lt hle)]
    have hview : (upsgi_body_sched_promote_to_bulk s).view = s.view.promote := by
      unfold upsgi_body_sched_promote_to_bulk
      rw [if_neg hlane, leaveInteractive_eq, hcut]
      rfl
    rw [hview]
    exact .moves hreg hlane

/-- One of the three rules: a mark is set, and the request is promoted. -/
theorem promoteBy_view {t : Sched} (hview : t.view = s.view) (hreg : s.req.registered = true) :
    Promotes s.view (upsgi_body_sched_promote_to_bulk t).view ∧
      (upsgi_body_sched_promote_to_bulk t).req.registered = true := by
  have htreg : t.req.registered = true := (congrArg SchedView.registered hview).trans hreg
  have hpromotes := promote_to_bulk_view t htreg
  rw [hview] at hpromotes
  refine ⟨hpromotes, ?_⟩
  unfold upsgi_body_sched_promote_to_bulk
  split <;> exact htreg

theorem update_promotions_view (s : Sched) :
    Promotes s.view (upsgi_body_sched_update_promotions s).view := by
  unfold upsgi_body_sched_update_promotions
  cases hreg : s.req.registered with
  | false =>
    exact .stays
  | true =>
    have hbytes : Promotes s.view (promoteByBytes s).view ∧ (promoteByBytes s).req.registered = true := by
      unfold promoteByBytes
      split
      · exact promoteBy_view rfl hreg
      · exact ⟨.stays, hreg⟩
    generalize promoteByBytes s = t at hbytes ⊢
    have hrounds : Promotes t.view (promoteByRounds t).view ∧
        (promoteByRounds t).req.registered = true := by
      unfold promoteByRounds
      split
      · exact promoteBy_view rfl hbytes.2
      · exact ⟨.stays, hbytes.2⟩
    generalize promoteByRounds t = u at hrounds ⊢
    have hresidency : Promotes u.view
        (promoteByResidency (s.req.last_service_us - s.req.started_at_us) u).view ∧
          (promoteByResidency (s.req.last_service_us - s.req.started_at_us) u).req.registered = true := by
      unfold promoteByResidency
      split
      · exact promoteBy_view rfl hrounds.2
      · exact ⟨.stays, hrounds.2⟩
    exact (hbytes.1.trans hrounds.1).trans hresidency.1

/-! Budgets -/

theorem addCredit_view (quantum : Nat) (s : Sched) :
    (addCredit quantum s).view = { s.view with deficit := creditAfter quantum s.req.deficit_bytes } := by
  unfold addCredit creditAfter
  dsimp only
  split
  · rw [Nat.min_def]
    split
    · next hcap => rw [if_neg (Nat.not_le_of_lt hcap)]; rfl
    · next hcap => rw [if_pos (Nat.le_of_not_lt hcap)]; rfl
  · rfl

theorem creditAfter_pos {quantum : Nat} (hquantum : 0 < quantum) (deficit : Nat) :
    0 < creditAfter quantum deficit := by
  unfold creditAfter DEFICIT_CAP_MULTIPLIER
  split <;> omega

theorem lane_quantum_pos (lane : SchedLane) : 0 < upsgi_body_sched_lane_quantum lane := by
  cases lane with
  | none | interactive | bulk => decide

/-- The zero-grant fallback is for a credit of zero. -/
theorem budgetFromCredit_view (quantum : Nat) {requested : Nat} (hrequested : 0 < requested)
    (hdeficit : 0 < s.req.deficit_bytes) :
    (budgetFromCredit quantum requested s).1.view = s.view ∧
      (budgetFromCredit quantum requested s).2 = min requested s.req.deficit_bytes := by
  have hgrant : ¬ min requested s.req.deficit_bytes = 0 := by omega
  unfold budgetFromCredit
  dsimp only
  rw [if_neg hgrant]
  split <;> exact ⟨rfl, rfl⟩

/-- What a budget call grants, in the lane in which it is computed: after a wait a
    quantum, otherwise the credit. -/
inductive Budget (requested : Nat) (v : SchedView) : SchedView → Nat → Prop
  | relief (hwait : v.wait = true) :
      Budget requested v v (min requested (upsgi_body_sched_lane_quantum v.lane))
  | credit (hwait : v.wait = false) :
      Budget requested v
        { v with deficit := creditAfter (upsgi_body_sched_lane_quantum v.lane) v.deficit }
        (min requested (creditAfter (upsgi_body_sched_lane_quantum v.lane) v.deficit))

theorem read_budget_enabled {requested : Nat} (hrequested : 0 < requested) (started : UInt64) (s : Sched)
    (hreg : s.view.note.registered = true) :
    ∃ w, Promotes s.view.note w ∧
      Budget requested w (upsgi_body_sched_read_budget true started requested s).1.view
        (upsgi_body_sched_read_budget true started requested s).2 := by
  have hnote := note_request_view true started s
  unfold upsgi_body_sched_read_budget
  rw [if_neg (Nat.ne_of_gt hrequested)]
  generalize upsgi_body_sched_note_request true started s = t at hnote ⊢
  rw [← hnote] at hreg ⊢
  have hreg' : ¬ t.req.registered = false := ne_false_of_eq_true hreg
  dsimp only
  rw [if_neg hreg', if_neg nofun]
  have hpromotes := update_promotions_view
    { t with req := { t.req with last_budget_capped := false, last_budget_bytes := 0 } }
  generalize upsgi_body_sched_update_promotions _ = u at hpromotes ⊢
  refine ⟨u.view, hpromotes, ?_⟩
  split
  · next hwait => exact .relief hwait
  · next hwait =>
    have hview := addCredit_view (upsgi_body_sched_lane_quantum u.req.lane_class) u
    have hdeficit : (addCredit (upsgi_body_sched_lane_quantum u.req.lane_class) u).req.deficit_bytes =
        creditAfter (upsgi_body_sched_lane_quantum u.req.lane_class) u.req.deficit_bytes :=
      congrArg SchedView.deficit hview
    have hpos := creditAfter_pos (lane_quantum_pos u.req.lane_class) u.req.deficit_bytes
    obtain ⟨hsame, hgrant⟩ := budgetFromCredit_view (upsgi_body_sched_lane_quantum u.req.lane_class)
      hrequested (Nat.lt_of_lt_of_eq hpos hdeficit.symm)
    rw [hsame, hgrant, hview, hdeficit]
    exact .credit (Bool.eq_false_iff.mpr hwait)

/-- For the accounts a budget call is a registration and a promotion. -/
theorem read_budget_view (enabled : Bool) (started : UInt64) (requested : Nat) (s : Sched) :
    (upsgi_body_sched_read_budget enabled started requested s).1.view = s.view ∨
      ∃ w deficit, Promotes s.view.note w ∧
        (upsgi_body_sched_read_budget enabled started requested s).1.view =
          { w with deficit := deficit } := by
  by_cases hzero : requested = 0
  · have hsame : upsgi_body_sched_read_budget enabled started requested s = (s, requested) := if_pos hzero
    rw [hsame]
    exact .inl rfl
  · have hnote := note_request_view enabled started s
    cases hreg : s.view.note.registered with
    | false =>
      refine .inr ⟨s.view.note, s.view.note.deficit, .stays, ?_⟩
      unfold upsgi_body_sched_read_budget
      rw [if_neg hzero]
      generalize upsgi_body_sched_note_request enabled started s = t at hnote ⊢
      rw [← hnote] at hreg ⊢
      rw [if_pos (show t.req.registered = false from hreg)]
    | true =>
      cases enabled with
      | false =>
        refine .inr ⟨s.view.note, s.view.note.deficit, .stays, ?_⟩
        unfold upsgi_body_sched_read_budget
        rw [if_neg hzero]
        generalize upsgi_body_sched_note_request false started s = t at hnote ⊢
        rw [← hnote] at hreg ⊢
        have hreg' : ¬ t.req.registered = false := ne_false_of_eq_true hreg
        rw [if_neg hreg', if_pos rfl]
        rfl
      | true =>
        obtain ⟨w, hpromotes, hbudget⟩ := read_budget_enabled (Nat.pos_of_ne_zero hzero) started s hreg
        generalize upsgi_body_sched_read_budget true started requested s = result at hbudget ⊢
        obtain ⟨t, grant⟩ := result
        refine .inr ⟨w, t.view.deficit, hpromotes, ?_⟩
        generalize t.view = x at hbudget ⊢
        cases hbudget with
        | relief _ | credit _ => rfl

/-! Reports -/

theorem chargeCredit_view (enabled : Bool) (observed : Nat) (s : Sched) :
    (chargeCredit enabled observed s).view =
      { s.view with deficit := if enabled then s.view.deficit - observed else s.view.deficit } := by
  unfold chargeCredit
  -- what is counted as unused is not in the view
  generalize hcore : (if observed < s.req.last_budget_bytes then _ else s.core) = uc
  have hview : ∀ req, (Sched.mk req uc).view = (Sched.mk req s.core).view := by
    intro req
    rw [← hcore]
    split <;> rfl
  rw [hview]
  cases enabled with
  | false => rfl
  | true =>
    rw [if_pos rfl, if_pos rfl]
    split
    · rfl
    · next hlt =>
      rw [show s.view.deficit - observed = 0 from Nat.sub_eq_zero_of_le (Nat.le_of_not_le hlt)]
      rfl

theorem chargeCredit_countTurn_view (enabled : Bool) (now : UInt64) (observed : Nat) (s : Sched) :
    (chargeCredit enabled observed (countTurn now observed s)).view = s.view.turn enabled observed := by
  rw [chargeCredit_view]
  unfold countTurn SchedView.turn
  by_cases hlane : s.req.lane_class = .bulk
  · have hview : s.view.lane = .bulk := hlane
    simp only [if_pos hlane, if_pos hview, UInt64.add_zero]
    split <;> rfl
  · have hview : ¬ s.view.lane = .bulk := hlane
    simp only [if_neg hlane, if_neg hview, UInt64.add_zero]
    split <;> rfl

theorem countFullBudget_view (full_budget_turn : Bool) (s : Sched) :
    (countFullBudget full_budget_turn s).view = s.view := by
  unfold countFullBudget
  split <;> rfl

theorem yieldHint_noteComplete_view (enabled full_budget_turn : Bool) (bytes_before : UInt64) (s : Sched) :
    (yieldHint enabled full_budget_turn (noteComplete bytes_before s)).view = s.view := by
  have hyield : ∀ t : Sched, (yieldHint enabled full_budget_turn t).view = t.view := by
    intro t
    unfold yieldHint
    split <;> rfl
  rw [hyield]
  unfold noteComplete
  split
  · split <;> rfl
  · rfl

/-- A report is a registration, a turn, perhaps a promotion, and the end of a
    wait. -/
theorem note_bytes_view (enabled : Bool) (started now : UInt64) (observed : Nat) (s : Sched) :
    (upsgi_body_sched_note_bytes enabled started now observed s).view = s.view ∧ observed = 0 ∨
      (upsgi_body_sched_note_bytes enabled started now observed s).view = s.view.note ∧
        s.view.note.registered = false ∨
      s.view.note.registered = true ∧ ∃ w, Promotes (s.view.note.turn enabled observed) w ∧
        (upsgi_body_sched_note_bytes enabled started now observed s).view = { w with wait := false } := by
  unfold upsgi_body_sched_note_bytes
  by_cases hzero : observed = 0
  · rw [if_pos hzero]
    exact .inl ⟨rfl, hzero⟩
  · rw [if_neg hzero]
    refine .inr ?_
    have hnote := note_request_view enabled started s
    generalize upsgi_body_sched_note_request enabled started s = t at hnote ⊢
    rw [← hnote]
    dsimp only
    cases hreg : t.req.registered with
    | false =>
      exact .inl ⟨rfl, hreg⟩
    | true =>
      refine .inr ⟨hreg, ?_⟩
      have hturn := chargeCredit_countTurn_view enabled now observed t
      generalize chargeCredit enabled observed (countTurn now observed t) = u at hturn ⊢
      have hpromotes := update_promotions_view
        (countFullBudget (upsgi_body_sched_is_full_budget_turn u.req observed) u)
      rw [countFullBudget_view, hturn] at hpromotes
      generalize upsgi_body_sched_update_promotions _ = x at hpromotes ⊢
      have hrest := yieldHint_noteComplete_view enabled
        (upsgi_body_sched_is_full_budget_turn u.req observed) t.req.bytes_observed x
      refine ⟨x.view, hpromotes, ?_⟩
      rw [← hrest]
      rfl

theorem noteWait_view {count : SchedCore → SchedCore} (enabled : Bool) (started : UInt64) (s : Sched)
    (hcount : ∀ req uc, (Sched.mk req (count uc)).view = (Sched.mk req uc).view) :
    ∃ wait, (noteWait count enabled started s).view = { s.view.note with wait := wait } := by
  have hnote := note_request_view enabled started s
  unfold noteWait
  generalize upsgi_body_sched_note_request enabled started s = t at hnote ⊢
  rw [← hnote]
  dsimp only
  split
  · exact ⟨t.req.recent_wait_event, rfl⟩
  · refine ⟨true, ?_⟩
    rw [hcount]
    rfl

theorem note_empty_read_view (enabled : Bool) (started : UInt64) (s : Sched) :
    ∃ wait, (upsgi_body_sched_note_empty_read enabled started s).view =
      { s.view.note with wait := wait } :=
  noteWait_view enabled started s fun _ _ => rfl

theorem note_eagain_view (enabled : Bool) (started : UInt64) (s : Sched) :
    ∃ wait, (upsgi_body_sched_note_eagain enabled started s).view = { s.view.note with wait := wait } :=
  noteWait_view enabled started s fun _ _ => rfl

theorem note_chunked_complete_view (enabled : Bool) (started : UInt64) (s : Sched) :
    (upsgi_body_sched_note_chunked_complete enabled started s).view = s.view.note :=
  note_request_view enabled started s

/-! The end -/

theorem record_residency_view (req : SchedRequest) (uc : SchedCore) (residency_us : UInt64) :
    (Sched.mk req (upsgi_body_sched_record_residency uc residency_us)).view = (Sched.mk req uc).view := by
  have hsamples : ∀ uc, (Sched.mk req (upsgi_body_sched_refresh_samples uc)).view =
      (Sched.mk req uc).view := by
    intro uc
    unfold upsgi_body_sched_refresh_samples
    dsimp only
    split <;> rfl
  unfold upsgi_body_sched_record_residency
  rw [hsamples]
  split <;> rfl

theorem finish_view (now : UInt64) (s : Sched) :
    (upsgi_body_sched_finish now s).view = if s.view.registered then s.view.leave else s.view := by
  unfold upsgi_body_sched_finish
  show _ = if s.req.registered then s.view.leave else s.view
  cases hreg : s.req.registered with
  | false =>
    rw [if_pos rfl, if_neg nofun]
  | true =>
    rw [if_neg nofun, if_pos rfl]
    dsimp only
    rw [leaveActive_eq, leaveBulk_eq, leaveInteractive_eq]
    have hcompleted : ∀ (req : SchedRequest) (uc : SchedCore) (complete : Bool),
        (Sched.mk req
          (if complete then { uc with completed_items := uc.completed_items + 1 } else uc)).view =
          (Sched.mk req uc).view := by
      intro req uc complete
      cases complete with
      | false | true => rfl
    rw [hcompleted, record_residency_view]
    unfold SchedView.leave
    by_cases hlane : s.req.lane_class = .bulk
    · have hview : s.view.lane = .bulk := hlane
      simp only [if_pos hlane, if_pos hview]
      rfl
    · have hview : ¬ s.view.lane = .bulk := hlane
      simp only [if_neg hlane, if_neg hview]
      rfl

end Views

end Upsgi
