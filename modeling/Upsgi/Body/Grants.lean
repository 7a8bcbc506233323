import Upsgi.Body.Scheduler

/-! # The grants of the body scheduler

    A request reads its body in turns: it asks for a budget, reads at most that
    much and reports what it has read.  Each turn allows it one quantum of its lane.
    A turn may read more than a quantum, but only from what earlier turns have left:
    the credit together with what was read never exceeds what was allowed.
-/

namespace Upsgi

/-! ### Turns -/

/-- What happens in a turn. -/
inductive GrantEvent where
  | budget (requested : Nat)
  | bytes (observed : Nat)
  | emptyRead
  | eagain
  deriving DecidableEq, Repr

/-- The readings of the clock in a call. -/
structure Clock where
  started : UInt64
  now : UInt64
  deriving DecidableEq, Repr

/-- The scheduler, with the grant that was not reported on, the sum of the quanta
    of all turns, and all bytes that were reported. -/
structure GrantState where
  sched : Sched
  granted : Option Nat
  allowance : Nat
  observed : Nat

def grantStep (clock : Clock) (g : GrantState) : GrantEvent → GrantState
  | .budget requested =>
      let (s, grant) := upsgi_body_sched_read_budget true clock.started requested g.sched
      { g with
        sched := s
        granted := some grant
        -- the lane is the one in which the budget was computed
        allowance := g.allowance + upsgi_body_sched_lane_quantum s.req.lane_class }
  | .bytes observed =>
      { g with
        sched := upsgi_body_sched_note_bytes true clock.started clock.now observed g.sched
        granted := none
        observed := g.observed + observed }
  | .emptyRead => { g with sched := upsgi_body_sched_note_empty_read true clock.started g.sched }
  | .eagain => { g with sched := upsgi_body_sched_note_eagain true clock.started g.sched }

/-- A budget is asked for something, and a report is on the grant of the turn. -/
def GrantEvent.Ok (g : GrantState) : GrantEvent → Prop
  | .budget requested => 0 < requested
  | .bytes observed => ∃ grant ∈ g.granted, observed ≤ grant
  | .emptyRead => True
  | .eagain => True

instance (g : GrantState) : (e : GrantEvent) → Decidable (e.Ok g)
  | .budget requested => inferInstanceAs (Decidable (0 < requested))
  | .bytes observed => inferInstanceAs (Decidable (∃ grant ∈ g.granted, observed ≤ grant))
  | .emptyRead => .isTrue trivial
  | .eagain => .isTrue trivial

def grantRun (g : GrantState) (run : List (Clock × GrantEvent)) : GrantState :=
  run.foldl (fun g step => grantStep step.1 g step.2) g

/-- All events of a run are as they should be. -/
def GrantRun : GrantState → List (Clock × GrantEvent) → Prop
  | _, [] => True
  | g, (clock, e) :: run => e.Ok g ∧ GrantRun (grantStep clock g e) run

instance decidableGrantRun : (g : GrantState) → (run : List (Clock × GrantEvent)) →
    Decidable (GrantRun g run)
  | _, [] => .isTrue trivial
  | g, (clock, e) :: run => @instDecidableAnd _ _ _ (decidableGrantRun (grantStep clock g e) run)

/-- A request with a body, at its beginning. -/
def grantStart (post_cl : UInt64) (body_is_chunked : Bool) (core : SchedCore) : GrantState where
  sched := { req := { post_cl := post_cl, body_is_chunked := body_is_chunked }, core := core }
  granted := none
  allowance := 0
  observed := 0

/-! ### The credit -/

/-- What holds of the credit of a request: it is at most four quanta, and together
    with what was read at most what was allowed. -/
structure Credited (allowance observed : Nat) (zero_grants : Nat) (v : SchedView) : Prop where
  body : ¬ (v.post_cl = 0 ∧ v.chunked = false)
  cap : v.deficit ≤ upsgi_body_sched_lane_quantum v.lane * DEFICIT_CAP_MULTIPLIER
  credit : v.deficit + observed ≤ allowance
  zero : v.zero_grants = zero_grants

section Credit

variable {allowance observed zero_grants : Nat} {v w : SchedView}

theorem lane_quantum_le (lane : SchedLane) :
    BULK_QUANTUM_BYTES ≤ upsgi_body_sched_lane_quantum lane ∧
      upsgi_body_sched_lane_quantum lane ≤ INTERACTIVE_QUANTUM_BYTES := by
  cases lane with
  | none | interactive | bulk => decide

section

variable (h : Credited allowance observed zero_grants v)
include h

theorem Credited.note :
    Credited allowance observed zero_grants v.note ∧ v.note.registered = true := by
  unfold SchedView.note
  cases hreg : v.registered with
  | true => exact ⟨h, hreg⟩
  | false =>
    rw [if_neg nofun, if_neg h.body]
    -- the quantum of the interactive lane is the largest one
    have hcap : v.deficit ≤ upsgi_body_sched_lane_quantum .interactive * DEFICIT_CAP_MULTIPLIER :=
      Nat.le_trans h.cap (Nat.mul_le_mul_right _ (lane_quantum_le v.lane).2)
    exact ⟨⟨h.body, hcap, h.credit, h.zero⟩, rfl⟩

theorem Credited.promotes (hpromotes : Promotes v w) :
    Credited allowance observed zero_grants w := by
  cases hpromotes with
  | stays => exact h
  | moves _ _ =>
    have hcut : v.promote.deficit ≤ BULK_QUANTUM_BYTES := Nat.min_le_right _ _
    have hless : v.promote.deficit ≤ v.deficit := Nat.min_le_left _ _
    have hcredit := h.credit
    have hbulk : BULK_QUANTUM_BYTES ≤ upsgi_body_sched_lane_quantum .bulk * DEFICIT_CAP_MULTIPLIER := by
      decide
    exact ⟨h.body, Nat.le_trans hcut hbulk, by omega, h.zero⟩

/-- The grant of a turn is between one byte and four quanta, and is allowed. -/
theorem Credited.budget {requested grant : Nat} (hrequested : 0 < requested)
    (hbudget : Budget requested v w grant) :
    Credited (allowance + upsgi_body_sched_lane_quantum w.lane) observed zero_grants w ∧
      grant + observed ≤ allowance + upsgi_body_sched_lane_quantum w.lane ∧
      1 ≤ grant ∧ grant ≤ requested ∧
      grant ≤ DEFICIT_CAP_MULTIPLIER * upsgi_body_sched_lane_quantum w.lane := by
  have hpos := lane_quantum_pos v.lane
  have hcap := h.cap
  have hcredit := h.credit
  cases hbudget with
  | relief _ =>
    generalize upsgi_body_sched_lane_quantum v.lane = quantum at hpos hcap ⊢
    unfold DEFICIT_CAP_MULTIPLIER at *
    refine ⟨⟨h.body, h.cap, by omega, h.zero⟩, ?_, ?_, Nat.min_le_left _ _, ?_⟩ <;> omega
  | credit _ =>
    have hcredit' := creditAfter_pos hpos v.deficit
    have hbound : creditAfter (upsgi_body_sched_lane_quantum v.lane) v.deficit ≤
        upsgi_body_sched_lane_quantum v.lane * DEFICIT_CAP_MULTIPLIER ∧
          creditAfter (upsgi_body_sched_lane_quantum v.lane) v.deficit ≤
            v.deficit + upsgi_body_sched_lane_quantum v.lane := by
      unfold creditAfter
      split
      · exact ⟨Nat.min_le_right _ _, Nat.min_le_left _ _⟩
      · exact ⟨hcap, Nat.le_add_right _ _⟩
    refine ⟨⟨h.body, hbound.1, ?_, h.zero⟩, ?_, ?_, Nat.min_le_left _ _, ?_⟩
    · show creditAfter _ _ + observed ≤ allowance + upsgi_body_sched_lane_quantum v.lane
      omega
    · show min requested _ + observed ≤ allowance + upsgi_body_sched_lane_quantum v.lane
      omega
    · omega
    · rw [Nat.mul_comm]
      exact Nat.le_trans (Nat.min_le_right _ _) hbound.1

/-- A turn is charged, and what it was granted beyond its credit is allowed. -/
theorem Credited.turn {grant n : Nat} (hgrant : grant + observed ≤ allowance) (hn : n ≤ grant) :
    Credited allowance (observed + n) zero_grants (v.turn true n) := by
  have hcredit := h.credit
  have hdeficit : (v.turn true n).deficit = v.deficit - n := rfl
  refine ⟨h.body, ?_, ?_, h.zero⟩
  · exact Nat.le_trans (Nat.sub_le _ _) h.cap
  · omega

end

end Credit

/-! ### Runs -/

/-- What holds after each event. -/
structure GrantInv (zero_grants : Nat) (g : GrantState) : Prop where
  credited : Credited g.allowance g.observed zero_grants g.sched.view
  granted : ∀ grant, g.granted = some grant → grant + g.observed ≤ g.allowance

section Runs

variable {zero_grants : Nat} {g : GrantState}

section

variable (h : GrantInv zero_grants g)
include h

/-- A budget call in a state of a run. -/
theorem GrantInv.budget {requested : Nat} (hrequested : 0 < requested) (started : UInt64)
    {s : Sched} {grant : Nat}
    (hcall : upsgi_body_sched_read_budget true started requested g.sched = (s, grant)) :
    Credited (g.allowance + upsgi_body_sched_lane_quantum s.req.lane_class) g.observed zero_grants
        s.view ∧
      grant + g.observed ≤ g.allowance + upsgi_body_sched_lane_quantum s.req.lane_class ∧
      1 ≤ grant ∧ grant ≤ requested ∧
      grant ≤ DEFICIT_CAP_MULTIPLIER * upsgi_body_sched_lane_quantum s.req.lane_class := by
  obtain ⟨hnote, hreg⟩ := h.credited.note
  obtain ⟨w, hpromotes, hbudget⟩ := read_budget_enabled hrequested started g.sched hreg
  rw [hcall] at hbudget
  exact (hnote.promotes hpromotes).budget hrequested hbudget

theorem GrantInv.bytes {observed grant : Nat} (hgrant : g.granted = some grant)
    (hle : observed ≤ grant) (clock : Clock) :
    Credited g.allowance (g.observed + observed) zero_grants
      (upsgi_body_sched_note_bytes true clock.started clock.now observed g.sched).view := by
  obtain ⟨hnote, hreg⟩ := h.credited.note
  rcases note_bytes_view true clock.started clock.now observed g.sched with
    ⟨hview, hzero⟩ | ⟨_, hnot⟩ | ⟨_, w, hpromotes, hview⟩
  · rw [hview, hzero]
    exact h.credited
  · rw [hreg] at hnot
    cases hnot
  · rw [hview]
    have hturn := (hnote.turn (h.granted grant hgrant) hle).promotes hpromotes
    exact { hturn with }

/-- A wait changes nothing in the credit. -/
theorem GrantInv.wait {s : Sched}
    (hview : ∃ wait, s.view = { g.sched.view.note with wait := wait }) :
    Credited g.allowance g.observed zero_grants s.view := by
  obtain ⟨wait, hview⟩ := hview
  obtain ⟨hnote, _⟩ := h.credited.note
  rw [hview]
  exact { hnote with }

theorem GrantInv.step (clock : Clock) (e : GrantEvent) (hok : e.Ok g) :
    GrantInv zero_grants (grantStep clock g e) := by
  cases e with
  | budget requested =>
    unfold grantStep
    dsimp only
    generalize hcall : upsgi_body_sched_read_budget true clock.started requested g.sched = result
    obtain ⟨s, grant⟩ := result
    obtain ⟨hcredited, hallowed, _⟩ := h.budget hok clock.started hcall
    refine ⟨hcredited, ?_⟩
    rintro _ ⟨⟩
    exact hallowed
  | bytes observed =>
    obtain ⟨grant, hgrant, hle⟩ := hok
    exact ⟨h.bytes hgrant hle clock, nofun⟩
  | emptyRead => exact ⟨h.wait (note_empty_read_view true clock.started g.sched), h.granted⟩
  | eagain => exact ⟨h.wait (note_eagain_view true clock.started g.sched), h.granted⟩

theorem GrantInv.run (run : List (Clock × GrantEvent))
    (hok : GrantRun g run) : GrantInv zero_grants (grantRun g run) := by
  induction run generalizing g with
  | nil => exact h
  | cons step run ih => exact ih (h.step step.1 step.2 hok.1) hok.2

end

end Runs

theorem grantInv_start {post_cl : UInt64} {body_is_chunked : Bool}
    (hbody : post_cl ≠ 0 ∨ body_is_chunked = true) (core : SchedCore) :
    GrantInv core.zero_grants (grantStart post_cl body_is_chunked core) := by
  refine ⟨⟨?_, Nat.zero_le _, Nat.le_refl _, rfl⟩, nofun⟩
  rintro ⟨hzero, hchunked⟩
  rcases hbody with hne | htrue
  · exact hne hzero
  · rw [show body_is_chunked = false from hchunked] at htrue
    cases htrue

/-- For a request with a body, in every run of turns: what was read is at most the
    sum of the quanta of the turns, no budget was granted for want of credit, and
    the next budget is at least one byte, at most what is asked for and at most four
    quanta of the lane. -/
theorem body_sched_grants (post_cl : UInt64) (body_is_chunked : Bool)
    (hbody : post_cl ≠ 0 ∨ body_is_chunked = true) (core : SchedCore) (run : List (Clock × GrantEvent))
    (hrun : GrantRun (grantStart post_cl body_is_chunked core) run) :
    (grantRun (grantStart post_cl body_is_chunked core) run).observed ≤
        (grantRun (grantStart post_cl body_is_chunked core) run).allowance ∧
      (grantRun (grantStart post_cl body_is_chunked core) run).sched.core.zero_grants =
        core.zero_grants ∧
      ∀ (started : UInt64) (requested : Nat), 0 < requested →
        let result := upsgi_body_sched_read_budget true started requested
          (grantRun (grantStart post_cl body_is_chunked core) run).sched
        1 ≤ result.2 ∧ result.2 ≤ requested ∧
          result.2 ≤ 4 * upsgi_body_sched_lane_quantum result.1.req.lane_class ∧
          result.1.core.zero_grants = core.zero_grants := by
  have hinv := (grantInv_start hbody core).run run hrun
  generalize grantRun (grantStart post_cl body_is_chunked core) run = g at hinv ⊢
  refine ⟨?_, hinv.credited.zero, fun started requested hrequested => ?_⟩
  · have hcredit := hinv.credited.credit
    omega
  · obtain ⟨hcredited, _, hone, hle, hcap⟩ := hinv.budget hrequested started rfl
    exact ⟨hone, hle, hcap, hcredited.zero⟩

/-- Four turns of a large body, each of which reads all that it was granted. -/
def bulkRun : List (Clock × GrantEvent) :=
  (List.replicate 4 [(⟨0, 0⟩, .budget 65536), (⟨0, 0⟩, .bytes 65536)]).flatten

/-- The request is then in the bulk lane, and its grants are bounded by that. -/
theorem body_sched_grants_bulk :
    (grantRun (grantStart 1000000 false {}) bulkRun).sched.req.lane_class = .bulk ∧
      (grantRun (grantStart 1000000 false {}) bulkRun).observed = 262144 ∧
      (upsgi_body_sched_read_budget true 0 1000000
        (grantRun (grantStart 1000000 false {}) bulkRun).sched).2 ≤ 131072 := by
  have hrun : GrantRun (grantStart 1000000 false {}) bulkRun := by decide +kernel
  have hlane : (upsgi_body_sched_read_budget true 0 1000000
      (grantRun (grantStart 1000000 false {}) bulkRun).sched).1.req.lane_class = .bulk := by
    decide +kernel
  obtain ⟨_, _, hgrants⟩ := body_sched_grants 1000000 false (.inl (by decide)) {} bulkRun hrun
  have hgrant := (hgrants 0 1000000 (by decide)).2.2.1
  exact ⟨by decide +kernel, by decide +kernel, hgrant⟩

end Upsgi
