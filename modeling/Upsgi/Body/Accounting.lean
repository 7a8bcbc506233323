import Upsgi.Body.Grants

/-! # The accounts of the body scheduler

    Any number of requests of a core call the scheduler in any order.  The counters
    of the core are those of the requests that are registered: each call changes the
    counters by what it changes for its own request, so that what the core counts for
    all others stays as it is.
-/

namespace Upsgi

open Function

/-! ### Requests of a core -/

/-- The requests and their core. -/
structure SchedSystem (n : Nat) where
  reqs : Fin n → SchedRequest
  core : SchedCore

inductive SchedCall where
  /-- The head of the request is parsed: not a call of the scheduler. -/
  | head (post_cl : UInt64) (body_is_chunked : Bool)
  | noteRequest
  | readBudget (requested : Nat)
  | noteBytes (observed : Nat)
  | noteEmptyRead
  | noteEagain
  | noteChunkedComplete
  | finish
  deriving DecidableEq, Repr

def schedCall (enabled : Bool) (clock : Clock) (s : Sched) : SchedCall → Sched
  | .head post_cl body_is_chunked =>
      { s with req := { s.req with post_cl := post_cl, body_is_chunked := body_is_chunked } }
  | .noteRequest => upsgi_body_sched_note_request enabled clock.started s
  | .readBudget requested => (upsgi_body_sched_read_budget enabled clock.started requested s).1
  | .noteBytes observed => upsgi_body_sched_note_bytes enabled clock.started clock.now observed s
  | .noteEmptyRead => upsgi_body_sched_note_empty_read enabled clock.started s
  | .noteEagain => upsgi_body_sched_note_eagain enabled clock.started s
  | .noteChunkedComplete => upsgi_body_sched_note_chunked_complete enabled clock.started s
  | .finish => upsgi_body_sched_finish clock.now s

/-- A request with its core. -/
def SchedSystem.at {n : Nat} (sys : SchedSystem n) (r : Fin n) : Sched :=
  ⟨sys.reqs r, sys.core⟩

/-- A call for the request `r`. -/
def SchedSystem.call {n : Nat} (enabled : Bool) (sys : SchedSystem n) (r : Fin n) (clock : Clock)
    (call : SchedCall) : SchedSystem n :=
  let s := schedCall enabled clock (sys.at r) call
  { reqs := Function.update sys.reqs r s.req, core := s.core }

/-- The system, and how often each request was counted in `promotions_to_bulk`
    since it was registered. -/
structure SchedLog (n : Nat) where
  sys : SchedSystem n
  counted : Fin n → Nat

def SchedLog.step {n : Nat} (enabled : Bool) (l : SchedLog n) (step : Fin n × Clock × SchedCall) :
    SchedLog n :=
  let (r, clock, call) := step
  let sys := l.sys.call enabled r clock call
  let before := if (l.sys.reqs r).registered then l.counted r else 0
  { sys := sys
    counted := Function.update l.counted r
      (before + (sys.core.promotions_to_bulk - l.sys.core.promotions_to_bulk).toNat) }

/-- Zeroed requests and a core that has counted nothing. -/
def schedStart (n : Nat) : SchedLog n where
  sys := { reqs := fun _ => { post_cl := 0, body_is_chunked := false }, core := {} }
  counted := fun _ => 0

def schedRun (enabled : Bool) {n : Nat} (run : List (Fin n × Clock × SchedCall)) : SchedLog n :=
  run.foldl (SchedLog.step enabled) (schedStart n)

/-! ### Calls as moves -/

/-- A property of the view that all moves but the end of a request keep. -/
structure Steady (Q : SchedView → Prop) : Prop where
  enter : ∀ v, Q v → v.registered = false → Q v.enter
  promote : ∀ v, Q v → v.registered = true → v.lane ≠ .bulk → Q v.promote
  turn : ∀ v enabled observed, Q v → Q (v.turn enabled observed)
  deficit : ∀ v deficit, Q v → Q { v with deficit := deficit }
  wait : ∀ v wait, Q v → Q { v with wait := wait }
  body : ∀ v post_cl chunked, Q v → Q { v with post_cl := post_cl, chunked := chunked }

section Moves

variable {Q : SchedView → Prop}

theorem Steady.note (h : Steady Q) {v : SchedView} (hv : Q v) : Q v.note := by
  unfold SchedView.note
  cases hreg : v.registered with
  | true => exact hv
  | false =>
    rw [if_neg nofun]
    split
    · exact hv
    · exact h.enter v hv hreg

theorem Steady.promotes (h : Steady Q) {v w : SchedView} (hv : Q v) (hpromotes : Promotes v w) : Q w := by
  cases hpromotes with
  | stays => exact hv
  | moves hreg hlane => exact h.promote v hv hreg hlane

theorem Steady.call (h : Steady Q) {s : Sched} (hs : Q s.view) (enabled : Bool) (clock : Clock)
    (call : SchedCall) (hcall : call ≠ .finish) : Q (schedCall enabled clock s call).view := by
  have hnote := h.note hs
  have hwait : ∀ t : Sched, (∃ wait, t.view = { s.view.note with wait := wait }) → Q t.view := by
    rintro t ⟨wait, hview⟩
    rw [hview]
    exact h.wait _ wait hnote
  cases call with
  | head post_cl body_is_chunked => exact h.body s.view post_cl body_is_chunked hs
  | noteRequest =>
    show Q (upsgi_body_sched_note_request enabled clock.started s).view
    rw [note_request_view]
    exact hnote
  | readBudget requested =>
    show Q (upsgi_body_sched_read_budget enabled clock.started requested s).1.view
    rcases read_budget_view enabled clock.started requested s with hview | ⟨w, deficit, hpromotes, hview⟩
    · rw [hview]
      exact hs
    · rw [hview]
      exact h.deficit w deficit (h.promotes hnote hpromotes)
  | noteBytes observed =>
    show Q (upsgi_body_sched_note_bytes enabled clock.started clock.now observed s).view
    rcases note_bytes_view enabled clock.started clock.now observed s with
      ⟨hview, _⟩ | ⟨hview, _⟩ | ⟨_, w, hpromotes, hview⟩
    · rw [hview]
      exact hs
    · rw [hview]
      exact hnote
    · rw [hview]
      exact h.wait w false (h.promotes (h.turn _ enabled observed hnote) hpromotes)
  | noteEmptyRead => exact hwait _ (note_empty_read_view enabled clock.started s)
  | noteEagain => exact hwait _ (note_eagain_view enabled clock.started s)
  | noteChunkedComplete =>
    show Q (upsgi_body_sched_note_chunked_complete enabled clock.started s).view
    rw [note_chunked_complete_view]
    exact hnote
  | finish => nomatch hcall

end Moves

/-! ### The counters -/

/-- What a request adds to the number of active requests. -/
def activeBit (registered : Bool) : Nat :=
  if registered then 1 else 0

/-- What it adds to the depth of a lane. -/
def laneBit (registered : Bool) (lane l : SchedLane) : Nat :=
  if registered = true ∧ lane = l then 1 else 0

/-- The core counts its other requests and this one. -/
structure Balanced (active interactive bulk : Nat) (v : SchedView) : Prop where
  lane : v.registered = true → v.lane ≠ .none
  active : v.active = active + activeBit v.registered
  interactive : v.interactive = interactive + laneBit v.registered v.lane .interactive
  bulk : v.bulk = bulk + laneBit v.registered v.lane .bulk
  bytes : v.bytes_total = v.bytes_interactive + v.bytes_bulk
  rounds : v.rounds = v.interactive_turns + v.bulk_turns
  underflows : v.underflows = 0

section Counters

variable {active interactive bulk : Nat} {v : SchedView}

theorem SchedLane.interactive_of_ne {lane : SchedLane} (hnone : lane ≠ .none) (hbulk : lane ≠ .bulk) :
    lane = .interactive := by
  cases lane with
  | none => nomatch hnone
  | interactive => rfl
  | bulk => nomatch hbulk

section

variable (h : Balanced active interactive bulk v)
include h

theorem Balanced.enter (hreg : v.registered = false) :
    Balanced active interactive bulk v.enter := by
  obtain ⟨_, hactive, hinteractive, hbulk, hbytes, hrounds, hunderflows⟩ := h
  rw [hreg] at hactive hinteractive hbulk
  refine ⟨fun _ => nofun, ?_, ?_, hbulk, hbytes, hrounds, hunderflows⟩
  · show v.active + 1 = active + 1
    rw [hactive]
    rfl
  · show v.interactive + 1 = interactive + 1
    rw [hinteractive]
    rfl

theorem Balanced.promote (hreg : v.registered = true)
    (hlane : v.lane ≠ .bulk) : Balanced active interactive bulk v.promote := by
  obtain ⟨hnone, hactive, hinteractive, hbulk, hbytes, hrounds, hunderflows⟩ := h
  have hin := SchedLane.interactive_of_ne (hnone hreg) hlane
  rw [hreg, hin] at hinteractive hbulk
  have hdepth : v.interactive = interactive + 1 := hinteractive
  have hbulk : v.bulk = bulk := hbulk
  refine ⟨fun _ => nofun, hactive, ?_, ?_, hbytes, hrounds, ?_⟩
  · show v.interactive - 1 = interactive + laneBit v.registered .bulk .interactive
    rw [hreg, hdepth]
    rfl
  · show v.bulk + 1 = bulk + laneBit v.registered .bulk .bulk
    rw [hreg, hbulk]
    rfl
  · -- the request itself is in the interactive lane
    show v.underflows + (if 0 < v.interactive then 0 else 1) = 0
    rw [if_pos (by omega), hunderflows]

theorem Balanced.turn (enabled : Bool) (observed : Nat) :
    Balanced active interactive bulk (v.turn enabled observed) := by
  obtain ⟨hnone, hactive, hinteractive, hbulk, hbytes, hrounds, hunderflows⟩ := h
  refine ⟨hnone, hactive, hinteractive, hbulk, ?_, ?_, hunderflows⟩
  · unfold SchedView.turn
    dsimp only
    rw [hbytes]
    split
    · rw [UInt64.add_zero, UInt64.add_assoc]
    · rw [UInt64.add_zero, UInt64.add_assoc, UInt64.add_assoc, UInt64.add_comm v.bytes_bulk]
  · unfold SchedView.turn
    dsimp only
    rw [hrounds]
    split
    · rw [UInt64.add_zero, UInt64.add_assoc]
    · rw [UInt64.add_zero, UInt64.add_assoc, UInt64.add_assoc, UInt64.add_comm v.bulk_turns]

end

theorem balanced_steady (active interactive bulk : Nat) : Steady (Balanced active interactive bulk) where
  enter _ h hreg := h.enter hreg
  promote _ h hreg hlane := h.promote hreg hlane
  turn _ enabled observed h := h.turn enabled observed
  deficit _ _ h := { h with }
  wait _ _ h := { h with }
  body _ _ _ h := { h with }

theorem Balanced.leave (h : Balanced active interactive bulk v) (hreg : v.registered = true) :
    Balanced active interactive bulk v.leave := by
  obtain ⟨hnone, hactive, hinteractive, hbulk, hbytes, hrounds, hunderflows⟩ := h
  rw [hreg] at hactive hinteractive hbulk
  have hactive : v.active = active + 1 := hactive
  by_cases hlane : v.lane = .bulk
  · rw [hlane] at hinteractive hbulk
    have hbulk : v.bulk = bulk + 1 := hbulk
    refine ⟨nofun, ?_, ?_, ?_, hbytes, hrounds, ?_⟩
    · exact Nat.sub_eq_of_eq_add hactive
    · exact (if_pos hlane).trans hinteractive
    · exact (if_pos hlane).trans (Nat.sub_eq_of_eq_add hbulk)
    · unfold SchedView.leave
      dsimp only
      rw [if_pos hlane, if_pos (by omega), if_pos (by omega), hunderflows]
  · rw [SchedLane.interactive_of_ne (hnone hreg) hlane] at hinteractive hbulk
    have hinteractive : v.interactive = interactive + 1 := hinteractive
    refine ⟨nofun, ?_, ?_, ?_, hbytes, hrounds, ?_⟩
    · exact Nat.sub_eq_of_eq_add hactive
    · exact (if_neg hlane).trans (Nat.sub_eq_of_eq_add hinteractive)
    · exact (if_neg hlane).trans hbulk
    · unfold SchedView.leave
      dsimp only
      rw [if_neg hlane, if_pos (by omega), if_pos (by omega), hunderflows]

/-- Every call keeps the balance. -/
theorem Balanced.call {s : Sched} (h : Balanced active interactive bulk s.view) (enabled : Bool)
    (clock : Clock) (call : SchedCall) :
    Balanced active interactive bulk (schedCall enabled clock s call).view := by
  by_cases hfinish : call = .finish
  · subst hfinish
    show Balanced _ _ _ (upsgi_body_sched_finish clock.now s).view
    rw [finish_view]
    cases hreg : s.view.registered with
    | true => exact h.leave hreg
    | false => exact h
  · exact (balanced_steady active interactive bulk).call h enabled clock call hfinish

end Counters

/-! ### Promotions -/

/-- Whether a request is counted as promoted. -/
def SchedView.promotedBit (v : SchedView) : UInt64 :=
  if v.registered = true ∧ v.lane = .bulk then 1 else 0

/-- Since the view `v` the request was not unregistered, has not left the bulk
    lane, and was counted when it entered it. -/
structure Counted (v w : SchedView) : Prop where
  registered : v.registered = true → w.registered = true
  lane : v.registered = true → v.lane = .bulk → w.lane = .bulk
  promotions : w.promotions + v.promotedBit = v.promotions + w.promotedBit

theorem counted_steady (v : SchedView) : Steady (Counted v) where
  enter w h hreg := by
    have hnot : v.registered = false := by
      cases hv : v.registered with
      | false => rfl
      | true => exact absurd (h.registered hv) (Bool.eq_false_iff.mp hreg)
    refine ⟨fun _ => rfl, fun hv => absurd hv (Bool.eq_false_iff.mp hnot), ?_⟩
    have hzero : w.promotedBit = 0 := if_neg fun hand => by
      rw [hreg] at hand
      nomatch hand.1
    have hpromotions := h.promotions
    rw [hzero] at hpromotions
    exact hpromotions
  promote w h hreg hlane := by
    refine ⟨fun _ => hreg, fun _ _ => rfl, ?_⟩
    have hzero : w.promotedBit = 0 := if_neg fun hand => hlane hand.2
    have hone : w.promote.promotedBit = 1 := if_pos ⟨hreg, rfl⟩
    have hpromotions := h.promotions
    rw [hzero, UInt64.add_zero] at hpromotions
    show w.promotions + 1 + v.promotedBit = v.promotions + w.promote.promotedBit
    rw [hone, UInt64.add_assoc, UInt64.add_comm 1, ← UInt64.add_assoc, hpromotions]
  turn _ _ _ h := { h with }
  deficit _ _ h := { h with }
  wait _ _ h := { h with }
  body _ _ _ h := { h with }

theorem Counted.refl (v : SchedView) : Counted v v :=
  ⟨fun h => h, fun _ h => h, rfl⟩

/-- How much a call adds to the number of promotions. -/
theorem schedCall_counted (enabled : Bool) (clock : Clock) (s : Sched) (call : SchedCall)
    (hcall : call ≠ .finish) : Counted s.view (schedCall enabled clock s call).view :=
  (counted_steady s.view).call (.refl s.view) enabled clock call hcall

theorem SchedView.promotedBit_cases (v : SchedView) : v.promotedBit = 0 ∨ v.promotedBit = 1 := by
  unfold SchedView.promotedBit
  split
  · exact .inr rfl
  · exact .inl rfl

/-- What the counter has grown by makes up the difference. -/
theorem Counted.count {v w : SchedView} (h : Counted v w) :
    v.promotedBit.toNat + (w.promotions - v.promotions).toNat = w.promotedBit.toNat := by
  have hpromotions := h.promotions
  rcases v.promotedBit_cases with hv | hv
  · rw [hv, UInt64.add_zero] at hpromotions
    rw [hv, hpromotions, UInt64.add_comm, UInt64.add_sub_cancel]
    exact Nat.zero_add _
  · -- it does not happen that the request was promoted and is not any more
    have hw : w.promotedBit = 1 := by
      unfold SchedView.promotedBit at hv
      split at hv
      · next hbulk => exact if_pos ⟨h.registered hbulk.1, h.lane hbulk.1 hbulk.2⟩
      · cases hv
    rw [hv, hw, UInt64.add_left_inj] at hpromotions
    rw [hv, hw, hpromotions, UInt64.sub_self]
    rfl

/-! ### Runs -/

/-- What holds after each call. -/
structure SchedInv {n : Nat} (l : SchedLog n) : Prop where
  lane : ∀ r, (l.sys.reqs r).registered = true → (l.sys.reqs r).lane_class ≠ .none
  active : l.sys.core.active_items = ∑ r, activeBit (l.sys.reqs r).registered
  interactive : l.sys.core.interactive_depth_current =
    ∑ r, laneBit (l.sys.reqs r).registered (l.sys.reqs r).lane_class .interactive
  bulk : l.sys.core.bulk_depth_current =
    ∑ r, laneBit (l.sys.reqs r).registered (l.sys.reqs r).lane_class .bulk
  bytes : l.sys.core.bytes_total = l.sys.core.bytes_interactive + l.sys.core.bytes_bulk
  rounds : l.sys.core.rounds = l.sys.core.interactive_turns + l.sys.core.bulk_turns
  underflows : l.sys.core.underflows = 0
  counted : ∀ r, l.counted r ≤ 1 ∧
    ((l.sys.reqs r).registered = true → l.counted r = (l.sys.at r).view.promotedBit.toNat)

section Systems

variable {n : Nat} {l : SchedLog n}

section

variable (f : SchedRequest → Nat) (reqs : Fin n → SchedRequest) (r : Fin n)
include f reqs r

/-- A sum is the part of one request and the rest. -/
theorem sum_split :
    ∑ r', f (reqs r') = ∑ r' ∈ Finset.univ.erase r, f (reqs r') + f (reqs r) :=
  (Finset.sum_erase_add Finset.univ (fun r' => f (reqs r')) (Finset.mem_univ r)).symm

theorem sum_update (req : SchedRequest) :
    ∑ r', f (update reqs r req r') = ∑ r' ∈ Finset.univ.erase r, f (reqs r') + f req := by
  rw [sum_split f _ r, update_self]
  congr 1
  refine Finset.sum_congr rfl fun r' hr' => ?_
  rw [update_of_ne (Finset.ne_of_mem_erase hr')]

end

/-- The core counts the other requests and the request `r`. -/
theorem SchedInv.balanced (h : SchedInv l) (r : Fin n) :
    Balanced (∑ r' ∈ Finset.univ.erase r, activeBit (l.sys.reqs r').registered)
      (∑ r' ∈ Finset.univ.erase r,
        laneBit (l.sys.reqs r').registered (l.sys.reqs r').lane_class .interactive)
      (∑ r' ∈ Finset.univ.erase r, laneBit (l.sys.reqs r').registered (l.sys.reqs r').lane_class .bulk)
      (l.sys.at r).view where
  lane := h.lane r
  active := h.active.trans (sum_split (fun req => activeBit req.registered) l.sys.reqs r)
  interactive := h.interactive.trans
    (sum_split (fun req => laneBit req.registered req.lane_class .interactive) l.sys.reqs r)
  bulk := h.bulk.trans (sum_split (fun req => laneBit req.registered req.lane_class .bulk) l.sys.reqs r)
  bytes := h.bytes
  rounds := h.rounds
  underflows := h.underflows

/-- The count of the request of a call. -/
theorem SchedInv.count (h : SchedInv l) (enabled : Bool) (r : Fin n) (clock : Clock) (call : SchedCall) :
    let s := schedCall enabled clock (l.sys.at r) call
    let count := (if (l.sys.reqs r).registered then l.counted r else 0) +
      (s.core.promotions_to_bulk - l.sys.core.promotions_to_bulk).toNat
    count ≤ 1 ∧ (s.req.registered = true → count = s.view.promotedBit.toNat) := by
  dsimp only
  -- before its registration a request is not counted
  have hbefore : (if (l.sys.reqs r).registered then l.counted r else 0) =
      (l.sys.at r).view.promotedBit.toNat := by
    cases hreg : (l.sys.reqs r).registered with
    | true =>
      exact (h.counted r).2 hreg
    | false =>
      have hzero : (l.sys.at r).view.promotedBit = 0 := if_neg fun hand => by
        rw [show (l.sys.at r).view.registered = false from hreg] at hand
        nomatch hand.1
      rw [hzero]
      rfl
  have hbit : ∀ v : SchedView, v.promotedBit.toNat ≤ 1 := by
    intro v
    rcases v.promotedBit_cases with hv | hv
    · rw [hv]
      decide
    · rw [hv]
      decide
  rw [hbefore]
  by_cases hfinish : call = .finish
  · subst hfinish
    have hview : (schedCall enabled clock (l.sys.at r) .finish).view =
        if (l.sys.at r).view.registered then (l.sys.at r).view.leave else (l.sys.at r).view :=
      finish_view clock.now (l.sys.at r)
    have hpromotions : (schedCall enabled clock (l.sys.at r) .finish).core.promotions_to_bulk =
        l.sys.core.promotions_to_bulk := by
      refine (congrArg SchedView.promotions hview).trans ?_
      split <;> rfl
    have hregistered : (schedCall enabled clock (l.sys.at r) .finish).req.registered = false := by
      refine (congrArg SchedView.registered hview).trans ?_
      split
      · rfl
      · next hnot => exact Bool.eq_false_iff.mpr hnot
    rw [hpromotions, UInt64.sub_self, hregistered]
    exact ⟨hbit _, nofun⟩
  · have hcount := (schedCall_counted enabled clock (l.sys.at r) call hfinish).count
    generalize schedCall enabled clock (l.sys.at r) call = s at hcount ⊢
    have hcount : (l.sys.at r).view.promotedBit.toNat +
        (s.core.promotions_to_bulk - l.sys.core.promotions_to_bulk).toNat = s.view.promotedBit.toNat :=
      hcount
    rw [hcount]
    exact ⟨hbit _, fun _ => rfl⟩

theorem SchedInv.step (h : SchedInv l) (enabled : Bool) (r : Fin n) (clock : Clock) (call : SchedCall) :
    SchedInv (l.step enabled (r, clock, call)) := by
  have hbalanced := (h.balanced r).call enabled clock call
  have hcount := h.count enabled r clock call
  unfold SchedLog.step SchedSystem.call
  dsimp only at hcount ⊢
  generalize schedCall enabled clock (l.sys.at r) call = s at hbalanced hcount ⊢
  refine ⟨?_, ?_, ?_, ?_, hbalanced.bytes, hbalanced.rounds, hbalanced.underflows, ?_⟩
  · intro r'
    by_cases heq : r' = r
    · subst heq
      dsimp only
      rw [update_self]
      exact hbalanced.lane
    · dsimp only
      rw [update_of_ne heq]
      exact h.lane r'
  · exact hbalanced.active.trans
      (sum_update (fun req => activeBit req.registered) l.sys.reqs r s.req).symm
  · exact hbalanced.interactive.trans
      (sum_update (fun req => laneBit req.registered req.lane_class .interactive) l.sys.reqs r s.req).symm
  · exact hbalanced.bulk.trans
      (sum_update (fun req => laneBit req.registered req.lane_class .bulk) l.sys.reqs r s.req).symm
  · intro r'
    by_cases heq : r' = r
    · subst heq
      unfold SchedSystem.at
      dsimp only
      rw [update_self, update_self]
      exact hcount
    · unfold SchedSystem.at
      dsimp only
      rw [update_of_ne heq, update_of_ne heq]
      exact h.counted r'

theorem schedInv_start (n : Nat) : SchedInv (schedStart n) where
  lane _ hreg := nomatch hreg
  active := (Finset.sum_eq_zero fun _ _ => rfl).symm
  interactive := (Finset.sum_eq_zero fun _ _ => rfl).symm
  bulk := (Finset.sum_eq_zero fun _ _ => rfl).symm
  bytes := rfl
  rounds := rfl
  underflows := rfl
  counted _ := ⟨Nat.zero_le _, nofun⟩

theorem schedRun_inv (enabled : Bool) (run : List (Fin n × Clock × SchedCall)) :
    SchedInv (schedRun enabled run) := by
  have hrun : ∀ (run : List (Fin n × Clock × SchedCall)) (l : SchedLog n), SchedInv l →
      SchedInv (run.foldl (SchedLog.step enabled) l) := by
    intro run
    induction run with
    | nil => exact fun _ h => h
    | cons step run ih =>
      obtain ⟨r, clock, call⟩ := step
      exact fun l h => ih _ (h.step enabled r clock call)
  exact hrun run _ (schedInv_start n)

/-- The lane of the request of a call. -/
theorem SchedInv.lane_moves (h : SchedInv l) (enabled : Bool) (r : Fin n) (clock : Clock)
    (call : SchedCall) (hbefore : (l.sys.reqs r).registered = true)
    (hafter : ((l.sys.call enabled r clock call).reqs r).registered = true) :
    ((l.sys.call enabled r clock call).reqs r).lane_class = (l.sys.reqs r).lane_class ∨
      (l.sys.reqs r).lane_class = .interactive ∧
        ((l.sys.call enabled r clock call).reqs r).lane_class = .bulk := by
  have hlane := (h.balanced r).call enabled clock call |>.lane
  unfold SchedSystem.call at hafter ⊢
  dsimp only at hafter ⊢
  rw [update_self] at hafter ⊢
  have hnone := hlane hafter
  have hfinish : call ≠ .finish := by
    rintro rfl
    have hview := congrArg SchedView.registered (finish_view clock.now (l.sys.at r))
    rw [if_pos (show (l.sys.at r).view.registered = true from hbefore)] at hview
    nomatch hview.symm.trans hafter
  have hcounted := schedCall_counted enabled clock (l.sys.at r) call hfinish
  generalize schedCall enabled clock (l.sys.at r) call = s at hafter hnone hcounted ⊢
  by_cases hbulk : (l.sys.reqs r).lane_class = .bulk
  · have hstays : s.req.lane_class = .bulk := hcounted.lane hbefore hbulk
    exact .inl (hstays.trans hbulk.symm)
  · have hin := SchedLane.interactive_of_ne (h.lane r hbefore) hbulk
    by_cases hmoved : s.req.lane_class = .bulk
    · exact .inr ⟨hin, hmoved⟩
    · have hstays : s.req.lane_class = .interactive := SchedLane.interactive_of_ne hnone hmoved
      exact .inl (hstays.trans hin.symm)

end Systems

/-- The requests that are registered and not finished. -/
def SchedSystem.registered {n : Nat} (sys : SchedSystem n) : Finset (Fin n) :=
  Finset.univ.filter fun r => (sys.reqs r).registered = true

/-- Those of a lane. -/
def SchedSystem.inLane {n : Nat} (sys : SchedSystem n) (lane : SchedLane) : Finset (Fin n) :=
  Finset.univ.filter fun r => (sys.reqs r).registered = true ∧ (sys.reqs r).lane_class = lane

/-- Two requests with a body; the first one reads enough to be moved. -/
def twoRequests : List (Fin 2 × Clock × SchedCall) :=
  [(0, ⟨0, 0⟩, .head 1000000 false), (1, ⟨0, 0⟩, .head 0 true), (1, ⟨0, 0⟩, .readBudget 4096),
    (0, ⟨0, 0⟩, .noteBytes 300000), (1, ⟨0, 0⟩, .noteEagain)]

end Upsgi
