import Upsgi.Lib.Framing

/-! # Internal routing

    The interpreter of `core/routing.c`.  `goto` does not jump: it writes down a position, and
    the loop passes over the rules before it.  It counts the rules in a field of the request
    that nothing resets.

    This is compared with real jumps, forward to a position of the table.  The positions are
    displaced when the counter does not start at 0, as in a table that is applied again.

    Conditions and actions are arbitrary functions of the rest `σ` of the request, which has
    the memory of the rules in it.
-/

namespace Upsgi

open Framing (Bytes)

/-! ### Rules -/

def UPSGI_ROUTE_NEXT : Int := 0
def UPSGI_ROUTE_CONTINUE : Int := 1
def UPSGI_ROUTE_BREAK : Int := 2

inductive RouteFunc (σ : Type) where
  /-- The action `goto`: the translated label, and the number that `atoi` reads in it. -/
  | goto (translate : σ → Option Bytes) (custom : Nat)
  | other (func : σ → Int × σ)

/-- `struct upsgi_route`.  `subject` is the match of the regular expression. -/
structure Route (σ : Type) where
  label : Option Bytes := none
  subject : Option (σ → Int × σ) := none
  if_func : Option (σ → Int × σ) := none
  if_negate : Bool := false
  func : RouteFunc σ := .other fun req => (0, req)
  reset_memory : σ → σ := id

/-- The tables of a configuration. -/
inductive RouteTable where
  | routes
  | error_routes
  | response_routes
  | final_routes
  deriving DecidableEq

/-- What a table changes for the rest of the server. -/
structure Routed (σ : Type) where
  req : σ
  routed_requests : Nat

/-- The two counters that each table has in a request. -/
structure RouteCounters where
  route_pc : Nat := 0
  route_goto : Nat := 0

structure Routing (σ : Type) extends Routed σ where
  counters : RouteTable → RouteCounters := fun _ => {}
  is_error_routing : Bool := false
  is_final_routing : Bool := false
  is_response_routing : Bool := false

variable {σ : Type}

/-- Whether the rule is to run; `none` is an error of its condition. -/
def Route.condition (r : Route σ) (req : σ) : Option Bool × σ :=
  match r.if_func, r.subject with
  | none, none => (some true, req)
  | none, some subject => (some (decide (0 ≤ (subject req).1)), (subject req).2)
  | some if_func, _ =>
      let (ret, req) := if_func req
      if ret < 0 then (none, r.reset_memory req)
      else if (if r.if_negate then 0 < ret else ret = 0) then (some false, r.reset_memory req)
      else (some true, req)

/-- What an action returned: the table ends with a value, or goes on. -/
def conclude (ret : Int) (s : Routed σ) : Option Int × Routed σ :=
  if ret = UPSGI_ROUTE_BREAK then
    (some ret, { s with routed_requests := s.routed_requests + 1 })
  else if ret = UPSGI_ROUTE_CONTINUE then (some ret, s)
  else if ret = -1 then (some UPSGI_ROUTE_BREAK, s)
  else (none, s)

/-- The value of `r_goto` for a label: its position, or the number. -/
def gotoTarget (table : List (Route σ)) (custom : Nat) (label : Bytes) : Nat :=
  ((table.findIdx? fun r => r.label = some label).getD custom) % 2 ^ 32

/-! ### The interpreter -/

/-- The table that `goto` looks in, and whose counters it takes. -/
def Routing.gotoTable (s : Routing σ) : RouteTable :=
  if s.is_error_routing then .error_routes
  else if s.is_final_routing then .final_routes
  else if s.is_response_routing then .response_routes
  else .routes

def Routing.set (s : Routing σ) (t : RouteTable) (c : RouteCounters) : Routing σ :=
  { s with counters := Function.update s.counters t c }

def upsgi_router_goto_func (tables : RouteTable → List (Route σ)) (translate : σ → Option Bytes)
    (custom : Nat) (s : Routing σ) : Int × Routing σ :=
  match translate s.req with
  | none => (UPSGI_ROUTE_BREAK, s)
  | some label =>
      let t := s.gotoTable
      let target := gotoTarget (tables t) custom label
      let pc := (s.counters t).route_pc
      if target ≤ pc then (UPSGI_ROUTE_BREAK, s.set t ⟨pc, 0⟩)
      else (UPSGI_ROUTE_NEXT, s.set t ⟨pc, target⟩)

/-- `routes->func`. -/
def Route.call (tables : RouteTable → List (Route σ)) (r : Route σ) (s : Routing σ) :
    Int × Routing σ :=
  match r.func with
  | .goto translate custom => upsgi_router_goto_func tables translate custom s
  | .other func => ((func s.req).1, { s with req := (func s.req).2 })

/-- The counter at `next`: it stays when there is no next rule. -/
def Routing.advance (t : RouteTable) (rest : List (Route σ)) (s : Routing σ) : Routing σ :=
  let c := s.counters t
  if rest.isEmpty then s else s.set t ⟨(c.route_pc + 1) % 2 ^ 32, c.route_goto⟩

/-- The rule takes its turn; with a value the loop returns. -/
def Route.act (tables : RouteTable → List (Route σ)) (r : Route σ) (s : Routing σ) :
    Option Int × Routing σ :=
  match r.condition s.req with
  | (none, req) => (some UPSGI_ROUTE_BREAK, { s with req := req })
  | (some false, req) => (none, { s with req := req })
  | (some true, req) =>
      let (ret, s) := r.call tables { s with req := req }
      let (ret, done) := conclude ret ⟨r.reset_memory s.req, s.routed_requests⟩
      (ret, { s with toRouted := done })

/-- A round of the loop, up to the label `next`. -/
def Route.round (tables : RouteTable → List (Route σ)) (t : RouteTable) (r : Route σ)
    (s : Routing σ) : Option Int × Routing σ :=
  let c := s.counters t
  if r.label.isSome ∨ 0 < c.route_goto ∧ c.route_pc < c.route_goto then (none, s)
  else r.act tables (s.set t ⟨c.route_pc, 0⟩)

def upsgi_apply_routes_do (tables : RouteTable → List (Route σ)) (t : RouteTable) :
    List (Route σ) → Routing σ → Int × Routing σ
  | [], s => (UPSGI_ROUTE_CONTINUE, s)
  | r :: rest, s =>
      match r.round tables t s with
      | (some ret, s) => (ret, s)
      | (none, s) => upsgi_apply_routes_do tables t rest (s.advance t rest)

/-! ### Jumps -/

inductive Turn (σ : Type) where
  | ends (ret : Int) (s : Routed σ)
  | moves (p : Nat) (s : Routed σ)

/-- What a rule does when it is reached at position `p`: `goto` takes the positions from `d`
    on, and refuses to jump back. -/
def turn (table : List (Route σ)) (d p : Nat) (r : Route σ) (s : Routed σ) : Turn σ :=
  if r.label.isSome then .moves (p + 1) s
  else
    match r.condition s.req with
    | (none, req) => .ends UPSGI_ROUTE_BREAK { s with req := req }
    | (some false, req) => .moves (p + 1) { s with req := req }
    | (some true, req) =>
        match r.func with
        | .goto translate custom =>
            let done : Routed σ := ⟨r.reset_memory req, s.routed_requests⟩
            -- without a label there is no jump
            let target := ((translate req).map (gotoTarget table custom)).getD 0
            if target ≤ d + p then
              .ends UPSGI_ROUTE_BREAK { done with routed_requests := s.routed_requests + 1 }
            else .moves (target - d) done
        | .other func =>
            match conclude (func req).1 ⟨r.reset_memory (func req).2, s.routed_requests⟩ with
            | (some ret, done) => .ends ret done
            | (none, done) => .moves (p + 1) done

/-- A table run from position `p` on, with jumps, and what it comes to. -/
inductive Forward (table : List (Route σ)) (d : Nat) :
    Nat → Routed σ → Int × Routed σ → Prop where
  | ended {p : Nat} {s : Routed σ} (hend : table[p]? = none) :
      Forward table d p s (UPSGI_ROUTE_CONTINUE, s)
  | ends {p : Nat} {s s' : Routed σ} {r : Route σ} {ret : Int} (hrule : table[p]? = some r)
      (hturn : turn table d p r s = .ends ret s') : Forward table d p s (ret, s')
  | moves {p q : Nat} {s s' : Routed σ} {r : Route σ} {out : Int × Routed σ}
      (hrule : table[p]? = some r) (hturn : turn table d p r s = .moves q s') (hforward : p < q)
      (hrest : Forward table d q s' out) : Forward table d p s out

/-! ### Refinement -/

section Refinement

variable {tables : RouteTable → List (Route σ)} {t : RouteTable} {d p : Nat} {rest : List (Route σ)}
  {r : Route σ} {s : Routing σ}

@[simp] theorem Routing.set_counters (c : RouteCounters) : (s.set t c).counters t = c :=
  Function.update_self ..

/-- The counters are those that `goto` takes, and count the rules from `d` on. -/
structure Reached (t : RouteTable) (d p : Nat) (s : Routing σ) : Prop where
  table : s.gotoTable = t
  pc : (s.counters t).route_pc = d + p

/-- The loop did what the rule does in its turn.  When it goes on, the position to jump to is
    in the counter. -/
def TurnTaken (t : RouteTable) (d p : Nat) (out : Option Int × Routing σ) (turn : Turn σ) : Prop :=
  match out with
  | (some ret, s) => turn = .ends ret s.toRouted
  | (none, s) =>
      Reached t d p s ∧ turn = .moves (max (p + 1) ((s.counters t).route_goto - d)) s.toRouted

theorem goto_func_spec (h : Reached t d p s) (translate : σ → Option Bytes) (custom : Nat) :
    let target := ((translate s.req).map (gotoTarget (tables t) custom)).getD 0
    ∃ s', upsgi_router_goto_func tables translate custom s =
        (if target ≤ d + p then UPSGI_ROUTE_BREAK else UPSGI_ROUTE_NEXT, s') ∧
      s'.toRouted = s.toRouted ∧
      (d + p < target → Reached t d p s' ∧ (s'.counters t).route_goto = target) := by
  unfold upsgi_router_goto_func
  cases translate s.req with
  | none => exact ⟨s, rfl, rfl, fun hlt => absurd hlt (Nat.not_lt_zero _)⟩
  | some label =>
    dsimp only [Option.map_some, Option.getD_some]
    rw [h.table, h.pc]
    split
    · next hback => exact ⟨_, rfl, rfl, fun hlt => absurd hback (Nat.not_le.mpr hlt)⟩
    · exact ⟨_, rfl, rfl, fun _ => ⟨⟨h.table, by simp⟩, by simp⟩⟩

theorem act_turn (h : Reached t d p s) (hjump : (s.counters t).route_goto = 0)
    (hlabel : ¬r.label.isSome = true) :
    TurnTaken t d p (r.act tables s) (turn (tables t) d p r s.toRouted) := by
  unfold Route.act turn
  rw [if_neg hlabel]
  rcases r.condition s.req with ⟨_ | _ | _, req⟩
  · rfl
  · exact ⟨⟨h.table, h.pc⟩, by simp [hjump]⟩
  · have hcall : Reached t d p { s with req := req } := ⟨h.table, h.pc⟩
    unfold Route.call
    cases r.func with
    | goto translate custom =>
      obtain ⟨s', hgoto, hrouted, hjumps⟩ := @goto_func_spec _ tables _ _ _ _ hcall translate custom
      dsimp only at hgoto hrouted hjumps ⊢
      rw [hgoto]
      dsimp only
      rw [hrouted]
      generalize ((translate req).map (gotoTarget (tables t) custom)).getD 0 = target at hjumps ⊢
      by_cases hback : target ≤ d + p
      · rw [if_pos hback, if_pos hback]
        rfl
      · obtain ⟨hreached, hgoes⟩ := hjumps (Nat.lt_of_not_le hback)
        rw [if_neg hback, if_neg hback]
        refine ⟨⟨hreached.table, hreached.pc⟩, ?_⟩
        dsimp only
        rw [hgoes, Nat.max_eq_right (by omega)]
        rfl
    | other func =>
      dsimp only
      rcases conclude (func req).1 ⟨r.reset_memory (func req).2, s.routed_requests⟩ with
        ⟨_ | ret, done⟩
      · exact ⟨⟨h.table, h.pc⟩, by simp [hjump]⟩
      · rfl

/-- A rule that is not passed over takes its turn. -/
theorem round_turn (h : Reached t d p s) (hjump : (s.counters t).route_goto ≤ d + p) :
    TurnTaken t d p (r.round tables t s) (turn (tables t) d p r s.toRouted) := by
  have hpc := h.pc
  unfold Route.round
  by_cases hlabel : r.label.isSome = true
  · simp only [hlabel, true_or, if_true]
    refine ⟨h, ?_⟩
    rw [turn, if_pos hlabel, Nat.max_eq_left (by omega)]
  · dsimp only
    rw [if_neg (not_or.mpr ⟨hlabel, by omega⟩)]
    exact act_turn ⟨h.table, by simp [hpc]⟩ (by simp) hlabel

/-- The loop passes over the rules before the position that a jump wrote down, so that the
    table goes on from the further one of this position and its own. -/
theorem apply_routes_do_from (hfits : d + (tables t).length ≤ 2 ^ 32)
    (hrest : (tables t).drop p = rest) (htable : s.gotoTable = t)
    (hpc : rest ≠ [] → (s.counters t).route_pc = d + p) :
    Forward (tables t) d (max p ((s.counters t).route_goto - d)) s.toRouted
      ((upsgi_apply_routes_do tables t rest s).1,
        (upsgi_apply_routes_do tables t rest s).2.toRouted) := by
  induction rest generalizing p s with
  | nil =>
    have hend := List.drop_eq_nil_iff.mp hrest
    exact .ended (List.getElem?_eq_none (by omega))
  | cons r rest ih =>
    have hrule : (tables t)[p]? = some r := by
      rw [← List.head?_drop, hrest, List.head?_cons]
    have hrest' : (tables t).drop (p + 1) = rest := by
      rw [← List.tail_drop, hrest, List.tail_cons]
    have h : Reached t d p s := ⟨htable, hpc (List.cons_ne_nil r rest)⟩
    -- the loop goes on with the next rule
    have hnext : ∀ s' : Routing σ, Reached t d p s' →
        Forward (tables t) d (max (p + 1) ((s'.counters t).route_goto - d)) s'.toRouted
          ((upsgi_apply_routes_do tables t rest (s'.advance t rest)).1,
            (upsgi_apply_routes_do tables t rest (s'.advance t rest)).2.toRouted) := by
      intro s' hs'
      cases rest with
      | nil => exact ih hrest' hs'.table fun hne => absurd rfl hne
      | cons r' rest =>
        have hlen := congrArg List.length hrest'
        rw [List.length_drop, List.length_cons] at hlen
        have hset : (s'.advance t (r' :: rest)).counters t =
            ⟨d + (p + 1), (s'.counters t).route_goto⟩ := by
          have hfit : (d + p + 1) % 2 ^ 32 = d + (p + 1) := by omega
          simpa [Routing.advance, hs'.pc] using hfit
        have hrun := ih (s := s'.advance t (r' :: rest)) hrest' hs'.table fun _ => by rw [hset]
        rw [hset] at hrun
        exact hrun
    unfold upsgi_apply_routes_do
    by_cases hjump : d + p < (s.counters t).route_goto
    · have hpass : r.round tables t s = (none, s) := by
        have hlt := h.pc
        exact if_pos (.inr (by omega))
      have hgoes := hnext s h
      rw [Nat.max_eq_right (by omega)] at hgoes ⊢
      rw [hpass]
      exact hgoes
    · rw [Nat.max_eq_left (by omega)]
      have hturn := @round_turn _ tables _ _ _ r _ h (by omega)
      generalize r.round tables t s = out at hturn ⊢
      obtain ⟨_ | ret, s'⟩ := out
      · exact .moves hrule hturn.2 (by omega) (hnext s' hturn.1)
      · exact .ends hrule hturn

end Refinement

/-- A jump over a rule that would end the table. -/
def jumpTable : List (Route Unit) :=
  [{ func := .goto (fun _ => some [120]) 0 }, { func := .other fun req => (UPSGI_ROUTE_BREAK, req) },
    { label := some [120] }]

end Upsgi
