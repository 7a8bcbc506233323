import Mathlib

/-! # Entering and leaving

    A walk through a tree by moves down and up, such as a path with `..` in it.
    The place where the walk is, is the list of what was entered on the way; a
    move up at the root stays there.  What a walk has entered is still in the
    place at its end if the moves after it never lead above it.
-/

namespace Moves

open List

inductive Move (α : Type) where
  | enter (a : α)
  | leave
  deriving DecidableEq, Repr

variable {α : Type}

/-- One move; what was entered last stands last. -/
def step (place : List α) : Move α → List α
  | .enter a => place ++ [a]
  | .leave => place.dropLast

def walk (place : List α) (ms : List (Move α)) : List α :=
  ms.foldl step place

/-- The number of moves down. -/
def enters (ms : List (Move α)) : Nat :=
  ms.countP (· matches .enter _)

/-- The number of moves up. -/
def leaves (ms : List (Move α)) : Nat :=
  ms.countP (· matches .leave)

@[simp] theorem enters_enter (a : α) (ms : List (Move α)) :
    enters (.enter a :: ms) = enters ms + 1 :=
  countP_cons_of_pos rfl

@[simp] theorem enters_leave (ms : List (Move α)) : enters (.leave :: ms) = enters ms :=
  countP_cons_of_neg Bool.false_ne_true

@[simp] theorem leaves_enter (a : α) (ms : List (Move α)) :
    leaves (.enter a :: ms) = leaves ms :=
  countP_cons_of_neg Bool.false_ne_true

@[simp] theorem leaves_leave (ms : List (Move α)) : leaves (.leave :: ms) = leaves ms + 1 :=
  countP_cons_of_pos rfl

/-- How far above its beginning a walk comes. -/
def rise : List (Move α) → Nat
  | [] => 0
  | .enter _ :: ms => rise ms - 1
  | .leave :: ms => rise ms + 1

theorem walk_append (place : List α) (ms ns : List (Move α)) :
    walk place (ms ++ ns) = walk (walk place ms) ns :=
  foldl_append

theorem walk_enters (place names : List α) : walk place (names.map .enter) = place ++ names := by
  induction names generalizing place with
  | nil => simp [walk]
  | cons name names ih =>
    have hstep : walk place ((name :: names).map .enter) =
        walk (place ++ [name]) (names.map .enter) := rfl
    rw [hstep, ih, append_assoc, singleton_append]

/-- A walk takes away what it rises above, and adds what it would add at the
    root. -/
theorem walk_eq (ms : List (Move α)) (place : List α) :
    walk place ms = place.take (place.length - rise ms) ++ walk [] ms := by
  induction ms generalizing place with
  | nil => simp [walk, rise]
  | cons m ms ih =>
    cases m with
    | enter a =>
      have hplace : walk place (.enter a :: ms) = walk (place ++ [a]) ms := rfl
      have hroot : walk [] (.enter a :: ms) = walk [a] ms := rfl
      rw [hplace, hroot, ih (place ++ [a]), ih [a], ← append_assoc]
      congr 1
      rw [rise, length_append, length_singleton]
      cases rise ms with
      | zero => simp [take_of_length_le]
      | succ n =>
        -- the walk comes back over `a`
        rw [take_append_of_le_length (by omega)]
        simp
    | leave =>
      have hplace : walk place (.leave :: ms) = walk place.dropLast ms := rfl
      have hroot : walk ([] : List α) (.leave :: ms) = walk [] ms := rfl
      rw [hplace, hroot, ih place.dropLast, rise, dropLast_eq_take, take_take, length_take]
      congr 2
      omega

theorem mem_walk_rise {x : α} (ms : List (Move α)) :
    x ∈ walk [] ms ↔ ∃ pre post, ms = pre ++ .enter x :: post ∧ rise post = 0 := by
  induction ms with
  | nil => simp [walk]
  | cons m ms ih =>
    have hshift : (∃ pre post, m :: ms = pre ++ .enter x :: post ∧ rise post = 0) ↔
        m = .enter x ∧ rise ms = 0 ∨ x ∈ walk [] ms := by
      rw [ih]
      constructor
      · rintro ⟨pre, post, heq, hrise⟩
        cases pre with
        | nil =>
          obtain ⟨rfl, rfl⟩ := List.cons.inj heq
          exact .inl ⟨rfl, hrise⟩
        | cons m' pre =>
          obtain ⟨rfl, rfl⟩ := List.cons.inj heq
          exact .inr ⟨pre, post, rfl, hrise⟩
      · rintro (⟨rfl, hrise⟩ | ⟨pre, post, rfl, hrise⟩)
        · exact ⟨[], ms, rfl, hrise⟩
        · exact ⟨m :: pre, post, rfl, hrise⟩
    rw [hshift]
    cases m with
    | enter a =>
      have hroot : walk [] (.enter a :: ms) = walk [a] ms := rfl
      rw [hroot, walk_eq ms [a], mem_append, Move.enter.injEq]
      cases rise ms with
      | zero => simp [eq_comm]
      | succ n => simp
    | leave =>
      have hroot : walk ([] : List α) (.leave :: ms) = walk [] ms := rfl
      simp [hroot]

theorem lt_rise_iff (ms : List (Move α)) (n : Nat) :
    n < rise ms ↔ ∃ p, p <+: ms ∧ enters p + n < leaves p := by
  induction ms generalizing n with
  | nil => simp [rise, leaves]
  | cons m ms ih =>
    constructor
    · intro h
      cases m with
      | enter a =>
        rw [rise] at h
        obtain ⟨p, hp, hlt⟩ := (ih (n + 1)).mp (by omega)
        exact ⟨.enter a :: p, by simpa using hp, by simp only [enters_enter, leaves_enter]; omega⟩
      | leave =>
        cases n with
        | zero => exact ⟨[.leave], by simp, Nat.zero_lt_one⟩
        | succ n =>
          rw [rise] at h
          obtain ⟨p, hp, hlt⟩ := (ih n).mp (by omega)
          exact ⟨.leave :: p, by simpa using hp, by simp only [enters_leave, leaves_leave]; omega⟩
    · rintro ⟨p, hp, hlt⟩
      cases p with
      | nil => simp [leaves] at hlt
      | cons m' p =>
        obtain ⟨rfl, hrest⟩ := cons_prefix_cons.mp hp
        cases m' with
        | enter a =>
          rw [enters_enter, leaves_enter] at hlt
          have := (ih (n + 1)).mpr ⟨p, hrest, by omega⟩
          rw [rise]
          omega
        | leave =>
          rw [enters_leave, leaves_leave] at hlt
          cases n with
          | zero => exact Nat.succ_pos _
          | succ n => exact Nat.succ_lt_succ ((ih n).mpr ⟨p, hrest, by omega⟩)

/-- What is in the place at the end of a walk: what was entered and never left,
    as no part of the walk after it has more moves up than down. -/
theorem mem_walk_iff {x : α} (ms : List (Move α)) :
    x ∈ walk [] ms ↔
      ∃ pre post, ms = pre ++ .enter x :: post ∧ ¬∃ p, p <+: post ∧ enters p < leaves p := by
  rw [mem_walk_rise]
  refine exists₂_congr fun pre post => and_congr_right fun _ => ?_
  have h := lt_rise_iff post 0
  simp only [Nat.add_zero] at h
  rw [← h]
  omega

end Moves
