import Mathlib

/-! # Vectors of buffers

    A vector of buffers is written from the front.  After some bytes the consumed
    buffers are gone, and the first of the others has lost its beginning.
-/

namespace Iovec

open List

variable {α : Type}

/-- What is left of the buffers after `w` bytes. -/
def advance : List (List α) → Nat → List (List α)
  | [], _ => []
  | v :: vs, w => if v.length ≤ w then advance vs (w - v.length) else v.drop w :: vs

theorem advance_consumed {v : List α} {w : Nat} (vs : List (List α)) (h : v.length ≤ w) :
    advance (v :: vs) w = advance vs (w - v.length) := by
  rw [advance, if_pos h]

theorem advance_first {v : List α} {w : Nat} (vs : List (List α)) (h : w < v.length) :
    advance (v :: vs) w = v.drop w :: vs := by
  rw [advance, if_neg (Nat.not_le_of_lt h)]

/-- The bytes to come are the rest of all bytes. -/
theorem flatten_advance (vs : List (List α)) (w : Nat) :
    (advance vs w).flatten = vs.flatten.drop w := by
  induction vs generalizing w with
  | nil => rw [advance, flatten_nil, drop_nil]
  | cons v vs ih =>
    rw [flatten_cons]
    by_cases h : v.length ≤ w
    · rw [advance_consumed vs h, ih, drop_append, drop_eq_nil_of_le h, nil_append]
    · have hlt := Nat.lt_of_not_le h
      rw [advance_first vs hlt, flatten_cons, drop_append_of_le_length (Nat.le_of_lt hlt)]

/-- Writing in two steps. -/
theorem advance_advance (vs : List (List α)) (a b : Nat) :
    advance (advance vs a) b = advance vs (a + b) := by
  induction vs generalizing a with
  | nil => rfl
  | cons v vs ih =>
    by_cases ha : v.length ≤ a
    · rw [advance_consumed vs ha, ih, advance_consumed vs (by omega)]
      congr 1
      omega
    · have hlt := Nat.lt_of_not_le ha
      rw [advance_first vs hlt]
      by_cases hb : v.length ≤ a + b
      · have hdrop : (v.drop a).length ≤ b := by
          rw [length_drop]
          omega
        rw [advance_consumed vs hdrop, advance_consumed vs hb, length_drop]
        congr 1
        omega
      · have hdrop : b < (v.drop a).length := by
          rw [length_drop]
          omega
        rw [advance_first vs hdrop, advance_first vs (Nat.lt_of_not_le hb), drop_drop]

end Iovec
