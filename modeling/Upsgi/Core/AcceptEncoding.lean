import Upsgi.Core.Strings

/-! # The encodings a client accepts

    `upsgi_contains_n` of `core/strings.c`, with which `core/static.c` chooses a
    compressed variant of a file by the text of `Accept-Encoding`.

    It compares in one pass.  A byte that ends an attempt to match
    is not looked at again, so that an occurrence which begins inside a failed
    attempt is missed.  `Attempts` says what such a pass can skip.
-/

namespace Upsgi

open Framing (Bytes)
open List

/-! ### `upsgi_contains_n` -/

/-- The loop, with the place in `s2` that `ptr` points to.  For an empty `s2` the source
    reads behind it; every other `ptr` is inside. -/
def containsLoop (s2 : Bytes) : Bytes → Nat → Int
  | [], _ => 0
  | c :: s1, ptr =>
      if s2[ptr]? = some c then
        if ptr + 1 = s2.length then 1 else containsLoop s2 s1 (ptr + 1)
      else containsLoop s2 s1 0

def upsgi_contains_n (s1 s2 : Bytes) : Int :=
  containsLoop s2 s1 0

/-- A text that consists of failed attempts to match `s2`: each matches an initial part of
    it, and ends with a byte that differs from the next one of `s2`. -/
inductive Attempts (s2 : Bytes) : Bytes → Prop where
  | none : Attempts s2 []
  | failed {rest : Bytes} {j : Nat} {c : UInt8} (inside : j < s2.length)
      (differs : s2[j]? ≠ some c) (more : Attempts s2 rest) :
      Attempts s2 (s2.take j ++ c :: rest)

/-- `s2` occurs in `s1` where an attempt to match it begins. -/
def OccursAtAttempt (s1 s2 : Bytes) : Prop :=
  ∃ skipped tail, s1 = skipped ++ s2 ++ tail ∧ Attempts s2 skipped

section contains

variable {s1 s2 : Bytes} {ptr : Nat} {c : UInt8}

theorem take_append_cons (h : s2[ptr]? = some c) :
    s2.take ptr ++ c :: s1 = s2.take (ptr + 1) ++ s1 := by
  rw [take_add_one, h, Option.toList_some, append_assoc]
  rfl

theorem getElem?_attempt (hptr : ptr < s2.length) :
    (s2.take ptr ++ c :: s1)[ptr]? = some c := by
  have hlen : (s2.take ptr).length = ptr := by
    rw [length_take, Nat.min_eq_left hptr.le]
  rw [getElem?_append_right hlen.le, hlen, Nat.sub_self, getElem?_cons_zero]

/-- Of two attempts on the same text, neither goes on behind the byte that ended the other. -/
theorem attempt_le {rest : Bytes} {j : Nat} {d : UInt8} (hptr : ptr < s2.length)
    (hj : j < s2.length) (hd : s2[j]? ≠ some d)
    (heq : s2.take j ++ d :: rest = s2.take ptr ++ c :: s1) : ptr ≤ j := by
  by_contra hlt
  have hget : (s2.take ptr ++ c :: s1)[j]? = s2[j]? := by
    rw [getElem?_append_left (by rw [length_take]; omega), getElem?_take_of_lt (by omega)]
  rw [← heq, getElem?_attempt hj] at hget
  exact hd hget.symm

/-- After an attempt that failed the pass starts afresh. -/
theorem occursAtAttempt_failed (hptr : ptr < s2.length) (hc : s2[ptr]? ≠ some c) :
    OccursAtAttempt (s2.take ptr ++ c :: s1) s2 ↔ OccursAtAttempt s1 s2 := by
  constructor
  · rintro ⟨skipped, tail, heq, hattempts⟩
    cases hattempts with
    | none =>
      -- an occurrence right here would have matched `c`
      have hget : (s2.take ptr ++ c :: s1)[ptr]? = some c := getElem?_attempt hptr
      rw [heq, nil_append, getElem?_append_left hptr] at hget
      exact absurd hget hc
    | @failed rest j d hj hd more =>
      -- both attempts end at the first byte that differs
      have heq' : s2.take j ++ d :: (rest ++ s2 ++ tail) = s2.take ptr ++ c :: s1 := by
        rw [heq]
        simp
      have hle := attempt_le hptr hj hd heq'
      have hge := attempt_le hj hptr hc heq'.symm
      obtain rfl : j = ptr := by omega
      have hrest := append_cancel_left heq'
      rw [List.cons.injEq] at hrest
      exact ⟨rest, tail, hrest.2.symm, more⟩
  · rintro ⟨skipped, tail, rfl, hattempts⟩
    refine ⟨s2.take ptr ++ c :: skipped, tail, ?_, .failed hptr hc hattempts⟩
    simp

/-- The loop with an attempt under way finds the occurrences at an attempt, this one
    included. -/
theorem containsLoop_eq_one_iff (s1 : Bytes) (hptr : ptr < s2.length) :
    containsLoop s2 s1 ptr = 1 ↔ OccursAtAttempt (s2.take ptr ++ s1) s2 := by
  induction s1 generalizing ptr with
  | nil =>
    rw [containsLoop, append_nil]
    refine ⟨nofun, ?_⟩
    rintro ⟨skipped, tail, heq, _⟩
    have hlen := congrArg List.length heq
    simp only [length_take, length_append] at hlen
    omega
  | cons c s1 ih =>
    rw [containsLoop]
    by_cases hc : s2[ptr]? = some c
    · rw [if_pos hc, take_append_cons hc]
      by_cases hend : ptr + 1 = s2.length
      · rw [if_pos hend, hend, take_length]
        exact ⟨fun _ => ⟨[], s1, rfl, .none⟩, fun _ => rfl⟩
      · rw [if_neg hend]
        exact ih (by omega)
    · rw [if_neg hc, occursAtAttempt_failed hptr hc]
      exact ih (by omega)

theorem upsgi_contains_n_eq_one_iff (h : s2 ≠ []) :
    upsgi_contains_n s1 s2 = 1 ↔ OccursAtAttempt s1 s2 := by
  have hlen := length_pos_iff.mpr h
  exact containsLoop_eq_one_iff s1 hlen

theorem OccursAtAttempt.occurs (h : OccursAtAttempt s1 s2) : s2 <:+: s1 := by
  obtain ⟨skipped, tail, rfl, _⟩ := h
  exact ⟨skipped, tail, rfl⟩

/-- **The substring test** is right about a text unless every occurrence in it begins inside
    an attempt that fails. -/
theorem contains_n_iff_occurs (s1 s2 : Bytes) (h : s2 ≠ []) :
    (upsgi_contains_n s1 s2 = 1 ↔ s2 <:+: s1) ↔ (s2 <:+: s1 → OccursAtAttempt s1 s2) := by
  rw [upsgi_contains_n_eq_one_iff h]
  exact ⟨fun hiff => hiff.mpr, fun himp => ⟨OccursAtAttempt.occurs, himp⟩⟩

end contains

/-- The second attempt begins where the first one fails. -/
theorem contains_n_misses_br :
    lit "br" <:+: lit "bbr" ∧ upsgi_contains_n (lit "bbr") (lit "br") = 0 := by
  decide +kernel

theorem contains_n_iff_occurs_usual :
    (upsgi_contains_n (lit "gzip, deflate, br") (lit "br") = 1 ↔
      lit "br" <:+: lit "gzip, deflate, br") := by
  refine (contains_n_iff_occurs _ _ (by decide)).mpr fun _ => ?_
  exact (upsgi_contains_n_eq_one_iff (by decide)).mp (by decide +kernel)

end Upsgi
