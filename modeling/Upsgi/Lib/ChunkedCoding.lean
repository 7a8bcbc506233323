import Mathlib

/-! # The chunked transfer coding

    A body in chunks: each chunk is its size in hexadecimal digits and a line
    end, its bytes and a line end; a chunk of size zero without bytes closes
    the body.  Extensions and trailers are not part of it.
-/

namespace ChunkedCoding

open List

abbrev Bytes : Type := List UInt8

/-- The line end. -/
def crlf : Bytes := [13, 10]

/-- The value of a hexadecimal digit. -/
def digit (c : UInt8) : Option Nat :=
  if 48 ≤ c ∧ c ≤ 57 then some (c.toNat - 48)
  else if 97 ≤ c ∧ c ≤ 102 then some (c.toNat - 87)
  else if 65 ≤ c ∧ c ≤ 70 then some (c.toNat - 55)
  else none

def isDigit (c : UInt8) : Bool :=
  (digit c).isSome

/-- The number a list of digits stands for. -/
def value (digits : Bytes) : Nat :=
  digits.foldl (fun n c => n * 16 + (digit c).getD 0) 0

/-- The digits of a chunk size. -/
def IsSize (digits : Bytes) : Prop :=
  digits ≠ [] ∧ ∀ c ∈ digits, isDigit c = true

/-- A complete body in chunks. -/
inductive Seq : Bytes → Prop where
  | last (digits : Bytes) (hsize : IsSize digits) (hvalue : value digits = 0) :
      Seq (digits ++ crlf ++ crlf)
  | chunk (digits data rest : Bytes) (hsize : IsSize digits)
      (hvalue : value digits = data.length) (hdata : data ≠ []) (hrest : Seq rest) :
      Seq (digits ++ crlf ++ data ++ crlf ++ rest)

/-- The digits end where the line end begins. -/
theorem takeWhile_size {digits : Bytes} (h : ∀ c ∈ digits, isDigit c = true) (rest : Bytes) :
    (digits ++ 13 :: rest).takeWhile isDigit = digits := by
  rw [takeWhile_append_of_pos h, takeWhile_cons_of_neg (by decide), append_nil]

/-- A body begins with the line of a chunk: the last one, or one with bytes and
    a body behind them. -/
theorem Seq.line {body : Bytes} (h : Seq body) :
    ∃ digits after, body = digits ++ crlf ++ after ∧ IsSize digits ∧
      ((value digits = 0 ∧ after = crlf) ∨
        ∃ data rest, value digits = data.length ∧ data ≠ [] ∧ Seq rest ∧
          after = data ++ crlf ++ rest) := by
  cases h with
  | last digits hsize hvalue => exact ⟨digits, crlf, rfl, hsize, .inl ⟨hvalue, rfl⟩⟩
  | chunk digits data rest hsize hvalue hdata hrest =>
    refine ⟨digits, data ++ crlf ++ rest, by simp, hsize, .inr ?_⟩
    exact ⟨data, rest, hvalue, hdata, hrest, rfl⟩

theorem Seq.ne_nil {body : Bytes} (h : Seq body) : body ≠ [] := by
  obtain ⟨digits, after, rfl, hsize, -⟩ := h.line
  simp [hsize.1]

/-- The line at the front of a stream is determined by the stream. -/
theorem line_unique {digits digits' after after' : Bytes} (h : IsSize digits)
    (h' : IsSize digits') (heq : digits ++ crlf ++ after = digits' ++ crlf ++ after') :
    digits = digits' ∧ after = after' := by
  have hdigits : digits = digits' := by
    have htake := congrArg (List.takeWhile isDigit) heq
    rw [append_assoc, append_assoc] at htake
    exact (takeWhile_size h.2 _).symm.trans (htake.trans (takeWhile_size h'.2 _))
  subst hdigits
  exact ⟨rfl, append_cancel_left heq⟩

/-- A stream begins with one complete body at most: no body is a proper prefix
    of another one. -/
theorem Seq.unique {body : Bytes} (h : Seq body) :
    ∀ {body' tail tail' : Bytes}, Seq body' → body ++ tail = body' ++ tail' →
      body = body' ∧ tail = tail' := by
  induction h with
  | last digits hsize hvalue =>
    intro body' tail tail' h' heq
    obtain ⟨digits', after, rfl, hsize', hkind⟩ := h'.line
    have heq' : digits ++ crlf ++ (crlf ++ tail) = digits' ++ crlf ++ (after ++ tail') := by
      simpa using heq
    obtain ⟨rfl, hafter⟩ := line_unique hsize hsize' heq'
    rcases hkind with ⟨-, rfl⟩ | ⟨data, rest, hlen, hdata, -, -⟩
    · exact ⟨rfl, append_cancel_left hafter⟩
    · exact absurd (eq_nil_of_length_eq_zero (hlen.symm.trans hvalue)) hdata
  | chunk digits data rest hsize hvalue hdata hrest ih =>
    intro body' tail tail' h' heq
    obtain ⟨digits', after, rfl, hsize', hkind⟩ := h'.line
    have heq' : digits ++ crlf ++ (data ++ (crlf ++ (rest ++ tail))) =
        digits' ++ crlf ++ (after ++ tail') := by
      simpa using heq
    obtain ⟨rfl, hafter⟩ := line_unique hsize hsize' heq'
    rcases hkind with ⟨hzero, -⟩ | ⟨data', rest', hlen, -, hseq, rfl⟩
    · exact absurd (eq_nil_of_length_eq_zero (hvalue.symm.trans hzero)) hdata
    · -- both chunks have the size the line gives, so their bytes are the same
      have hafter' : data ++ (crlf ++ (rest ++ tail)) = data' ++ (crlf ++ (rest' ++ tail')) := by
        simpa using hafter
      obtain ⟨rfl, hmore⟩ := append_inj hafter' (hvalue.symm.trans hlen)
      obtain ⟨rfl, rfl⟩ := ih hseq (append_cancel_left hmore)
      exact ⟨by simp, rfl⟩

end ChunkedCoding
