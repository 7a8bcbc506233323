import Mathlib

/-! # Searching a stream for a terminator

    A reader that gets a stream in pieces looks for the first place where a
    fixed pattern ends.  It remembers only a number, its status: how much of
    the pattern the bytes seen so far end in.  A step function on the status
    is a matching automaton when it keeps that number right; then the scan
    stops at the first terminator, wherever the pieces were cut.
-/

namespace Terminator

open List

variable {α : Type}

/-- The first `k` symbols of the pattern are the last ones seen. -/
def Matched (pattern seen : List α) (k : Nat) : Prop :=
  pattern.take k <:+ seen

/-- The pattern has not ended anywhere yet. -/
def Absent (pattern seen : List α) : Prop :=
  ∀ p, p <+: seen → ¬ pattern <:+ p

/-- The pattern ends at the end of `block`, and nowhere before. -/
def EndsFirst (pattern block : List α) : Prop :=
  pattern <:+ block ∧ ∀ p, p <+: block → p ≠ block → ¬ pattern <:+ p

/-- The status is the length of the longest part of the pattern that was
    matched, and the pattern was not matched as a whole. -/
structure Tracks (pattern : List α) (status : Nat) (seen : List α) : Prop where
  lt : status < pattern.length
  matched : Matched pattern seen status
  longest : ∀ k, k < pattern.length → Matched pattern seen k → k ≤ status
  absent : Absent pattern seen

/-! ### Matching -/

theorem matched_zero (pattern seen : List α) : Matched pattern seen 0 := by
  unfold Matched
  exact nil_suffix

variable {pattern seen : List α}

/-- One more symbol of the pattern is matched by one more symbol of the stream. -/
theorem matched_succ_iff {c : α} {k : Nat} (hk : k < pattern.length) :
    Matched pattern (seen ++ [c]) (k + 1) ↔ pattern[k] = c ∧ Matched pattern seen k := by
  unfold Matched
  rw [take_succ_eq_append_getElem hk]
  constructor
  · intro h
    obtain ⟨t, ht⟩ := h
    rw [← append_assoc] at ht
    obtain ⟨hseen, hc⟩ := append_inj' ht rfl
    exact ⟨singleton_inj.mp hc, t, hseen⟩
  · intro h
    obtain ⟨rfl, t, rfl⟩ := h
    exact ⟨t, by rw [append_assoc]⟩


theorem absent_nil (h : pattern ≠ []) : Absent pattern [] := by
  intro p hp hsuffix
  rw [prefix_nil.mp hp] at hsuffix
  exact h (suffix_nil.mp hsuffix)

theorem tracks_nil (h : pattern ≠ []) : Tracks pattern 0 [] where
  lt := length_pos_of_ne_nil h
  matched := matched_zero pattern []
  longest := by
    intro k hk hmatched
    have hlen := congrArg List.length (suffix_nil.mp hmatched)
    rw [length_take, length_nil] at hlen
    omega
  absent := absent_nil h

theorem Absent.snoc {pattern seen : List α} {c : α} (h : Absent pattern seen)
    (hc : ¬ pattern <:+ seen ++ [c]) : Absent pattern (seen ++ [c]) := by
  intro p hp
  rcases prefix_concat_iff.mp hp with rfl | hp
  · exact hc
  · exact h p hp

theorem Absent.endsFirst {c : α} (h : Absent pattern seen)
    (hc : pattern <:+ seen ++ [c]) : EndsFirst pattern (seen ++ [c]) := by
  refine ⟨hc, ?_⟩
  intro p hp hne
  rcases prefix_concat_iff.mp hp with rfl | hp
  · nomatch hne
  · exact h p hp

/-- A stream that was searched in vain goes on at least to the first terminator. -/
theorem Absent.length_lt {block rest more : List α} (h : Absent pattern seen)
    (hblock : EndsFirst pattern block) (hstream : seen ++ more = block ++ rest) :
    seen.length < block.length := by
  apply Nat.lt_of_not_le
  intro hle
  have hprefix : block <+: seen :=
    prefix_of_prefix_length_le ⟨rest, rfl⟩ ⟨more, hstream⟩ hle
  exact h block hprefix hblock.1

/-- The first terminator of a stream is at one place. -/
theorem EndsFirst.unique {b₁ r₁ b₂ r₂ : List α} (h₁ : EndsFirst pattern b₁)
    (h₂ : EndsFirst pattern b₂) (h : b₁ ++ r₁ = b₂ ++ r₂) : b₁ = b₂ ∧ r₁ = r₂ := by
  have heq : b₁ = b₂ := by
    rcases Nat.le_total b₁.length b₂.length with hle | hle
    · have hprefix : b₁ <+: b₂ := prefix_of_prefix_length_le ⟨r₁, h⟩ ⟨r₂, rfl⟩ hle
      by_contra hne
      exact h₂.2 b₁ hprefix hne h₁.1
    · have hprefix : b₂ <+: b₁ := prefix_of_prefix_length_le ⟨r₂, rfl⟩ ⟨r₁, h⟩ hle
      by_contra hne
      exact h₁.2 b₂ hprefix (Ne.symm hne) h₂.1
  subst heq
  exact ⟨rfl, append_cancel_left h⟩

/-- A stream that contains the pattern has a first terminator. -/
theorem exists_endsFirst {stream : List α} (hne : pattern ≠ []) (h : pattern <:+: stream) :
    ∃ block rest, stream = block ++ rest ∧ EndsFirst pattern block := by
  -- search on behind a part in which the pattern is absent
  suffices hsearch : ∀ (more seen : List α), Absent pattern seen → pattern <:+: seen ++ more →
      ∃ block rest, seen ++ more = block ++ rest ∧ EndsFirst pattern block from
    hsearch stream [] (absent_nil hne) h
  intro more
  induction more with
  | nil =>
    intro seen habsent hinfix
    obtain ⟨s, t, hst⟩ := hinfix
    rw [append_nil] at hst
    exact absurd ⟨s, rfl⟩ (habsent (s ++ pattern) ⟨t, hst⟩)
  | cons c more ih =>
    intro seen habsent hinfix
    have hmove : seen ++ c :: more = seen ++ [c] ++ more := by simp
    rw [hmove] at hinfix ⊢
    by_cases hc : pattern <:+ seen ++ [c]
    · exact ⟨seen ++ [c], more, rfl, habsent.endsFirst hc⟩
    · exact ih (seen ++ [c]) (habsent.snoc hc) hinfix

/-! ### The scan -/

/-- A step function that keeps the status right; `none` says that the pattern
    is complete. -/
structure IsAutomaton (pattern : List α) (step : Nat → α → Option Nat) : Prop where
  complete : ∀ status seen c, Tracks pattern status seen →
    (step status c = none ↔ pattern <:+ seen ++ [c])
  status : ∀ status seen c status', Tracks pattern status seen → step status c = some status' →
    Tracks pattern status' (seen ++ [c])

/-- What the scan of a piece ends with. -/
inductive Scan where
  /-- The piece is used up in this status. -/
  | more (status : Nat)
  /-- The terminator ends behind this many symbols of the piece. -/
  | found (n : Nat)

/-- Scan a piece symbol by symbol; `j` counts them. -/
def scan (step : Nat → α → Option Nat) (status j : Nat) : List α → Scan
  | [] => .more status
  | c :: piece =>
      match step status c with
      | none => .found (j + 1)
      | some status => scan step status (j + 1) piece

/-- The scan of a piece behind the symbols already seen. -/
theorem scan_spec {step : Nat → α → Option Nat} (hstep : IsAutomaton pattern step) (piece : List α)
    (status j : Nat) (seen : List α) (h : Tracks pattern status seen) :
    match scan step status j piece with
    | .more status' => Tracks pattern status' (seen ++ piece)
    | .found n => ∃ m, n = j + m ∧ m ≤ piece.length ∧ EndsFirst pattern (seen ++ piece.take m) := by
  induction piece generalizing status j seen with
  | nil =>
    rw [scan, append_nil]
    exact h
  | cons c piece ih =>
    rw [scan]
    cases hc : step status c with
    | none =>
      have hends := (hstep.complete status seen c h).mp hc
      exact ⟨1, rfl, by simp, by simpa using h.absent.endsFirst hends⟩
    | some status' =>
      have hnext := ih status' (j + 1) (seen ++ [c]) (hstep.status status seen c status' h hc)
      dsimp only
      cases hscan : scan step status' (j + 1) piece with
      | more status'' =>
        rw [hscan] at hnext
        simpa using hnext
      | found n =>
        rw [hscan] at hnext
        obtain ⟨m, rfl, hle, hends⟩ := hnext
        exact ⟨m + 1, by omega, by simpa using hle, by simpa using hends⟩

end Terminator
