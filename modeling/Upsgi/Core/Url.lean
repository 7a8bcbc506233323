import Upsgi.Core.Strings

/-! # PATH_INFO from a raw URI

    `http_url_decode4` (`core/utils.c`) builds PATH_INFO from the path of a
    raw URI: percent decoding, removal of dot segments, stop at the first
    `#`.  It is a six-state machine over the input bytes; the state here
    carries the output written so far, `dst[0 .. new_len)`.
-/

namespace Upsgi

open Framing List

/-! ### Percent decoding -/

/-- The value of one hexadecimal digit, as `hex2num` computes it. -/
def hexDigit (c : UInt8) : Option UInt8 :=
  if 48 ≤ c ∧ c ≤ 57 then some (c &&& 0x0F)
  else if 65 ≤ c ∧ c ≤ 70 then some ((c &&& 0x0F) + 9)
  else if 97 ≤ c ∧ c ≤ 102 then some ((c &&& 0x0F) + 9)
  else none

/-- `hex2num`: two digits, or 0 when one of them is not a digit. -/
def hex2num (a b : UInt8) : UInt8 :=
  match hexDigit a, hexDigit b with
  | some x, some y => (x <<< 4) + y
  | _, _ => 0

/-! ### The state machine -/

inductive UrlStatus where
  | zero
  | percent1
  | percent2
  | slash
  | dot
  | dotdot
  deriving DecidableEq, Repr

/-- Status, the pending first digit `value[0]`, and the output so far. -/
structure UrlState where
  status : UrlStatus
  value0 : UInt8
  dst : Bytes
  deriving DecidableEq, Repr

/-- Remove the last segment together with its slash. -/
def dropSegment (dst : Bytes) : Bytes :=
  (dst.rdropWhile (· ≠ SLASH)).dropLast

/-- One byte `c` at index `i`.  `no_slash` says that the path does not start
    with a slash. -/
def http_url_decode4_step (no_slash_decode no_slash : Bool) (i : Nat) (st : UrlState)
    (c : UInt8) : UrlState :=
  match st.status with
  | .zero =>
      if c = PERCENT then { st with status := .percent1 }
      else if c = SLASH then { st with status := .slash }
      else { st with dst := st.dst ++ [c] }
  | .percent1 =>
      if c = PERCENT then { st with status := .zero, dst := st.dst ++ [PERCENT] }
      else { st with status := .percent2, value0 := c }
  | .percent2 =>
      if no_slash_decode ∧ st.value0 = 50 ∧ (c = 70 ∨ c = 102) then
        { st with status := .zero, dst := st.dst ++ [PERCENT, st.value0, c] }
      else { st with status := .zero, dst := st.dst ++ [hex2num st.value0 c] }
  | .slash =>
      if c = DOT then { st with status := .dot }
      else
        -- we could be at the first round (in non slash)
        let dst := if 0 < i ∨ no_slash = false then st.dst ++ [SLASH] else st.dst
        if c = PERCENT then { st with status := .percent1, dst := dst }
        else if c = SLASH then { st with status := .slash, dst := dst }
        else { st with status := .zero, dst := dst ++ [c] }
  | .dot =>
      if c = DOT then { st with status := .dotdot }
      else if c = SLASH then { st with status := .slash }
      else
        let dst := (if 1 < i then st.dst ++ [SLASH] else st.dst) ++ [DOT]
        if c = PERCENT then { st with status := .percent1, dst := dst }
        else { st with status := .zero, dst := dst ++ [c] }
  | .dotdot =>
      -- here we need to remove a segment
      if c = SLASH then { st with status := .slash, dst := dropSegment st.dst }
      else
        let dst := (if 2 < i then st.dst ++ [SLASH] else st.dst) ++ [DOT, DOT]
        if c = PERCENT then { st with status := .percent1, dst := dst }
        else { st with status := .zero, dst := dst ++ [c] }

/-- The loop over the input, stopped by a `#`. -/
def http_url_decode4_loop (no_slash_decode no_slash : Bool) : Nat → UrlState → Bytes → UrlState
  | _, st, [] => st
  | i, st, c :: buf =>
      if c = HASH then st
      else http_url_decode4_loop no_slash_decode no_slash (i + 1)
        (http_url_decode4_step no_slash_decode no_slash i st c) buf

/-- What the final switch makes of the output. -/
def http_url_decode4_end (st : UrlState) : Bytes :=
  match st.status with
  | .slash | .dot => st.dst ++ [SLASH]
  | .dotdot => st.dst.rdropWhile (· ≠ SLASH)
  | _ => st.dst

def http_url_decode4 (buf : Bytes) (no_slash_decode : Bool) : Bytes :=
  let no_slash : Bool := match buf with
    | [] => false
    | c :: _ => decide (c ≠ SLASH)
  let status := if no_slash then UrlStatus.slash else UrlStatus.zero
  http_url_decode4_end
    (http_url_decode4_loop no_slash_decode no_slash 0 ⟨status, 48, []⟩ buf)

/-! ### Length of the output -/

/-- How much of the first `i` input bytes the output may take up: a pending
    slash, dot or percent sign has not been written yet.  The exceptions are a
    path without a leading slash, for which the machine starts in the state
    behind one. -/
def UrlState.Bounded (i : Nat) (st : UrlState) : Prop :=
  match st.status with
  | .zero => st.dst.length ≤ i
  | .percent1 => st.dst.length + 1 ≤ i
  | .percent2 => st.dst.length + 2 ≤ i
  | .slash => st.dst.length + 1 ≤ i ∨ i = 0 ∧ st.dst.length = 0
  | .dot => st.dst.length + 2 ≤ i ∨ i = 1 ∧ st.dst.length = 0
  | .dotdot => st.dst.length + 3 ≤ i ∨ i = 2 ∧ st.dst.length = 0

theorem dropSegment_length_le (dst : Bytes) : (dropSegment dst).length ≤ dst.length := by
  unfold dropSegment
  rw [length_dropLast]
  have := ( rdropWhile_prefix (p := (· ≠ SLASH)) dst).length_le
  omega

theorem http_url_decode4_step_bounded {no_slash_decode no_slash : Bool} {i : Nat} {st : UrlState}
    (c : UInt8) (hslash : no_slash = false → 0 < i ∨ st.status ≠ .slash)
    (h : st.Bounded i) :
    (http_url_decode4_step no_slash_decode no_slash i st c).Bounded (i + 1) := by
  obtain ⟨status, value0, dst⟩ := st
  unfold http_url_decode4_step
  cases status with
  | zero | percent1 | percent2 =>
    simp only [UrlState.Bounded] at h
    dsimp only
    repeat' split
    all_goals
      simp only [UrlState.Bounded, length_append, length_cons, length_nil]
      omega
  | slash =>
    simp only [UrlState.Bounded] at h
    dsimp only
    split
    · simp only [UrlState.Bounded]; omega
    · -- the slash is written unless this is the first byte of a path without one
      have hdst : (if 0 < i ∨ no_slash = false then dst ++ [SLASH] else dst).length ≤ i := by
        split
        · next hi =>
          rw [length_append, length_singleton]
          rcases hi with hi | hi
          · omega
          · have := hslash hi
            simp only [ne_eq, not_true_eq_false, or_false] at this
            omega
        · omega
      split
      · simp only [UrlState.Bounded]; omega
      · split
        · simp only [UrlState.Bounded]; omega
        · simp only [UrlState.Bounded, length_append, length_singleton] at hdst ⊢
          omega
  | dot =>
    simp only [UrlState.Bounded] at h
    dsimp only
    split
    · simp only [UrlState.Bounded]; omega
    · split
      · simp only [UrlState.Bounded]; omega
      · have hdst : ((if 1 < i then dst ++ [SLASH] else dst) ++ [DOT]).length ≤ i := by
          split <;> simp only [length_append, length_singleton] <;> omega
        split
        · simp only [UrlState.Bounded]; omega
        · simp only [UrlState.Bounded, length_append, length_singleton] at hdst ⊢
          omega
  | dotdot =>
    simp only [UrlState.Bounded] at h
    dsimp only
    split
    · have := dropSegment_length_le dst
      simp only [UrlState.Bounded]; omega
    · have hdst : ((if 2 < i then dst ++ [SLASH] else dst) ++ [DOT, DOT]).length ≤ i := by
        split <;> simp only [length_append, length_cons, length_nil] <;> omega
      split
      · simp only [UrlState.Bounded]; omega
      · simp only [UrlState.Bounded, length_append, length_cons, length_nil] at hdst ⊢
        omega

theorem http_url_decode4_end_length {i n : Nat} {st : UrlState} (h : st.Bounded i) (hn : i ≤ n)
    (hpos : 0 < n) : (http_url_decode4_end st).length ≤ n := by
  obtain ⟨status, value0, dst⟩ := st
  have hdrop := ( rdropWhile_prefix (p := (· ≠ SLASH)) dst).length_le
  cases status <;>
    simp only [UrlState.Bounded, http_url_decode4_end, length_append,
      length_singleton] at h ⊢ <;> omega

theorem UrlState.Bounded.length_le {i : Nat} {st : UrlState} (h : st.Bounded i) :
    st.dst.length ≤ i := by
  obtain ⟨status, value0, dst⟩ := st
  cases status <;> simp only [UrlState.Bounded] at h ⊢ <;> omega

theorem http_url_decode4_loop_bounded (no_slash_decode no_slash : Bool) :
    ∀ (buf : Bytes) (i : Nat) (st : UrlState),
    (no_slash = false → 0 < i ∨ st.status ≠ .slash) → st.Bounded i →
    ∃ j ≤ i + buf.length, (http_url_decode4_loop no_slash_decode no_slash i st buf).Bounded j
  | [], i, st, _, h => ⟨i, Nat.le_add_right i _, h⟩
  | c :: buf, i, st, hslash, h => by
      unfold http_url_decode4_loop
      split
      · exact ⟨i, Nat.le_add_right i _, h⟩
      · obtain ⟨j, hj, hbounded⟩ := http_url_decode4_loop_bounded no_slash_decode no_slash buf
          (i + 1) _ (fun _ => Or.inl (Nat.succ_pos i)) (http_url_decode4_step_bounded c hslash h)
        exact ⟨j, by rw [length_cons]; omega, hbounded⟩

/-- The state of the loop of `http_url_decode4` behind the first `k` bytes. -/
def urlRead (buf : Bytes) (no_slash_decode : Bool) (k : Nat) : UrlState :=
  let no_slash : Bool := match buf with
    | [] => false
    | c :: _ => decide (c ≠ SLASH)
  http_url_decode4_loop no_slash_decode no_slash 0
    ⟨if no_slash then .slash else .zero, 48, []⟩ (buf.take k)

theorem urlRead_bounded (buf : Bytes) (no_slash_decode : Bool) (k : Nat) :
    ∃ j ≤ (buf.take k).length, (urlRead buf no_slash_decode k).Bounded j := by
  unfold urlRead
  rw [← Nat.zero_add (buf.take k).length]
  cases buf with
  | nil => exact http_url_decode4_loop_bounded _ _ _ _ _ (by simp) (Nat.le_refl 0)
  | cons c buf =>
    apply http_url_decode4_loop_bounded
    · intro hc
      simp [hc]
    · by_cases hc : c = SLASH <;> simp [hc, UrlState.Bounded]

/-- PATH_INFO is never longer than the path it is made from. -/
theorem http_url_decode4_length_le (buf : Bytes) (no_slash_decode : Bool) :
    (http_url_decode4 buf no_slash_decode).length ≤ buf.length := by
  cases buf with
  | nil => cases no_slash_decode <;> decide
  | cons c buf =>
    obtain ⟨j, hj, hbounded⟩ := urlRead_bounded (c :: buf) no_slash_decode (c :: buf).length
    unfold urlRead at hbounded
    rw [take_length] at hj hbounded
    exact http_url_decode4_end_length hbounded hj (Nat.succ_pos _)

/-- The output is never ahead of the input, so the bytes that `http_add_path_info` allocates for
    it are enough. -/
theorem http_url_decode4_behind (buf : Bytes) (no_slash_decode : Bool) :
    (http_url_decode4 buf no_slash_decode).length ≤ buf.length ∧
      ∀ k, (urlRead buf no_slash_decode k).dst.length ≤ k := by
  refine ⟨http_url_decode4_length_le buf no_slash_decode, fun k => ?_⟩
  obtain ⟨j, hj, hbounded⟩ := urlRead_bounded buf no_slash_decode k
  exact hbounded.length_le.trans (hj.trans (length_take_le k buf))

/-- Decoding a path with an encoded traversal leaves the dots in place. -/
example : http_url_decode4 (lit "/a/../b/%2e%2e/c") false = lit "/b/../c" := by decide

end Upsgi
