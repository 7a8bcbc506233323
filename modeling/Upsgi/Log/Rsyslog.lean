import Upsgi.Log.Sinks

/-! # The loop of the rsyslog logger

    What `upsgi_rsyslog_logger` returns and sends, slice by slice.  A message
    is cut into slices of `msg_size` bytes; without `split_msg` only the first
    one is sent and the caller comes back with the rest.
-/

namespace Upsgi

open Framing List

/-! ### Packets -/

/-- The bytes of a packet besides the message: fifteen of the time and five of
    the format. -/
def Rsyslog.overhead (r : Rsyslog) : Nat :=
  r.prio.length + r.data.length + 20

/-- The slice of a message at `pos` fits into a packet. -/
def Rsyslog.Fits (r : Rsyslog) (message : Bytes) (pos : Nat) : Prop :=
  r.overhead + (((message.drop pos).take r.msg_size).takeWhile (· ≠ 0)).length < r.packet_size

theorem Rsyslog.packet_length (r : Rsyslog) (slice : Bytes) :
    (r.packet slice).length = r.overhead + (slice.takeWhile (· ≠ 0)).length := by
  have h1 : (lit "<").length = 1 := rfl
  have h2 : (lit ">").length = 1 := rfl
  have h3 : (lit " ").length = 1 := rfl
  have h4 : (lit ": ").length = 2 := rfl
  simp only [Rsyslog.packet, Rsyslog.overhead, length_append, r.stamp_length, h1, h2, h3, h4]
  omega

/-- An rsyslog logger with the default packet size and priority. -/
def defaultRsyslog : Rsyslog where
  packet_size := 1024
  packet_size_ge := by decide
  split_msg := false
  prio := lit "29"
  stamp := lit "Nov 16 10:00:00"
  stamp_length := by decide
  data := lit "host upsgi"
  errno := .other

/-! ### Rounds of the loop -/

variable {r : Rsyslog} {message : Bytes}

theorem rsyslogLoop_end {pos : Nat} (h : message.length ≤ pos) (fuel : Nat) :
    (rsyslogLoop r message (fuel + 1) pos).2 = .count pos := by
  simp [rsyslogLoop, h]

theorem rsyslogLoop_unsplit {pos : Nat} (hpos : 0 < pos) (hs : r.split_msg = false)
    (fuel : Nat) : (rsyslogLoop r message (fuel + 1) pos).2 = .count pos := by
  simp [rsyslogLoop, hpos, hs]

section

variable {pos : Nat} (h : pos < message.length) (hs : ¬(0 < pos ∧ r.split_msg = false))
include h hs

theorem rsyslogLoop_sent (hfit : r.Fits message pos) (fuel : Nat) :
    (rsyslogLoop r message (fuel + 1) pos).2 =
      (rsyslogLoop r message fuel (pos + min r.msg_size (message.length - pos))).2 := by
  have hlt : (r.packet ((message.drop pos).take r.msg_size)).length < r.packet_size := by
    rw [r.packet_length]
    exact hfit
  rw [rsyslogLoop, if_neg (by omega), if_neg hs]
  rw [if_pos hlt, length_take, length_drop]

theorem rsyslogLoop_refused (hfit : ¬r.Fits message pos) (fuel : Nat) :
    (rsyslogLoop r message (fuel + 1) pos).2 = .fail r.errno := by
  have hlt : ¬(r.packet ((message.drop pos).take r.msg_size)).length < r.packet_size := by
    rw [r.packet_length]
    exact hfit
  rw [rsyslogLoop, if_neg (by omega), if_neg hs]
  rw [if_neg hlt]

end

/-- What a returned count says when messages are split: every slice was sent. -/
theorem rsyslogLoop_split_count (hs : r.split_msg = true) {n : Nat} (fuel pos : Nat)
    (hle : pos ≤ message.length) (h : (rsyslogLoop r message fuel pos).2 = .count n) :
    n = message.length ∧ (pos < message.length → 0 < r.msg_size) ∧
      ∀ k, pos + k * r.msg_size < message.length → r.Fits message (pos + k * r.msg_size) := by
  induction fuel generalizing pos with
  | zero => simp [rsyslogLoop] at h
  | succ fuel ih =>
    by_cases hend : message.length ≤ pos
    · rw [rsyslogLoop_end hend] at h
      have hn : pos = n := CallResult.count.inj h
      refine ⟨by omega, by omega, ?_⟩
      intro k hk
      omega
    have hlt : pos < message.length := by omega
    have hsplit : ¬(0 < pos ∧ r.split_msg = false) := by simp [hs]
    by_cases hfit : r.Fits message pos
    · rw [rsyslogLoop_sent hlt hsplit hfit] at h
      obtain ⟨hn, hsize, hfits⟩ := ih _ (by omega) h
      refine ⟨hn, ?_, ?_⟩
      · intro _
        by_contra hzero
        have hz : r.msg_size = 0 := by omega
        rw [hz] at hsize
        exact absurd (hsize hlt) (by omega)
      · intro k hk
        cases k with
        | zero => simpa using hfit
        | succ k =>
          -- the slices after the first are those of the rest of the loop
          rw [Nat.succ_mul] at hk ⊢
          have hmin : min r.msg_size (message.length - pos) = r.msg_size := by
            have := Nat.zero_le (k * r.msg_size)
            omega
          rw [hmin] at hfits
          have heq : pos + (k * r.msg_size + r.msg_size) = pos + r.msg_size + k * r.msg_size := by
            omega
          rw [heq] at hk ⊢
          exact hfits k hk
    · rw [rsyslogLoop_refused hlt hsplit hfit] at h
      cases h

/-- With a message size of zero the loop does not get on. -/
theorem rsyslogLoop_stuck (hsize : r.msg_size = 0) (hne : 0 < message.length) (fuel n : Nat) :
    (rsyslogLoop r message fuel 0).2 ≠ .count n := by
  induction fuel with
  | zero => simp [rsyslogLoop]
  | succ fuel ih =>
    by_cases hfit : r.Fits message 0
    · rw [rsyslogLoop_sent hne (by simp) hfit, hsize]
      simpa using ih
    · rw [rsyslogLoop_refused hne (by simp) hfit]
      simp

/-- What a returned count says when messages are not split: the first slice was
    sent. -/
theorem rsyslogLoop_unsplit_count (hs : r.split_msg = false) {n : Nat} (fuel : Nat)
    (hne : 0 < message.length) (h : (rsyslogLoop r message fuel 0).2 = .count n) :
    0 < r.msg_size ∧ r.Fits message 0 ∧ n = min r.msg_size message.length := by
  have hsize : 0 < r.msg_size := by
    by_contra hzero
    exact rsyslogLoop_stuck (by omega) hne fuel n h
  cases fuel with
  | zero => simp [rsyslogLoop] at h
  | succ fuel =>
    by_cases hfit : r.Fits message 0
    · rw [rsyslogLoop_sent hne (by simp) hfit] at h
      cases fuel with
      | zero => simp [rsyslogLoop] at h
      | succ fuel =>
        rw [rsyslogLoop_unsplit (by omega) hs] at h
        refine ⟨hsize, hfit, ?_⟩
        simpa using (CallResult.count.inj h).symm
    · rw [rsyslogLoop_refused hne (by simp) hfit] at h
      cases h

/-- When all slices fit, the loop returns. -/
theorem rsyslogLoop_returns (hsize : 0 < r.msg_size) (fuel pos : Nat)
    (hfits : ∀ k, pos + k * r.msg_size < message.length → r.Fits message (pos + k * r.msg_size))
    (hfuel : message.length - pos < fuel) :
    ∃ n, (rsyslogLoop r message fuel pos).2 = .count n := by
  induction fuel generalizing pos with
  | zero => omega
  | succ fuel ih =>
    by_cases hend : message.length ≤ pos
    · exact ⟨pos, rsyslogLoop_end hend fuel⟩
    by_cases hs : 0 < pos ∧ r.split_msg = false
    · exact ⟨pos, rsyslogLoop_unsplit hs.1 hs.2 fuel⟩
    have hfit : r.Fits message pos := by simpa using hfits 0 (by omega)
    rw [rsyslogLoop_sent (by omega) hs hfit]
    apply ih
    · intro k hk
      have hmin : min r.msg_size (message.length - pos) = r.msg_size := by
        have := Nat.zero_le (k * r.msg_size)
        omega
      rw [hmin] at hk ⊢
      have heq : pos + r.msg_size + k * r.msg_size = pos + (k + 1) * r.msg_size := by
        rw [Nat.succ_mul]
        omega
      rw [heq] at hk ⊢
      exact hfits (k + 1) hk
    · omega

/-! ### Calls -/

/-- A record that the rsyslog logger takes as a whole, in one call or several:
    it does not end in a newline, and each slice fits into a packet. -/
structure Rsyslog.Takes (r : Rsyslog) (message : Bytes) : Prop where
  nonempty : message ≠ []
  last : message.getLast? ≠ some LF
  size : 0 < r.msg_size
  fits : ∀ k, k * r.msg_size < message.length → r.Fits message (k * r.msg_size)

theorem Rsyslog.Fits_drop (r : Rsyslog) (message : Bytes) (n pos : Nat) :
    r.Fits (message.drop n) pos ↔ r.Fits message (n + pos) := by
  simp only [Rsyslog.Fits, drop_drop]

theorem getLast?_drop_of_lt {n : Nat} (h : n < message.length) :
    (message.drop n).getLast? = message.getLast? := by
  rw [getLast?_drop, if_neg (by omega)]

/-- A call that takes something keeps the answer to whether the record is ever
    taken as a whole. -/
theorem upsgi_rsyslog_logger_count {n : Nat}
    (h : (upsgi_rsyslog_logger r message).2 = .count n) (hn : 0 < n) :
    n ≤ message.length ∧ (n = message.length → r.Takes message) ∧
      (n < message.length → (r.Takes (message.drop n) ↔ r.Takes message)) := by
  unfold upsgi_rsyslog_logger dropNewline at h
  by_cases hlast : message.getLast? = some LF
  · -- the newline is never taken
    rw [if_pos hlast] at h
    have hle : n ≤ message.dropLast.length := by
      by_cases hne : 0 < message.dropLast.length
      · cases hs : r.split_msg with
        | true => exact Nat.le_of_eq (rsyslogLoop_split_count hs _ 0 (by omega) h).1
        | false =>
          have := (rsyslogLoop_unsplit_count hs _ hne h).2.2
          omega
      · rw [rsyslogLoop_end (by omega)] at h
        have := CallResult.count.inj h
        omega
    rw [length_dropLast] at hle
    have hlt : n < message.length := by omega
    refine ⟨by omega, by omega, fun _ => ?_⟩
    constructor
    · intro ht
      exact absurd ((getLast?_drop_of_lt hlt).trans hlast) ht.last
    · intro ht
      exact absurd hlast ht.last
  · rw [if_neg hlast] at h
    have hne : 0 < message.length := by
      by_contra hzero
      rw [rsyslogLoop_end (by omega)] at h
      have := CallResult.count.inj h
      omega
    have hnil : message ≠ [] := ne_nil_of_length_pos hne
    cases hs : r.split_msg with
    | true =>
      obtain ⟨hlen, hsize, hfits⟩ := rsyslogLoop_split_count hs _ 0 (by omega) h
      refine ⟨by omega, fun _ => ⟨hnil, hlast, hsize hne, ?_⟩, by omega⟩
      intro k hk
      simpa using hfits k (by simpa using hk)
    | false =>
      obtain ⟨hsize, hfit, hlen⟩ := rsyslogLoop_unsplit_count hs _ hne h
      refine ⟨by omega, ?_, ?_⟩
      · intro hall
        refine ⟨hnil, hlast, hsize, ?_⟩
        intro k hk
        cases k with
        | zero => simpa using hfit
        | succ k =>
          rw [Nat.succ_mul] at hk
          omega
      · intro hlt
        have hn' : n = r.msg_size := by omega
        subst hn'
        constructor
        · intro ht
          refine ⟨hnil, hlast, hsize, ?_⟩
          intro k hk
          cases k with
          | zero => simpa using hfit
          | succ k =>
            rw [Nat.succ_mul] at hk ⊢
            have hk' := ht.fits k (by rw [length_drop]; omega)
            rwa [r.Fits_drop, Nat.add_comm] at hk'
        · intro ht
          refine ⟨?_, ?_, hsize, ?_⟩
          · exact ne_nil_of_length_pos (by rw [length_drop]; omega)
          · rw [getLast?_drop_of_lt hlt]
            exact hlast
          · intro k hk
            rw [length_drop] at hk
            rw [r.Fits_drop, Nat.add_comm, ← Nat.succ_mul]
            apply ht.fits
            rw [Nat.succ_mul]
            omega

/-- A record that is ever taken as a whole makes every call take something. -/
theorem Rsyslog.Takes.progress (ht : r.Takes message) :
    ∃ n, 0 < n ∧ (upsgi_rsyslog_logger r message).2 = .count n := by
  unfold upsgi_rsyslog_logger dropNewline
  rw [if_neg ht.last]
  have hne : 0 < message.length := length_pos_of_ne_nil ht.nonempty
  obtain ⟨n, hn⟩ := rsyslogLoop_returns ht.size (message.length + 1) 0
    (by simpa using ht.fits) (by omega)
  refine ⟨n, ?_, hn⟩
  have hsize := ht.size
  cases hs : r.split_msg with
  | true =>
    have := (rsyslogLoop_split_count hs _ 0 (by omega) hn).1
    omega
  | false =>
    have := (rsyslogLoop_unsplit_count hs _ hne hn).2.2
    omega

/-- The priority only counts with its length. -/
theorem Rsyslog.takes_reparsed (h : r.prio.length = 2) :
    r.reparsed.Takes message ↔ r.Takes message := by
  have hlit : (lit "29").length = 2 := rfl
  have hfits : ∀ pos, r.reparsed.Fits message pos ↔ r.Fits message pos := by
    intro pos
    simp only [Rsyslog.Fits, Rsyslog.overhead, Rsyslog.reparsed, Rsyslog.msg_size, hlit, h]
  constructor
  · intro ht
    exact ⟨ht.nonempty, ht.last, ht.size, fun k hk => (hfits _).mp (ht.fits k hk)⟩
  · intro ht
    exact ⟨ht.nonempty, ht.last, ht.size, fun k hk => (hfits _).mpr (ht.fits k hk)⟩

theorem Rsyslog.takes_of_short (hne : message ≠ [])
    (hlast : message.getLast? ≠ some LF) (hsize : 0 < r.msg_size)
    (hfit : r.overhead + min r.msg_size message.length < r.packet_size) : r.Takes message := by
  refine ⟨hne, hlast, hsize, ?_⟩
  intro k _
  have hle := ( takeWhile_prefix (fun b : UInt8 => decide (b ≠ 0))
    (l := (message.drop (k * r.msg_size)).take r.msg_size)).length_le
  rw [length_take, length_drop] at hle
  unfold Rsyslog.Fits
  omega

/-! ### One call for the whole message -/

/-- A message that one call of the logger sends completely, byte by byte. -/
structure Rsyslog.SendsWhole (r : Rsyslog) (message : Bytes) : Prop where
  nonempty : message ≠ []
  last : message.getLast? ≠ some LF
  /-- `%.*s` stops at a NUL byte. -/
  no_nul : 0 ∉ message
  size : 0 < r.msg_size
  one_call : r.split_msg = true ∨ message.length ≤ r.msg_size
  fits : r.overhead + min r.msg_size message.length < r.packet_size

theorem rsyslogLoop_whole (h : r.SendsWhole message) (fuel pos : Nat) (hle : pos ≤ message.length)
    (hone : r.split_msg = true ∨ pos = 0 ∨ pos = message.length)
    (hfuel : message.length - pos < fuel) :
    ((rsyslogLoop r message fuel pos).1.flatMap fun slice => slice.takeWhile (· ≠ 0)) =
        message.drop pos ∧
      (rsyslogLoop r message fuel pos).2 = .count message.length := by
  induction fuel generalizing pos with
  | zero => omega
  | succ fuel ih =>
    rw [rsyslogLoop]
    by_cases hend : message.length ≤ pos
    · have hpos : pos = message.length := by omega
      rw [if_pos hend, hpos, drop_length]
      exact ⟨rfl, rfl⟩
    have hsplit : ¬(0 < pos ∧ r.split_msg = false) := by
      rintro ⟨hpos, hs⟩
      rcases hone with h1 | h1 | h1
      · rw [hs] at h1
        cases h1
      · omega
      · omega
    have hnul : 0 ∉ (message.drop pos).take r.msg_size := fun hmem =>
      h.no_nul (mem_of_mem_drop (mem_of_mem_take hmem))
    have hfit : (r.packet ((message.drop pos).take r.msg_size)).length < r.packet_size := by
      have hfits := h.fits
      rw [r.packet_length, takeWhile_ne_self hnul, length_take, length_drop]
      omega
    have hsize := h.size
    rw [if_neg hend, if_neg hsplit]
    rw [if_pos hfit, length_take, length_drop]
    -- the next round starts behind the slice, or at the end
    have hnext := ih (pos + min r.msg_size (message.length - pos)) (by omega) (by
      rcases h.one_call with h1 | h1
      · exact .inl h1
      · rcases hone with h2 | h2 | h2
        · exact .inl h2
        · right; right; omega
        · omega) (by omega)
    refine ⟨?_, hnext.2⟩
    rw [flatMap_cons, hnext.1, takeWhile_ne_self hnul]
    have hmin : message.drop (pos + min r.msg_size (message.length - pos)) =
        (message.drop pos).drop r.msg_size := by
      rw [drop_drop]
      by_cases hlt : r.msg_size ≤ message.length - pos
      · rw [Nat.min_eq_left hlt]
      · rw [drop_eq_nil_of_le (by omega), drop_eq_nil_of_le (by omega)]
    rw [hmin, take_append_drop]

/-- One call carries the message and returns its length. -/
theorem loggerCall_rsyslog (h : r.SendsWhole message) :
    loggerCall (.rsyslog r) message = (message, .count message.length) := by
  have hwhole := rsyslogLoop_whole h (message.length + 1) 0 (by omega) (.inr (.inl rfl)) (by omega)
  rw [loggerCall, upsgi_rsyslog_logger, dropNewline, if_neg h.last]
  dsimp only
  rw [hwhole.1, hwhole.2, drop_zero]

end Upsgi
