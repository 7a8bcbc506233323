import Upsgi.Log.Lossless
import Upsgi.Log.Sinks

/-! # Rounds of the flush loop over the bundled sinks

    A round of `upsgi_log_queue_flush_blocking` seen on the list of queued
    items: which sink results are possible, and what they leave in the queue.
    The rules at the end turn facts about one such round into facts about the
    whole loop.
-/

namespace Upsgi

open Framing LinkedList

/-! ### The queue of a state -/

section state

variable {L σ : Type}

/-- The items in the queue of a state. -/
def LogState.items (st : LogState L σ) : List (LogItem L) :=
  walk st.queue.list.heap st.queue.depth st.queue.list.head

theorem QueueInv.items_eq {st : LogState L σ} {xs : List (Addr × LogItem L)}
    (hq : QueueInv st.queue xs) : st.items = xs.map Prod.snd := by
  unfold LogState.items
  rw [hq.represents.walk_eq, hq.depth_eq]
  apply List.take_of_length_le
  simp

/-- The bytes still to be written. -/
def remaining (items : List (LogItem L)) : Nat :=
  (items.flatMap LogItem.rest).length

theorem QueueInv.flushDone_iff {st : LogState L σ} {xs : List (Addr × LogItem L)}
    (hq : QueueInv st.queue xs) : flushDone st ↔ xs = [] :=
  hq.represents.head_eq_none

end state

variable {L σ : Type} [DecidableEq L]
variable {l : L} {kind : L → SinkKind} {st : LogState L (SinkLog L)} {xs : List (Addr × LogItem L)}

/-! ### Results of the sink calls -/

/-- Whatever recovery does, the result is that of a call of the sink. -/
theorem withRecovery_result (ops : Sinks L σ) (l : L) (len : Nat) (call : σ → σ × CallResult)
    (ready : σ → σ × Bool) (s : σ) (flags : RecoveryFlags L) :
    ∃ s', (withRecovery ops l len call ready s flags).2.2 = (call s').2 := by
  unfold withRecovery
  generalize resetIfNeeded ops l flags s = s0
  have hfirst : ∃ s', (call s0).2 = (call s').2 := ⟨s0, rfl⟩
  generalize call s0 = out at hfirst
  obtain ⟨s1, written⟩ := out
  dsimp only at hfirst ⊢
  split
  · exact hfirst
  · split
    · split
      · split
        · split
          · exact ⟨_, rfl⟩
          · exact hfirst
        · exact hfirst
      · exact hfirst
    · exact hfirst

/-- A call that takes everything is not repeated. -/
theorem withRecovery_count (ops : Sinks L σ) {len : Nat} {call : σ → σ × CallResult} {s : σ}
    {flags : RecoveryFlags L} (h : (call (resetIfNeeded ops l flags s)).2 = .count len)
    (ready : σ → σ × Bool) :
    withRecovery ops l len call ready s flags =
      ((call (resetIfNeeded ops l flags s)).1, flags.set l false, .count len) := by
  unfold withRecovery
  dsimp only
  rw [if_pos h, h]

/-- A call that fails is repeated after a reset. -/
theorem withRecovery_retry (ops : Sinks L σ) (call : σ → σ × CallResult) {ready : σ → σ × Bool}
    {s : σ} {flags : RecoveryFlags L} {reset : σ → σ × Bool} {err : Errno}
    (h : (call (resetIfNeeded ops l flags s)).2 = .fail err)
    (herr : upsgi_log_sink_should_recover err = true) (hreset : ops.reset l = some reset)
    (hok : ∀ s, (reset s).2 = true) (hready : ∀ s, (ready s).2 = true) (len : Nat) :
    ∃ s', (withRecovery ops l len call ready s flags).2.2 = (call (ready s').1).2 := by
  unfold withRecovery
  generalize call (resetIfNeeded ops l flags s) = out at h
  obtain ⟨s1, written⟩ := out
  subst h
  simp only [reduceCtorEq, if_false, hreset, herr, if_true, hok, hready]
  exact ⟨_, rfl⟩

theorem sink_write_result (ops : Sinks L σ) (s : σ) (flags : RecoveryFlags L) (ul : Option L)
    (msg : Bytes) :
    ∃ s', (upsgi_log_sink_write ops s flags ul msg).2.2 = (ops.write s' ul msg).2 := by
  cases ul with
  | none => exact ⟨s, rfl⟩
  | some l => exact withRecovery_result ops l _ _ _ s flags

/-- The loggers whose records are batched. -/
def batchable (kind : L → SinkKind) : Option L → Bool
  | none => true
  | some l =>
      match kind l with
      | .file | .fd => true
      | .stdio | .socket _ | .rsyslog _ => false

theorem prepare_batchable_bundled (kind : L → SinkKind) (s : SinkLog L) (ul : Option L) :
    (upsgi_log_sink_prepare_batchable (bundledSinks kind) s ul).2 = batchable kind ul := by
  cases ul with
  | none => rfl
  | some l =>
    unfold upsgi_log_sink_prepare_batchable batchable
    cases hk : kind l <;> cases hc : s.configured l <;>
      simp [bundledSinks, SinkLog.called, hk, hc]

/-- A logger that is batched has been configured on the way. -/
theorem prepare_batchable_configured (s : SinkLog L) (hb : batchable kind (some l) = true) :
    (upsgi_log_sink_prepare_batchable (bundledSinks kind) s (some l)).1.configured l = true := by
  unfold batchable at hb
  unfold upsgi_log_sink_prepare_batchable
  cases hk : kind l <;> cases hc : s.configured l <;>
    simp_all [bundledSinks, SinkLog.called]

theorem bundled_writev_configured (kind : L → SinkKind) {s : SinkLog L} (hc : s.configured l = true)
    (iov : List Bytes) :
    ((bundledSinks kind).writev s (some l) iov).2 = .count iov.flatten.length := by
  simp [bundledSinks, hc, SinkLog.called]

/-- A file that was reset before `writev` is opened again by the recovery. -/
theorem sink_writev_bundled {ul : Option L} (s : SinkLog L) (flags : RecoveryFlags L)
    (hb : batchable kind ul = true) (iov : List Bytes) :
    (upsgi_log_sink_writev (bundledSinks kind) s flags ul iov).2.2 =
      .count iov.flatten.length := by
  cases ul with
  | none => rfl
  | some l =>
    unfold upsgi_log_sink_writev
    have hready := prepare_batchable_bundled kind s (some l)
    have hconf := prepare_batchable_configured s hb
    dsimp only
    rw [if_pos (hready.trans hb)]
    generalize (upsgi_log_sink_prepare_batchable (bundledSinks kind) s (some l)).1 = s1 at hconf
    by_cases hc : (resetIfNeeded (bundledSinks kind) l flags s1).configured l = true
    · -- the descriptor is open
      rw [withRecovery_count _ (bundled_writev_configured kind hc iov)]
    · -- only the pending reset of a file closes it
      have hfile : (bundledSinks kind).reset l = some fun s => s.reset l := by
        cases hk : kind l <;> simp_all [bundledSinks, resetIfNeeded, batchable]
      have hfail : ((bundledSinks kind).writev (resetIfNeeded (bundledSinks kind) l flags s1)
          (some l) iov).2 = .fail .EBADF := by
        change (if (resetIfNeeded (bundledSinks kind) l flags s1).configured l = true then
          _ else (_, _) : SinkLog L × CallResult).2 = _
        rw [if_neg hc]
      have herr : upsgi_log_sink_should_recover .EBADF = true := rfl
      have hready : ∀ s, (upsgi_log_sink_prepare_batchable (bundledSinks kind) s (some l)).2 =
          true := fun s => (prepare_batchable_bundled kind s (some l)).trans hb
      obtain ⟨s', hs'⟩ := withRecovery_retry (bundledSinks kind)
        (fun s => (bundledSinks kind).writev s (some l) iov) hfail herr hfile
        (fun _ => rfl) hready iov.flatten.length
      rw [hs']
      exact bundled_writev_configured kind (prepare_batchable_configured s' hb) iov

/-! ### A round on the list of items -/

/-- What a sink result leaves of the items. -/
def advance (items : List (LogItem L)) : CallResult → List (LogItem L)
  | .count written => consumeItems items written
  | _ => items

/-- The items that would be written together with the first one. -/
def batchOf (logger : Option L) (items : List (LogItem L)) : List (LogItem L) :=
  collectBatch logger 0 0 (items.take UPSGI_LOG_QUEUE_BATCH_IOV_MAX)

/-- The bytes of a batch. -/
def batchLength (batch : List (LogItem L)) : Nat :=
  (batch.map LogItem.buf).flatten.length

/-- The sink results a round can see. -/
inductive Round (kind : L → SinkKind) : List (LogItem L) → CallResult → Prop where
  | batch (item : LogItem L) (items : List (LogItem L)) (hpos : item.pos = 0)
      (hb : batchable kind item.logger = true) :
      Round kind (item :: items) (.count (batchLength (batchOf item.logger (item :: items))))
  | single (item : LogItem L) (items : List (LogItem L)) (s : SinkLog L)
      (hone : item.pos = 0 → batchable kind item.logger = true →
        (batchOf item.logger (item :: items)).length ≤ 1) :
      Round kind (item :: items) ((bundledSinks kind).write s item.logger item.rest).2

theorem flushWrite_round (kind : L → SinkKind) {a : Addr} {item : LogItem L}
    (hq : QueueInv st.queue ((a, item) :: xs)) :
    (flushWrite (bundledSinks kind) st item).1.queue = st.queue ∧
      Round kind (item :: xs.map Prod.snd) (flushWrite (bundledSinks kind) st item).2 := by
  refine ⟨rfl, ?_⟩
  have hwalk := hq.represents.walk_eq UPSGI_LOG_QUEUE_BATCH_IOV_MAX
  unfold flushWrite
  rw [hwalk]
  by_cases hpos : item.pos = 0
  · rw [if_pos hpos]
    have hb := prepare_batchable_bundled kind st.sinks item.logger
    generalize upsgi_log_sink_prepare_batchable (bundledSinks kind) st.sinks item.logger = out at hb
    obtain ⟨s1, b⟩ := out
    dsimp only at hb ⊢
    have hsingle (hone : b = true → (batchOf item.logger (item :: xs.map Prod.snd)).length ≤ 1) :
        Round kind (item :: xs.map Prod.snd)
        (upsgi_log_sink_write (bundledSinks kind) s1 st.recovery_needed item.logger
          item.rest).2.2 := by
      obtain ⟨s', hs'⟩ := sink_write_result (bundledSinks kind) s1 st.recovery_needed item.logger
        item.rest
      rw [hs']
      exact Round.single item _ s' fun _ hbatch => hone (hb.trans hbatch)
    cases b with
    | false => exact hsingle (by simp)
    | true =>
      change Round kind _ (if 1 < (batchOf item.logger (item :: xs.map Prod.snd)).length then
        _ else _ : SinkLog L × RecoveryFlags L × CallResult).2.2
      by_cases hlen : 1 < (batchOf item.logger (item :: xs.map Prod.snd)).length
      · rw [if_pos hlen, sink_writev_bundled s1 _ hb.symm]
        exact Round.batch item _ hpos hb.symm
      · rw [if_neg hlen]
        exact hsingle fun _ => by omega
  · rw [if_neg hpos]
    obtain ⟨s', hs'⟩ := sink_write_result (bundledSinks kind) st.sinks st.recovery_needed
      item.logger item.rest
    simp only [Bool.false_eq_true, if_false, List.length_nil, Nat.not_lt_zero]
    rw [hs']
    exact Round.single item _ s' fun h => absurd h hpos

/-- The loop body refines a round on the items. -/
theorem flushRound_round (kind : L → SinkKind) (hq : QueueInv st.queue xs) (hne : xs ≠ []) :
    ∃ r ys, Round kind (xs.map Prod.snd) r ∧
      QueueInv (flushRound (bundledSinks kind) st).queue ys ∧
      ys.map Prod.snd = advance (xs.map Prod.snd) r := by
  cases xs with
  | nil => nomatch hne
  | cons x xs =>
    obtain ⟨a, item⟩ := x
    have hfirst : st.queue.list.first = some item := hq.represents.first_eq
    obtain ⟨hqueue, hround⟩ := flushWrite_round kind hq
    unfold flushRound
    rw [hfirst]
    dsimp only
    generalize flushWrite (bundledSinks kind) st item = out at hqueue hround
    obtain ⟨st1, r⟩ := out
    rw [← hqueue] at hq
    cases r with
    | count written =>
      dsimp only
      split
      · obtain ⟨ys, hys, hmap⟩ := consume_written_spec written hq
        exact ⟨_, ys, hround, hys, hmap⟩
      · next hw =>
        have hzero : written = 0 := by omega
        subst hzero
        exact ⟨_, _, hround, hq, by simp [advance]⟩
    | fail err | hang => exact ⟨_, _, hround, hq, rfl⟩

/-! ### Rules for the loop -/

/-- The flush ends when each round keeps an invariant of the items and leaves
    fewer bytes. -/
theorem flush_halts {P : List (LogItem L) → Prop}
    (hround : ∀ items r, P items → Round kind items r →
      P (advance items r) ∧ remaining (advance items r) < remaining items)
    (hq : QueueInv st.queue xs) (hP : P (xs.map Prod.snd)) :
    Loop.Halts flushDone (flushRound (bundledSinks kind)) st := by
  apply Loop.halts_of_measure (I := fun st => ∃ xs, QueueInv st.queue xs ∧ P (xs.map Prod.snd))
    (fun st => remaining st.items)
  · rintro st ⟨xs, hq, hP⟩ hnot
    rw [hq.flushDone_iff] at hnot
    obtain ⟨r, ys, hr, hys, hmap⟩ := flushRound_round kind hq hnot
    obtain ⟨hP', hlt⟩ := hround _ r hP hr
    rw [hys.items_eq, hq.items_eq, hmap]
    exact ⟨⟨ys, hys, hmap ▸ hP'⟩, hlt⟩
  · exact ⟨xs, hq, hP⟩

/-- The flush never ends when each round keeps an invariant that no empty queue
    has. -/
theorem flush_not_halts {P : List (LogItem L) → Prop} (hnil : ¬P [])
    (hround : ∀ items r, P items → Round kind items r → P (advance items r))
    (hq : QueueInv st.queue xs) (hP : P (xs.map Prod.snd)) :
    ¬Loop.Halts flushDone (flushRound (bundledSinks kind)) st := by
  apply Loop.not_halts_of_trap (I := fun st => ∃ xs, QueueInv st.queue xs ∧ P (xs.map Prod.snd))
  · rintro st ⟨xs, hq, hP⟩
    have hne : xs ≠ [] := by
      rintro rfl
      exact hnil hP
    obtain ⟨r, ys, hr, hys, hmap⟩ := flushRound_round kind hq hne
    refine ⟨fun hdone => hne (hq.flushDone_iff.mp hdone), ys, hys, ?_⟩
    rw [hmap]
    exact hround _ r hP hr
  · exact ⟨xs, hq, hP⟩

end Upsgi
