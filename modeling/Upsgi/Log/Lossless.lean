import Upsgi.Log.Queue

/-! # The log queue loses nothing

    The pointer level of the queue is related to the list of its items, and
    the loop that consumes written bytes to a function on that list.  Over
    sinks that accept any number of the offered bytes or fail, the invariant
    of the system is that for each logger the bytes received and the bytes
    still queued or waiting are together the records submitted for it.
-/

namespace Upsgi

open Framing LinkedList List

/-! ### The queue as a list of items -/

section queue

variable {L : Type}
variable {queue : LogQueue L} {xs : List (Addr × LogItem L)}

/-- The queue holds the cells `xs`, and its counters count them. -/
structure QueueInv (queue : LogQueue L) (xs : List (Addr × LogItem L)) : Prop where
  represents : Represents queue.list xs
  depth_eq : queue.depth = xs.length
  bytes_eq : queue.bytes = (xs.map fun x => x.2.buf.length).sum

theorem queueInv_empty (records_cap bytes_cap : Nat) :
    QueueInv (LogQueue.empty records_cap bytes_cap : LogQueue L) [] :=
  ⟨represents_empty, rfl, rfl⟩

theorem QueueInv.push (h : QueueInv queue xs) (item : LogItem L) :
    QueueInv (upsgi_log_queue_push queue item) (xs ++ [(queue.list.brk, item)]) := by
  refine ⟨h.represents.push item, ?_, ?_⟩
  · simp [upsgi_log_queue_push, h.depth_eq]
  · simp [upsgi_log_queue_push, h.bytes_eq]

theorem QueueInv.pop {x : Addr × LogItem L} (h : QueueInv queue (x :: xs)) :
    QueueInv (upsgi_log_queue_pop_head_internal queue) xs := by
  obtain ⟨a, item⟩ := x
  have hfirst : queue.list.first = some item := h.represents.first_eq
  have hpop : upsgi_log_queue_pop_head_internal queue = { queue with
      list := queue.list.pop, depth := queue.depth - 1,
      bytes := queue.bytes - item.buf.length } := by
    simp only [upsgi_log_queue_pop_head_internal, hfirst]
  rw [hpop]
  refine ⟨h.represents.pop, ?_, ?_⟩
  · simp [h.depth_eq]
  · simp [h.bytes_eq]

/-- What consuming `written` bytes does to the items.  Items of length 0 that
    are reached with nothing left to consume stay. -/
def consumeItems : List (LogItem L) → Nat → List (LogItem L)
  | [], _ => []
  | item :: items, written =>
      if written = 0 then item :: items
      else if item.rest.length ≤ written then consumeItems items (written - item.rest.length)
      else { item with pos := item.pos + written } :: items

@[simp] theorem consumeItems_zero (items : List (LogItem L)) : consumeItems items 0 = items := by
  cases items <;> simp [consumeItems]

/-- A count of what is left of the head removes the head. -/
theorem consumeItems_head {item : LogItem L} (h : item.rest ≠ []) (items : List (LogItem L)) :
    consumeItems (item :: items) item.rest.length = items := by
  have hzero : item.rest.length ≠ 0 := fun hlen => h (eq_nil_of_length_eq_zero hlen)
  rw [consumeItems, if_neg hzero, if_pos le_rfl, Nat.sub_self, consumeItems_zero]

theorem consumeLoop_spec (fuel : Nat) (queue : LogQueue L) (xs : List (Addr × LogItem L))
    (written : Nat) (h : QueueInv queue xs) (hfuel : xs.length < fuel) :
    ∃ ys, QueueInv (consumeLoop fuel queue written) ys ∧
      ys.map Prod.snd = consumeItems (xs.map Prod.snd) written := by
  induction fuel generalizing queue xs written with
  | zero => omega
  | succ fuel ih =>
    unfold consumeLoop
    cases xs with
    | nil =>
      have hfirst : queue.list.first = none := h.represents.first_eq
      rw [hfirst]
      exact ⟨[], h, rfl⟩
    | cons x xs =>
      obtain ⟨a, item⟩ := x
      have hfirst : queue.list.first = some item := h.represents.first_eq
      rw [hfirst]
      simp only [map_cons, consumeItems, LogItem.rest, length_drop]
      by_cases hw : written = 0
      · -- nothing left to consume
        rw [if_pos hw, if_pos hw]
        exact ⟨(a, item) :: xs, h, rfl⟩
      rw [if_neg hw, if_neg hw]
      by_cases hr : item.buf.length - item.pos ≤ written
      · -- the whole item goes
        rw [if_pos hr, if_pos hr]
        apply ih _ xs _ h.pop
        simp only [length_cons] at hfuel
        omega
      · -- the last item that is touched keeps its end
        rw [if_neg hr, if_neg hr]
        refine ⟨(a, { item with pos := item.pos + written }) :: xs, ⟨?_, ?_, ?_⟩, rfl⟩
        · exact h.represents.modifyFirst fun item => { item with pos := item.pos + written }
        · simpa using h.depth_eq
        · simpa using h.bytes_eq

/-- The consuming loop refines `consumeItems`. -/
theorem consume_written_spec (written : Nat) (h : QueueInv queue xs) :
    ∃ ys, QueueInv (upsgi_log_queue_consume_written queue written) ys ∧
      ys.map Prod.snd = consumeItems (xs.map Prod.snd) written := by
  apply consumeLoop_spec _ _ _ _ h
  rw [h.depth_eq]
  omega

theorem only_head_push (h : ∀ x ∈ xs.tail, x.2.pos = 0) (a : Addr) (record : Record L) :
    ∀ x ∈ (xs ++ [(a, (⟨record.1, record.2, 0⟩ : LogItem L))]).tail, x.2.pos = 0 := by
  intro x hx
  cases xs with
  | nil => simp at hx
  | cons y ys =>
    simp only [cons_append, tail_cons, mem_append, mem_singleton] at hx
    rcases hx with hx | rfl
    · exact h x hx
    · rfl

/-- After consuming, only the head can have been touched. -/
theorem only_head_consume (items : List (LogItem L)) (written : Nat)
    (h : ∀ item ∈ items.tail, item.pos = 0) :
    ∀ item ∈ (consumeItems items written).tail, item.pos = 0 := by
  fun_induction consumeItems items written with
  | case1 | case2 | case4 => exact h
  | case3 item items written hw hle ih => exact ih fun it hit => h it (mem_of_mem_tail hit)

end queue

variable {L σ : Type} [DecidableEq L]

/-! ### Bytes per logger -/

/-- The queued bytes of one logger. -/
def queuedFor (l : Option L) (items : List (LogItem L)) : Bytes :=
  (items.filter fun item => item.logger = l).flatMap LogItem.rest

/-- The bytes of the records submitted for one logger. -/
def submittedFor (l : Option L) (records : List (Record L)) : Bytes :=
  (records.filter fun record => record.1 = l).flatMap Prod.snd

theorem queuedFor_append (l : Option L) (xs ys : List (LogItem L)) :
    queuedFor l (xs ++ ys) = queuedFor l xs ++ queuedFor l ys := by
  simp [queuedFor]

theorem queuedFor_cons (l : Option L) (x : LogItem L) (xs : List (LogItem L)) :
    queuedFor l (x :: xs) = (if x.logger = l then x.rest else []) ++ queuedFor l xs := by
  unfold queuedFor
  by_cases h : x.logger = l <;> simp [h]

theorem submittedFor_append (l : Option L) (xs ys : List (Record L)) :
    submittedFor l (xs ++ ys) = submittedFor l xs ++ submittedFor l ys := by
  simp [submittedFor]

/-- Consuming bytes that lie in items of one logger takes them from that logger
    and leaves the others alone. -/
theorem queuedFor_consumeItems (batch rest : List (LogItem L)) (lh l : Option L) (written : Nat)
    (hbatch : ∀ item ∈ batch, item.logger = lh)
    (hlen : written ≤ (batch.flatMap LogItem.rest).length) :
    queuedFor l (consumeItems (batch ++ rest) written) =
      if l = lh then (queuedFor l (batch ++ rest)).drop written
      else queuedFor l (batch ++ rest) := by
  induction batch generalizing written with
  | nil =>
    have hw : written = 0 := by simpa using hlen
    subst hw
    cases rest with
    | nil | cons x xs => simp
  | cons item batch ih =>
    have hlogger : item.logger = lh := hbatch item (by simp)
    have hrest : ∀ x ∈ batch, x.logger = lh := fun x hx => hbatch x (by simp [hx])
    simp only [flatMap_cons, length_append] at hlen
    have hiff : item.logger = l ↔ l = lh := by rw [hlogger, eq_comm]
    rw [cons_append, consumeItems, queuedFor_cons]
    by_cases hw : written = 0
    · rw [if_pos hw, queuedFor_cons, hw]
      simp
    rw [if_neg hw]
    by_cases hr : item.rest.length ≤ written
    · rw [if_pos hr, ih (written - item.rest.length) hrest (by omega)]
      by_cases hl : l = lh
      · rw [if_pos hl, if_pos hl, if_pos (hiff.mpr hl), drop_append, drop_eq_nil_of_le hr,
          nil_append]
      · rw [if_neg hl, if_neg hl, if_neg (mt hiff.mp hl), nil_append]
    · rw [if_neg hr, queuedFor_cons]
      have hsplit : ({ item with pos := item.pos + written } : LogItem L).rest =
          item.rest.drop written := by
        simp [LogItem.rest, Nat.add_comm]
      rw [hsplit]
      by_cases hl : l = lh
      · have hl' := hiff.mpr hl
        rw [if_pos hl, if_pos hl', if_pos hl', drop_append_of_le_length (by omega)]
      · have hl' := mt hiff.mp hl
        rw [if_neg hl, if_neg hl', if_neg hl']

/-! ### Stream sinks -/

/-- The bytes a call took from the message it was offered. -/
def CallResult.taken (r : CallResult) (msg : Bytes) : Bytes :=
  match r with
  | .count n => msg.take n
  | _ => []

/-- A call with `msg` for the logger `ul` took at most `msg`, and the logger
    received what was taken. -/
structure Accepts (received : σ → Option L → Bytes) (s : σ) (ul : Option L) (msg : Bytes)
    (s' : σ) (r : CallResult) : Prop where
  bounded : ∀ n, r = .count n → n ≤ msg.length
  received_eq : ∀ l, received s' l = received s l ++ if l = ul then r.taken msg else []

/-- Sinks with the semantics of `write` and `writev`: a call accepts some number
    of the offered bytes, from the front, or fails. -/
structure StreamSinks (ops : Sinks L σ) (received : σ → Option L → Bytes) : Prop where
  write : ∀ s ul msg, Accepts received s ul msg (ops.write s ul msg).1 (ops.write s ul msg).2
  writev : ∀ s ul iov,
    Accepts received s ul iov.flatten (ops.writev s ul iov).1 (ops.writev s ul iov).2
  reset : ∀ l reset s, ops.reset l = some reset → received (reset s).1 = received s

section stream

variable {ops : Sinks L σ} {received : σ → Option L → Bytes}
variable {s s' : σ} {ul : Option L} {msg : Bytes} {xs : List (Addr × LogItem L)}
    {sys sys' : LogSys L σ}

/-- A call that took nothing. -/
theorem accepts_fail {err : Errno}
    (h : received s' = received s) : Accepts received s ul msg s' (.fail err) := by
  refine ⟨by simp, ?_⟩
  intro l
  simp [h, CallResult.taken]

theorem Accepts.of_eq {s0 : σ} {r : CallResult} (h : Accepts received s0 ul msg s' r)
    (heq : received s0 = received s) :
    Accepts received s ul msg s' r :=
  ⟨h.bounded, by rw [← heq]; exact h.received_eq⟩

/-- A failed call delivered nothing. -/
theorem Accepts.received_of_fail {err : Errno}
    (h : Accepts received s ul msg s' (.fail err)) : received s' = received s := by
  funext l
  rw [h.received_eq l]
  simp [CallResult.taken]

section

variable (hstream : StreamSinks ops received)
include hstream

theorem prepare_batchable_received (s : σ) (ul : Option L) :
    received (upsgi_log_sink_prepare_batchable ops s ul).1 = received s := by
  unfold upsgi_log_sink_prepare_batchable
  cases ul with
  | none => rfl
  | some l =>
    dsimp only
    split
    · rfl
    · split
      · rfl
      · -- the call that configures the logger offers an empty message
        funext l'
        rw [(hstream.write s (some l) []).received_eq l']
        cases (ops.write s (some l) []).2 <;> simp [CallResult.taken]

/-- Whatever is retried, in the end at most one call took bytes. -/
theorem withRecovery_accepts {l : L} {call : σ → σ × CallResult} {ready : σ → σ × Bool}
    (hcall : ∀ s, Accepts received s (some l) msg (call s).1 (call s).2)
    (hready : ∀ s, received (ready s).1 = received s) (len : Nat) (s : σ)
    (flags : RecoveryFlags L) :
    Accepts received s (some l) msg (withRecovery ops l len call ready s flags).1
      (withRecovery ops l len call ready s flags).2.2 := by
  have hpending : received (resetIfNeeded ops l flags s) = received s := by
    unfold resetIfNeeded
    split
    · next reset _ hreset => exact hstream.reset l reset s hreset
    · rfl
  unfold withRecovery
  generalize resetIfNeeded ops l flags s = s0 at hpending
  have hfirst := (hcall s0).of_eq hpending
  generalize call s0 = out at hfirst
  obtain ⟨s1, written⟩ := out
  dsimp only at hfirst ⊢
  split
  · exact hfirst
  · split
    · next err reset hreset _ =>
      -- the first call failed: nothing was delivered so far
      have h1 := hfirst.received_of_fail
      have h2 := (hstream.reset l reset s1 hreset).trans h1
      split
      · generalize reset s1 = out at h2
        obtain ⟨s2, ok⟩ := out
        split
        · have h3 := (hready s2).trans h2
          generalize ready s2 = out at h3
          obtain ⟨s3, again⟩ := out
          split
          · exact (hcall s3).of_eq h3
          · exact accepts_fail h3
        · exact accepts_fail h2
      · exact hfirst
    · exact hfirst

theorem sink_write_accepts (s : σ) (flags : RecoveryFlags L) (ul : Option L) (msg : Bytes) :
    Accepts received s ul msg (upsgi_log_sink_write ops s flags ul msg).1
      (upsgi_log_sink_write ops s flags ul msg).2.2 := by
  cases ul with
  | none => exact hstream.write s none msg
  | some l =>
    exact withRecovery_accepts hstream (fun s => hstream.write s (some l) msg) (fun _ => rfl) _ s
      flags

theorem sink_writev_accepts (s : σ) (flags : RecoveryFlags L) (ul : Option L) (iov : List Bytes) :
    Accepts received s ul iov.flatten (upsgi_log_sink_writev ops s flags ul iov).1
      (upsgi_log_sink_writev ops s flags ul iov).2.2 := by
  unfold upsgi_log_sink_writev
  cases ul with
  | none => exact hstream.writev s none iov
  | some l =>
    have hprep := prepare_batchable_received hstream s (some l)
    dsimp only
    generalize upsgi_log_sink_prepare_batchable ops s (some l) = out at hprep
    obtain ⟨s1, batchable⟩ := out
    split
    · exact (withRecovery_accepts hstream (fun s => hstream.writev s (some l) iov)
        (fun s => prepare_batchable_received hstream s (some l)) _ s1 flags).of_eq hprep
    · exact accepts_fail hprep

end

/-- A batch is made of items at the front of the queue, of one logger and
    untouched. -/
theorem collectBatch_spec (logger : Option L) (k len : Nat) (items : List (LogItem L)) :
    ∃ rest, items = collectBatch logger k len items ++ rest ∧
      ∀ item ∈ collectBatch logger k len items, item.logger = logger ∧ item.pos = 0 := by
  induction items generalizing k len with
  | nil => exact ⟨[], rfl, by simp [collectBatch]⟩
  | cons cursor items ih =>
    unfold collectBatch
    split
    · exact ⟨cursor :: items, rfl, by simp⟩
    · next hcursor =>
      simp only [not_or, not_not] at hcursor
      split
      · exact ⟨cursor :: items, rfl, by simp⟩
      · obtain ⟨rest, heq, hall⟩ := ih (k + 1) (len + cursor.buf.length)
        refine ⟨rest, by rw [cons_append, ← heq], ?_⟩
        intro item hitem
        rcases mem_cons.mp hitem with rfl | hitem
        · exact hcursor
        · exact hall item hitem

/-- One sink call of the flush: it is offered the rests of some items at the
    front of the queue, all of one logger, and the queue is not touched. -/
theorem flushWrite_spec (hstream : StreamSinks ops received) {st : LogState L σ} {item : LogItem L}
    (hq : QueueInv st.queue xs) (hitem : (xs.map Prod.snd).head? = some item) :
    (flushWrite ops st item).1.queue = st.queue ∧
      ∃ batch rest, xs.map Prod.snd = batch ++ rest ∧ batch ≠ [] ∧
        (∀ it ∈ batch, it.logger = item.logger) ∧
        Accepts received st.sinks item.logger (batch.flatMap LogItem.rest)
          (flushWrite ops st item).1.sinks (flushWrite ops st item).2 := by
  obtain ⟨x, xs', rfl⟩ : ∃ x xs', xs = x :: xs' := by
    cases xs with
    | nil => simp at hitem
    | cons x xs' => exact ⟨x, xs', rfl⟩
  have hx : x.2 = item := by simpa using hitem
  -- the state of the sinks after the question whether a batch is possible
  have hprep : received (if item.pos = 0 then
      upsgi_log_sink_prepare_batchable ops st.sinks item.logger else (st.sinks, false)).1 =
      received st.sinks := by
    split
    · exact prepare_batchable_received hstream st.sinks item.logger
    · rfl
  unfold flushWrite
  generalize (if item.pos = 0 then
      upsgi_log_sink_prepare_batchable ops st.sinks item.logger else (st.sinks, false)) = out
    at hprep
  obtain ⟨s1, batchable⟩ := out
  dsimp only at hprep ⊢
  rw [hq.represents.walk_eq]
  generalize hbatch : (if batchable = true then collectBatch item.logger 0 0
    (((x :: xs').map Prod.snd).take UPSGI_LOG_QUEUE_BATCH_IOV_MAX) else []) = batch
  by_cases hlen : 1 < batch.length
  · -- several items: they are untouched, so their rests are their buffers
    rw [if_pos hlen]
    refine ⟨rfl, batch, ?_⟩
    cases batchable with
    | false =>
      simp [← hbatch] at hlen
    | true =>
      simp only [if_true] at hbatch
      obtain ⟨rest, heq, hall⟩ := collectBatch_spec item.logger 0 0
        (((x :: xs').map Prod.snd).take UPSGI_LOG_QUEUE_BATCH_IOV_MAX)
      rw [hbatch] at heq hall
      have hbufs : (batch.map LogItem.buf).flatten = batch.flatMap LogItem.rest := by
        congr 1
        refine map_congr_left fun it hit => ?_
        simp [LogItem.rest, (hall it hit).2]
      refine ⟨rest ++ ((x :: xs').map Prod.snd).drop UPSGI_LOG_QUEUE_BATCH_IOV_MAX, ?_, ?_, ?_, ?_⟩
      · rw [← append_assoc, ← heq, take_append_drop]
      · intro hnil
        simp [hnil] at hlen
      · intro it hit
        exact (hall it hit).1
      · rw [← hbufs]
        exact (sink_writev_accepts hstream s1 st.recovery_needed item.logger _).of_eq hprep
  · rw [if_neg hlen]
    refine ⟨rfl, [item], xs'.map Prod.snd, ?_, by simp, by simp, ?_⟩
    · simp [hx]
    · have hone : [item].flatMap LogItem.rest = item.rest := by simp
      rw [hone]
      exact (sink_write_accepts hstream s1 st.recovery_needed item.logger _).of_eq hprep

/-! ### The invariant of the system -/

/-- Records that were submitted and are not queued yet. -/
def Ctl.waiting : Ctl L → List (Record L)
  | .idle => []
  | .submitting record => [record]
  | .flushing waiting => waiting.toList
  | .consuming _ waiting => waiting.toList

/-- How many bytes at the front of the queued bytes of a logger were delivered
    and are not consumed yet. -/
def Ctl.deliveredOf (ctl : Ctl L) (items : List (LogItem L)) (l : Option L) : Nat :=
  match ctl with
  | .consuming written _ => if items.head?.map LogItem.logger = some l then written else 0
  | _ => 0

/-- The bytes of a logger that were submitted and not delivered. -/
def undelivered (ctl : Ctl L) (items : List (LogItem L)) (l : Option L) : Bytes :=
  (queuedFor l items).drop (ctl.deliveredOf items l) ++ submittedFor l ctl.waiting

/-- The invariant: `xs` are the cells of the queue. -/
structure LogInv (received : σ → Option L → Bytes) (sys : LogSys L σ)
    (xs : List (Addr × LogItem L)) : Prop where
  queue : QueueInv sys.st.queue xs
  only_head : ∀ x ∈ xs.tail, x.2.pos = 0
  balance : ∀ l, received sys.st.sinks l ++ undelivered sys.ctl (xs.map Prod.snd) l =
    submittedFor l sys.submitted
  /-- What was delivered and is not consumed lies in items of one logger. -/
  in_batch : ∀ written waiting, sys.ctl = .consuming written waiting →
    ∃ batch rest lh, xs.map Prod.snd = batch ++ rest ∧ batch ≠ [] ∧
      (∀ item ∈ batch, item.logger = lh) ∧ written ≤ (batch.flatMap LogItem.rest).length

/-- Queueing a record that is new or waiting keeps the balance. -/
theorem queuedFor_push (l : Option L) (items : List (LogItem L)) (record : Record L) :
    queuedFor l (items ++ [⟨record.1, record.2, 0⟩]) = queuedFor l items ++ submittedFor l [record] := by
  unfold queuedFor submittedFor
  by_cases h : record.1 = l <;> simp [h, LogItem.rest]

theorem submit_preserves_inv {record : Record L} (hinv : LogInv received sys xs)
    (h : logStep ops sys (.submit record) = some sys') : ∃ ys, LogInv received sys' ys := by
  unfold logStep at h
  dsimp only at h
  split at h
  · next hidle =>
    have hbal := hinv.balance
    simp only [hidle, undelivered, Ctl.deliveredOf, Ctl.waiting, drop_zero] at hbal
    split at h
    · -- longer than the byte cap: queued at once
      cases h
      refine ⟨_, hinv.queue.push ⟨record.1, record.2, 0⟩, only_head_push hinv.only_head _ record,
        ?_, nofun⟩
      intro l
      have := hbal l
      simp only [undelivered, Ctl.deliveredOf, Ctl.waiting, drop_zero, map_append,
        map_cons, map_nil, queuedFor_push, submittedFor_append, Option.toList_none,
        LogSys.push]
      rw [← this]
      simp [submittedFor]
    · cases h
      refine ⟨xs, hinv.queue, hinv.only_head, ?_, nofun⟩
      intro l
      have := hbal l
      simp only [undelivered, Ctl.deliveredOf, Ctl.waiting, drop_zero, submittedFor_append]
      rw [← this]
      simp [submittedFor]
  · cases h

theorem flush_preserves_inv (hinv : LogInv received sys xs)
    (h : logStep ops sys .flush = some sys') :
    LogInv received sys' xs := by
  unfold logStep at h
  dsimp only at h
  split at h
  · next hidle =>
    cases h
    have hbal := hinv.balance
    simp only [hidle, undelivered, Ctl.deliveredOf, Ctl.waiting] at hbal
    refine ⟨hinv.queue, hinv.only_head, ?_, nofun⟩
    simpa [undelivered, Ctl.deliveredOf, Ctl.waiting] using hbal
  · cases h

/-- A sink call moves what it took from the queued bytes to the received ones. -/
theorem write_preserves_inv (hstream : StreamSinks ops received) {item : LogItem L}
    {waiting : Option (Record L)} (hinv : LogInv received sys xs)
    (hctl : sys.ctl = .flushing waiting) (hitem : (xs.map Prod.snd).head? = some item) :
    (∀ written, (flushWrite ops sys.st item).2 = .count written →
      LogInv received
        { sys with
          st := (flushWrite ops sys.st item).1
          ctl := .consuming written waiting } xs) ∧
    ((flushWrite ops sys.st item).2 = .count 0 ∨ (∀ n, (flushWrite ops sys.st item).2 ≠ .count n) →
      LogInv received { sys with st := (flushWrite ops sys.st item).1 } xs) := by
  obtain ⟨hqueue, batch, rest, hsplit, hne, hlogger, hacc⟩ := flushWrite_spec hstream hinv.queue hitem
  have hbal := hinv.balance
  simp only [hctl, undelivered, Ctl.deliveredOf, Ctl.waiting, drop_zero] at hbal
  constructor
  · intro written hw
    rw [hw] at hacc
    have hbound := hacc.bounded written rfl
    refine ⟨by rw [hqueue]; exact hinv.queue, hinv.only_head, ?_, ?_⟩
    · intro l
      simp only [undelivered, Ctl.deliveredOf, Ctl.waiting]
      rw [hacc.received_eq l, ← hbal l, hitem]
      by_cases hl : l = item.logger
      · -- the queued bytes of this logger start with the offered ones
        have hfront : (batch.flatMap LogItem.rest) <+: queuedFor l (xs.map Prod.snd) := by
          rw [hsplit, queuedFor_append]
          refine ⟨queuedFor l rest, ?_⟩
          congr 1
          unfold queuedFor
          rw [filter_eq_self.mpr]
          intro it hit
          simp [hlogger it hit, hl]
        obtain ⟨tail, htail⟩ := hfront
        rw [if_pos hl, if_pos (by simp [hl]), ← htail]
        simp only [CallResult.taken, append_assoc, append_cancel_left_eq]
        rw [drop_append_of_le_length hbound, ← append_assoc, ← append_assoc,
          take_append_drop, append_assoc]
      · have hl' : ¬(Option.map LogItem.logger (some item) = some l) := by
          intro he
          apply hl
          simpa using he.symm
        rw [if_neg hl, if_neg hl', append_nil, drop_zero]
    · intro written' waiting' hctl'
      cases hctl'
      exact ⟨batch, rest, item.logger, hsplit, hne, hlogger, hbound⟩
  · intro hnone
    have htaken : (flushWrite ops sys.st item).2.taken (batch.flatMap LogItem.rest) = [] := by
      rcases hnone with h0 | hno
      · simp [h0, CallResult.taken]
      · generalize (flushWrite ops sys.st item).2 = r at hno
        cases r with
        | count n => exact absurd rfl (hno n)
        | fail err | hang => rfl
    refine ⟨by rw [hqueue]; exact hinv.queue, hinv.only_head, ?_, ?_⟩
    · intro l
      simp only [hctl, undelivered, Ctl.deliveredOf, Ctl.waiting, drop_zero]
      rw [hacc.received_eq l, htaken, ← hbal l]
      simp
    · intro written waiting' hctl'
      rw [hctl] at hctl'
      cases hctl'

/-- Consuming what was delivered. -/
theorem consume_preserves_inv {written : Nat} {waiting : Option (Record L)}
    (hinv : LogInv received sys xs) (hctl : sys.ctl = .consuming written waiting) :
    ∃ ys, LogInv received
      { sys with
        st := { sys.st with queue := upsgi_log_queue_consume_written sys.st.queue written }
        ctl := .flushing waiting } ys := by
  obtain ⟨ys, hys, hitems⟩ := consume_written_spec written hinv.queue
  obtain ⟨batch, rest, lh, hsplit, hne, hlogger, hbound⟩ := hinv.in_batch written waiting hctl
  have hbal := hinv.balance
  simp only [hctl, undelivered, Ctl.deliveredOf, Ctl.waiting] at hbal
  refine ⟨ys, hys, ?_, ?_, ?_⟩
  · intro x hx
    have hmem : x.2 ∈ (consumeItems (xs.map Prod.snd) written).tail := by
      rw [← hitems, ← map_tail]
      exact mem_map_of_mem hx
    apply only_head_consume (xs.map Prod.snd) written _ x.2 hmem
    intro item hitem
    rw [← map_tail] at hitem
    obtain ⟨y, hy, rfl⟩ := mem_map.mp hitem
    exact hinv.only_head y hy
  · intro l
    simp only [undelivered, Ctl.deliveredOf, Ctl.waiting, drop_zero]
    rw [← hbal l, hitems, hsplit, queuedFor_consumeItems batch rest lh l written hlogger hbound]
    have hhead : (batch ++ rest).head?.map LogItem.logger = some lh := by
      cases batch with
      | nil => nomatch hne
      | cons b bs => simp [hlogger b (by simp)]
    rw [hhead]
    by_cases hl : l = lh
    · rw [if_pos hl, if_pos (by rw [hl])]
    · have hl' : ¬(some lh = some l) := by
        intro he
        apply hl
        simpa using he.symm
      rw [if_neg hl, if_neg hl', drop_zero]
  · nofun

theorem tick_preserves_inv (hstream : StreamSinks ops received) (hinv : LogInv received sys xs)
    (h : logTick ops sys = some sys') : ∃ ys, LogInv received sys' ys := by
  have hbal := hinv.balance
  unfold logTick at h
  cases hctl : sys.ctl with
  | idle =>
    simp only [hctl] at h
    cases h
  | submitting record =>
    simp only [hctl, undelivered, Ctl.deliveredOf, Ctl.waiting, drop_zero] at h hbal
    split at h
    · cases h
      refine ⟨_, hinv.queue.push ⟨record.1, record.2, 0⟩, only_head_push hinv.only_head _ record,
        ?_, nofun⟩
      intro l
      simp only [undelivered, Ctl.deliveredOf, Ctl.waiting, drop_zero, map_append,
        map_cons, map_nil, queuedFor_push, LogSys.push]
      rw [← hbal l]
      simp [submittedFor]
    · cases h
      refine ⟨xs, hinv.queue, hinv.only_head, ?_, nofun⟩
      simpa [undelivered, Ctl.deliveredOf, Ctl.waiting] using hbal
  | flushing waiting =>
    simp only [hctl] at h
    have hfirst := hinv.queue.represents.first_eq
    split at h
    · -- the flush returns
      simp only [hctl, undelivered, Ctl.deliveredOf, Ctl.waiting, drop_zero] at hbal
      split at h
      all_goals
        cases h
        refine ⟨xs, hinv.queue, hinv.only_head, ?_, nofun⟩
        simpa [undelivered, Ctl.deliveredOf, Ctl.waiting] using hbal
    · next item hitem =>
      rw [hitem] at hfirst
      have hwrite := write_preserves_inv hstream hinv hctl hfirst.symm
      rw [hctl] at hwrite
      generalize flushWrite ops sys.st item = out at h hwrite
      obtain ⟨st, r⟩ := out
      cases r with
      | count written =>
        dsimp only at h hwrite
        split at h
        · cases h
          exact ⟨xs, hwrite.1 written rfl⟩
        · cases h
          have hzero : written = 0 := by omega
          exact ⟨xs, hwrite.2 (Or.inl (by rw [hzero]))⟩
      | fail err | hang =>
        cases h
        exact ⟨xs, hwrite.2 (Or.inr (by simp))⟩
  | consuming written waiting =>
    simp only [hctl, Option.some.injEq] at h
    subst h
    exact consume_preserves_inv hinv hctl

/-! ### Whole runs -/

theorem step_preserves_inv (hstream : StreamSinks ops received) {e : LogEvent L}
    (hinv : ∃ xs, LogInv received sys xs) (h : logStep ops sys e = some sys') :
    ∃ ys, LogInv received sys' ys := by
  obtain ⟨xs, hinv⟩ := hinv
  cases e with
  | submit record => exact submit_preserves_inv hinv h
  | flush => exact ⟨xs, flush_preserves_inv hinv h⟩
  | tick => exact tick_preserves_inv hstream hinv h

theorem reachable_inv (hstream : StreamSinks ops received) {sinks : σ} {records_cap bytes_cap : Nat}
    (hinit : ∀ l, received sinks l = [])
    (hreach : Machine.Reachable (logStep ops) (LogSys.init sinks records_cap bytes_cap) sys) :
    ∃ xs, LogInv received sys xs := by
  obtain ⟨es, hrun⟩ := hreach
  have hstart : ∃ xs, LogInv received (LogSys.init sinks records_cap bytes_cap : LogSys L σ) xs := by
    refine ⟨[], queueInv_empty _ _, by simp, ?_, ?_⟩
    · intro l
      simp [LogSys.init, hinit, undelivered, queuedFor, submittedFor, Ctl.waiting]
    · nofun
  apply Machine.run_invariant (fun sys => ∃ xs, LogInv received sys xs) (fun _ => True) _ es _ sys
    hstart (fun _ _ => trivial) hrun
  intro s e s' hs _ hstep
  exact step_preserves_inv hstream hs hstep

/-- In every reachable state, over stream sinks: each logger has received a
    prefix of what was submitted for it; what it has not received is queued in
    order, or waits to be queued; when a flush is about to return everything
    but the record of the submit that called it was received; and the counters
    and the tail pointer describe the list, in which only the head can have
    been written in part. -/
theorem log_queue_lossless (hstream : StreamSinks ops received) {sinks : σ}
    {records_cap bytes_cap : Nat} (hinit : ∀ l, received sinks l = []) {sys : LogSys L σ}
    (hreach : Machine.Reachable (logStep ops) (LogSys.init sinks records_cap bytes_cap) sys) :
    (∀ l, received sys.st.sinks l <+: submittedFor l sys.submitted) ∧
    (∀ waiting, sys.ctl = .flushing waiting → sys.st.queue.list.head = none →
      ∀ l, received sys.st.sinks l ++ submittedFor l waiting.toList =
        submittedFor l sys.submitted) ∧
    ∃ xs, Chain sys.st.queue.list.heap sys.st.queue.list.head xs ∧
      sys.st.queue.list.tail = (xs.map Prod.fst).getLast? ∧
      sys.st.queue.depth = xs.length ∧
      sys.st.queue.bytes = (xs.map fun x => x.2.buf.length).sum ∧
      (∀ x ∈ xs.tail, x.2.pos = 0) ∧
      ∀ l, received sys.st.sinks l ++ undelivered sys.ctl (xs.map Prod.snd) l =
        submittedFor l sys.submitted := by
  obtain ⟨xs, hinv⟩ := reachable_inv hstream hinit hreach
  refine ⟨?_, ?_, ?_⟩
  · intro l
    exact ⟨_, hinv.balance l⟩
  · intro waiting hctl hnone l
    have hnil := hinv.queue.represents.head_eq_none.mp hnone
    have := hinv.balance l
    rwa [hctl, hnil] at this
  · exact ⟨xs, hinv.queue.represents.chain, hinv.queue.represents.tail_eq, hinv.queue.depth_eq,
      hinv.queue.bytes_eq, hinv.only_head, hinv.balance⟩

end stream

/-- Descriptors that take at most three bytes a call; the state is what was
    received. -/
def slowSinks : Sinks Bool (Option Bool → Bytes) where
  write s ul msg :=
    (fun l => s l ++ if l = ul then msg.take 3 else [], .count (min 3 msg.length))
  writev s ul iov :=
    (fun l => s l ++ if l = ul then iov.flatten.take 3 else [], .count (min 3 iov.flatten.length))
  reset _ := none
  batch_writes _ _ := true
  configured _ _ := true
  has_fd _ _ := true
  has_original_log_fd := true

theorem slowSinks_stream : StreamSinks slowSinks (fun s => s) := by
  -- both calls accept three bytes of the message
  have haccepts : ∀ (s : Option Bool → Bytes) ul msg, Accepts (fun s => s) s ul msg
      (fun l => s l ++ if l = ul then msg.take 3 else []) (.count (min 3 msg.length)) := by
    intro s ul msg
    refine ⟨?_, ?_⟩
    · intro n hn
      cases hn
      omega
    · intro l
      rw [CallResult.taken, ← take_eq_take_min]
  exact ⟨haccepts, fun s ul iov => haccepts s ul iov.flatten, nofun⟩

/-- Two records of one logger and one of another, flushed in part. -/
def slowRun : List (LogEvent Bool) :=
  [.submit (some true, lit "hello"), .tick, .submit (some true, lit "you"), .tick,
    .submit (none, lit "x"), .tick, .flush, .tick, .tick, .tick, .tick]

theorem log_queue_lossless_slow :
    ∃ sys, Machine.run (logStep slowSinks) (LogSys.init (fun _ => []) 8 4096) slowRun = some sys ∧
      ∀ l, sys.st.sinks l <+: submittedFor l sys.submitted := by
  obtain ⟨sys, hrun⟩ := Option.isSome_iff_exists.mp (by decide +kernel :
    (Machine.run (logStep slowSinks) (LogSys.init (fun _ => []) 8 4096) slowRun).isSome = true)
  exact ⟨sys, hrun, (log_queue_lossless slowSinks_stream (fun _ => rfl) ⟨slowRun, hrun⟩).1⟩

end Upsgi
