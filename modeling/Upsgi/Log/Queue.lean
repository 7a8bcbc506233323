import Upsgi.Core.Strings
import Upsgi.Lib.LinkedList
import Upsgi.Lib.Machine

/-! # The log queue

    The queue of `core/logging.c` between the code that logs and the sinks:
    `upsgi_log_queue_submit` copies a record into a linked list,
    `upsgi_log_queue_flush_blocking` hands the records to their sinks, several
    at once when the sink is a plain file descriptor.

    A logger is an element of a type `L`; `none` is the null logger, whose
    records go to `upsgi.original_log_fd`.  What the sinks do is a parameter:
    a state of any type and the functions of `Sinks` on it.  The counters in
    shared memory are left out, no function here reads them.
-/

namespace Upsgi

open Framing

/-! ### Sinks -/

/-- The error numbers `upsgi_log_sink_should_recover` tells apart. -/
inductive Errno where
  | EBADF
  | EPIPE
  | ECONNRESET
  | ECONNREFUSED
  | ENOTCONN
  | ENOENT
  | ENXIO
  | ECONNABORTED
  | ENOTSUP
  | other
  deriving DecidableEq, Repr

section recover

open Errno

def upsgi_log_sink_should_recover : Errno → Bool
  | EBADF | EPIPE | ECONNRESET | ECONNREFUSED | ENOTCONN | ENOENT | ENXIO | ECONNABORTED => true
  | ENOTSUP | other => false

end recover

/-- What a call of a sink function gives. -/
inductive CallResult where
  /-- A return value that is not negative. -/
  | count (n : Nat)
  /-- The return value -1, with `errno`. -/
  | fail (err : Errno)
  /-- The function does not return. -/
  | hang
  deriving DecidableEq, Repr

/-- The functions behind `struct upsgi_logger`, over a state `σ` of all sinks.
    For the null logger they are `write` and `writev` on the original log
    descriptor. -/
structure Sinks (L σ : Type) where
  /-- `ul->func`. -/
  write : σ → Option L → Bytes → σ × CallResult
  /-- `writev` on the descriptor of the logger. -/
  writev : σ → Option L → List Bytes → σ × CallResult
  /-- `ul->reset`; the flag says that it returned 0. -/
  reset : L → Option (σ → σ × Bool)
  batch_writes : σ → L → Bool
  configured : σ → L → Bool
  /-- `ul->fd >= 0`. -/
  has_fd : σ → L → Bool
  /-- `upsgi.original_log_fd >= 0`. -/
  has_original_log_fd : Bool

/-- The flags `recovery_needed` of the loggers. -/
abbrev RecoveryFlags (L : Type) : Type := L → Bool

variable {L σ : Type} [DecidableEq L]

/-- Set one flag. -/
def RecoveryFlags.set (flags : RecoveryFlags L) (l : L) (b : Bool) : RecoveryFlags L :=
  fun l' => if l' = l then b else flags l'

/-- A reset that an earlier failure left pending. -/
def resetIfNeeded (ops : Sinks L σ) (l : L) (flags : RecoveryFlags L) (s : σ) : σ :=
  match flags l, ops.reset l with
  | true, some reset => (reset s).1
  | _, _ => s

/-- The part that `upsgi_log_sink_write` and `upsgi_log_sink_writev` share: a
    pending recovery is tried first; when the call fails with an error that
    recovery may cure, the sink is reset and the call made once more, provided
    `ready` still allows it. -/
def withRecovery (ops : Sinks L σ) (l : L) (len : Nat) (call : σ → σ × CallResult)
    (ready : σ → σ × Bool) (s : σ) (flags : RecoveryFlags L) :
    σ × RecoveryFlags L × CallResult :=
  let (s, written) := call (resetIfNeeded ops l flags s)
  if written = .count len then (s, flags.set l false, written)
  else
    match written, ops.reset l with
    | .fail err, some reset =>
        if upsgi_log_sink_should_recover err then
          let flags := flags.set l true
          let (s, ok) := reset s
          if ok then
            let (s, again) := ready s
            if again then
              let (s, written) := call s
              (s, if written = .count len then flags.set l false else flags, written)
            else (s, flags, .fail err)
          else (s, flags, .fail err)
        else (s, flags, written)
    | _, _ => (s, flags, written)

def upsgi_log_sink_write (ops : Sinks L σ) (s : σ) (flags : RecoveryFlags L) (ul : Option L)
    (msg : Bytes) : σ × RecoveryFlags L × CallResult :=
  match ul with
  | none =>
      let (s, written) := ops.write s none msg
      (s, flags, written)
  | some l =>
      withRecovery ops l msg.length (fun s => ops.write s (some l) msg) (fun s => (s, true)) s flags

/-- `upsgi_log_sink_prepare_batchable`: a logger that is not configured yet is
    called with an empty message, which makes it open its descriptor. -/
def upsgi_log_sink_prepare_batchable (ops : Sinks L σ) (s : σ) (ul : Option L) : σ × Bool :=
  match ul with
  | none => (s, ops.has_original_log_fd)
  | some l =>
      if ops.batch_writes s l && ops.configured s l && ops.has_fd s l then (s, true)
      else if ops.configured s l then (s, false)
      else
        let s := (ops.write s (some l) []).1
        (s, ops.batch_writes s l && ops.configured s l && ops.has_fd s l)

def upsgi_log_sink_writev (ops : Sinks L σ) (s : σ) (flags : RecoveryFlags L) (ul : Option L)
    (iov : List Bytes) : σ × RecoveryFlags L × CallResult :=
  match ul with
  | none =>
      let (s, written) := ops.writev s none iov
      (s, flags, written)
  | some l =>
      let (s, batchable) := upsgi_log_sink_prepare_batchable ops s (some l)
      if batchable then
        withRecovery ops l iov.flatten.length (fun s => ops.writev s (some l) iov)
          (fun s => upsgi_log_sink_prepare_batchable ops s (some l)) s flags
      else (s, flags, .fail .ENOTSUP)

/-! ### The queue -/

/-- `struct upsgi_log_queue_item`; `len` is the length of `buf`. -/
structure LogItem (L : Type) where
  logger : Option L
  buf : Bytes
  pos : Nat := 0
  deriving DecidableEq, Repr

/-- What is left to write. -/
def LogItem.rest (item : LogItem L) : Bytes :=
  item.buf.drop item.pos

/-- `struct upsgi_log_queue`. -/
structure LogQueue (L : Type) where
  list : LinkedList.Queue (LogItem L)
  depth : Nat
  bytes : Nat
  records_cap : Nat
  bytes_cap : Nat

/-- An empty queue with its caps. -/
def LogQueue.empty (records_cap bytes_cap : Nat) : LogQueue L where
  list := LinkedList.Queue.empty
  depth := 0
  bytes := 0
  records_cap := records_cap
  bytes_cap := bytes_cap

def upsgi_log_queue_has_room (queue : LogQueue L) (len : Nat) : Bool :=
  if queue.records_cap ≤ queue.depth then false
  else if queue.bytes_cap < queue.bytes + len then false
  else true

def upsgi_log_queue_push (queue : LogQueue L) (item : LogItem L) : LogQueue L :=
  { queue with
    list := queue.list.push item
    depth := queue.depth + 1
    bytes := queue.bytes + item.buf.length }

/-- `upsgi_log_queue_pop_head_internal`; the subtractions stop at zero. -/
def upsgi_log_queue_pop_head_internal (queue : LogQueue L) : LogQueue L :=
  match queue.list.first with
  | none => queue
  | some item =>
      { queue with
        list := queue.list.pop
        depth := queue.depth - 1
        bytes := queue.bytes - item.buf.length }

/-- The loop of `upsgi_log_queue_consume_written`.  Every round but the last
    takes an item off the queue, so its depth bounds the rounds. -/
def consumeLoop : Nat → LogQueue L → Nat → LogQueue L
  | 0, queue, _ => queue
  | fuel + 1, queue, written =>
      match queue.list.first with
      | none => queue
      | some item =>
          if written = 0 then queue
          else
            let remaining := item.buf.length - item.pos
            if remaining ≤ written then
              consumeLoop fuel (upsgi_log_queue_pop_head_internal queue) (written - remaining)
            else
              { queue with
                list := queue.list.modifyFirst fun item => { item with pos := item.pos + written } }

def upsgi_log_queue_consume_written (queue : LogQueue L) (written : Nat) : LogQueue L :=
  consumeLoop (queue.depth + 1) queue written

/-! ### Flushing -/

def UPSGI_LOG_QUEUE_BATCH_IOV_MAX : Nat := 16

def UPSGI_LOG_QUEUE_BATCH_BYTES_MAX : Nat := 65536

/-- The loop that collects a batch from the items `cursor` walks over. -/
def collectBatch (logger : Option L) : Nat → Nat → List (LogItem L) → List (LogItem L)
  | _, _, [] => []
  | batch_items, batch_len, cursor :: items =>
      if cursor.logger ≠ logger ∨ cursor.pos ≠ 0 then []
      else if 0 < batch_items ∧ UPSGI_LOG_QUEUE_BATCH_BYTES_MAX < batch_len + cursor.buf.length then
        []
      else
        cursor :: collectBatch logger (batch_items + 1) (batch_len + cursor.buf.length) items

/-- The state of the logging system. -/
structure LogState (L σ : Type) where
  sinks : σ
  recovery_needed : RecoveryFlags L
  queue : LogQueue L

/-- The sink call of one round of `upsgi_log_queue_flush_blocking`: several
    items at once with `writev`, or the rest of the first one. -/
def flushWrite (ops : Sinks L σ) (st : LogState L σ) (item : LogItem L) :
    LogState L σ × CallResult :=
  let (sinks, batchable) :=
    if item.pos = 0 then upsgi_log_sink_prepare_batchable ops st.sinks item.logger
    else (st.sinks, false)
  let batch :=
    if batchable then
      collectBatch item.logger 0 0
        (LinkedList.walk st.queue.list.heap UPSGI_LOG_QUEUE_BATCH_IOV_MAX st.queue.list.head)
    else []
  let (sinks, flags, written) :=
    if 1 < batch.length then
      upsgi_log_sink_writev ops sinks st.recovery_needed item.logger (batch.map LogItem.buf)
    else upsgi_log_sink_write ops sinks st.recovery_needed item.logger item.rest
  ({ st with sinks := sinks, recovery_needed := flags }, written)

/-- One round of the loop of `upsgi_log_queue_flush_blocking`.  Nothing is
    consumed when the sink reports 0 or an error: the round only sleeps. -/
def flushRound (ops : Sinks L σ) (st : LogState L σ) : LogState L σ :=
  match st.queue.list.first with
  | none => st
  | some item =>
      match flushWrite ops st item with
      | (st, .count written) =>
          if 0 < written then
            { st with queue := upsgi_log_queue_consume_written st.queue written }
          else st
      | (st, _) => st

/-- The loop condition of `upsgi_log_queue_flush_blocking` fails. -/
def flushDone (st : LogState L σ) : Prop :=
  st.queue.list.head = none

/-! ### The system -/

/-- A record that is being submitted. -/
abbrev Record (L : Type) : Type := Option L × Bytes

/-- Where the code stands.  A flush may have been called by a submit that still
    has to queue its record. -/
inductive Ctl (L : Type) where
  | idle
  /-- The loop of `upsgi_log_queue_submit` that waits for room. -/
  | submitting (record : Record L)
  /-- The loop head of `upsgi_log_queue_flush_blocking`. -/
  | flushing (waiting : Option (Record L))
  /-- A sink call returned a positive count, which is not consumed yet. -/
  | consuming (written : Nat) (waiting : Option (Record L))

/-- The logging system with its history of submitted records. -/
structure LogSys (L σ : Type) where
  st : LogState L σ
  ctl : Ctl L
  submitted : List (Record L)

inductive LogEvent (L : Type) where
  | submit (record : Record L)
  | flush
  /-- The call in progress takes its next step. -/
  | tick

def LogSys.push (sys : LogSys L σ) (record : Record L) : LogState L σ :=
  { sys.st with queue := upsgi_log_queue_push sys.st.queue ⟨record.1, record.2, 0⟩ }

/-- The next step of the call in progress. -/
def logTick (ops : Sinks L σ) (sys : LogSys L σ) : Option (LogSys L σ) :=
  match sys.ctl with
  | .idle => none
  | .submitting record =>
      if upsgi_log_queue_has_room sys.st.queue record.2.length then
        some { sys with st := sys.push record, ctl := .idle }
      else some { sys with ctl := .flushing (some record) }
  | .flushing waiting =>
      match sys.st.queue.list.first with
      | none =>
          -- the flush returns to its caller
          match waiting with
          | none => some { sys with ctl := .idle }
          | some record => some { sys with ctl := .submitting record }
      | some item =>
          match flushWrite ops sys.st item with
          | (st, .count written) =>
              if 0 < written then some { sys with st := st, ctl := .consuming written waiting }
              else some { sys with st := st }
          | (st, _) => some { sys with st := st }
  | .consuming written waiting =>
      let st := { sys.st with queue := upsgi_log_queue_consume_written sys.st.queue written }
      some { sys with st := st, ctl := .flushing waiting }

/-- The machine of `upsgi_log_queue_submit` and `upsgi_log_queue_flush_blocking`
    calls.  A record longer than the byte cap is queued at once and flushed. -/
def logStep (ops : Sinks L σ) (sys : LogSys L σ) : LogEvent L → Option (LogSys L σ)
  | .submit record =>
      match sys.ctl with
      | .idle =>
          let submitted := sys.submitted ++ [record]
          if sys.st.queue.bytes_cap < record.2.length then
            some { st := sys.push record, ctl := .flushing none, submitted := submitted }
          else some { sys with ctl := .submitting record, submitted := submitted }
      | _ => none
  | .flush =>
      match sys.ctl with
      | .idle => some { sys with ctl := .flushing none }
      | _ => none
  | .tick => logTick ops sys

/-- The system before anything was logged. -/
def LogSys.init (sinks : σ) (records_cap bytes_cap : Nat) : LogSys L σ where
  st := ⟨sinks, fun _ => false, LogQueue.empty records_cap bytes_cap⟩
  ctl := .idle
  submitted := []

end Upsgi
