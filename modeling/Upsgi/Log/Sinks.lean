import Upsgi.Log.Queue

/-! # The bundled sinks

    The logger functions of `plugins/logfile`, `plugins/logsocket` and
    `plugins/rsyslog`, over system calls that always succeed: `open` and
    `socket` give a descriptor, `write` and `writev` take all bytes, `sendmsg`
    and `sendto` accept every datagram.  Log rotation and the contents of log
    files are left out.
-/

namespace Upsgi

open Framing

/-! ### Configuration -/

/-- What the rsyslog logger reads: the plugin options and the fields of its
    `struct upsgi_logger`. -/
structure Rsyslog where
  packet_size : Nat
  /-- Below 30 the precision of `%.*s` is negative and `snprintf` reads past
      the message, which has no meaning in C. -/
  packet_size_ge : 30 ≤ packet_size
  split_msg : Bool
  /-- `ul->count` as `%d` prints it, when the logger is first configured. -/
  prio : Bytes
  /-- The fifteen bytes of `ctime_r` that are printed. -/
  stamp : Bytes
  stamp_length : stamp.length = 15
  /-- `ul->data`. -/
  data : Bytes
  /-- What `errno` holds when the logger returns -1 on its own. -/
  errno : Errno

/-- The longest part of a message that is put into one packet.  With a packet
    size of 30 it is zero and the loop of the logger does not get on. -/
def Rsyslog.msg_size (r : Rsyslog) : Nat :=
  r.packet_size - 30

/-- The kinds of bundled loggers. -/
inductive SinkKind where
  | file
  | fd
  | stdio
  /-- The datagram logger with its prefix `ul->data`, if there is one. -/
  | socket (data : Option Bytes)
  | rsyslog (r : Rsyslog)

/-! ### The rsyslog logger -/

/-- The logger after a reset.  The comma before the priority was overwritten
    when the argument was first parsed and is not put back, so the second time
    the default 29 stays. -/
def Rsyslog.reparsed (r : Rsyslog) : Rsyslog :=
  { r with prio := lit "29" }

/-- The packet `snprintf` makes for a slice of the message: `%.*s` stops at a
    NUL byte. -/
def Rsyslog.packet (r : Rsyslog) (slice : Bytes) : Bytes :=
  lit "<" ++ r.prio ++ lit ">" ++ r.stamp ++ lit " " ++ r.data ++ lit ": " ++
    slice.takeWhile (· ≠ 0)

/-- A trailing newline is dropped. -/
def dropNewline (message : Bytes) : Bytes :=
  if message.getLast? = some LF then message.dropLast else message

/-- The loop over the slices of the message, from `pos` on: the slices that
    were sent, and the return value. -/
def rsyslogLoop (r : Rsyslog) (message : Bytes) : Nat → Nat → List Bytes × CallResult
  | 0, _ => ([], .hang)
  | fuel + 1, pos =>
      if message.length ≤ pos then ([], .count pos)
      else if 0 < pos ∧ r.split_msg = false then ([], .count pos)
      else
        let slice := (message.drop pos).take r.msg_size
        if (r.packet slice).length < r.packet_size then
          let (sent, ret) := rsyslogLoop r message fuel (pos + slice.length)
          (slice :: sent, ret)
        else ([], .fail r.errno)

/-- `upsgi_rsyslog_logger` on a configured logger.  A round of the loop that
    does not get on repeats for ever, so one round more than there are bytes
    decides. -/
def upsgi_rsyslog_logger (r : Rsyslog) (message : Bytes) : List Bytes × CallResult :=
  let message := dropNewline message
  rsyslogLoop r message (message.length + 1) 0

/-! ### All bundled sinks -/

/-- A call of a logger function: what it was offered, the message bytes its
    datagrams or writes carried, and what it returned. -/
structure SinkCall (L : Type) where
  logger : L
  offered : Bytes
  carried : Bytes
  returned : CallResult

/-- The state of the sinks: which loggers are configured, which have been
    reset after they were configured, and the calls so far. -/
structure SinkLog (L : Type) where
  configured : L → Bool
  reparsed : L → Bool
  calls : List (SinkCall L)

/-- No logger was called yet. -/
def SinkLog.fresh {L : Type} : SinkLog L where
  configured _ := false
  reparsed _ := false
  calls := []

variable {L : Type} [DecidableEq L]

/-- `upsgi_file_logger_reset` and the resets of the datagram loggers. -/
def SinkLog.reset (s : SinkLog L) (l : L) : SinkLog L × Bool :=
  ({ s with
     configured := fun l' => if l' = l then false else s.configured l'
     reparsed := fun l' => if l' = l then s.configured l || s.reparsed l else s.reparsed l' },
    true)

/-- A call leaves its logger configured and is noted. -/
def SinkLog.called (s : SinkLog L) (l : L) (offered carried : Bytes) (returned : CallResult) :
    SinkLog L × CallResult :=
  ({ s with
     configured := fun l' => if l' = l then true else s.configured l'
     calls := s.calls ++ [⟨l, offered, carried, returned⟩] }, returned)

/-- The kind of a logger in a state: the priority of rsyslog may have changed. -/
def SinkLog.kindOf (s : SinkLog L) (kind : L → SinkKind) (l : L) : SinkKind :=
  match kind l with
  | .rsyslog r => .rsyslog (if s.reparsed l then r.reparsed else r)
  | k => k

/-- The return value of the logger functions, and the bytes they carry. -/
def loggerCall (kind : SinkKind) (message : Bytes) : Bytes × CallResult :=
  match kind with
  | .file | .fd | .stdio => (message, .count message.length)
  | .socket data =>
      -- sendmsg counts the bytes of the prefix too
      (message, .count ((data.getD []).length + message.length))
  | .rsyslog r =>
      let (sent, returned) := upsgi_rsyslog_logger r message
      (sent.flatMap fun slice => slice.takeWhile (· ≠ 0), returned)

/-- The bundled sinks.  The stdio logger never marks itself as configured. -/
def bundledSinks (kind : L → SinkKind) : Sinks L (SinkLog L) where
  write s ul message :=
    match ul with
    | none => (s, .count message.length)
    | some l =>
        let (carried, returned) := loggerCall (s.kindOf kind l) message
        s.called l message carried returned
  writev s ul iov :=
    match ul with
    | none => (s, .count iov.flatten.length)
    | some l =>
        if s.configured l then s.called l iov.flatten iov.flatten (.count iov.flatten.length)
        else (s, .fail .EBADF)
  reset l :=
    match kind l with
    | .file | .socket _ | .rsyslog _ => some fun s => s.reset l
    | .fd | .stdio => none
  batch_writes s l :=
    match kind l with
    | .file | .fd => s.configured l
    | .stdio => true
    | .socket _ | .rsyslog _ => false
  configured s l :=
    match kind l with
    | .stdio => false
    | _ => s.configured l
  has_fd s l := s.configured l
  has_original_log_fd := true

end Upsgi
