import Upsgi.Lib.Machine

/-! # The async loop

    `async_loop` of `core/async.c` serves many connections with a fixed number of cores.
    A core is taken from the stack of unused cores when a connection is accepted.  It is in
    the protocol table while its request is read, then in the run queue or, between two
    calls of the application, waiting for descriptors or a timer.

    A round of the loop is given by what the system and the application answer in it.  No
    engine for coroutines is loaded, so that `schedule_to_req` is `async_schedule_to_req`
    and a call of the application returns.  What a signal handler does with its core is
    left out.
-/

namespace Upsgi

/-! ### State -/

/-- The fields of a request that the loop uses.  `connected` is not a field of the source:
    the request has a connection that was not closed. -/
structure AsyncCore where
  fd : Nat := 0
  waiting_fds : List Nat := []
  /-- When the timer of the request is due. -/
  async_timeout : Option Nat := none
  async_status : Int := 0
  async_timed_out : Bool := false
  async_ready_fd : Bool := false
  async_last_ready_fd : Nat := 0
  connected : Bool := false
  deriving DecidableEq, Repr

/-- The loop with `n` cores.  The top of the stack is the head of `unused`, and
    `rb_async_timeouts` is the list of the timers in the tree. -/
structure AsyncLoop (n : Nat) where
  unused : List (Fin n)
  async_proto_fd_table : Nat → Option (Fin n)
  async_waiting_fd_table : Nat → Option (Fin n)
  rb_async_timeouts : List (Nat × Fin n)
  async_runqueue : List (Fin n)
  core : Fin n → AsyncCore

/-- The loop when it starts. -/
def asyncInit (n : Nat) : AsyncLoop n where
  unused := (List.finRange n).reverse
  async_proto_fd_table := fun _ => none
  async_waiting_fd_table := fun _ => none
  rb_async_timeouts := []
  async_runqueue := []
  core := fun _ => {}

/-! ### Inputs -/

/-- What a parser returns. -/
inductive ParserStatus where
  | complete
  | again
  | failed
  deriving DecidableEq, Repr

/-- An event of the queue. -/
inductive AsyncEvent where
  /-- On one of the signal sockets. -/
  | signal
  /-- On a listening socket, with the descriptor that `proto_accept` returns, whether the
      protocol needs no parsing, and whether the descriptor can be added to the queue. -/
  | connection (accepted : Option Nat) (do_not_add_to_async_queue added : Bool)
  /-- On another descriptor, with what a parser returns if it is called. -/
  | ready (fd : Nat) (parsed : ParserStatus)
  deriving DecidableEq, Repr

/-- What an application waits for. -/
inductive AsyncWait where
  /-- `async_add_fd_read` or `async_add_fd_write`. -/
  | fd (fd timeout : Nat)
  /-- `async_add_timeout`. -/
  | timeout (timeout : Nat)
  /-- `async_wait_fd_read2` takes its first descriptor back. -/
  | reset
  deriving DecidableEq, Repr

/-- A call of the application: what it waits for and the status it returns.  When the
    request is over, `closing` are the waits while `upsgi_close_request` sends the rest of
    the response, and `fd_closed` says that the connection was left to an offload thread. -/
structure AppCall where
  waits : List AsyncWait := []
  status : Int := 0
  closing : List AsyncWait := []
  fd_closed : Bool := false
  deriving DecidableEq, Repr

/-- A round of the loop.  `now` and `later` are the times before and after the wait for
    events, which can fail. -/
structure AsyncRound (n : Nat) where
  now : Nat
  later : Nat
  events : Option (List AsyncEvent)
  app : Fin n → AppCall

/-! ### Functions -/

variable {n : Nat}

namespace AsyncLoop

/-- Writes the fields of a core. -/
def modify (s : AsyncLoop n) (c : Fin n) (f : AsyncCore → AsyncCore) : AsyncLoop n :=
  { s with core := Function.update s.core c (f (s.core c)) }

/-- `close(fd)`, whoever had a connection there. -/
def close (s : AsyncLoop n) (fd : Nat) : AsyncLoop n :=
  { s with
    core := fun c => if (s.core c).fd = fd then { s.core c with connected := false } else s.core c }

/-- The core goes back on the stack. -/
def release (s : AsyncLoop n) (c : Fin n) : AsyncLoop n :=
  { s with unused := c :: s.unused }

def runqueue_push (s : AsyncLoop n) (c : Fin n) : AsyncLoop n :=
  if c ∈ s.async_runqueue then s else { s with async_runqueue := s.async_runqueue ++ [c] }

def runqueue_remove (s : AsyncLoop n) (c : Fin n) : AsyncLoop n :=
  { s with async_runqueue := s.async_runqueue.erase c }

/-- `upsgi_del_rb_timer`, if the request has a timer. -/
def delTimer (s : AsyncLoop n) (c : Fin n) : AsyncLoop n :=
  match (s.core c).async_timeout with
  | none => s
  | some value =>
      { s with rb_async_timeouts := s.rb_async_timeouts.erase (value, c) }.modify c
        ({ · with async_timeout := none })

def async_reset_request (s : AsyncLoop n) (c : Fin n) : AsyncLoop n :=
  let s := s.delTimer c
  { s with
      async_waiting_fd_table := fun fd =>
        if fd ∈ (s.core c).waiting_fds then none else s.async_waiting_fd_table fd }.modify c
    ({ · with waiting_fds := [] })

def async_add_timeout (s : AsyncLoop n) (now : Nat) (c : Fin n) (timeout : Nat) : AsyncLoop n :=
  let s := s.modify c ({ · with async_ready_fd := false })
  if 0 < timeout ∧ (s.core c).async_timeout = none then
    { s with rb_async_timeouts := s.rb_async_timeouts ++ [(now + timeout, c)] }.modify c
      ({ · with async_timeout := some (now + timeout) })
  else s

def wait (now : Nat) (c : Fin n) (s : AsyncLoop n) : AsyncWait → AsyncLoop n
  | .fd fd timeout =>
      let s := s.modify c (fun core => { core with waiting_fds := core.waiting_fds ++ [fd] })
      let s := if 0 < timeout then s.async_add_timeout now c timeout else s
      { s with async_waiting_fd_table := Function.update s.async_waiting_fd_table fd (some c) }
  | .timeout timeout => s.async_add_timeout now c timeout
  | .reset => s.async_reset_request c

/-- The first of the timers that are due soonest. -/
def upsgi_min_rb_timer : List (Nat × Fin n) → Option (Nat × Fin n)
  | [] => none
  | timer :: timers =>
      match upsgi_min_rb_timer timers with
      | none => some timer
      | some best => if timer.1 ≤ best.1 then some timer else some best

/-- The rounds of `async_expire_timeouts`.  When they are used up the function does not
    return: a timer that its request does not know is never deleted. -/
def expireRounds (now : Nat) : Nat → AsyncLoop n → Option (AsyncLoop n)
  | 0, _ => none
  | k + 1, s =>
      match upsgi_min_rb_timer s.rb_async_timeouts with
      | none => some s
      | some (value, c) =>
          if value ≤ now then
            let s := s.modify c ({ · with async_timed_out := true })
            expireRounds now k ((s.async_reset_request c).runqueue_push c)
          else some s

def async_expire_timeouts (now : Nat) (s : AsyncLoop n) : Option (AsyncLoop n) :=
  expireRounds now (s.rb_async_timeouts.length + 1) s

/-- A connection is accepted by the core `c`, which is no longer on the stack. -/
def wsgi_req_async_recv (socket_timeout now : Nat) (s : AsyncLoop n) (c : Fin n) (fd : Nat)
    (do_not_add_to_async_queue : Bool) : AsyncLoop n :=
  let s := s.modify c ({ · with fd := fd, connected := true })
  if do_not_add_to_async_queue then
    -- nothing to parse, the request can run
    (s.modify c ({ · with async_status := 1 })).runqueue_push c
  else
    let s := s.async_add_timeout now c socket_timeout
    { s with
        async_proto_fd_table := Function.update s.async_proto_fd_table fd (some c) }.modify c
      ({ · with async_status := 1 })

/-- An event on a descriptor of the protocol table. -/
def protoEvent (socket_timeout now : Nat) (s : AsyncLoop n) (fd : Nat) (c : Fin n)
    (parsed : ParserStatus) : AsyncLoop n :=
  let s := s.async_reset_request c
  match parsed with
  | .complete =>
      ({ s with async_proto_fd_table := Function.update s.async_proto_fd_table fd none }.modify c
        ({ · with async_status := 0 })).runqueue_push c
  | .failed =>
      ({ s with async_proto_fd_table :=
        Function.update s.async_proto_fd_table fd none }.close fd).release c
  | .again => s.async_add_timeout now c socket_timeout

/-- An event on a descriptor that the application registered. -/
def appEvent (s : AsyncLoop n) (fd : Nat) (c : Fin n) : AsyncLoop n :=
  ((s.async_reset_request c).modify c
    ({ · with async_ready_fd := true, async_last_ready_fd := fd })).runqueue_push c

/-- The body of the loop over the events.  The kernel gives no descriptor to `accept` on
    which there is an open connection. -/
def handleEvent (socket_timeout now : Nat) (s : AsyncLoop n) : AsyncEvent → Option (AsyncLoop n)
  | .signal =>
      match s.unused with
      | [] => some s
      -- nothing puts the core back
      | _ :: unused => some { s with unused := unused }
  | .connection accepted do_not_add_to_async_queue added =>
      match s.unused, accepted with
      | [], _ => some s
      | _ :: _, none => some s
      | c :: unused, some fd =>
          if ∃ c, (s.core c).connected = true ∧ (s.core c).fd = fd then none
          else if do_not_add_to_async_queue = false ∧ added = false then
            -- the core goes back on the stack, and the connection is forgotten
            some (s.modify c ({ · with fd := fd }))
          else
            some (wsgi_req_async_recv socket_timeout now { s with unused := unused } c fd
              do_not_add_to_async_queue)
  | .ready fd parsed =>
      match s.async_proto_fd_table fd with
      | some c => some (protoEvent socket_timeout now s fd c parsed)
      | none =>
          match s.async_waiting_fd_table fd with
          | some c => some (appEvent s fd c)
          | none => some (s.close fd)

/-- `upsgi_close_request`: the connection is closed and the request is cleared, whatever it
    was still waiting for. -/
def upsgi_close_request (now : Nat) (s : AsyncLoop n) (c : Fin n) (call : AppCall) : AsyncLoop n :=
  let s := call.closing.foldl (wait now c) s
  let s := if call.fd_closed then s else s.close (s.core c).fd
  s.modify c (fun _ => {})

def async_schedule_to_req (now : Nat) (s : AsyncLoop n) (c : Fin n) (call : AppCall) :
    AsyncLoop n :=
  let s := (call.waits.foldl (wait now c) s).modify c ({ · with async_status := call.status })
  if call.status ≤ 0 then
    ((s.async_reset_request c).upsgi_close_request now c call).release c
  else s

/-- One request of the run queue. -/
def runRequest (now : Nat) (app : Fin n → AppCall) (s : AsyncLoop n) (c : Fin n) : AsyncLoop n :=
  let s := s.async_schedule_to_req now c (app c)
  if (s.core c).async_status ≤ 0 ∨ (s.core c).waiting_fds ≠ [] ∨ (s.core c).async_timeout ≠ none then
    s.runqueue_remove c
  else s

/-- The timers that are due before the loop waits for events. -/
def expireFirst (now : Nat) (s : AsyncLoop n) : Option (AsyncLoop n) :=
  if s.async_runqueue = [] then s.async_expire_timeouts now else some s

/-- The timers that are due when there was no event. -/
def expireIdle (r : AsyncRound n) (s : AsyncLoop n) : Option (AsyncLoop n) :=
  if r.events = some [] then s.async_expire_timeouts r.later else some s

def runQueue (r : AsyncRound n) (s : AsyncLoop n) : AsyncLoop n :=
  s.async_runqueue.foldl (runRequest r.later r.app) s

/-- One round of `async_loop`. -/
def async_loop (socket_timeout : Nat) (s : AsyncLoop n) (r : AsyncRound n) :
    Option (AsyncLoop n) := do
  let s ← s.expireFirst r.now
  let s ← s.expireIdle r
  let s ← (r.events.getD []).foldlM (handleEvent socket_timeout r.later) s
  some (s.runQueue r)

/-- Where the loop has a core. -/
@[ext]
structure CoreFlags where
  unused : Bool
  queued : Bool
  reading : Bool
  waits : Bool
  timed : Bool
  connected : Bool
  deriving DecidableEq, Repr

def flags (s : AsyncLoop n) (c : Fin n) : CoreFlags where
  unused := decide (c ∈ s.unused)
  queued := decide (c ∈ s.async_runqueue)
  reading := decide (s.async_proto_fd_table (s.core c).fd = some c)
  waits := decide ((s.core c).waiting_fds ≠ [])
  timed := (s.core c).async_timeout.isSome
  connected := (s.core c).connected

end AsyncLoop

end Upsgi
