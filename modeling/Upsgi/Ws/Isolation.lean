import Upsgi.Ws.Reassembly

/-! # Several websockets in one process

    Every connection has its own parser, but the fragments of a message are joined in
    one buffer of the process.  A connection alone is the same process without the
    operations of the others.  It is as if it were alone as long as no call is made on
    one connection while the message of another one is incomplete.

    A connection can also end the process: the parser follows a null pointer at a
    continuation frame without a message.

    A call that waits is made again when there is more to read, so that other calls may
    come between.
-/

namespace Upsgi

open Framing (Bytes)
open WebSocket (Frame)
open List

/-! ### The process -/

/-- The request, what can be read, and what was returned so far. -/
structure WsConnection where
  req : WsRequest := {}
  reads : List WsRead := []
  results : List WsResult := []
  deriving DecidableEq, Repr

structure WsProcess (Conn : Type) where
  conns : Conn → WsConnection
  continuation : Option Bytes
  crashed : Bool

/-- What happens on a connection. -/
inductive WsEvent where
  | arrive (read : WsRead)
  | recv (nb : Bool)
  /-- The end of the request, which leaves the continuation buffer alone. -/
  | finish
  deriving DecidableEq, Repr

variable {Conn : Type} [DecidableEq Conn]

/-- The connection afterwards, the continuation buffer, and whether the process is
    gone. -/
def WsConnection.handle (websockets_max_size : UInt64) (out : WsOutside) (conn : WsConnection)
    (continuation : Option Bytes) : WsEvent → WsConnection × Option Bytes × Bool
  | .arrive read => ({ conn with reads := conn.reads ++ [read] }, continuation, false)
  | .recv nb =>
      match upsgi_websocket_recv websockets_max_size out nb conn.req continuation conn.reads with
      | (result, req, continuation, reads) =>
          (⟨req, reads, conn.results ++ [result]⟩, continuation, result == .crash)
  | .finish => ({ conn with req := { closed := true } }, continuation, false)

def processStep (websockets_max_size : UInt64) (outs : Conn → WsOutside) (s : WsProcess Conn)
    (op : Conn × WsEvent) : WsProcess Conn :=
  if s.crashed then s
  else
    match (s.conns op.1).handle websockets_max_size (outs op.1) s.continuation op.2 with
    | (conn, continuation, crashed) => ⟨Function.update s.conns op.1 conn, continuation, crashed⟩

def WsProcess.start : WsProcess Conn :=
  ⟨fun _ => {}, none, false⟩

def processRun (websockets_max_size : UInt64) (outs : Conn → WsOutside)
    (ops : List (Conn × WsEvent)) : WsProcess Conn :=
  ops.foldl (processStep websockets_max_size outs) .start

/-- The operations on one connection. -/
def opsOn (c : Conn) (ops : List (Conn × WsEvent)) : List (Conn × WsEvent) :=
  ops.filter fun op => op.1 = c

/-- The process with only one connection. -/
def alone (websockets_max_size : UInt64) (outs : Conn → WsOutside) (c : Conn)
    (ops : List (Conn × WsEvent)) : WsProcess Conn :=
  processRun websockets_max_size outs (opsOn c ops)

/-- At every receive on a connection, no other one is within a message. -/
inductive Separate (websockets_max_size : UInt64) (outs : Conn → WsOutside) :
    List (Conn × WsEvent) → Prop where
  | nil : Separate websockets_max_size outs []
  | snoc {ops : List (Conn × WsEvent)} {c : Conn} {event : WsEvent}
      (hops : Separate websockets_max_size outs ops)
      (hothers : ∀ nb, event = .recv nb →
        ∀ d, d ≠ c → (alone websockets_max_size outs d ops).continuation = none) :
      Separate websockets_max_size outs (ops ++ [(c, event)])

/-! ### Steps -/

section Steps

variable {websockets_max_size : UInt64} {outs : Conn → WsOutside}

section

variable (ops : List (Conn × WsEvent))
include ops

variable (websockets_max_size outs) in
theorem processRun_snoc (op : Conn × WsEvent) :
    processRun websockets_max_size outs (ops ++ [op]) =
      processStep websockets_max_size outs (processRun websockets_max_size outs ops) op := by
  unfold processRun
  rw [foldl_append]
  rfl

variable (websockets_max_size outs) in
theorem alone_snoc_self (c : Conn) (event : WsEvent) :
    alone websockets_max_size outs c (ops ++ [(c, event)]) =
      processStep websockets_max_size outs (alone websockets_max_size outs c ops) (c, event) := by
  have hops : opsOn c (ops ++ [(c, event)]) = opsOn c ops ++ [(c, event)] := by
    rw [opsOn, filter_append, filter_singleton, decide_eq_true rfl]
    rfl
  rw [alone, hops, processRun_snoc]
  rfl

theorem alone_snoc_other {c d : Conn} (event : WsEvent) (hne : d ≠ c) :
    alone websockets_max_size outs d (ops ++ [(c, event)]) =
      alone websockets_max_size outs d ops := by
  have hops : opsOn d (ops ++ [(c, event)]) = opsOn d ops := by
    rw [opsOn, filter_append, filter_singleton, decide_eq_false (Ne.symm hne)]
    exact append_nil _
  rw [alone, hops, alone]

end

theorem processStep_crashed {s : WsProcess Conn} (h : s.crashed = true) (op : Conn × WsEvent) :
    (processStep websockets_max_size outs s op).crashed = true := by
  rw [processStep, if_pos h]
  exact h

/-- A step while the process runs. -/
theorem processStep_running {s : WsProcess Conn} (h : s.crashed = false) (op : Conn × WsEvent) :
    processStep websockets_max_size outs s op =
      let r := (s.conns op.1).handle websockets_max_size (outs op.1) s.continuation op.2
      ⟨Function.update s.conns op.1 r.1, r.2.1, r.2.2⟩ := by
  rw [processStep, if_neg (Bool.eq_false_iff.mp h)]

/-- Only a receive looks at the continuation buffer. -/
theorem handle_quiet {out : WsOutside} {conn : WsConnection} {event : WsEvent}
    (hevent : ∀ nb, event ≠ .recv nb) (continuation continuation' : Option Bytes) :
    (conn.handle websockets_max_size out continuation event).1 =
        (conn.handle websockets_max_size out continuation' event).1 ∧
      (conn.handle websockets_max_size out continuation event).2 = (continuation, false) := by
  cases event with
  | arrive read | finish => exact ⟨rfl, rfl⟩
  | recv nb => exact absurd rfl (hevent nb)

/-! ### Runs -/

/-- Each connection is as it is alone.  If only one is within a message, the buffer is
    its own. -/
structure Agree (websockets_max_size : UInt64) (outs : Conn → WsOutside)
    (ops : List (Conn × WsEvent)) : Prop where
  running : (processRun websockets_max_size outs ops).crashed = false
  conns : ∀ c, (processRun websockets_max_size outs ops).conns c =
    (alone websockets_max_size outs c ops).conns c
  continuation : ∀ c, (∀ d, d ≠ c → (alone websockets_max_size outs d ops).continuation = none) →
    (processRun websockets_max_size outs ops).continuation =
      (alone websockets_max_size outs c ops).continuation

section Snoc

variable {ops : List (Conn × WsEvent)} {c : Conn} {event : WsEvent}

/-- The connection of the operation before it and after it, alone. -/
theorem alone_after (halone : (alone websockets_max_size outs c ops).crashed = false) :
    alone websockets_max_size outs c (ops ++ [(c, event)]) =
      let s := alone websockets_max_size outs c ops
      let r := (s.conns c).handle websockets_max_size (outs c) s.continuation event
      ⟨Function.update s.conns c r.1, r.2.1, r.2.2⟩ := by
  rw [alone_snoc_self, processStep_running halone]

/-- The same in the process with all connections, where the connection is as it is
    alone. -/
theorem run_after (hagree : Agree websockets_max_size outs ops) :
    processRun websockets_max_size outs (ops ++ [(c, event)]) =
      let s := processRun websockets_max_size outs ops
      let r := ((alone websockets_max_size outs c ops).conns c).handle websockets_max_size (outs c)
        s.continuation event
      ⟨Function.update s.conns c r.1, r.2.1, r.2.2⟩ := by
  rw [processRun_snoc, processStep_running hagree.running]
  rw [hagree.conns c]

section

variable (hagree : Agree websockets_max_size outs ops)
    (halone : (alone websockets_max_size outs c ops).crashed = false)
include hagree halone

/-- Only the connection of the operation changes, in the same way as alone. -/
theorem agree_conns
    (hsame : (((alone websockets_max_size outs c ops).conns c).handle websockets_max_size (outs c)
        (processRun websockets_max_size outs ops).continuation event).1 =
      (((alone websockets_max_size outs c ops).conns c).handle websockets_max_size (outs c)
        (alone websockets_max_size outs c ops).continuation event).1) (d : Conn) :
    (processRun websockets_max_size outs (ops ++ [(c, event)])).conns d =
      (alone websockets_max_size outs d (ops ++ [(c, event)])).conns d := by
  rw [run_after hagree]
  by_cases hd : d = c
  · rw [hd, alone_after halone]
    dsimp only
    rw [Function.update_self, Function.update_self, hsame]
  · rw [alone_snoc_other ops event hd]
    dsimp only
    rw [Function.update_of_ne hd, hagree.conns d]

theorem agree_quiet
    (hevent : ∀ nb, event ≠ .recv nb) : Agree websockets_max_size outs (ops ++ [(c, event)]) := by
  have hafter := fun continuation continuation' =>
    @handle_quiet websockets_max_size (outs c) ((alone websockets_max_size outs c ops).conns c) event
      hevent continuation continuation'
  -- No continuation buffer changes, neither the shared one nor one of a connection alone.
  have hkept : ∀ d, (alone websockets_max_size outs d (ops ++ [(c, event)])).continuation =
      (alone websockets_max_size outs d ops).continuation := by
    intro d
    by_cases hd : d = c
    · rw [hd, alone_after halone]
      dsimp only
      rw [(hafter _ none).2]
    · rw [alone_snoc_other ops event hd]
  refine ⟨?_, agree_conns hagree halone (hafter _ _).1, fun e hothers => ?_⟩
  · rw [run_after hagree]
    dsimp only
    rw [(hafter _ none).2]
  · rw [hkept, ← hagree.continuation e fun d hd => (hkept d).symm.trans (hothers d hd),
      run_after hagree]
    dsimp only
    rw [(hafter _ none).2]

end

theorem agree_recv {nb : Bool} (hagree : Agree websockets_max_size outs ops)
    (halone : (alone websockets_max_size outs c ops).crashed = false)
    (hafter : (alone websockets_max_size outs c (ops ++ [(c, .recv nb)])).crashed = false)
    (hothers : ∀ d, d ≠ c → (alone websockets_max_size outs d ops).continuation = none) :
    Agree websockets_max_size outs (ops ++ [(c, .recv nb)]) := by
  -- The shared buffer is the one of this connection.
  have hshared := hagree.continuation c hothers
  have hrun := @run_after _ _ _ _ _ c (.recv nb) hagree
  dsimp only at hrun
  rw [hshared] at hrun
  rw [alone_after halone] at hafter
  refine ⟨?_, agree_conns hagree halone (by rw [hshared]), fun e hnone => ?_⟩
  · rw [hrun]
    exact hafter
  · rw [hrun]
    by_cases he : e = c
    · rw [he, alone_after halone]
    -- nothing is left in the buffer, and the other connection has nothing in its own
    · have hc := hnone c (Ne.symm he)
      rw [alone_after halone] at hc
      rw [alone_snoc_other ops _ he, hothers e he]
      exact hc

end Snoc

/-- The process does not come back. -/
theorem alone_running {ops : List (Conn × WsEvent)} {c d : Conn} {event : WsEvent}
    (h : (alone websockets_max_size outs d (ops ++ [(c, event)])).crashed = false) :
    (alone websockets_max_size outs d ops).crashed = false := by
  by_cases hd : d = c
  · rw [hd] at h ⊢
    rw [alone_snoc_self] at h
    refine Bool.eq_false_of_not_eq_true fun hcrashed => ?_
    rw [processStep_crashed hcrashed] at h
    exact Bool.noConfusion h
  · rwa [alone_snoc_other ops event hd] at h

theorem Separate.agree {ops : List (Conn × WsEvent)} (h : Separate websockets_max_size outs ops)
    (hcrash : ∀ c, (alone websockets_max_size outs c ops).crashed = false) :
    Agree websockets_max_size outs ops := by
  -- only a receive needs the condition; the other events leave the buffer alone
  induction h with
  | nil => exact ⟨rfl, fun _ => rfl, fun _ _ => rfl⟩
  | @snoc ops c event hops hothers ih =>
    have hagree := ih fun d => alone_running (hcrash d)
    have halone := alone_running (hcrash c)
    cases event with
    | arrive read | finish => exact agree_quiet hagree halone nofun
    | recv nb => exact agree_recv hagree halone (hcrash c) (hothers nb rfl)

/-- A connection alone depends only on what is outside of it. -/
theorem alone_congr {outs' : Conn → WsOutside} {c : Conn} (h : outs' c = outs c)
    (ops : List (Conn × WsEvent)) :
    alone websockets_max_size outs' c ops = alone websockets_max_size outs c ops := by
  refine foldl_ext _ _ _ fun s op hop => ?_
  have hc : op.1 = c := of_decide_eq_true (mem_filter.mp hop).2
  unfold processStep
  rw [hc, h]

end Steps

/-! ### Sizes -/

/-- Every connection is closed or within its sizes, as long as the process runs. -/
def SizesKept (limit : Nat) (s : WsProcess Conn) : Prop :=
  s.crashed = true ∨ ∀ c, (s.conns c).req.closed = true ∨ (s.conns c).req.Sized limit

theorem SizesKept.step {websockets_max_size : UInt64} {outs : Conn → WsOutside}
    {s : WsProcess Conn} (h : SizesKept (wsLimit websockets_max_size) s) (op : Conn × WsEvent) :
    SizesKept (wsLimit websockets_max_size) (processStep websockets_max_size outs s op) := by
  obtain ⟨c, event⟩ := op
  by_cases hs : s.crashed = true
  · rwa [processStep, if_pos hs]
  have hconns := h.resolve_left hs
  rw [processStep_running (Bool.eq_false_iff.mpr hs)]
  -- the other connections stay as they are
  have hupdate : ∀ conn : WsConnection,
      conn.req.closed = true ∨ conn.req.Sized (wsLimit websockets_max_size) →
      ∀ d, (Function.update s.conns c conn d).req.closed = true ∨
        (Function.update s.conns c conn d).req.Sized (wsLimit websockets_max_size) := by
    intro conn hconn d
    by_cases hd : d = c
    · subst hd
      rwa [Function.update_self]
    · rw [Function.update_of_ne hd]
      exact hconns d
  cases event with
  | arrive read => exact .inr (hupdate _ (hconns c))
  | recv nb =>
    have hrecv := @websocket_recv_sized _ (outs c) _ s.continuation nb (s.conns c).reads (hconns c)
    rcases hrecv with hcrash | hconn
    · exact .inl (beq_iff_eq.mpr hcrash)
    · exact .inr (hupdate _ hconn)
  | finish => exact .inr (hupdate _ (.inl rfl))

/-- Whatever bytes arrive on the connections and however the calls mix: on each one that is
    still open the parser is within its sizes, and what it needs fits in a `size_t`. -/
theorem processRun_sized (websockets_max_size : UInt64) (outs : Conn → WsOutside)
    (ops : List (Conn × WsEvent)) (c : Conn) :
    let s := processRun websockets_max_size outs ops
    s.crashed = true ∨ (s.conns c).req.closed = true ∨
      (s.conns c).req.Sized (wsLimit websockets_max_size) ∧ (s.conns c).req.need < 2 ^ 64 := by
  have hrun : SizesKept (wsLimit websockets_max_size) (processRun websockets_max_size outs ops) :=
    List.foldlRecOn ops _ (.inr fun _ => .inr (.header rfl rfl)) fun _ h op _ => h.step op
  exact hrun.imp id fun h => (h c).imp id fun hsized => ⟨hsized, hsized.need_lt⟩

/-! ### Clients that do not end the process -/

/-- What arrives. -/
def arrivals (ops : List (Conn × WsEvent)) : List WsRead :=
  ops.filterMap fun op =>
    match op.2 with
    | .arrive read => some read
    | .recv _ => none
    | .finish => none

/-- The connection is closed, or is receiving the frames of a client. -/
structure Serving (limit : Nat) (s : WsProcess Conn) (c : Conn) (unsent : Bytes) : Prop where
  running : s.crashed = false
  client : (s.conns c).req.closed = true ∨ ∃ frames,
    Receiving limit (s.conns c).req s.continuation (received (s.conns c).reads ++ unsent) frames

section Clients

variable {websockets_max_size : UInt64} {outs : Conn → WsOutside} {s : WsProcess Conn} {c : Conn}
  {unsent : Bytes}

theorem Serving.updated {limit : Nat} {conns : Conn → WsConnection} {conn : WsConnection}
    {continuation : Option Bytes}
    (h : conn.req.closed = true ∨ ∃ frames,
      Receiving limit conn.req continuation (received conn.reads ++ unsent) frames) :
    Serving limit ⟨Function.update conns c conn, continuation, false⟩ c unsent := by
  refine ⟨rfl, ?_⟩
  dsimp only
  rw [Function.update_self]
  exact h

theorem Serving.arrive {read : WsRead}
    (h : Serving (wsLimit websockets_max_size) s c (read.bytes ++ unsent)) :
    Serving (wsLimit websockets_max_size)
      (processStep websockets_max_size outs s (c, .arrive read)) c unsent := by
  rw [processStep_running h.running]
  refine .updated (h.client.imp id fun ⟨frames, hrec⟩ => ⟨frames, ?_⟩)
  have hmoved : received ((s.conns c).reads ++ [read]) ++ unsent =
      received (s.conns c).reads ++ (read.bytes ++ unsent) := by
    rw [received, flatMap_append, flatMap_singleton, append_assoc]
    rfl
  show Receiving _ (s.conns c).req s.continuation
    (received ((s.conns c).reads ++ [read]) ++ unsent) frames
  rw [hmoved]
  exact hrec

theorem Serving.recv {nb : Bool} (h : Serving (wsLimit websockets_max_size) s c unsent) :
    Serving (wsLimit websockets_max_size)
      (processStep websockets_max_size outs s (c, .recv nb)) c unsent := by
  rw [processStep_running h.running]
  dsimp only [WsConnection.handle]
  rcases h.client with hclosed | ⟨frames, hrec⟩
  · rw [upsgi_websocket_recv, if_pos hclosed]
    exact .updated (.inl hclosed)
  · obtain ⟨hcall, hnull⟩ := @websocket_recv_ok _ (outs c) nb _ _ _ _ _ hrec
    generalize upsgi_websocket_recv websockets_max_size (outs c) nb (s.conns c).req s.continuation
      (s.conns c).reads = outcome at hcall hnull
    cases hcall with
    | deliver hrec' _ _ _ | again _ hrec' _ _ _
    | waiting hrec' _ _ => exact .updated (.inr ⟨_, hrec'⟩)
    | null _ => exact .updated (.inl (hnull rfl))

theorem Serving.finish (h : Serving (wsLimit websockets_max_size) s c unsent) :
    Serving (wsLimit websockets_max_size)
      (processStep websockets_max_size outs s (c, .finish)) c unsent := by
  rw [processStep_running h.running]
  exact .updated (.inl rfl)

theorem Serving.run {ops : List (Conn × WsEvent)} (hops : ∀ op ∈ ops, op.1 = c)
    (h : Serving (wsLimit websockets_max_size) s c (received (arrivals ops) ++ unsent)) :
    Serving (wsLimit websockets_max_size)
      (ops.foldl (processStep websockets_max_size outs) s) c unsent := by
  induction ops generalizing s with
  | nil => exact h
  | cons op ops ih =>
    obtain ⟨d, event⟩ := op
    obtain ⟨rfl, hops⟩ := forall_mem_cons.mp hops
    refine ih hops ?_
    cases event with
    | arrive read =>
      refine Serving.arrive ?_
      rw [← append_assoc]
      exact h
    | recv nb => exact h.recv
    | finish => exact h.finish

/-- A continuation without a message. -/
example :
    (alone 1024 (fun _ : Bool => ⟨fun _ => true, fun _ => true⟩) true
      [(true, .arrive (.data 128 [1, 98])), (true, .recv true)]).crashed = true := by
  decide

end Clients

/-! ### Isolation -/

/-- Where every receive finds the others between two messages, and none of them alone
    would end the process, a connection is as it is alone: what is returned on it is the
    same in every other such run with the same operations on it. -/
theorem websocket_isolation (websockets_max_size : UInt64) (outs : Conn → WsOutside)
    (ops : List (Conn × WsEvent)) (hseparate : Separate websockets_max_size outs ops)
    (hcrash : ∀ c, (alone websockets_max_size outs c ops).crashed = false) (c : Conn) :
    ((processRun websockets_max_size outs ops).conns c).results =
        ((alone websockets_max_size outs c ops).conns c).results ∧
      ∀ (outs' : Conn → WsOutside) (ops' : List (Conn × WsEvent)),
        Separate websockets_max_size outs' ops' →
        (∀ d, (alone websockets_max_size outs' d ops').crashed = false) →
        outs' c = outs c → opsOn c ops' = opsOn c ops →
        ((processRun websockets_max_size outs' ops').conns c).results =
          ((processRun websockets_max_size outs ops).conns c).results := by
  have hagree := (hseparate.agree hcrash).conns c
  refine ⟨congrArg _ hagree, fun outs' ops' hseparate' hcrash' houts hops => ?_⟩
  -- both runs agree with the connection alone, and alone they are the same
  have hsame : alone websockets_max_size outs' c ops' = alone websockets_max_size outs c ops := by
    rw [alone_congr houts, alone, hops, alone]
  rw [(hseparate'.agree hcrash').conns c, hsame, hagree]

/-- Pings and pongs are sent. -/
def wellOutside : WsOutside :=
  ⟨fun _ => true, fun _ => true⟩

/-- A message "ac" in two fragments, with a message "b" of the other connection after
    it. -/
def separateOps : List (Bool × WsEvent) :=
  [(false, .arrive (.data 1 [1, 97])), (false, .recv true),
    (false, .arrive (.data 128 [1, 99])), (false, .recv true),
    (true, .arrive (.data 129 [1, 98])), (true, .recv false)]

theorem separateOps_separate : Separate 1024 (fun _ => wellOutside) separateOps := by
  have hquiet : ∀ {c : Bool} {ops : List (Bool × WsEvent)} (read : WsRead),
      Separate 1024 (fun _ => wellOutside) ops →
      Separate 1024 (fun _ => wellOutside) (ops ++ [(c, .arrive read)]) :=
    fun _ h => .snoc h nofun
  have hfirst := Separate.snoc (c := false) (hquiet (c := false) (.data 1 [1, 97]) .nil)
    (fun nb (_ : WsEvent.recv true = .recv nb) d hd => by revert d; decide)
  have hsecond := Separate.snoc (c := false) (hquiet (c := false) (.data 128 [1, 99]) hfirst)
    (fun nb (_ : WsEvent.recv true = .recv nb) d hd => by revert d; decide)
  exact .snoc (hquiet (c := true) (.data 129 [1, 98]) hsecond)
    (fun nb (_ : WsEvent.recv false = .recv nb) d hd => by revert d; decide)

theorem websocket_isolation_separate :
    ((processRun 1024 (fun _ => wellOutside) separateOps).conns false).results =
        ((alone 1024 (fun _ => wellOutside) false separateOps).conns false).results ∧
      ((processRun 1024 (fun _ => wellOutside) separateOps).conns false).results =
        [.buffer [0], .buffer [97, 99]] :=
  ⟨(websocket_isolation 1024 (fun _ => wellOutside) separateOps separateOps_separate (by decide)
    false).1, by decide⟩

/-- The same message, with or without a fragment of the other connection in between. -/
def mixedOps (between : List (Bool × WsEvent)) : List (Bool × WsEvent) :=
  [(false, .arrive (.data 1 [1, 97])), (false, .recv true)] ++ between ++
    [(false, .arrive (.data 128 [1, 99])), (false, .recv true)]

/-- The fragment replaces the one of the first connection, which gets the byte of the
    other. -/
theorem websocket_shared_buffer :
    ∃ between, opsOn false (mixedOps between) = opsOn false (mixedOps []) ∧
      ((processRun 1024 (fun _ => wellOutside) (mixedOps [])).conns false).results =
        [.buffer [0], .buffer [97, 99]] ∧
      ((processRun 1024 (fun _ => wellOutside) (mixedOps between)).conns false).results =
        [.buffer [0], .buffer [98, 99]] :=
  ⟨[(true, .arrive (.data 1 [1, 98])), (true, .recv true)], by decide, by decide, by decide⟩

end Upsgi
