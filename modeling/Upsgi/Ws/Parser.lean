import Upsgi.Lib.WebSocketFrame

/-! # Receiving from a websocket

    `upsgi_websocket_recv` and `upsgi_websocket_recv_nb` of `core/websockets.c`.  The
    bytes that were received stay in `websocket_buf` until a whole frame is there; five
    phases read its head.  The state of the parser belongs to the request, except for
    `upsgi.websockets_continuation_buffer`, where the fragments of a message are put
    together: there is one for the whole process.

    The buffers have no limit, so that they grow as needed.  What the socket and the
    clock answer is given: the results of the reads, of waiting for the socket, of
    `upsgi_websockets_check_pingpong`, and of sending a pong.
-/

namespace Upsgi

open Framing (Bytes)
open WebSocket (fromBe applyMask)

/-! ### State -/

/-- The largest extended length, for `websockets_max_size` in Kbytes: a product of 64
    bits. -/
def wsLimit (websockets_max_size : UInt64) : Nat :=
  (websockets_max_size * 1024).toNat

/-- The limit leaves room for the head of a frame, so that the sizes of the parser do
    not wrap around in a `size_t`. -/
theorem wsLimit_add_head (websockets_max_size : UInt64) :
    wsLimit websockets_max_size + 14 < 2 ^ 64 := by
  unfold wsLimit
  rw [UInt64.toNat_mul]
  have h1024 : (1024 : UInt64).toNat = 1024 := rfl
  rw [h1024]
  omega

/-- `websocket_phase`, from 0 to 4. -/
inductive WsPhase where
  | header
  | length
  | mask
  | key
  | packet
  deriving DecidableEq, Repr

/-- The fields of the request.  The last two count what was asked of the outside. -/
structure WsRequest where
  buf : Bytes := []
  need : Nat := 2
  phase : WsPhase := .header
  opcode : UInt8 := 0
  is_fin : UInt8 := 0
  has_mask : Nat := 0
  size : Nat := 0
  pktsize : Nat := 0
  closed : Bool := false
  pings : Nat := 0
  pongs : Nat := 0
  deriving DecidableEq, Repr

/-- `wait_read_hook`. -/
inductive WsWait where
  | ready
  | timeout
  | error
  deriving DecidableEq, Repr

/-- A call of `proto_read_body`.  After `again` (`EAGAIN`) a blocking receive waits. -/
inductive WsRead where
  | data (b : UInt8) (bs : Bytes)
  | again (wait : WsWait)
  /-- The connection was closed, or another error. -/
  | failed
  deriving DecidableEq, Repr

/-- Whether the check of pings and pongs passes, and whether a pong is sent. -/
structure WsOutside where
  ping : Nat → Bool
  pong : Nat → Bool

/-- What a call comes to. -/
inductive WsResult where
  /-- A buffer for a data frame. -/
  | buffer (b : Bytes)
  /-- The empty buffer of a non-blocking receive. -/
  | again
  /-- `NULL`. -/
  | null
  /-- A null pointer is followed. -/
  | crash
  /-- The call waits for bytes that do not come. -/
  | waiting
  deriving DecidableEq, Repr

/-! ### The phases -/

def upsgi_websocket_parse_header (req : WsRequest) : WsRequest :=
  let byte1 := req.buf.getD 0 0
  let byte2 := req.buf.getD 1 0
  { req with
    is_fin := byte1 >>> 7
    opcode := byte1 &&& 0xf
    has_mask := (byte2 >>> 7).toNat
    size := (byte2 &&& 0x7f).toNat }

/-- `upsgi_be16` and `upsgi_be64` at the third byte. -/
def beAt (buf : Bytes) (len : Nat) : Nat :=
  fromBe ((buf.drop 2).take len)

/-- The first phase. -/
def phaseHeader (req : WsRequest) : WsRequest :=
  let req := upsgi_websocket_parse_header req
  let req := { req with pktsize := 2 + req.has_mask * 4 }
  -- two or eight bytes of length are to follow
  if req.size = 126 then
    { req with need := req.need + 2, phase := .length, pktsize := req.pktsize + 2 }
  else if req.size = 127 then
    { req with need := req.need + 8, phase := .length, pktsize := req.pktsize + 8 }
  else { req with phase := .mask }

/-- The extended length, if the short one announces it. -/
def extendedSize (req : WsRequest) : Option Nat :=
  if req.size = 126 then some (beAt req.buf 2)
  else if req.size = 127 then some (beAt req.buf 8)
  else none

/-- The second phase: `none` if the frame is too large. -/
def phaseLength (websockets_max_size : UInt64) (req : WsRequest) : Option WsRequest :=
  match extendedSize req with
  -- logged as a bug of the parser
  | none => none
  | some size =>
      if wsLimit websockets_max_size < size then none
      else some { req with size := size, phase := .mask }

def phaseMask (req : WsRequest) : WsRequest :=
  if req.has_mask ≠ 0 then { req with need := req.need + 4, phase := .key }
  else
    { req with need := req.need + req.size, pktsize := req.pktsize + req.size, phase := .packet }

def phaseKey (req : WsRequest) : WsRequest :=
  { req with pktsize := req.pktsize + req.size, need := req.need + req.size, phase := .packet }

/-- The payload, which is unmasked where it is. -/
def wsPayload (req : WsRequest) : Bytes :=
  let pos := req.pktsize - req.size
  let data := (req.buf.drop pos).take req.size
  if req.has_mask ≠ 0 then applyMask ((req.buf.drop (pos - 4)).take 4) data else data

def upsgi_buffer_decapitate (buf : Bytes) (len : Nat) : Option Bytes :=
  if buf.length < len then none else some (buf.drop len)

/-- The buffer of a data frame: its own, or the one of the message it continues. -/
def wsMessage (req : WsRequest) (continuation : Option Bytes) : Option Bytes :=
  if req.opcode = 0 then continuation.map (· ++ wsPayload req) else some (wsPayload req)

/-- `upsgi_websockets_parse`.  The error path of a continuation without a message
    destroys a buffer that does not exist. -/
def upsgi_websockets_parse (req : WsRequest) (continuation : Option Bytes) :
    WsResult × WsRequest × Option Bytes :=
  match wsMessage req continuation, upsgi_buffer_decapitate req.buf req.pktsize with
  -- `upsgi_buffer_destroy(NULL)`
  | none, _ => (.crash, req, none)
  | some _, none => (.null, req, none)
  | some ub, some buf =>
      let req := { req with buf := buf, phase := .header, need := 2 }
      -- whatever was in the continuation buffer is replaced
      if req.is_fin ≠ 0 then (.buffer ub, req, none) else (.buffer [0], req, some ub)

/-! ### The loop -/

/-- One round of `upsgi_websocket_recv_do`. -/
inductive WsRound where
  | next (req : WsRequest)
  | ret (result : WsResult) (req : WsRequest) (continuation : Option Bytes)
  /-- There are not enough bytes. -/
  | read

/-- A control frame is passed over. -/
def wsSkip (req : WsRequest) (continuation : Option Bytes) : WsRound :=
  let req := { req with phase := .header, need := 2 }
  match upsgi_buffer_decapitate req.buf req.pktsize with
  | none => .ret .null req continuation
  | some buf => .next { req with buf := buf }

/-- The last phase. -/
def phasePacket (out : WsOutside) (req : WsRequest) (continuation : Option Bytes) : WsRound :=
  if req.opcode = 0 ∨ req.opcode = 1 ∨ req.opcode = 2 then
    let (result, req, continuation) := upsgi_websockets_parse req continuation
    .ret result req continuation
  -- a close frame is answered, whether or not that succeeds
  else if req.opcode = 8 then .ret .null req continuation
  -- a ping
  else if req.opcode = 9 then
    let sent := { req with pongs := req.pongs + 1 }
    if out.pong req.pongs then wsSkip sent continuation else .ret .null sent continuation
  -- a pong, or an unknown opcode
  else wsSkip req continuation

def wsRound (websockets_max_size : UInt64) (out : WsOutside) (req : WsRequest)
    (continuation : Option Bytes) : WsRound :=
  if req.buf.length < req.need then .read
  else
    match req.phase with
    | .header => .next (phaseHeader req)
    | .length =>
        match phaseLength websockets_max_size req with
        | some req => .next req
        | none => .ret .null req continuation
    | .mask => .next (phaseMask req)
    | .key => .next (phaseKey req)
    | .packet => phasePacket out req continuation

/-- The rounds up to the next read, or to the return.  The first part is the state
    before the read. -/
def wsAdvance (websockets_max_size : UInt64) (out : WsOutside) (continuation : Option Bytes) :
    Nat → WsRequest → WsRequest × Option (WsResult × Option Bytes)
  | 0, req => (req, none)
  | fuel + 1, req =>
      match wsRound websockets_max_size out req continuation with
      | .read => (req, none)
      | .ret result req continuation => (req, some (result, continuation))
      | .next req => wsAdvance websockets_max_size out continuation fuel req

/-- A bound for the rounds: a phase goes on, or a frame is taken off. -/
def wsRounds (req : WsRequest) : Nat :=
  5 * req.buf.length + 5

/-- What `upsgi_websockets_recv_pkt` comes to. -/
inductive WsReceived where
  | bytes (bs : Bytes)
  | zero
  | fail
  | waiting
  deriving DecidableEq, Repr

/-- `upsgi_websockets_recv_pkt`, with the counters and the reads that are left. -/
def upsgi_websockets_recv_pkt (out : WsOutside) (nb : Bool) :
    WsRequest → List WsRead → WsReceived × WsRequest × List WsRead
  | req, [] => (.waiting, req, [])
  | req, .data b bs :: reads => (.bytes (b :: bs), req, reads)
  | req, .failed :: reads => (.fail, req, reads)
  | req, .again wait :: reads =>
      let checked := { req with pings := req.pings + 1 }
      if nb then (if out.ping req.pings then .zero else .fail, checked, reads)
      else
        match wait with
        | .error => (.fail, req, reads)
        | .timeout =>
            if out.ping req.pings then upsgi_websockets_recv_pkt out nb checked reads
            else (.fail, checked, reads)
        | .ready =>
            -- the read after the wait is not tried again
            match reads with
            | [] => (.waiting, req, [])
            | .data b bs :: reads => (.bytes (b :: bs), req, reads)
            | _ :: reads => (.fail, req, reads)

/-- `upsgi_websocket_recv_do`.  Every round but the last takes a read. -/
def upsgi_websocket_recv_do (websockets_max_size : UInt64) (out : WsOutside) (nb : Bool)
    (continuation : Option Bytes) :
    Nat → WsRequest → List WsRead → WsResult × WsRequest × Option Bytes × List WsRead
  | 0, req, reads => (.waiting, req, continuation, reads)
  | fuel + 1, req, reads =>
      match wsAdvance websockets_max_size out continuation (wsRounds req) req with
      | (req, some (result, continuation)) => (result, req, continuation, reads)
      | (req, none) =>
          match upsgi_websockets_recv_pkt out nb req reads with
          | (.bytes bs, req, reads) =>
              upsgi_websocket_recv_do websockets_max_size out nb continuation fuel
                { req with buf := req.buf ++ bs } reads
          | (.zero, req, reads) => (.again, req, continuation, reads)
          | (.fail, req, reads) => (.null, req, continuation, reads)
          | (.waiting, req, reads) => (.waiting, req, continuation, reads)

/-- `upsgi_websocket_recv` and, with `nb`, `upsgi_websocket_recv_nb`. -/
def upsgi_websocket_recv (websockets_max_size : UInt64) (out : WsOutside) (nb : Bool) (req : WsRequest)
    (continuation : Option Bytes) (reads : List WsRead) :
    WsResult × WsRequest × Option Bytes × List WsRead :=
  if req.closed then (.null, req, continuation, reads)
  else
    match upsgi_websocket_recv_do websockets_max_size out nb continuation (reads.length + 1) req reads with
    -- `clear_continuation_buffer`
    | (.null, req, _, reads) => (.null, { req with closed := true }, none, reads)
    | result => result

/-! ### Sizes

    Whatever bytes arrive, the parser never asks for more than the head of a frame and
    the limit, and has the whole frame in the last phase. -/

/-- What each phase may need. -/
inductive WsRequest.Sized (limit : Nat) (req : WsRequest) : Prop where
  | header (hphase : req.phase = .header) (hneed : req.need = 2)
  | length (hphase : req.phase = .length) (hsize : req.size = 126 ∨ req.size = 127)
      (hneed : req.need ≤ 10) (hmask : req.has_mask ≤ 1)
      (hpkt : req.pktsize = req.need + req.has_mask * 4)
  | mask (hphase : req.phase = .mask) (hsize : req.size ≤ max 127 limit) (hneed : req.need ≤ 10)
      (hmask : req.has_mask ≤ 1) (hpkt : req.pktsize = req.need + req.has_mask * 4)
  | key (hphase : req.phase = .key) (hsize : req.size ≤ max 127 limit) (hneed : req.need ≤ 14)
      (hpkt : req.pktsize = req.need)
  | packet (hphase : req.phase = .packet) (hsize : req.size ≤ req.pktsize)
      (hneed : req.need ≤ 14 + max 127 limit) (hpkt : req.pktsize = req.need)

section Sizes

variable {websockets_max_size : UInt64} {out : WsOutside} {req : WsRequest}
  {continuation : Option Bytes}

/-- No size wraps around. -/
theorem WsRequest.Sized.need_lt (h : req.Sized (wsLimit websockets_max_size)) :
    req.need < 2 ^ 64 := by
  have hlimit := wsLimit_add_head websockets_max_size
  cases h with
  | header _ hneed | length _ _ hneed _ _ | mask _ _ hneed _ _ | key _ _ hneed _
  | packet _ _ hneed _ => omega

theorem has_mask_le (b : UInt8) : (b >>> 7).toNat ≤ 1 := by
  have hlt := b.toNat_lt
  show b.toNat >>> 7 ≤ 1
  omega

theorem short_size_le (b : UInt8) : (b &&& 0x7f).toNat ≤ 127 := by
  exact Nat.and_le_right

theorem phaseHeader_sized {limit : Nat} (hneed : req.need = 2) : (phaseHeader req).Sized limit := by
  have hmask := has_mask_le (req.buf.getD 1 0)
  have hsize := short_size_le (req.buf.getD 1 0)
  unfold phaseHeader upsgi_websocket_parse_header
  dsimp only
  split_ifs with h126 h127
  · refine .length rfl (.inl h126) ?_ hmask ?_
    · show req.need + 2 ≤ 10
      omega
    · dsimp only
      omega
  · refine .length rfl (.inr h127) ?_ hmask ?_
    · show req.need + 8 ≤ 10
      omega
    · dsimp only
      omega
  · refine .mask rfl (Nat.le_trans hsize (Nat.le_max_left _ _)) ?_ hmask ?_
    · show req.need ≤ 10
      omega
    · dsimp only
      omega

theorem phaseLength_sized {req' : WsRequest} (hneed : req.need ≤ 10) (hmask : req.has_mask ≤ 1)
    (hpkt : req.pktsize = req.need + req.has_mask * 4)
    (h : phaseLength websockets_max_size req = some req') :
    req'.Sized (wsLimit websockets_max_size) := by
  unfold phaseLength at h
  split at h
  next => nomatch h
  next size _ =>
    split at h
    next => nomatch h
    next hlimit =>
      cases h
      exact .mask rfl (Nat.le_trans (Nat.le_of_not_lt hlimit) (Nat.le_max_right _ _)) hneed hmask hpkt

theorem phaseMask_sized {limit : Nat} (hsize : req.size ≤ max 127 limit) (hneed : req.need ≤ 10)
    (hmask : req.has_mask ≤ 1) (hpkt : req.pktsize = req.need + req.has_mask * 4) :
    (phaseMask req).Sized limit := by
  unfold phaseMask
  split_ifs with h
  · refine .key rfl hsize ?_ ?_
    · show req.need + 4 ≤ 14
      omega
    · show req.pktsize = req.need + 4
      omega
  · refine .packet rfl ?_ ?_ ?_
    · exact Nat.le_add_left _ _
    · show req.need + req.size ≤ _
      omega
    · show req.pktsize + req.size = req.need + req.size
      omega

theorem phaseKey_sized {limit : Nat} (hsize : req.size ≤ max 127 limit) (hneed : req.need ≤ 14)
    (hpkt : req.pktsize = req.need) : (phaseKey req).Sized limit := by
  refine .packet rfl (Nat.le_add_left _ _) ?_ ?_
  · show req.need + req.size ≤ _
    omega
  · show req.pktsize + req.size = req.need + req.size
    omega

/-- The frame is in the buffer, so that it can be taken off. -/
theorem decapitate_whole (hpkt : req.pktsize = req.need) (hlen : req.need ≤ req.buf.length) :
    upsgi_buffer_decapitate req.buf req.pktsize = some (req.buf.drop req.pktsize) := by
  rw [upsgi_buffer_decapitate, if_neg (by omega)]

/-- A round, on any bytes: the sizes stay as they should be wherever the parser goes on. -/
theorem wsRound_sized (h : req.Sized (wsLimit websockets_max_size)) :
    match wsRound websockets_max_size out req continuation with
    | .read => True
    | .next req' => req'.Sized (wsLimit websockets_max_size)
    | .ret result req' _ =>
        result ≠ .null → result ≠ .crash → req'.Sized (wsLimit websockets_max_size) := by
  unfold wsRound
  by_cases hshort : req.buf.length < req.need
  · rw [if_pos hshort]
    trivial
  rw [if_neg hshort]
  have hlen : req.need ≤ req.buf.length := Nat.le_of_not_lt hshort
  cases h with
  | header hphase hneed =>
    rw [hphase]
    exact phaseHeader_sized hneed
  | length hphase _ hneed hmask hpkt =>
    rw [hphase]
    cases hlength : phaseLength websockets_max_size req with
    | none => exact nofun
    | some req' => exact phaseLength_sized hneed hmask hpkt hlength
  | mask hphase hsize hneed hmask hpkt =>
    rw [hphase]
    exact phaseMask_sized hsize hneed hmask hpkt
  | key hphase hsize hneed hpkt =>
    rw [hphase]
    exact phaseKey_sized hsize hneed hpkt
  | packet hphase hsize hneed hpkt =>
    rw [hphase]
    -- Behind a frame, data or not, the parser is at the head of the next one.
    have hdecap := decapitate_whole hpkt hlen
    have hskip : ∀ pongs, wsSkip { req with pongs := pongs } continuation =
        .next { req with
          pongs := pongs, phase := .header, need := 2, buf := req.buf.drop req.pktsize } := by
      intro pongs
      unfold wsSkip
      dsimp only
      rw [hdecap]
    unfold phasePacket
    split_ifs
    · unfold upsgi_websockets_parse
      rw [hdecap]
      cases wsMessage req continuation with
      | none => exact nofun
      | some ub =>
        dsimp only
        split_ifs <;> exact fun _ _ => .header rfl rfl
    · exact nofun
    · rw [hskip]
      exact .header rfl rfl
    · exact nofun
    · rw [hskip req.pongs]
      exact .header rfl rfl

theorem wsAdvance_sized (fuel : Nat) (h : req.Sized (wsLimit websockets_max_size)) :
    match wsAdvance websockets_max_size out continuation fuel req with
    | (req', none) => req'.Sized (wsLimit websockets_max_size)
    | (req', some (result, _)) =>
        result ≠ .null → result ≠ .crash → req'.Sized (wsLimit websockets_max_size) := by
  -- the rounds go on from a state with the right sizes, or return one
  induction fuel generalizing req with
  | zero => exact h
  | succ fuel ih =>
    have hround := @wsRound_sized _ out _ continuation h
    unfold wsAdvance
    generalize wsRound websockets_max_size out req continuation = round at hround
    cases round with
    | read => exact h
    | ret result req' continuation' => exact hround
    | next req' => exact ih hround

/-- The position in the frame does not depend on the buffer or on the keep-alive checks. -/
theorem WsRequest.Sized.buffered {limit : Nat} (h : req.Sized limit) (buf : Bytes) (pings : Nat) :
    { req with buf := buf, pings := pings }.Sized limit := by
  cases h with
  | header hphase hneed => exact .header hphase hneed
  | length hphase hsize hneed hmask hpkt => exact .length hphase hsize hneed hmask hpkt
  | mask hphase hsize hneed hmask hpkt => exact .mask hphase hsize hneed hmask hpkt
  | key hphase hsize hneed hpkt => exact .key hphase hsize hneed hpkt
  | packet hphase hsize hneed hpkt => exact .packet hphase hsize hneed hpkt

theorem recv_pkt_frame (out : WsOutside) (nb : Bool) (req : WsRequest) (reads : List WsRead) :
    ∃ pings, (upsgi_websockets_recv_pkt out nb req reads).2.1 = { req with pings := pings } := by
  induction reads generalizing req with
  | nil => exact ⟨req.pings, rfl⟩
  | cons read reads ih =>
    unfold upsgi_websockets_recv_pkt
    cases read with
    | data b bs | failed => exact ⟨req.pings, rfl⟩
    | again wait =>
      cases nb with
      | true => exact ⟨req.pings + 1, rfl⟩
      | false =>
        dsimp only
        rw [if_neg nofun]
        cases wait with
        | error => exact ⟨req.pings, rfl⟩
        | timeout =>
          dsimp only
          split
          · exact ih { req with pings := req.pings + 1 }
          · exact ⟨req.pings + 1, rfl⟩
        | ready =>
          match reads with
          | [] | .data _ _ :: _ | .again _ :: _ | .failed :: _ => exact ⟨req.pings, rfl⟩

/-- A call keeps the sizes, unless it fails. -/
theorem recv_do_sized {nb : Bool} (fuel : Nat) (reads : List WsRead)
    (h : req.Sized (wsLimit websockets_max_size)) :
    let r := upsgi_websocket_recv_do websockets_max_size out nb continuation fuel req reads
    r.1 ≠ .null → r.1 ≠ .crash → r.2.1.Sized (wsLimit websockets_max_size) := by
  induction fuel generalizing req reads with
  | zero => exact fun _ _ => h
  | succ fuel ih =>
    have hadvance := @wsAdvance_sized _ out _ continuation (wsRounds req) h
    unfold upsgi_websocket_recv_do
    generalize wsAdvance websockets_max_size out continuation (wsRounds req) req = advanced
      at hadvance
    obtain ⟨req', returned⟩ := advanced
    cases returned with
    | some returned => exact hadvance
    | none =>
      dsimp only at hadvance ⊢
      obtain ⟨pings, hframe⟩ := recv_pkt_frame out nb req' reads
      generalize upsgi_websockets_recv_pkt out nb req' reads = received at hframe
      obtain ⟨kind, req'', reads'⟩ := received
      cases hframe
      cases kind with
      | bytes bs => exact ih reads' (hadvance.buffered _ _)
      | zero | waiting => exact fun _ _ => hadvance.buffered _ _
      | fail => exact nofun

/-- A call ends the process, closes the connection or keeps the sizes. -/
theorem websocket_recv_sized {nb : Bool} (reads : List WsRead)
    (h : req.closed = true ∨ req.Sized (wsLimit websockets_max_size)) :
    let r := upsgi_websocket_recv websockets_max_size out nb req continuation reads
    r.1 = .crash ∨ r.2.1.closed = true ∨ r.2.1.Sized (wsLimit websockets_max_size) := by
  unfold upsgi_websocket_recv
  by_cases hclosed : req.closed = true
  · rw [if_pos hclosed]
    exact .inr (.inl hclosed)
  · have hdo := @recv_do_sized _ out _ continuation nb (reads.length + 1) reads
      (h.resolve_left hclosed)
    rw [if_neg hclosed]
    generalize upsgi_websocket_recv_do websockets_max_size out nb continuation (reads.length + 1)
      req reads = r at hdo
    obtain ⟨result, req', continuation', reads'⟩ := r
    cases result with
    | null => exact .inr (.inl rfl)
    | crash => exact .inl rfl
    | _ => exact .inr (.inr (hdo (fun h => (by cases h)) (fun h => (by cases h))))

end Sizes

end Upsgi
