import Upsgi.Body.Chunked
import Upsgi.Lib.Machine
import Upsgi.Proto.HttpHeader

/-! # The request body of an HTTP/1.1 connection

    What happens to the bytes of a connection between the end of a request head
    and `upsgi_proto_http11_close`: post buffering when the request starts, then
    any sequence of reads, chunked reads, seeks and websocket reads that the
    application asks for.  The decision to keep the connection is at the end.
-/

namespace Upsgi

open Framing

/-! ### Requests -/

structure BodyConfig extends ChunkedConfig where
  post_buffering : Nat
  post_buffering_bufsize : Nat

/-- What is recorded of a request head. -/
structure Head where
  proto_parser_status : Nat
  protocol : Bytes
  /-- The variable `HTTP_CONNECTION`. -/
  connection : Option Bytes
  post_cl : Nat
  body_is_chunked : Bool

/-- A temporary file with its position. -/
structure PostFile where
  content : Bytes
  pos : Nat

/-- The part of a request that has to do with its body. -/
structure BodyState where
  conn : Conn
  post_pos : Nat
  post_buffering_buf : Bytes
  post_file : Option PostFile
  chunked_input : Option Decoder
  body_chunked_buf : Bytes
  /-- The bytes received for websocket frames, from the time when
      `websocket_buf` is allocated. -/
  websocket : Option Bytes
  /-- The request ended while it was being parsed. -/
  aborted : Bool

/-- What a read gives to its caller. -/
inductive ReadResult where
  | data (bytes : Bytes)
  /-- `upsgi.empty`. -/
  | empty
  /-- A null pointer. -/
  | fail
  deriving DecidableEq, Repr

/-- Reads until `n` bytes have come, each read for at most `bound` of what is
    missing.  A read that gives nothing ends the loop, and so does one whose
    bytes cannot be stored. -/
def readAll (bound : Nat → Nat) (stored : Recv → Bool) :
    List Recv → Conn → Nat → Conn × Bytes × Bool
  | _, conn, 0 => (conn, [], true)
  | [], conn, _ + 1 => (conn, [], false)
  | recv :: recvs, conn, n + 1 =>
      let (conn, got) := readBody conn (bound (n + 1)) recv
      if got = [] then (conn, [], false)
      else if stored recv = false then (conn, got, false)
      else
        let (conn, more, complete) := readAll bound stored recvs conn (n + 1 - got.length)
        (conn, got ++ more, complete)

/-! ### Post buffering -/

/-- The state when the head has been read, without post buffering. -/
def BodyState.fresh (conn : Conn) : BodyState where
  conn := conn
  post_pos := 0
  post_buffering_buf := []
  post_file := none
  chunked_input := none
  body_chunked_buf := []
  websocket := none
  aborted := false

/-- `upsgi_postbuffer_do_in_mem`; memory is allocated for large bodies only. -/
def upsgi_postbuffer_do_in_mem (cfg : BodyConfig) (head : Head) (alloc : Bool)
    (recvs : List Recv) (st : BodyState) : BodyState :=
  if cfg.post_buffering_bufsize < head.post_cl ∧ alloc = false then { st with aborted := true }
  else
    let (conn, bytes, complete) := readAll id (fun _ => true) recvs st.conn head.post_cl
    { st with conn := conn, post_buffering_buf := bytes, aborted := !complete }

/-- `upsgi_postbuffer_do_in_disk`; `alloc` says whether the file can be made. -/
def upsgi_postbuffer_do_in_disk (cfg : BodyConfig) (head : Head) (alloc : Bool)
    (recvs : List Recv) (st : BodyState) : BodyState :=
  if alloc = false then { st with aborted := true }
  else
    let (conn, bytes, complete) :=
      readAll (min · cfg.post_buffering_bufsize) Recv.room recvs st.conn head.post_cl
    { st with conn := conn, post_file := some ⟨bytes, 0⟩, aborted := !complete }

/-- The end of `upsgi_parse_vars`: the body is read ahead when post buffering
    is on. -/
def startBody (cfg : BodyConfig) (head : Head) (alloc : Bool) (recvs : List Recv)
    (conn : Conn) : BodyState :=
  if cfg.post_buffering = 0 then .fresh conn
  else if cfg.post_buffering ≤ head.post_cl then
    upsgi_postbuffer_do_in_disk cfg head alloc recvs (.fresh conn)
  else upsgi_postbuffer_do_in_mem cfg head alloc recvs (.fresh conn)

/-! ### Chunked reads -/

/-- The loop of `upsgi_chunked_read_smart`: reads chunks until `remains` bytes
    have come.  Every chunk has a byte at least, so that `remains` rounds are
    enough and the loop is over when none is left. -/
def smartLoop (cfg : ChunkedConfig) (calls : Nat → ChunkedCall) (room : Nat → Bool) (ret : Bytes) :
    Nat → Nat → Conn → Option Decoder → Bytes → Conn × Option Decoder × Bytes × Option Bytes
  | 0, _, conn, d, buf => (conn, d, [], some (ret ++ buf))
  | rounds + 1, remains, conn, d, buf =>
      if remains = 0 then (conn, d, [], some (ret ++ buf))
      else
        match upsgi_chunked_read cfg (calls rounds) conn d with
        | (conn, d, .fail) => (conn, some d, buf, none)
        | (conn, d, .finished) => (conn, some d, [], some (ret ++ buf))
        | (conn, d, .chunk data) =>
            if room rounds = false then (conn, some d, buf, none)
            else
              let buf := buf ++ data
              if remains < data.length then
                let n := buf.length - (data.length - remains)
                (conn, some d, buf.drop n, some (ret ++ buf.take n))
              else smartLoop cfg calls room ret rounds (remains - data.length) conn (some d) buf

/-- `upsgi_chunked_read_smart` for a number of bytes. -/
def upsgi_chunked_read_smart (cfg : ChunkedConfig) (calls : Nat → ChunkedCall) (room : Nat → Bool)
    (len : Nat) (conn : Conn) (d : Option Decoder) (buf : Bytes) :
    Conn × Option Decoder × Bytes × Option Bytes :=
  if len ≤ buf.length then (conn, d, buf.drop len, some (buf.take len))
  else smartLoop cfg calls room buf (len - buf.length) (len - buf.length) conn d []

/-! ### Reads -/

/-- What the environment does in one call of `upsgi_request_body_read`. -/
structure ReadEnv where
  /-- Whether `post_read_buf` is large enough or can be made so. -/
  alloc : Bool
  /-- Whether `fread` works. -/
  fread : Bool
  recvs : List Recv
  calls : Nat → ChunkedCall
  room : Nat → Bool

/-- Whether `post_read_buf` can hold `n` bytes: no object is larger than
    `PTRDIFF_MAX`. -/
def ReadEnv.holds (env : ReadEnv) (n : Nat) : Bool :=
  env.alloc && n < 2 ^ 63

/-- The branch of `upsgi_request_body_read` for a chunked body. -/
def readChunked (cfg : BodyConfig) (hint : Nat) (env : ReadEnv) (st : BodyState) :
    BodyState × ReadResult :=
  let remains := if hint = 0 then cfg.page_size else hint
  if env.holds remains = false then (st, .fail)
  else
    let (conn, d, buf, ret) := upsgi_chunked_read_smart cfg.toChunkedConfig env.calls env.room
      remains st.conn st.chunked_input st.body_chunked_buf
    let st := { st with conn := conn, chunked_input := d, body_chunked_buf := buf }
    match ret with
    | none => (st, .fail)
    | some [] => (st, .empty)
    | some bytes => (st, .data bytes)

/-- A read from the temporary file, in one piece. -/
def readFile (remains : Nat) (env : ReadEnv) (file : PostFile) (st : BodyState) :
    BodyState × ReadResult :=
  if env.fread = false ∨ file.content.length < file.pos + remains then
    ({ st with post_file := some { file with pos := file.content.length } }, .fail)
  else
    ({ st with
        post_file := some { file with pos := file.pos + remains }
        post_pos := st.post_pos + remains },
      .data ((file.content.drop file.pos).take remains))

/-- A read from the connection. -/
def readSocket (remains : Nat) (env : ReadEnv) (st : BodyState) : BodyState × ReadResult :=
  let (conn, bytes, complete) := readAll id (fun _ => true) env.recvs st.conn remains
  ({ st with conn := conn, post_pos := st.post_pos + bytes.length },
    if complete then .data bytes else .fail)

/-- `upsgi_request_body_read`.  No line of the body was read before, as
    `upsgi_request_body_readline` has no caller, and callers do not give a
    negative hint. -/
def upsgi_request_body_read (cfg : BodyConfig) (head : Head) (hint : Nat) (env : ReadEnv)
    (st : BodyState) : BodyState × ReadResult :=
  if head.body_is_chunked then readChunked cfg hint env st
  else if head.post_cl = 0 ∨ head.post_cl ≤ st.post_pos then (st, .empty)
  else
    let remains := if hint = 0 then head.post_cl else hint
    let remains :=
      if head.post_cl < (remains + st.post_pos) % 2 ^ 64 then head.post_cl - st.post_pos
      else remains
    if remains = 0 then (st, .empty)
    else
      match st.post_file with
      | none =>
          if 0 < cfg.post_buffering then
            ({ st with post_pos := st.post_pos + remains },
              .data ((st.post_buffering_buf.drop st.post_pos).take remains))
          else if env.holds remains = false then (st, .fail)
          else readSocket remains env st
      | some file =>
          if env.holds remains = false then (st, .fail) else readFile remains env file st

/-! ### Seeks -/

inductive Whence where
  | set
  | cur
  | end_
  /-- A value that is none of the three. -/
  | other
  deriving DecidableEq, Repr

/-- The position a seek asks for, from the current one and the length. -/
def seekTarget (current length : Nat) (pos : Int) : Whence → Int
  | .set => pos
  | .cur => current + pos
  | .end_ => length + pos
  | .other => -1

/-- `upsgi_request_body_seek_do`: the state it leaves and what it returns. -/
def upsgi_request_body_seek_do (cfg : BodyConfig) (head : Head) (pos : Int) (whence : Whence)
    (st : BodyState) : BodyState × Int :=
  match st.post_file with
  | some file =>
      -- `fseek` and `ftell`: a file is not left before its first byte
      let new_pos := seekTarget file.pos file.content.length pos whence
      if new_pos < 0 then (st, -1)
      else
        ({ st with post_file := some { file with pos := new_pos.toNat }, post_pos := new_pos.toNat }, 0)
  | none =>
      if 0 < cfg.post_buffering then
        let new_pos := seekTarget st.post_pos head.post_cl pos whence
        if new_pos < 0 ∨ (head.post_cl : Int) < new_pos then (st, -1)
        else ({ st with post_pos := new_pos.toNat }, 0)
      else (st, -1)

/-! ### Runs -/

/-- What an application can ask for while its request lasts. -/
inductive BodyEvent where
  | read (hint : Nat) (env : ReadEnv)
  | chunkedRead (call : ChunkedCall)
  | seek (pos : Int) (whence : Whence)
  | websocketRecv (len : Nat) (recv : Recv)

/-- One request of the application; there is none on an aborted request. -/
def bodyStep (cfg : BodyConfig) (head : Head) (st : BodyState) (event : BodyEvent) :
    Option BodyState :=
  if st.aborted then none
  else
    match event with
    | .read hint env => some (upsgi_request_body_read cfg head hint env st).1
    | .chunkedRead call =>
        let (conn, d, _) := upsgi_chunked_read cfg.toChunkedConfig call st.conn st.chunked_input
        some { st with conn := conn, chunked_input := some d }
    | .seek pos whence => some (upsgi_request_body_seek_do cfg head pos whence st).1
    | .websocketRecv len recv =>
        -- `upsgi_websockets_recv_pkt`, which the body scheduler does not see
        let (conn, got) := upsgi_proto_base_read_body st.conn len recv.ready
        some { st with conn := conn, websocket := some (st.websocket.getD [] ++ got) }

/-! ### The end of a request -/

def upsgi_http11_request_wants_close (head : Head) : Bool :=
  match head.connection with
  | none => false
  | some value => http_header_value_has_token value (lit "close")

/-- `upsgi_proto_http11_close`: whether the connection is kept, which is the
    value of `retry`. -/
def upsgi_proto_http11_close (head : Head) (write_errors : Nat) (offloaded : Bool)
    (st : BodyState) : Bool :=
  !(0 < write_errors || head.proto_parser_status ≠ 3 || st.conn.proto_parser_remains ≠ []
    || st.post_pos < head.post_cl || offloaded
    || upsgi_strncmp (lit "HTTP/1.0") head.protocol = 0
    || upsgi_http11_request_wants_close head)

end Upsgi
