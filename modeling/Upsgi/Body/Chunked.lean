import Upsgi.Core.Strings
import Upsgi.Lib.ChunkedCoding

/-! # Reading a chunked body

    The incremental decoder of `core/chunked.c` over the connection of a
    request.  What a read gives depends on what has arrived and on the body
    scheduler: both are an argument of each read, so that every split of the
    incoming bytes is covered.  A wait for more data that ends well is part of
    the read that follows it.
-/

namespace Upsgi

open Framing

/-! ### The connection -/

/-- The bytes of the connection that were not handed out: those read together
    with the request head, and those still in the socket or on their way. -/
structure Conn where
  proto_parser_remains : Bytes
  unread : Bytes

/-- All bytes in the order in which they will be handed out. -/
def Conn.incoming (conn : Conn) : Bytes :=
  conn.proto_parser_remains ++ conn.unread

/-- What the environment does in one call of `proto_read_body`: the grant of the
    body scheduler and the number of bytes the socket has ready; 0 stands for
    the end of the stream, an error and a timeout. -/
structure Recv where
  budget : Nat
  ready : Nat
  /-- Whether there is room for the bytes: `realloc` can make the buffer of the
      decoder larger, `fwrite` can store what was read. -/
  room : Bool
  /-- What lies in memory behind the content of that buffer afterwards. -/
  beyond : Bytes

/-- `upsgi_proto_base_read_body` for at most `len` bytes.  Nothing read means a
    return value of 0 or -1. -/
def upsgi_proto_base_read_body (conn : Conn) (len ready : Nat) : Conn × Bytes :=
  if conn.proto_parser_remains ≠ [] then
    let remains := min conn.proto_parser_remains.length len
    ({ conn with proto_parser_remains := conn.proto_parser_remains.drop remains },
      conn.proto_parser_remains.take remains)
  else
    let got := min ready len
    ({ conn with unread := conn.unread.drop got }, conn.unread.take got)

/-- A read of at most `len` bytes under the grant of the scheduler. -/
def readBody (conn : Conn) (len : Nat) (recv : Recv) : Conn × Bytes :=
  upsgi_proto_base_read_body conn (min recv.budget len) recv.ready

/-! ### Buffers -/

/-- `struct upsgi_buffer`: `data` are the first `pos` bytes, `len` is the
    allocated size. -/
structure UpsgiBuffer where
  data : Bytes
  len : Nat
  limit : Nat

/-- `upsgi_buffer_ensure`: room for `len` more bytes, as far as the limit
    allows; `room` says whether `realloc` succeeds. -/
def upsgi_buffer_ensure (ub : UpsgiBuffer) (len : Nat) (room : Bool) : Option UpsgiBuffer :=
  let remains := ub.len - ub.data.length
  if remains < len then
    let new_len := ub.len + (len - remains)
    if 0 < ub.limit ∧ ub.limit < new_len then
      if ub.limit = ub.len ∨ room = false then none else some { ub with len := ub.limit }
    else if room = false then none
    else some { ub with len := new_len }
  else some ub

/-- The options of the decoder.  With a limit below the page size the buffer
    would be made smaller than its content. -/
structure ChunkedConfig where
  page_size : Nat
  page_size_pos : 0 < page_size
  chunked_input_limit : Nat
  limit_ge : chunked_input_limit = 0 ∨ page_size ≤ chunked_input_limit

/-! ### Chunk lines -/

/-- What the scan for a chunk line finds. -/
inductive LineScan where
  /-- No line end yet: the return value -2. -/
  | more
  /-- Another byte than a digit or a line end: the return value -1. -/
  | bad
  /-- A line of this length, line end included. -/
  | line (len : Nat)
  deriving DecidableEq, Repr

/-- The loop of `upsgi_chunked_readline`; `found` says that the last byte was a
    carriage return. -/
def readlineScan : Bool → Nat → Bytes → LineScan
  | _, _, [] => .more
  | true, i, c :: _ => if c = LF then .line (i + 1) else .bad
  | false, i, c :: buf =>
      if ChunkedCoding.isDigit c then readlineScan false (i + 1) buf
      else if c = CR then readlineScan true (i + 1) buf
      else .bad

/-- `isspace` in the C locale. -/
def isspace (c : UInt8) : Bool :=
  c = SP || (9 ≤ c && c ≤ 13)

/-- The sign `strtoul` accepts, and whether it is a minus. -/
def skipSign : Bytes → Bool × Bytes
  | [] => (false, [])
  | c :: buf => if c = 45 then (true, buf) else if c = 43 then (false, buf) else (false, c :: buf)

/-- The `0x` that `strtoul` accepts with base 16 when a digit follows. -/
def skipHexMark : Bytes → Bytes
  | z :: x :: c :: buf =>
      if z = 48 ∧ (x = 120 ∨ x = 88) ∧ ChunkedCoding.isDigit c = true then c :: buf
      else z :: x :: c :: buf
  | buf => buf

/-- `strtoul` with base 16: white space, a sign and `0x` may come before the
    digits, and a value out of range becomes `ULONG_MAX`. -/
def strtoul16 (buf : Bytes) : Nat :=
  let (negative, digits) := skipSign (buf.dropWhile isspace)
  let num := ChunkedCoding.value ((skipHexMark digits).takeWhile ChunkedCoding.isDigit)
  if 2 ^ 64 ≤ num then 2 ^ 64 - 1
  else if negative then (2 ^ 64 - num) % 2 ^ 64
  else num

/-- A `size_t` returned as `ssize_t`. -/
def toSsize (n : Nat) : Int :=
  if n < 2 ^ 63 then n else (n : Int) - 2 ^ 64

/-- `upsgi_chunked_readline`: the return value and the buffer without the line.
    The number is read from the memory of the buffer: on a line without digits
    `strtoul` takes the line end for white space and goes on behind the line,
    and maybe behind the content.  A size of 2^64 - 2 is returned as -2, like a
    line without an end. -/
def upsgi_chunked_readline (buf beyond : Bytes) : Int × Bytes :=
  match readlineScan false 0 buf with
  | .more => (-2, buf)
  | .bad => (-1, buf)
  | .line len => (toSsize (strtoul16 (buf ++ beyond)), buf.drop len)

/-! ### The decoder -/

/-- `chunked_input_parser_status`. -/
inductive ChunkStatus where
  /-- 0: waiting for a chunk line. -/
  | line
  /-- 1: waiting for the bytes of a chunk. -/
  | data
  /-- 2: waiting for the line end that closes the body. -/
  | final
  deriving DecidableEq, Repr

/-- The fields of the request that belong to the decoder, from the time when
    `chunked_input_buf` is allocated. -/
structure Decoder where
  buf : UpsgiBuffer
  status : ChunkStatus
  chunk_len : Int
  need : Nat
  complete : Bool
  decapitate : Nat

/-- What `upsgi_chunked_read` gives. -/
inductive ChunkResult where
  | chunk (data : Bytes)
  /-- The body is complete: a length of 0. -/
  | finished
  /-- A null pointer. -/
  | fail
  deriving DecidableEq, Repr

def Decoder.setData (d : Decoder) (data : Bytes) : Decoder :=
  { d with buf := { d.buf with data := data } }

def upsgi_chunked_require_crlf (buf : Bytes) (chunk_len : Nat) : Bool :=
  (buf.drop chunk_len).take 2 = [CR, LF]

/-- `upsgi_chunked_require_final_crlf`; without a result the loop goes on. -/
def upsgi_chunked_require_final_crlf (d : Decoder) : Decoder × Option ChunkResult :=
  if d.buf.data.length < 2 then
    ({ d with need := 2 - d.buf.data.length, status := .final }, none)
  else if d.buf.data.take 2 ≠ [CR, LF] then (d, some .fail)
  else
    ({ d.setData (d.buf.data.drop 2) with need := 0, status := .line, complete := true },
      some .finished)

/-- A chunk whose line was read: its bytes, or what is missing. -/
def chunkedData (d : Decoder) : Decoder × Option ChunkResult :=
  let chunk_len := d.chunk_len.toNat
  if d.buf.data.length < chunk_len + 2 then
    ({ d with need := chunk_len + 2 - d.buf.data.length, status := .data }, none)
  else if upsgi_chunked_require_crlf d.buf.data chunk_len = false then (d, some .fail)
  else
    ({ d with decapitate := chunk_len + 2, status := .line },
      some (.chunk (d.buf.data.take chunk_len)))

/-- The switch over the parser status. -/
def chunkedParse (beyond : Bytes) (d : Decoder) : Decoder × Option ChunkResult :=
  match d.status with
  | .line =>
      let (chunk_len, data) := upsgi_chunked_readline d.buf.data beyond
      let d := { d.setData data with chunk_len := chunk_len }
      if chunk_len = -2 then ({ d with need := d.need + 1 }, none)
      else if chunk_len < 0 then (d, some .fail)
      else if chunk_len = 0 then upsgi_chunked_require_final_crlf d
      else chunkedData d
  | .data => chunkedData d
  | .final => upsgi_chunked_require_final_crlf d

/-- The rounds of the loop that begin with a read.  A parse without a result
    leaves `need` positive, so the round after it begins with a read as well.
    Where no further read is given, the round fails. -/
def chunkedLoop (cfg : ChunkedConfig) :
    List Recv → Conn → Decoder → Conn × Decoder × ChunkResult
  | [], conn, d => (conn, d, .fail)
  | recv :: recvs, conn, d =>
      match upsgi_buffer_ensure d.buf (max cfg.page_size d.need) recv.room with
      | none => (conn, d, .fail)
      | some buf =>
          let d := { d with buf := buf }
          let (conn, got) := readBody conn (d.buf.len - d.buf.data.length) recv
          if got = [] then (conn, d, .fail)
          else
            let d := { d.setData (d.buf.data ++ got) with need := d.need - got.length }
            if 0 < d.need then chunkedLoop cfg recvs conn d
            else
              match chunkedParse recv.beyond d with
              | (d, some result) => (conn, d, result)
              | (d, none) => chunkedLoop cfg recvs conn d

/-- The decoder with a new buffer. -/
def Decoder.new (cfg : ChunkedConfig) : Decoder where
  buf := ⟨[], cfg.page_size, cfg.chunked_input_limit⟩
  status := .line
  chunk_len := 0
  need := 0
  complete := false
  decapitate := 0

/-- What the environment does in one call of `upsgi_chunked_read`. -/
structure ChunkedCall where
  /-- What lies in memory behind the content of the buffer at the call. -/
  beyond : Bytes
  recvs : List Recv

/-- `upsgi_chunked_read`; `none` stands for a null `chunked_input_buf`. -/
def upsgi_chunked_read (cfg : ChunkedConfig) (call : ChunkedCall) (conn : Conn)
    (chunked_input : Option Decoder) : Conn × Decoder × ChunkResult :=
  let d := chunked_input.getD (Decoder.new cfg)
  if d.complete then (conn, d, .finished)
  else if d.buf.data.length < d.decapitate then (conn, d, .fail)
  else
    let d := { d.setData (d.buf.data.drop d.decapitate) with decapitate := 0 }
    if 0 < d.need ∨ d.buf.data = [] then chunkedLoop cfg call.recvs conn d
    else
      match chunkedParse call.beyond d with
      | (d, some result) => (conn, d, result)
      | (d, none) => chunkedLoop cfg call.recvs conn d

end Upsgi
