import Upsgi.Lib.Framing
import Upsgi.Lib.Iovec
import Upsgi.Lib.Machine

/-! # Writing a response

    The functions of `core/writer.c` that send the headers and chunks of the body, over
    `upsgi_proto_base_write` and `upsgi_proto_base_writev` of `proto/base.c`.  The results
    of the system calls are given as a schedule; each call takes one of them.  A call that
    has not returned when the schedule ends is pending.

    What response routes and additional headers do to the headers is given by `prepare`.
    Transformations are left out.
-/

namespace Upsgi

open Framing (Bytes)

/-! ### State -/

/-- The fields of the request for the response.  `sent` is what the connection has
    accepted. -/
structure Response where
  headers : Option Bytes := none
  headers_sent : Bool := false
  headers_size : Nat := 0
  response_size : Nat := 0
  write_pos : Nat := 0
  write_errors : Nat := 0
  ignore_body : Bool := false
  sent : Bytes := []
  deriving DecidableEq, Repr

/-- The result of `write` or `writev`. -/
inductive WriteCall where
  /-- One byte and `n` more, or all there is. -/
  | wrote (n : Nat)
  /-- `EAGAIN`, and whether `upsgi_wait_write_req` finds the socket ready. -/
  | again (ready : Bool)
  | failed
  deriving DecidableEq, Repr

/-- What `proto_write` and `proto_writev` return: `more` and `again` are both
    `UPSGI_AGAIN`, and the callers tell them apart by `errno`. -/
inductive ProtoRet where
  | ok
  | more
  | again (ready : Bool)
  | fail
  deriving DecidableEq, Repr

/-- What the functions of the writer return. -/
inductive WriteRet where
  | ok
  | error
  | pending
  deriving DecidableEq, Repr

/-- The response routes, the additional headers and `proto_fix_headers`. -/
inductive Prepared where
  /-- A route ends the response. -/
  | broken
  /-- A header cannot be added. -/
  | refused (headers : Bytes)
  /-- The empty line does not fit. -/
  | full (headers : Bytes)
  | ready (headers : Bytes)
  deriving DecidableEq, Repr

/-! ### System calls -/

/-- The connection takes some bytes. -/
def Response.accept (res : Response) (bs : Bytes) : Response :=
  { res with write_pos := res.write_pos + bs.length, sent := res.sent ++ bs }

/-- `upsgi_proto_base_write`.  Writing nothing gives 0, which is an error. -/
def upsgi_proto_base_write (res : Response) (buf : Bytes) : WriteCall → ProtoRet × Response
  | .wrote n =>
      let bs := (buf.drop res.write_pos).take (n + 1)
      if bs = [] then (.fail, res)
      else if (res.accept bs).write_pos = buf.length then (.ok, res.accept bs)
      else (.more, res.accept bs)
  | .again ready => (.again ready, res)
  | .failed => (.fail, res)

/-- The first loop over the vectors: the new length, the first one that is left, and
    the bytes to skip in it. -/
def consumedIov : List Bytes → Nat → Nat → Nat → Nat × Nat × Nat
  | [], _, new_len, _ => (new_len, 0, 0)
  | v :: vs, i, new_len, wlen =>
      if v.length ≤ wlen then consumedIov vs (i + 1) (new_len - 1) (wlen - v.length)
      else (new_len, i, wlen)

/-- The second loop, which moves the vectors to the top. -/
def moveIov (skip_bytes : Nat) : Nat → Nat → Nat → List Bytes → List Bytes
  | 0, _, _, iov => iov
  | n + 1, i, pos, iov =>
      -- the first one is cut where it is, before it is moved
      let iov := if pos = 0 then iov.modify i (List.drop skip_bytes) else iov
      moveIov skip_bytes n (i + 1) (pos + 1) (iov.set pos (iov.getD i []))

def rebuildIov (iov : List Bytes) (len wlen : Nat) : List Bytes × Nat :=
  let (new_len, first_iov, skip_bytes) := consumedIov (iov.take len) 0 len wlen
  (moveIov skip_bytes (len - first_iov) first_iov 0 iov, new_len)

/-- `upsgi_proto_base_writev`, with the vectors and their number afterwards. -/
def upsgi_proto_base_writev (res : Response) (iov : List Bytes) (len : Nat) :
    WriteCall → ProtoRet × Response × List Bytes × Nat
  | .wrote n =>
      let all := (iov.take len).flatten
      let bs := all.take (n + 1)
      if bs = [] then (.fail, res, iov, len)
      else if bs.length = all.length then (.ok, res.accept bs, iov, len)
      else (.more, res.accept bs, rebuildIov iov len bs.length)
  | .again ready => (.again ready, res, iov, len)
  | .failed => (.fail, res, iov, len)

/-! ### Loops -/

def Response.fail (res : Response) : Response :=
  { res with write_errors := res.write_errors + 1 }

/-- The loop around `proto_write`. -/
def writeLoop (buf : Bytes) : List WriteCall → Response → WriteRet × Response × List WriteCall
  | [], res => (.pending, res, [])
  | w :: ws, res =>
      match upsgi_proto_base_write res buf w with
      | (.ok, res) => (.ok, res, ws)
      -- `errno` is 0 after a partial write, and the loop goes on without a wait
      | (.more, res) => writeLoop buf ws res
      | (.again true, res) => writeLoop buf ws res
      | (.again false, res) => (.error, res.fail, ws)
      | (.fail, res) => (.error, res.fail, ws)

/-- The headers are ready to be sent, or there is nothing to do. -/
inductive HeadersRet where
  | done
  | error
  | send (header : Bytes)
  deriving DecidableEq, Repr

def upsgi_response_write_headers_do0 (prepare : Bytes → Prepared) (res : Response) :
    HeadersRet × Response :=
  match res.headers with
  | none => (.done, res)
  | some headers =>
      if res.headers_sent ∨ res.response_size ≠ 0 ∨ res.write_errors ≠ 0 then (.done, res)
      else
        match prepare headers with
        -- chunks of the body are ignored from now on
        | .broken => (.error, { res with ignore_body := true })
        | .refused headers => (.error, { res with headers := some headers })
        | .full headers => (.error, { res with headers := some headers }.fail)
        | .ready headers =>
            let header := headers ++ [13, 10]
            (.send header, { res with headers := some header })

/-- The counters after the headers. -/
def Response.headersDone (res : Response) : Response :=
  { res with
    headers_size := res.headers_size + res.write_pos, write_pos := 0, headers_sent := true }

def upsgi_response_write_headers_do (prepare : Bytes → Prepared) (ws : List WriteCall)
    (res : Response) : WriteRet × Response × List WriteCall :=
  match upsgi_response_write_headers_do0 prepare res with
  | (.done, res) => (.ok, res, ws)
  | (.error, res) => (.error, res, ws)
  | (.send header, res) =>
      match writeLoop header ws res with
      | (.ok, res, ws) => (.ok, res.headersDone, ws)
      | r => r

/-- The counters after a chunk of the body. -/
def Response.bodyDone (res : Response) : Response :=
  { res with response_size := res.response_size + res.write_pos, write_pos := 0 }

/-- The plain loop for the body. -/
def bodyLoop (buf : Bytes) (ws : List WriteCall) (res : Response) :
    WriteRet × Response × List WriteCall :=
  match writeLoop buf ws res with
  | (.ok, res, ws) => (.ok, res.bodyDone, ws)
  | r => r

/-- The counters when only the body is left. -/
def Response.settle (res : Response) (header : Bytes) : Response :=
  let headers_size := res.headers_size + header.length
  { res with
    headers_size := headers_size
    headers_sent := true
    response_size := res.response_size + (res.write_pos - headers_size)
    write_pos := 0 }

/-- The counters when everything was written at once. -/
def Response.bothDone (res : Response) (header body : Bytes) : Response :=
  { res with
    headers_size := res.headers_size + header.length
    response_size := res.response_size + body.length
    headers_sent := true
    write_pos := 0 }

/-- The loop around `proto_writev`.  A single vector is written by the plain loop. -/
def writevLoop (header body : Bytes) :
    List WriteCall → Response → List Bytes → Nat → WriteRet × Response × List WriteCall
  | [], res, iov, iov_len =>
      if iov_len = 1 then bodyLoop (iov.getD 0 []) [] (res.settle header) else (.pending, res, [])
  | w :: ws, res, iov, iov_len =>
      if iov_len = 1 then bodyLoop (iov.getD 0 []) (w :: ws) (res.settle header)
      else
        match upsgi_proto_base_writev res iov iov_len w with
        | (.ok, res, _, _) => (.ok, res.bothDone header body, ws)
        | (.more, res, iov, iov_len) => writevLoop header body ws res iov iov_len
        | (.again true, res, iov, iov_len) => writevLoop header body ws res iov iov_len
        | (.again false, res, _, _) => (.error, res.fail, ws)
        | (.fail, res, _, _) => (.error, res.fail, ws)

def upsgi_response_writev_headers_and_body_do (prepare : Bytes → Prepared) (body : Bytes)
    (ws : List WriteCall) (res : Response) : WriteRet × Response × List WriteCall :=
  match upsgi_response_write_headers_do0 prepare res with
  | (.done, res) => (.ok, res, ws)
  | (.error, res) => (.error, res, ws)
  | (.send header, res) => writevLoop header body ws res [header, body] 2

/-- The body behind the headers: `sendbody`. -/
def sendBody (body : Bytes) (ws : List WriteCall) (res : Response) :
    WriteRet × Response × List WriteCall :=
  if body = [] then (.ok, res, ws) else bodyLoop body ws res

/-- The headers and then the body with the plain loops. -/
def writeSeparately (prepare : Bytes → Prepared) (body : Bytes) (ws : List WriteCall)
    (res : Response) : WriteRet × Response × List WriteCall :=
  match upsgi_response_write_headers_do prepare ws res with
  | (.ok, res, ws) => sendBody body ws res
  -- counted once more here than in the coalesced write
  | (.error, res, ws) => (.error, res.fail, ws)
  | (.pending, res, ws) => (.pending, res, ws)

/-- `upsgi_response_write_body_do`, where `proto_writev` says whether the protocol has
    one. -/
def upsgi_response_write_body_do (proto_writev : Bool) (prepare : Bytes → Prepared) (body : Bytes)
    (ws : List WriteCall) (res : Response) : WriteRet × Response × List WriteCall :=
  if res.write_errors ≠ 0 then (.error, res, ws)
  else if res.ignore_body then (.ok, res, ws)
  else if res.headers_sent then sendBody body ws res
  else if proto_writev ∧ body ≠ [] ∧ res.headers.isSome then
    upsgi_response_writev_headers_and_body_do prepare body ws res
  else writeSeparately prepare body ws res

/-! ### The calls of a response -/

/-- What is done with a response. -/
inductive ResponseOp where
  /-- `upsgi_response_prepare_headers` and `upsgi_response_add_header`, which look at
      the counters first. -/
  | setHeaders (headers : Bytes)
  /-- The route action `disableheaders`. -/
  | disableHeaders
  | writeHeaders (prepare : Bytes → Prepared) (ws : List WriteCall)
  | writeBody (proto_writev : Bool) (prepare : Bytes → Prepared) (body : Bytes)
      (ws : List WriteCall)

/-- The response after a call that has returned. -/
def returnedResponse : WriteRet × Response × List WriteCall → Option Response
  | (.pending, _, _) => none
  | (_, res, _) => some res

def responseStep (res : Response) : ResponseOp → Option Response
  | .setHeaders headers =>
      if res.headers_sent ∨ res.headers_size ≠ 0 ∨ res.response_size ≠ 0 ∨ res.write_errors ≠ 0 then
        some res
      else some { res with headers := some headers }
  | .disableHeaders => some { res with headers_sent := true }
  | .writeHeaders prepare ws => returnedResponse (upsgi_response_write_headers_do prepare ws res)
  | .writeBody proto_writev prepare body ws =>
      returnedResponse (upsgi_response_write_body_do proto_writev prepare body ws res)

end Upsgi
