import Upsgi.Core.Offload
import Upsgi.Lib.FastcgiRecord
import Upsgi.Lib.Machine

/-! # Writing a response over FastCGI

    `upsgi_proto_fastcgi_write` and `upsgi_proto_fastcgi_sendfile` of `proto/fastcgi.c`.
    Both send a `STDOUT` record at a time.  `proto_parser_status` counts the bytes of its
    content that are left, and a call that finds 0 there opens the next record.

    A header is sent by `upsgi_write_true_nb` of `core/io.c`, which waits for the connection
    by itself.  The content is sent by one call of the system, and the caller is asked to come
    again when that was not enough.
-/

namespace Upsgi

open Framing (Bytes)
open List

/-! ### The model -/

/-- What one of the two functions is asked to send. -/
inductive FcgiOp where
  | write (buf : Bytes)
  | sendfile (file : Bytes) (pos len : Nat)
  deriving DecidableEq, Repr

/-- The fields of `struct wsgi_request` that the functions use.  `sent` is what the connection
    has taken. -/
structure FcgiWriter where
  stream_id : Nat
  proto_parser_status : Nat := 0
  write_pos : Nat := 0
  sent : Bytes := []
  deriving DecidableEq, Repr

/-- `upsgi_write_true_nb`: whether it succeeds, and what the connection has taken then.  The
    list has the results of the calls that are made, and no others.  After `again true` the
    call is made a second time, and that one has to take something. -/
def upsgi_write_true_nb : List WriteCall → Bytes → Bytes → Option (Bool × Bytes)
  | [], [], sent => some (true, sent)
  | .wrote n :: ws, b :: buf, sent =>
      upsgi_write_true_nb ws (buf.drop n) (sent ++ b :: buf.take n)
  | .again true :: .wrote n :: ws, b :: buf, sent =>
      upsgi_write_true_nb ws (buf.drop n) (sent ++ b :: buf.take n)
  | [.again true, _], _ :: _, sent => some (false, sent)
  | [.again false], _ :: _, sent => some (false, sent)
  | [.failed], _ :: _, sent => some (false, sent)
  | _, _, _ => none

/-- The `struct fcgi_record` of a `STDOUT` record. -/
def stdoutHeader (stream_id fcgi_len : Nat) : Bytes :=
  [1, 6, UInt8.ofNat (stream_id / 256), UInt8.ofNat stream_id, UInt8.ofNat (fcgi_len / 256),
    UInt8.ofNat fcgi_len, 0, 0]

namespace FcgiWriter

/-- The first part of both functions, whether it succeeds. -/
def openRecord (len : Nat) (header : List WriteCall) (req : FcgiWriter) :
    Option (Bool × FcgiWriter) :=
  if req.proto_parser_status = 0 then
    let fcgi_len := min (len - req.write_pos) 65535
    -- the status is set before the header is sent
    (upsgi_write_true_nb header (stdoutHeader req.stream_id fcgi_len) req.sent).map
      fun (sent, bytes) => (sent, { req with proto_parser_status := fcgi_len, sent := bytes })
  else if header = [] then some (true, req)
  else none

/-- The second part of both functions: content from the byte `pos + write_pos` of `source`. -/
def sendContent (source : Bytes) (pos len : Nat) (req : FcgiWriter) :
    WriteCall → ProtoRet × FcgiWriter
  | .wrote n =>
      let bs := sendfile source (pos + req.write_pos) req.proto_parser_status n
      let req' := { req with
        write_pos := req.write_pos + bs.length
        proto_parser_status := req.proto_parser_status - bs.length
        sent := req.sent ++ bs }
      if bs = [] then (.fail, req)
      else if req'.write_pos = len then (.ok, req')
      else (.more, req')
  | .again ready => (.again ready, req)
  | .failed => (.fail, req)

/-- The functions, which differ in where the bytes are. -/
def send (source : Bytes) (pos len : Nat) (header : List WriteCall) (content : WriteCall)
    (req : FcgiWriter) : Option (ProtoRet × FcgiWriter) :=
  (req.openRecord len header).map fun
    | (true, req) => req.sendContent source pos len content
    | (false, req) => (.fail, req)

end FcgiWriter

def upsgi_proto_fastcgi_write (buf : Bytes) :
    List WriteCall → WriteCall → FcgiWriter → Option (ProtoRet × FcgiWriter) :=
  FcgiWriter.send buf 0 buf.length

def upsgi_proto_fastcgi_sendfile (file : Bytes) (pos len : Nat) :
    List WriteCall → WriteCall → FcgiWriter → Option (ProtoRet × FcgiWriter) :=
  FcgiWriter.send file pos len

/-! ### A response -/

namespace FcgiOp

def len : FcgiOp → Nat
  | .write buf => buf.length
  | .sendfile _ _ len => len

/-- The buffer or the file. -/
def source : FcgiOp → Bytes
  | .write buf => buf
  | .sendfile file _ _ => file

def pos : FcgiOp → Nat
  | .write _ => 0
  | .sendfile _ pos _ => pos

/-- The bytes that are to be sent. -/
def data (op : FcgiOp) : Bytes :=
  fileRange op.source op.pos op.len

def call : FcgiOp → List WriteCall → WriteCall → FcgiWriter → Option (ProtoRet × FcgiWriter)
  | .write buf => upsgi_proto_fastcgi_write buf
  | .sendfile file pos len => upsgi_proto_fastcgi_sendfile file pos len

theorem call_eq (op : FcgiOp) : op.call = FcgiWriter.send op.source op.pos op.len := by
  cases op <;> rfl

end FcgiOp

/-- A response in the making: the operation that is not complete yet, and the data of those
    that are. -/
structure FcgiResponse where
  req : FcgiWriter
  current : Option FcgiOp := none
  given : Bytes := []
  deriving DecidableEq, Repr

inductive FcgiEvent where
  | begin (op : FcgiOp)
  /-- A call for the present operation, with the results of the writes of the header, and of
      the write of the content if it comes to it. -/
  | call (header : List WriteCall) (content : WriteCall)
  deriving DecidableEq, Repr

/-- One operation after the other.  Each is called until it returns `UPSGI_OK`, whatever else
    it returns. -/
def fcgiStep (s : FcgiResponse) : FcgiEvent → Option FcgiResponse
  | .begin op =>
      if s.current = none ∧ 0 < op.len then
        some { s with req := { s.req with write_pos := 0 }, current := some op }
      else none
  | .call header content =>
      match s.current with
      | none => none
      | some op =>
          (op.call header content s.req).map fun (ret, req) =>
            -- the caller sets `write_pos` to 0 again at the next operation
            if ret = .ok then { req := req, current := none, given := s.given ++ op.data }
            else { s with req := req }

/-- The response before anything is written. -/
def FcgiResponse.start (stream_id : Nat) : FcgiResponse where
  req := { stream_id := stream_id }

/-! ### Headers -/

/-- No write fails, and after `EAGAIN` the connection becomes ready and takes something. -/
inductive SteadyWrites : List WriteCall → Prop where
  | nil : SteadyWrites []
  | wrote {ws : List WriteCall} (n : Nat) (rest : SteadyWrites ws) : SteadyWrites (.wrote n :: ws)
  | again {ws : List WriteCall} (n : Nat) (rest : SteadyWrites ws) :
      SteadyWrites (.again true :: .wrote n :: ws)

/-- Under a steady schedule everything is written. -/
theorem write_true_nb_steady {ws : List WriteCall} {buf sent : Bytes} {ret : Bool × Bytes}
    (hsteady : SteadyWrites ws) (h : upsgi_write_true_nb ws buf sent = some ret) :
    ret = (true, sent ++ buf) := by
  -- both kinds of write cut the buffer in two
  have hcut (b : UInt8) (buf sent : Bytes) (n : Nat) :
      sent ++ b :: buf.take n ++ buf.drop n = sent ++ b :: buf := by
    rw [append_assoc, cons_append, take_append_drop]
  induction hsteady generalizing buf sent with
  | nil =>
    cases buf with
    | nil => rw [append_nil, ← Option.some.inj h]
    | cons b buf => nomatch h
  | wrote n _ ih | again n _ ih =>
    cases buf with
    | nil => nomatch h
    | cons b buf => rw [ih h, hcut]

/-- A `STDOUT` record for a request, without padding. -/
structure IsStdout (stream_id : Nat) (rec : Fcgi.Record) : Prop where
  version : rec.version = 1
  type : rec.type = 6
  req1 : rec.req1 = UInt8.ofNat (stream_id / 256)
  req0 : rec.req0 = UInt8.ofNat stream_id
  padding : rec.padding = []
  reserved : rec.reserved = 0

/-- The header is that of a record with any content of the announced length. -/
theorem stdoutHeader_opens (stream_id : Nat) {content : Bytes} (hlen : content.length < 65536) :
    ∃ rec, IsStdout stream_id rec ∧ rec.content = content ∧
      rec.wire = stdoutHeader stream_id content.length ++ content := by
  let stdout : Fcgi.Record :=
    { version := 1, type := 6, req1 := UInt8.ofNat (stream_id / 256)
      req0 := UInt8.ofNat stream_id, content := content, padding := [], reserved := 0
      content_lt := hlen, padding_lt := by decide }
  refine ⟨stdout, ⟨rfl, rfl, rfl, rfl, rfl, rfl⟩, rfl, ?_⟩
  show stdout.header ++ (content ++ []) = _
  rw [append_nil]
  rfl

/-! ### Calls -/

/-- An operation under way: the record that is open ends within the operation, and behind the
    operations before it the content sent so far is the beginning of the data. -/
structure FcgiSending (op : FcgiOp) (given : Bytes) (req : FcgiWriter) : Prop where
  before : req.write_pos < op.len
  room : req.write_pos + req.proto_parser_status ≤ op.len
  framed : Fcgi.Framed (IsStdout req.stream_id) req.proto_parser_status req.sent
    (given ++ fileRange op.source op.pos req.write_pos)

/-- The operation is complete, and so is the last record. -/
structure FcgiSent (given : Bytes) (req : FcgiWriter) : Prop where
  closed : req.proto_parser_status = 0
  framed : Fcgi.Framed (IsStdout req.stream_id) 0 req.sent given

section Calls

variable {op : FcgiOp} {given : Bytes} {req : FcgiWriter}

/-- A steady header opens a record only where none is open. -/
theorem openRecord_steady {header : List WriteCall} {ret : Bool × FcgiWriter}
    (hreq : FcgiSending op given req) (hsteady : SteadyWrites header)
    (h : req.openRecord op.len header = some ret) :
    ret.1 = true ∧ ret.2.stream_id = req.stream_id ∧ FcgiSending op given ret.2 := by
  unfold FcgiWriter.openRecord at h
  by_cases hstatus : req.proto_parser_status = 0
  · rw [if_pos hstatus] at h
    obtain ⟨⟨sent, bytes⟩, hwrite, rfl⟩ := Option.map_eq_some_iff.mp h
    obtain ⟨rfl, rfl⟩ := Prod.mk.inj (write_true_nb_steady hsteady hwrite)
    have hframed := hreq.framed
    rw [hstatus] at hframed
    refine ⟨rfl, rfl, hreq.before, ?_, hframed.header ?_⟩
    · have hbefore := hreq.before
      show req.write_pos + min (op.len - req.write_pos) 65535 ≤ op.len
      omega
    · intro content hcontent
      replace hcontent : content.length = min (op.len - req.write_pos) 65535 := hcontent
      rw [← hcontent]
      exact stdoutHeader_opens req.stream_id (by omega)
  · rw [if_neg hstatus] at h
    split at h
    · cases h
      exact ⟨rfl, rfl, hreq⟩
    · nomatch h

/-- What a call leaves behind: with `UPSGI_OK` the operation is complete. -/
def FcgiCallOk (op : FcgiOp) (given : Bytes) (ret : ProtoRet × FcgiWriter) : Prop :=
  if ret.1 = .ok then FcgiSent (given ++ op.data) ret.2 else FcgiSending op given ret.2

/-- The content that is sent belongs to the open record and continues the data. -/
theorem sendContent_ok (hreq : FcgiSending op given req) (w : WriteCall) :
    (req.sendContent op.source op.pos op.len w).2.stream_id = req.stream_id ∧
      FcgiCallOk op given (req.sendContent op.source op.pos op.len w) := by
  cases w with
  | again ready | failed => exact ⟨rfl, hreq⟩
  | wrote n =>
    unfold FcgiWriter.sendContent
    dsimp only
    have hsource := sendfile_eq op.source (op.pos + req.write_pos) req.proto_parser_status n
    have hlength : (sendfile op.source (op.pos + req.write_pos) req.proto_parser_status n).length ≤
        req.proto_parser_status := by
      rw [length_sendfile]
      omega
    generalize sendfile op.source (op.pos + req.write_pos) req.proto_parser_status n = bs
      at hsource hlength ⊢
    have hroom := hreq.room
    -- the bytes come from the place in the source where the last ones ended
    have hframed := hreq.framed.content hlength
    rw [append_assoc] at hframed
    nth_rewrite 3 [hsource] at hframed
    rw [fileRange_append] at hframed
    by_cases hnil : bs = []
    · rw [if_pos hnil]
      exact ⟨rfl, hreq⟩
    · rw [if_neg hnil]
      have hbefore := hreq.before
      by_cases hend : req.write_pos + bs.length = op.len
      · -- the record ends with the operation, so no status is left for the next one
        rw [if_pos hend]
        have hclosed : req.proto_parser_status - bs.length = 0 := by omega
        rw [hclosed, hend] at hframed
        exact ⟨rfl, hclosed, hframed⟩
      · rw [if_neg hend]
        refine ⟨rfl, ?_, ?_, hframed⟩
        · show req.write_pos + bs.length < op.len
          omega
        · show req.write_pos + bs.length + (req.proto_parser_status - bs.length) ≤ op.len
          omega

theorem call_ok {header : List WriteCall} {content : WriteCall} {ret : ProtoRet × FcgiWriter}
    (hreq : FcgiSending op given req) (hsteady : SteadyWrites header)
    (h : op.call header content req = some ret) :
    ret.2.stream_id = req.stream_id ∧ FcgiCallOk op given ret := by
  rw [FcgiOp.call_eq] at h
  obtain ⟨⟨opened, req'⟩, hopen, rfl⟩ := Option.map_eq_some_iff.mp h
  obtain ⟨hopened, hid, hreq'⟩ := openRecord_steady hreq hsteady hopen
  obtain rfl : opened = true := hopened
  obtain ⟨hid', hok⟩ := sendContent_ok hreq' content
  exact ⟨hid'.trans hid, hok⟩

end Calls

/-! ### Runs -/

/-- The state of a response. -/
structure FcgiFramed (stream_id : Nat) (s : FcgiResponse) : Prop where
  id : s.req.stream_id = stream_id
  between : s.current = none → FcgiSent s.given s.req
  within : ∀ op, s.current = some op → FcgiSending op s.given s.req

/-- The condition on an event: the header is sent under a steady schedule. -/
def FcgiEvent.SteadyHeader : FcgiEvent → Prop
  | .begin _ => True
  | .call header _ => SteadyWrites header

theorem fcgiFramed_start (stream_id : Nat) : FcgiFramed stream_id (.start stream_id) where
  id := rfl
  between := fun _ => ⟨rfl, Fcgi.Framed.nil⟩
  within := nofun

theorem fcgiStep_framed {stream_id : Nat} (s : FcgiResponse) (e : FcgiEvent) (s' : FcgiResponse)
    (hs : FcgiFramed stream_id s) (hok : e.SteadyHeader) (hstep : fcgiStep s e = some s') :
    FcgiFramed stream_id s' := by
  cases e with
  | begin op =>
    unfold fcgiStep at hstep
    dsimp only at hstep
    split at hstep
    case isTrue hbegin =>
      cases hstep
      -- no record is open, and nothing of the new data was sent
      obtain ⟨hclosed, hframed⟩ := hs.between hbegin.1
      refine ⟨hs.id, nofun, ?_⟩
      rintro _ ⟨⟩
      refine ⟨hbegin.2, ?_, ?_⟩
      · show 0 + s.req.proto_parser_status ≤ op.len
        omega
      · show Fcgi.Framed _ s.req.proto_parser_status s.req.sent (s.given ++ fileRange _ _ 0)
        rw [hclosed]
        unfold fileRange
        rwa [take_zero, append_nil]
    case isFalse => nomatch hstep
  | call header content =>
    unfold fcgiStep at hstep
    dsimp only at hstep
    split at hstep
    case h_1 => nomatch hstep
    case h_2 op hop =>
      obtain ⟨⟨ret, req⟩, hcall, rfl⟩ := Option.map_eq_some_iff.mp hstep
      obtain ⟨hid, hret⟩ := call_ok (hs.within op hop) hok hcall
      unfold FcgiCallOk at hret
      split at hret
      case isTrue hret_ok =>
        rw [if_pos hret_ok]
        exact ⟨hid.trans hs.id, (fun _ => hret), nofun⟩
      case isFalse hret_ok =>
        -- a call that failed is repeated like one that asks for it
        rw [if_neg hret_ok]
        refine ⟨hid.trans hs.id, (fun h => ?_), (fun op' h => ?_)⟩
        · exact absurd (hop.symm.trans h) nofun
        · exact Option.some.inj (hop.symm.trans h) ▸ hret

/-- When every header is sent under a steady schedule, then between two operations the bytes
    sent are `STDOUT` records of the request, and their contents are the data of the
    operations in order. -/
theorem fastcgi_response_framed (stream_id : Nat) (es : List FcgiEvent) (s : FcgiResponse)
    (hsteady : ∀ e ∈ es, e.SteadyHeader)
    (hrun : Machine.run fcgiStep (.start stream_id) es = some s) (hbetween : s.current = none) :
    ∃ records : List Fcgi.Record, (∀ rec ∈ records, IsStdout stream_id rec) ∧
      s.req.sent = Fcgi.wire records ∧ records.flatMap Fcgi.Record.content = s.given := by
  have hs := Machine.run_invariant (FcgiFramed stream_id) FcgiEvent.SteadyHeader fcgiStep_framed es
    _ s (fcgiFramed_start stream_id) hsteady hrun
  have hframed := (hs.between hbetween).framed
  rw [hs.id] at hframed
  exact hframed.records

/-- A buffer and a part of a file, with a header in two pieces and `EAGAIN` in both parts of a
    record. -/
theorem fastcgi_response_framed_two :
    let sent := [1, 6, 0, 1, 0, 2, 0, 0, 104, 105, 1, 6, 0, 1, 0, 2, 0, 0, 8, 9]
    Machine.run fcgiStep (.start 1)
      [.begin (.write [104, 105]), .call [.wrote 2, .again true, .wrote 9] (.again true),
        .call [] (.wrote 0), .call [] (.wrote 5), .begin (.sendfile [7, 8, 9] 1 2),
        .call [.wrote 7] (.wrote 9)] = some ⟨⟨1, 0, 2, sent⟩, none, [104, 105, 8, 9]⟩ ∧
    ∃ records : List Fcgi.Record, (∀ rec ∈ records, IsStdout 1 rec) ∧
      sent = Fcgi.wire records ∧ records.flatMap Fcgi.Record.content = [104, 105, 8, 9] := by
  intro sent
  refine and_iff_left_of_imp (fun hrun => ?_) |>.mpr (by decide)
  have hone := SteadyWrites.wrote 2 (SteadyWrites.again 9 SteadyWrites.nil)
  have htwo := SteadyWrites.wrote 7 SteadyWrites.nil
  refine fastcgi_response_framed 1 _ _ ?_ hrun rfl
  simp only [forall_mem_cons, FcgiEvent.SteadyHeader, true_and]
  exact ⟨hone, SteadyWrites.nil, SteadyWrites.nil, htwo, nofun⟩

/-- The connection is ready after `EAGAIN` but refuses the header a second time.  The call
    fails, and when it is repeated the content goes out without a header. -/
theorem fastcgi_response_unframed :
    Machine.run fcgiStep (.start 1)
      [.begin (.write [104, 105]), .call [.again true, .again true] .failed,
        .call [] (.wrote 1)] = some ⟨⟨1, 0, 2, [104, 105]⟩, none, [104, 105]⟩ ∧
    ¬∃ records : List Fcgi.Record, [104, 105] = Fcgi.wire records := by
  refine ⟨by decide, ?_⟩
  rintro ⟨records, hsent⟩
  cases records with
  | nil => nomatch hsent
  | cons rec records =>
    -- a record is longer than what was sent
    have hlength := congrArg List.length hsent
    rw [Fcgi.wire_cons, length_append, Fcgi.Record.wire_length] at hlength
    have htwo : ([104, 105] : Bytes).length = 2 := rfl
    omega

end Upsgi
