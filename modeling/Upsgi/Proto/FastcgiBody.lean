import Upsgi.Proto.FastcgiParser

/-! # The body of a FastCGI request

    `upsgi_proto_fastcgi_read_body` (`proto/fastcgi.c`) goes on where the parser stopped, at the
    first `STDIN` record.  A call returns content of one record; what does not fit into the
    caller's buffer stays in `proto_parser_buf`, and the record is moved away when all of it was
    handed out.

    A call gives up with `EAGAIN` after it took off a record of another type or after one read,
    also when the next record is complete.  The next call finds that record, so on a connection
    that stays open nothing is lost or added.
-/

namespace Upsgi

open Framing Fcgi List

/-! ### A call -/

/-- The arguments of a call, and what its reads do; a read behind them would block. -/
structure BodyCall where
  len : Nat
  reads : List SockRead

/-- What a call returns: the bytes that were copied, none for the return value 0, or -1. -/
inductive BodyRet where
  | read (buf : Bytes)
  /-- The error is `EAGAIN`. -/
  | again
  | error
  deriving DecidableEq, Repr

/-- A round of the loop returns, or it goes on to the label `gather`.  With `short` it goes there
    also after a read, since the header is not complete. -/
inductive BodyStep where
  | ret (buf : Bytes) (r : FcgiRequest)
  | gather (short : Bool) (r : FcgiRequest)
  deriving DecidableEq, Repr

/-- The content of the record at the front is copied. -/
def takeStdin (r : FcgiRequest) (h : FcgiHeader) (len : Nat) : Bytes × FcgiRequest :=
  let remains := min h.fcgi_len len
  let buf := (r.proto_parser_buf.drop 8).take remains
  let r := { r with
    proto_parser_remains := h.fcgi_len - remains
    proto_parser_remains_buf := 8 + remains }
  if r.proto_parser_remains = 0 then (buf, r.takeOff h.fcgi_all_len)
  -- the memory is moved later
  else (buf, { r with proto_parser_move := h.fcgi_all_len })

/-- A round of the loop, up to the label `gather`. -/
def bodyRecord (len : Nat) (r : FcgiRequest) : BodyStep :=
  match fcgiHeader r.proto_parser_buf with
  | none => .gather true r
  | some h =>
      if h.fcgi_all_len ≤ r.proto_parser_buf.length then
        if h.fcgi_type = 5 then
          if h.fcgi_len = 0 then .ret [] { r with proto_parser_eof := true }
          else .ret (takeStdin r h len).1 (takeStdin r h len).2
        else .gather false (r.takeOff h.fcgi_all_len)
      else .gather false (r.grow h.fcgi_all_len)

/-- The loop. -/
def stdinLoop (len : Nat) : List SockRead → Bool → FcgiRequest → BodyRet × FcgiRequest
  | [], _, r =>
      match bodyRecord len r with
      | .ret buf r => (.read buf, r)
      | .gather _ r => (.again, r)
  | ev :: reads, has_read, r =>
      match bodyRecord len r with
      | .ret buf r => (.read buf, r)
      | .gather short r =>
          if has_read ∧ ¬short then (.again, r)
          else
            match r.read ev with
            | .got r => stdinLoop len reads true r
            | .again => (.again, r)
            | .error => (.error, r)
            | .closed => (.read [], r)

/-- What remains of a record is copied. -/
def takeRemains (r : FcgiRequest) (len : Nat) : Bytes × FcgiRequest :=
  let remains := min r.proto_parser_remains len
  let buf := (r.proto_parser_buf.drop r.proto_parser_remains_buf).take remains
  let r := { r with
    proto_parser_remains := r.proto_parser_remains - remains
    proto_parser_remains_buf := r.proto_parser_remains_buf + remains }
  -- all of the record was consumed
  if r.proto_parser_remains = 0 ∧ r.proto_parser_move ≠ 0 then
    (buf, { r with
      proto_parser_buf := r.proto_parser_buf.drop r.proto_parser_move
      proto_parser_move := 0 })
  else (buf, r)

def upsgi_proto_fastcgi_read_body (r : FcgiRequest) (call : BodyCall) : BodyRet × FcgiRequest :=
  if 0 < r.proto_parser_remains then
    (.read (takeRemains r call.len).1, (takeRemains r call.len).2)
  else if r.proto_parser_eof then (.read [], r)
  else stdinLoop call.len call.reads false r

/-- The calls until one returns 0: what they returned, and whether one did. -/
def bodyCalls : FcgiRequest → List BodyCall → Bytes × Bool
  | _, [] => ([], false)
  | r, call :: calls =>
      match upsgi_proto_fastcgi_read_body r call with
      | (.read [], _) => ([], true)
      | (.read (b :: buf), r) => (b :: buf ++ (bodyCalls r calls).1, (bodyCalls r calls).2)
      | (.again, r) => bodyCalls r calls
      | (.error, _) => ([], false)

/-! ### What is left of the body -/

/-- The contents of the `STDIN` records. -/
def stdinContents (records : List Fcgi.Record) : Bytes :=
  (records.filter fun rec => rec.type = 5).flatMap Fcgi.Record.content

variable {rec : Fcgi.Record} {buf : Bytes}

theorem stdinContents_cons_of_eq (h : rec.type = 5) (records : List Fcgi.Record) :
    stdinContents (rec :: records) = rec.content ++ stdinContents records := by
  unfold stdinContents
  rw [filter_cons_of_pos, flatMap_cons]
  exact decide_eq_true h

theorem stdinContents_cons_of_ne (h : rec.type ≠ 5) (records : List Fcgi.Record) :
    stdinContents (rec :: records) = stdinContents records := by
  unfold stdinContents
  rw [filter_cons_of_neg]
  exact fun hdec => h (of_decide_eq_true hdec)

/-- An upper bound for the calls that still can make progress. -/
def FcgiRequest.todo (r : FcgiRequest) : Nat :=
  2 * r.unread.length + (r.proto_parser_buf.length - r.proto_parser_move) + r.proto_parser_remains

/-- The bytes `owed` of a record are still to be handed out, and then the records `left`, before
    the bytes `tail` that begin with an empty `STDIN` record. -/
structure InBody (tail : Bytes) (left : List Fcgi.Record) (owed : Bytes) (r : FcgiRequest) :
    Prop where
  records : ∀ rec ∈ left, rec.type = 5 → rec.content ≠ []
  size : 8 ≤ r.proto_parser_buf_size
  fits : r.proto_parser_buf.length ≤ r.proto_parser_buf_size
  remains : r.proto_parser_remains = owed.length
  copied : owed ≠ [] → r.proto_parser_move ≠ 0 ∧
    (r.proto_parser_buf.drop r.proto_parser_remains_buf).take owed.length = owed
  moved : owed = [] → r.proto_parser_move = 0
  stream : r.proto_parser_buf.drop r.proto_parser_move ++ r.unread = Fcgi.wire left ++ tail
  eof : r.proto_parser_eof = true → left = [] ∧ owed = []

/-- What a call can do; `m` is a bound for what was left to do before it, and `ready` says
    whether its first read brings something. -/
inductive BodyCallOk (tail body : Bytes) (m ready : Nat) : BodyRet × FcgiRequest → Prop where
  | read {r : FcgiRequest} {left : List Fcgi.Record} {owed : Bytes} (buf : Bytes) (hne : buf ≠ [])
      (h : InBody tail left owed r) (hbody : body = buf ++ (owed ++ stdinContents left))
      (hless : r.todo < m) : BodyCallOk tail body m ready (.read buf, r)
  | finished {r : FcgiRequest} (hbody : body = []) : BodyCallOk tail body m ready (.read [], r)
  | again {r : FcgiRequest} {left : List Fcgi.Record} (h : InBody tail left [] r)
      (hbody : body = stdinContents left) (hless : r.todo + ready ≤ m) :
      BodyCallOk tail body m ready (.again, r)

section calls

variable {tail : Bytes} {left : List Fcgi.Record} {owed : Bytes} {r : FcgiRequest} {len : Nat}

/-- The remains of a record are handed out, and the record is moved away with the last of
    them. -/
theorem takeRemains_ok (h : InBody tail left owed r) (howed : owed ≠ []) (hlen : 0 < len) :
    ∃ owed', (takeRemains r len).1 ≠ [] ∧ owed = (takeRemains r len).1 ++ owed' ∧
      InBody tail left owed' (takeRemains r len).2 ∧ (takeRemains r len).2.todo < r.todo := by
  obtain ⟨hmove, hcopied⟩ := h.copied howed
  have hpos := length_pos_of_ne_nil howed
  have heof : r.proto_parser_eof ≠ true := fun heof => howed (h.eof heof).2
  have htodo : r.todo = 2 * r.unread.length + (r.proto_parser_buf.length - r.proto_parser_move) +
      owed.length := by rw [FcgiRequest.todo, h.remains]
  unfold takeRemains
  dsimp only
  rw [h.remains]
  have hn : 0 < min owed.length len := by omega
  have hle : min owed.length len ≤ owed.length := Nat.min_le_left _ _
  generalize min owed.length len = n at hn hle
  have hbuf : (r.proto_parser_buf.drop r.proto_parser_remains_buf).take n = owed.take n := by
    rw [← hcopied, take_take, Nat.min_eq_left hle]
  have hne : owed.take n ≠ [] := by
    rw [ne_eq, take_eq_nil_iff, not_or]
    exact ⟨Nat.ne_of_gt hn, howed⟩
  rw [hbuf]
  by_cases hall : owed.length - n = 0
  · rw [if_pos ⟨hall, hmove⟩]
    have htake : owed = owed.take n ++ [] := by
      rw [append_nil, take_of_length_le (Nat.le_of_sub_eq_zero hall)]
    refine ⟨[], hne, htake, ⟨h.records, h.size, ?_, hall, nofun, fun _ => rfl,
      h.stream, fun h => absurd h heof⟩, ?_⟩
    · dsimp only
      rw [length_drop]
      have hfits := h.fits
      omega
    · unfold FcgiRequest.todo at htodo ⊢
      dsimp only
      rw [htodo, length_drop]
      omega
  · rw [if_neg (fun hdone => hall hdone.1)]
    refine ⟨owed.drop n, hne, (take_append_drop n owed).symm, ⟨h.records, h.size, h.fits, ?_,
      fun _ => ⟨hmove, ?_⟩, fun hnil => ?_, h.stream, fun h => absurd h heof⟩, ?_⟩
    · rw [length_drop]
    · rw [length_drop, ← drop_drop, ← drop_take, hcopied]
    · exact absurd (Nat.sub_eq_zero_of_le (drop_eq_nil_iff.mp hnil)) hall
    · unfold FcgiRequest.todo at htodo ⊢
      dsimp only
      omega

/-! ### A round -/

/-- What a round can do when nothing is owed. -/
inductive RecordOk (tail : Bytes) (left : List Fcgi.Record) (r : FcgiRequest) :
    BodyStep → Prop where
  | read {r' : FcgiRequest} {left' : List Fcgi.Record} {owed : Bytes} (buf : Bytes) (hne : buf ≠ [])
      (h : InBody tail left' owed r')
      (hbody : stdinContents left = buf ++ (owed ++ stdinContents left'))
      (hless : r'.todo < r.todo) : RecordOk tail left r (.ret buf r')
  | finished {r' : FcgiRequest} (hbody : stdinContents left = []) : RecordOk tail left r (.ret [] r')
  | gather {r' : FcgiRequest} {left' : List Fcgi.Record} (short : Bool) (h : InBody tail left' [] r')
      (hbody : stdinContents left = stdinContents left')
      (heof : r'.proto_parser_eof = false)
      (hspace : r'.proto_parser_buf.length < r'.proto_parser_buf_size)
      (hless : r'.todo < r.todo ∨ r'.todo = r.todo ∧ r'.unread ≠ []) :
      RecordOk tail left r (.gather short r')

theorem todo_eq (h : InBody tail left [] r) :
    r.todo = 2 * r.unread.length + r.proto_parser_buf.length := by
  rw [FcgiRequest.todo, h.remains, h.moved rfl]
  rfl

/-- The content of a complete record is handed out like the remains of a record of which nothing
    was handed out yet. -/
theorem takeStdin_eq (hmove : r.proto_parser_move = 0) {h : FcgiHeader}
    (hall_len : h.fcgi_all_len ≠ 0) :
    takeStdin r h len = takeRemains { r with
      proto_parser_remains := h.fcgi_len
      proto_parser_remains_buf := 8
      proto_parser_move := h.fcgi_all_len } len := by
  unfold takeStdin takeRemains FcgiRequest.takeOff
  by_cases hzero : h.fcgi_len - min h.fcgi_len len = 0
  · rw [if_pos hzero, if_pos ⟨hzero, hall_len⟩, hmove]
  · rw [if_neg hzero, if_neg fun h => hzero h.1]

theorem takeStdin_ok (h : InBody tail (rec :: left) [] r) (htype : rec.type = 5)
    (hbuf : r.proto_parser_buf = rec.wire ++ buf)
    (hstream : buf ++ r.unread = Fcgi.wire left ++ tail) (heof : r.proto_parser_eof = false)
    (hlen : 0 < len) :
    RecordOk tail (rec :: left) r
      (.ret (takeStdin r (headerOf rec) len).1 (takeStdin r (headerOf rec) len).2) := by
  obtain ⟨hcontent, hrecords⟩ := forall_mem_cons.mp h.records
  have hwire := rec.wire_length
  have hlength : r.proto_parser_buf.length = rec.wire.length + buf.length := by
    rw [hbuf, length_append]
  have hcopied : (r.proto_parser_buf.drop 8).take rec.content.length = rec.content := by
    rw [hbuf, wire_content]
  have hin : InBody tail left rec.content
      { r with
        proto_parser_remains := rec.content.length
        proto_parser_remains_buf := 8
        proto_parser_move := rec.wire.length } := by
    refine ⟨hrecords, h.size, h.fits, rfl, fun _ => ⟨?_, hcopied⟩,
      fun hnil => absurd hnil (hcontent htype), ?_, fun h => nomatch heof.symm.trans h⟩
    · dsimp only
      omega
    · rw [hbuf, drop_left]
      exact hstream
  have hall_len := headerOf_all_len rec
  have hfcgi_len : (headerOf rec).fcgi_len = rec.content.length := rfl
  rw [takeStdin_eq (h.moved rfl) (by omega), hall_len, hfcgi_len]
  obtain ⟨owed, hne, hsplit, hin', hless⟩ := takeRemains_ok hin (hcontent htype) hlen
  refine .read _ hne hin' ?_ (Nat.lt_trans hless ?_)
  · rw [stdinContents_cons_of_eq htype, ← append_assoc]
    exact congrArg (· ++ stdinContents left) hsplit
  · rw [todo_eq h]
    unfold FcgiRequest.todo
    dsimp only
    omega

theorem InBody.grow (h : InBody tail left [] r) (heof : r.proto_parser_eof = false) {all_len : Nat}
    (hpos : 0 < all_len) (hunread : r.unread ≠ []) :
    RecordOk tail left r (.gather false (r.grow all_len)) := by
  obtain ⟨hspace, hle⟩ := grow_space r hpos h.fits
  obtain ⟨size, hgrow⟩ := grow_frame r all_len
  rw [hgrow] at hspace hle ⊢
  have hin : InBody tail left [] { r with proto_parser_buf_size := size } :=
    { h with size := Nat.le_trans h.size hle, fits := Nat.le_of_lt hspace }
  exact .gather false hin rfl heof hspace (.inr ⟨rfl, hunread⟩)

/-- A complete record of another type is taken off. -/
theorem InBody.skip (h : InBody tail (rec :: left) [] r) (htype : rec.type ≠ 5)
    (heof : r.proto_parser_eof = false) (hbuf : r.proto_parser_buf = rec.wire ++ buf)
    (hstream : buf ++ r.unread = Fcgi.wire left ++ tail) :
    RecordOk tail (rec :: left) r (.gather false (r.takeOff rec.wire.length)) := by
  have hmoved : r.proto_parser_buf.drop rec.wire.length = buf := by
    rw [hbuf, drop_left]
  have hlength : r.proto_parser_buf.length = rec.wire.length + buf.length := by
    rw [hbuf, length_append]
  have hwire := rec.wire_length
  have hfits := h.fits
  have hin : InBody tail left [] (r.takeOff rec.wire.length) := by
    refine ⟨(forall_mem_cons.mp h.records).2, h.size, ?_, h.remains, h.copied, h.moved, ?_,
      fun h => nomatch heof.symm.trans h⟩
    · show (r.proto_parser_buf.drop rec.wire.length).length ≤ r.proto_parser_buf_size
      rw [hmoved]
      omega
    · show (r.proto_parser_buf.drop rec.wire.length).drop r.proto_parser_move ++ r.unread = _
      rw [h.moved rfl, hmoved]
      exact hstream
  refine .gather false hin (stdinContents_cons_of_ne htype left) heof ?_ (.inl ?_)
  · show (r.proto_parser_buf.drop rec.wire.length).length < r.proto_parser_buf_size
    rw [hmoved]
    omega
  · rw [todo_eq hin, todo_eq h]
    show 2 * r.unread.length + (r.proto_parser_buf.drop rec.wire.length).length < _
    rw [hmoved]
    omega

end calls

section rounds

variable {fin : Fcgi.Record} {rest : Bytes} {left : List Fcgi.Record} {r : FcgiRequest} {len : Nat}

/-- A round of the loop with a complete record at the front of the buffer. -/
theorem bodyRecord_front {behind : Bytes} (len : Nat)
    (hbuf : r.proto_parser_buf = rec.wire ++ behind) :
    bodyRecord len r =
      if rec.type = 5 then
        if rec.content = [] then .ret [] { r with proto_parser_eof := true }
        else .ret (takeStdin r (headerOf rec) len).1 (takeStdin r (headerOf rec) len).2
      else .gather false (r.takeOff (headerOf rec).fcgi_all_len) := by
  have hlen : r.proto_parser_buf.length = rec.wire.length + behind.length := by
    rw [hbuf, length_append]
  have hwire := rec.wire_length
  have hheader : fcgiHeader r.proto_parser_buf = some (headerOf rec) :=
    fcgiHeader_wire ⟨[], (append_nil _).trans hbuf⟩ (by omega)
  have hzero : (headerOf rec).fcgi_len = 0 ↔ rec.content = [] := length_eq_zero_iff
  have hcomplete : (headerOf rec).fcgi_all_len ≤ r.proto_parser_buf.length := by
    rw [headerOf_all_len]
    omega
  unfold bodyRecord
  rw [hheader]
  dsimp only
  rw [if_pos hcomplete]
  simp only [hzero]
  rfl

/-- A round with a part of a record that has a complete header. -/
theorem bodyRecord_incomplete {behind : Bytes} (hbegins : r.proto_parser_buf <+: rec.wire ++ behind)
    (hle : 8 ≤ r.proto_parser_buf.length) (hlt : r.proto_parser_buf.length < rec.wire.length) :
    bodyRecord len r = .gather false (r.grow rec.wire.length) := by
  unfold bodyRecord
  rw [fcgiHeader_wire hbegins hle]
  dsimp only
  rw [headerOf_all_len, if_neg (Nat.not_le_of_lt hlt)]

theorem bodyRecord_ok (hfin : fin.type = 5) (hempty : fin.content = [])
    (h : InBody (fin.wire ++ rest) left [] r) (heof : r.proto_parser_eof = false) (hlen : 0 < len) :
    RecordOk (fin.wire ++ rest) left r (bodyRecord len r) := by
  have hstream := h.stream
  rw [h.moved rfl, drop_zero] at hstream
  have hbegins : r.proto_parser_buf <+: Fcgi.wire left ++ (fin.wire ++ rest) := ⟨r.unread, hstream⟩
  -- if the buffer ends in a record, there is something to read
  have hunread : r.proto_parser_buf.length < (Fcgi.wire left ++ (fin.wire ++ rest)).length →
      r.unread ≠ [] := by
    intro hlt hnil
    rw [← hstream, hnil, append_nil] at hlt
    exact Nat.lt_irrefl _ hlt
  have hfinlen := fin.wire_length
  by_cases hshort : r.proto_parser_buf.length < 8
  · unfold bodyRecord
    rw [fcgiHeader_short hshort]
    refine .gather true h rfl heof (Nat.lt_of_lt_of_le hshort h.size) (.inr ⟨rfl, hunread ?_⟩)
    rw [length_append, length_append]
    omega
  have hle := Nat.le_of_not_lt hshort
  cases left with
  | nil =>
    rw [wire_nil, nil_append] at hbegins
    rcases append_cut hbegins with ⟨-, hincomplete⟩ | ⟨buf, hbuf, -⟩
    · rw [bodyRecord_incomplete hbegins hle hincomplete]
      refine h.grow heof (by omega) (hunread ?_)
      rw [wire_nil, nil_append, length_append]
      omega
    · rw [bodyRecord_front len hbuf, if_pos hfin, if_pos hempty]
      exact .finished rfl
  | cons rec left =>
    rw [wire_cons, append_assoc] at hbegins
    rcases append_cut hbegins with ⟨-, hincomplete⟩ | ⟨buf, hbuf, -⟩
    · rw [bodyRecord_incomplete hbegins hle hincomplete]
      refine h.grow heof (Nat.lt_of_le_of_lt (Nat.zero_le _) hincomplete) (hunread ?_)
      rw [wire_cons, length_append, length_append]
      omega
    · rw [bodyRecord_front len hbuf]
      rw [hbuf, wire_cons, append_assoc, append_assoc] at hstream
      have hafter := append_cancel_left hstream
      by_cases htype : rec.type = 5
      · rw [if_pos htype, if_neg ((forall_mem_cons.mp h.records).1 htype)]
        exact takeStdin_ok h htype hbuf hafter heof hlen
      · rw [if_neg htype, headerOf_all_len]
        exact h.skip htype heof hbuf hafter

/-- What the first of some reads brings. -/
def firstRead (reads : List SockRead) : Nat :=
  dataReads (reads.take 1)

theorem firstRead_le_one (reads : List SockRead) : firstRead reads ≤ 1 :=
  Nat.le_trans countP_le_length (length_take_le _ _)

theorem BodyCallOk.weaken {tail body : Bytes} {m m' ready : Nat} {out : BodyRet × FcgiRequest}
    (h : BodyCallOk tail body m 0 out) (hm : m + ready ≤ m') : BodyCallOk tail body m' ready out := by
  cases h with
  | read buf hne h hbody hless => exact .read buf hne h hbody (by omega)
  | finished hbody => exact .finished hbody
  | again h hbody hless => exact .again h hbody (by omega)

/-- The loop of a call: after a read it has made progress. -/
theorem stdinLoop_ok (hfin : fin.type = 5) (hempty : fin.content = []) (hlen : 0 < len)
    (reads : List SockRead) (hreads : ∀ ev ∈ reads, ev.Delivers) (has_read : Bool) {ready : Nat}
    (hfirst : ready ≤ firstRead reads) (hready : has_read = true → ready = 0)
    (h : InBody (fin.wire ++ rest) left [] r) (heof : r.proto_parser_eof = false) :
    BodyCallOk (fin.wire ++ rest) (stdinContents left) r.todo ready
      (stdinLoop len reads has_read r) := by
  induction reads generalizing left r has_read ready with
  | nil =>
    have hround := bodyRecord_ok hfin hempty h heof hlen
    have hnone : firstRead [] = 0 := rfl
    unfold stdinLoop
    generalize bodyRecord len r = round at hround
    cases hround with
    | read buf hne h hbody hless => exact .read buf hne h hbody hless
    | finished hbody => exact .finished hbody
    | gather short h hbody heof hspace hless => exact .again h hbody (by omega)
  | cons ev reads ih =>
    obtain ⟨hev, hreads⟩ := forall_mem_cons.mp hreads
    have hround := bodyRecord_ok hfin hempty h heof hlen
    have hone := firstRead_le_one (ev :: reads)
    unfold stdinLoop
    generalize bodyRecord len r = round at hround
    cases hround with
    | read buf hne h hbody hless => exact .read buf hne h hbody hless
    | finished hbody => exact .finished hbody
    | @gather r' left' short h' hbody heof' hspace hless =>
      dsimp only
      by_cases hstop : has_read = true ∧ ¬short = true
      · -- one read is enough for a call
        rw [if_pos hstop]
        have hzero := hready hstop.1
        exact .again h' hbody (by omega)
      rw [if_neg hstop]
      have hread := read_ok hspace hev
      generalize r'.read ev = got at hread
      cases hread with
      | again hnone =>
        refine .again h' hbody ?_
        rcases hnone with hnone | hnil
        · have hfirst : ready ≤ dataReads [ev] := hfirst
          omega
        · have hless := hless.resolve_right (fun hsame => hsame.2 hnil)
          omega
      | got n hpos hle hfits =>
        have hin : InBody (fin.wire ++ rest) left' []
            { r' with
              proto_parser_buf := r'.proto_parser_buf ++ r'.unread.take n
              unread := r'.unread.drop n } := by
          refine { h' with fits := ?_, copied := nofun, stream := ?_ }
          · rw [length_append, length_take_of_le hle]
            exact hfits
          · have hstream := h'.stream
            rw [h'.moved rfl, drop_zero] at hstream ⊢
            rw [append_assoc, take_append_drop]
            exact hstream
        have htodo := todo_eq hin
        have htodo' := todo_eq h'
        rw [length_append, length_take_of_le hle, length_drop] at htodo
        rw [hbody]
        refine (ih hreads true (Nat.zero_le _) (fun _ => rfl) hin heof').weaken ?_
        omega

/-- Step: a call returns the next bytes of the body, or 0 at its end, or `EAGAIN`. -/
theorem read_body_ok (hfin : fin.type = 5) (hempty : fin.content = []) {owed : Bytes}
    (h : InBody (fin.wire ++ rest) left owed r) {call : BodyCall} (hlen : 0 < call.len)
    (hreads : ∀ ev ∈ call.reads, ev.Delivers) :
    BodyCallOk (fin.wire ++ rest) (owed ++ stdinContents left) r.todo (firstRead call.reads)
      (upsgi_proto_fastcgi_read_body r call) := by
  unfold upsgi_proto_fastcgi_read_body
  by_cases howed : owed = []
  · have hremains : ¬0 < r.proto_parser_remains := by
      rw [h.remains, howed]
      exact Nat.lt_irrefl 0
    rw [if_neg hremains]
    subst howed
    cases heof : r.proto_parser_eof with
    | true =>
      rw [if_pos rfl, (h.eof heof).1]
      exact .finished rfl
    | false =>
      exact stdinLoop_ok hfin hempty hlen call.reads hreads false le_rfl
        nofun h heof
  · have hremains : 0 < r.proto_parser_remains := by
      rw [h.remains]
      exact length_pos_of_ne_nil howed
    rw [if_pos hremains]
    obtain ⟨owed', hne, hsplit, hin, hless⟩ := takeRemains_ok h howed hlen
    refine .read _ hne hin ?_ hless
    rw [← append_assoc, ← hsplit]

/-- The calls whose first read brings something. -/
def readyCalls (calls : List BodyCall) : Nat :=
  (calls.map fun call => firstRead call.reads).sum

/-- Run: what the calls returned is the beginning of the body, and all of it when one of them
    returned 0; only so many calls can read something before. -/
theorem bodyCalls_ok (hfin : fin.type = 5) (hempty : fin.content = []) {owed : Bytes}
    (h : InBody (fin.wire ++ rest) left owed r) (calls : List BodyCall)
    (hcalls : ∀ call ∈ calls, 0 < call.len ∧ ∀ ev ∈ call.reads, ev.Delivers) :
    ((bodyCalls r calls).2 = true → (bodyCalls r calls).1 = owed ++ stdinContents left) ∧
      ((bodyCalls r calls).2 = false →
        (bodyCalls r calls).1 <+: owed ++ stdinContents left ∧ readyCalls calls ≤ r.todo) := by
  induction calls generalizing left owed r with
  | nil => exact ⟨nofun, fun _ => ⟨ nil_prefix, Nat.zero_le _⟩⟩
  | cons call calls ih =>
    obtain ⟨⟨hlen, hreads⟩, hcalls⟩ := forall_mem_cons.mp hcalls
    have hok := read_body_ok hfin hempty h hlen hreads
    have hone := firstRead_le_one call.reads
    have hsum : readyCalls (call :: calls) = firstRead call.reads + readyCalls calls := sum_cons
    unfold bodyCalls
    generalize upsgi_proto_fastcgi_read_body r call = out at hok
    cases hok with
    | finished hbody => exact ⟨fun _ => hbody.symm, nofun⟩
    | again h' hbody hless =>
      obtain ⟨hended, hopen⟩ := ih h' hcalls
      rw [hbody]
      refine ⟨hended, fun hfalse => ⟨(hopen hfalse).1, ?_⟩⟩
      have hrest := (hopen hfalse).2
      omega
    | read buf hne h' hbody hless =>
      obtain ⟨hended, hopen⟩ := ih h' hcalls
      rw [hbody]
      cases buf with
      | nil => nomatch hne
      | cons b buf =>
        dsimp only
        refine ⟨fun htrue => ?_, fun hfalse => ⟨?_, ?_⟩⟩
        · rw [hended htrue]
        · exact (prefix_append_right_inj _).mpr (hopen hfalse).1
        · have hrest := (hopen hfalse).2
          omega

end rounds

/-! ### The whole request -/

/-- The first `STDIN` record of a sequence, if it has one. -/
theorem first_stdin (records : List Fcgi.Record) :
    (∀ rec ∈ records, rec.type ≠ 5) ∨ ∃ before stdin after, records = before ++ stdin :: after ∧
      stdin.type = 5 ∧ ∀ rec ∈ before, rec.type ≠ 5 := by
  cases hfind : records.find? fun rec => rec.type = 5 with
  | none => exact .inl (by simpa using hfind)
  | some stdin =>
    obtain ⟨htype, before, after, hsplit, hbefore⟩ := find?_eq_some_iff_append.mp hfind
    exact .inr ⟨before, stdin, after, hsplit, of_decide_eq_true htype, by simpa using hbefore⟩

theorem stdinContents_append (records records' : List Fcgi.Record) :
    stdinContents (records ++ records') = stdinContents records ++ stdinContents records' := by
  unfold stdinContents
  rw [filter_append, flatMap_append]

theorem stdinContents_eq_nil {records : List Fcgi.Record} (h : ∀ rec ∈ records, rec.type ≠ 5) :
    stdinContents records = [] := by
  rw [stdinContents, filter_eq_nil_iff.mpr (by simpa using h), flatMap_nil]

section request

variable {buffer_size : Nat} {records left : List Fcgi.Record} {stdin fin : Fcgi.Record}
  {rest tail : Bytes}
  {r : FcgiRequest}

/-- The parser hands over at the first `STDIN` record. -/
theorem LoopOk.inBody {unread : Bytes}
    (h : LoopOk buffer_size records stdin rest unread (.ok, r))
    (hstream : stdin.wire ++ rest = Fcgi.wire left ++ tail)
    (hleft : ∀ rec ∈ left, rec.type = 5 → rec.content ≠ [])
    (heof : stdin.content.length = 0 → left = []) : InBody tail left [] r := by
  cases h with
  | ok hpacket hparsed hbuf hfits hmove hremains heof' =>
    refine ⟨hleft, Nat.le_trans hbuf hfits, hfits, hremains, nofun,
      fun _ => hmove, ?_, fun htrue => ⟨heof ?_, rfl⟩⟩
    · rw [hmove, drop_zero, hparsed, hstream]
    · rw [heof'] at htrue
      exact of_decide_eq_true htrue

/-- After the parser accepted, the calls find the contents of all `STDIN` records. -/
theorem readFastcgi_inBody (hrecords : ∀ rec ∈ records, rec.type = 5 → rec.content ≠ [])
    (hfin : fin.type = 5) {evs : List SockRead} (hevs : ∀ ev ∈ evs, SockRead.Delivers ev)
    (hparsed : readFastcgi buffer_size
      (.fresh buffer_size (Fcgi.wire records ++ (fin.wire ++ rest))) evs = (.ok, r)) :
    ∃ before left, records = before ++ left ∧ InBody (fin.wire ++ rest) left [] r ∧
      stdinContents left = stdinContents records := by
  have hsize : 8 ≤ buffer_size := by
    by_contra htiny
    have hrefused := @readFastcgi_tiny buffer_size
      (.fresh buffer_size (Fcgi.wire records ++ (fin.wire ++ rest))) (Nat.lt_of_not_le htiny)
      (Nat.zero_le _) evs
    rw [hparsed] at hrefused
    exact hrefused rfl
  rcases first_stdin records with hnone | ⟨before, stdin, after, rfl, hstdin, hbefore⟩
  · obtain ⟨unread, hok, -⟩ := @fastcgi_independent_of_reads buffer_size records fin rest hsize
      hnone hfin evs hevs
    rw [hparsed] at hok
    refine ⟨records, [], (append_nil _).symm, ?_, (stdinContents_eq_nil hnone).symm⟩
    exact hok.inBody rfl nofun (fun _ => rfl)
  · have hwire : Fcgi.wire (before ++ stdin :: after) ++ (fin.wire ++ rest) =
        Fcgi.wire before ++ (stdin.wire ++ (Fcgi.wire after ++ (fin.wire ++ rest))) := by
      rw [wire_append, wire_cons, append_assoc, append_assoc]
    rw [hwire] at hparsed
    obtain ⟨unread, hok, -⟩ := @fastcgi_independent_of_reads buffer_size before stdin
      (Fcgi.wire after ++ (fin.wire ++ rest)) hsize hbefore hstdin evs hevs
    rw [hparsed] at hok
    have hafter := (forall_mem_append.mp hrecords).2
    refine ⟨before, stdin :: after, rfl, hok.inBody ?_ hafter fun hzero => ?_, ?_⟩
    · rw [wire_cons, append_assoc]
    · exact absurd (length_eq_zero_iff.mp hzero) (hafter stdin mem_cons_self hstdin)
    · rw [stdinContents_append, stdinContents_eq_nil hbefore, nil_append]

theorem InBody.todo_le (h : InBody tail left [] r) : r.todo ≤ 2 * (Fcgi.wire left ++ tail).length := by
  have hstream := congrArg List.length h.stream
  rw [h.moved rfl, drop_zero, length_append] at hstream
  rw [todo_eq h]
  omega

end request

/-- However the records of a request are cut into reads, and whatever amounts are asked for: the
    calls return the contents of the `STDIN` records, in order, and then 0.  There are at most
    twice as many calls that read something before that as the records have bytes. -/
theorem fastcgi_body_exact (buffer_size : Nat) (records : List Fcgi.Record) (fin : Fcgi.Record)
    (rest : Bytes) (hfin : fin.type = 5) (hempty : fin.content = [])
    (hrecords : ∀ rec ∈ records, rec.type = 5 → rec.content ≠ []) (evs : List SockRead)
    (hevs : ∀ ev ∈ evs, SockRead.Delivers ev) (r : FcgiRequest)
    (hparsed : readFastcgi buffer_size
      (.fresh buffer_size (Fcgi.wire records ++ (fin.wire ++ rest))) evs = (.ok, r))
    (calls : List BodyCall)
    (hcalls : ∀ call ∈ calls, 0 < call.len ∧ ∀ ev ∈ call.reads, SockRead.Delivers ev) :
    ((bodyCalls r calls).2 = true → (bodyCalls r calls).1 = stdinContents records) ∧
      ((bodyCalls r calls).2 = false → (bodyCalls r calls).1 <+: stdinContents records ∧
        readyCalls calls ≤ 2 * (Fcgi.wire records ++ (fin.wire ++ rest)).length) := by
  obtain ⟨before, left, hsplit, hin, hcontents⟩ :=
    readFastcgi_inBody hrecords hfin hevs hparsed
  obtain ⟨hended, hopen⟩ := bodyCalls_ok hfin hempty hin calls hcalls
  rw [nil_append, hcontents] at hended hopen
  refine ⟨hended, fun hfalse => ⟨(hopen hfalse).1, ?_⟩⟩
  have hready := (hopen hfalse).2
  have htodo := hin.todo_le
  rw [hsplit, wire_append, append_assoc, length_append]
  omega

/-- A record is skipped, and the bytes of the next one are handed out in two calls. -/
theorem fastcgi_body_exact_two : ∃ r,
    readFastcgi 4096 (.fresh 4096 (Fcgi.wire [smallRecord 1 [0] (by decide),
      smallRecord 5 [104, 105] (by decide), smallRecord 4 [] (by decide)] ++
        ((smallRecord 5 [] (by decide)).wire ++ []))) [.data 20] = (.ok, r) ∧
    (bodyCalls r [⟨1, [.data 3]⟩, ⟨1, []⟩, ⟨5, [.wouldBlock]⟩, ⟨5, [.data 50]⟩, ⟨5, [.data 50]⟩]).1 =
      [104, 105] := by
  let r : FcgiRequest :=
    { proto_parser_buf := [1, 5, 0, 1, 0, 2, 0, 0, 104, 105, 1], proto_parser_buf_size := 4096
      stream_id := (0, 1), unread := [4, 0, 1, 0, 0, 0, 0, 1, 5, 0, 1, 0, 0, 0, 0] }
  have hparsed : readFastcgi 4096 (.fresh 4096 (Fcgi.wire [smallRecord 1 [0] (by decide),
      smallRecord 5 [104, 105] (by decide), smallRecord 4 [] (by decide)] ++
        ((smallRecord 5 [] (by decide)).wire ++ []))) [.data 20] = (.ok, r) := rfl
  have hexact := fastcgi_body_exact 4096 _ _ [] rfl rfl (by decide) _ (by decide) r hparsed
    [⟨1, [.data 3]⟩, ⟨1, []⟩, ⟨5, [.wouldBlock]⟩, ⟨5, [.data 50]⟩, ⟨5, [.data 50]⟩] (by decide)
  exact ⟨r, hparsed, hexact.1 rfl⟩

/-! ### Records that are in the buffer -/

/-- A call returns without a look at the socket: it returns the same bytes whatever a read
    would do. -/
def FromBuffer (r : FcgiRequest) : Prop :=
  ∀ len, ∃ buf r', ∀ reads, upsgi_proto_fastcgi_read_body r ⟨len, reads⟩ = (.read buf, r')

theorem stdinLoop_ret {len : Nat} {r r' : FcgiRequest} (reads : List SockRead) (has_read : Bool)
    (h : bodyRecord len r = .ret buf r') :
    stdinLoop len reads has_read r = (.read buf, r') := by
  cases reads <;> simp only [stdinLoop, h]

/-- While a complete `STDIN` record is in the buffer, behind other complete records, a call
    returns from the buffer if and only if the record at the front is a `STDIN` record as well;
    any other record there sends it to the socket. -/
theorem read_body_from_buffer_iff (r : FcgiRequest) (records : List Fcgi.Record)
    (stdin : Fcgi.Record) (rest : Bytes)
    (hmove : r.proto_parser_remains = 0 → r.proto_parser_move = 0)
    (hbuf : r.proto_parser_buf.drop r.proto_parser_move =
      Fcgi.wire records ++ (stdin.wire ++ rest))
    (htype : stdin.type = 5) :
    FromBuffer r ↔ 0 < r.proto_parser_remains ∨ r.proto_parser_eof = true ∨
      ∀ first ∈ records.head?, first.type = 5 := by
  unfold FromBuffer upsgi_proto_fastcgi_read_body
  by_cases hremains : 0 < r.proto_parser_remains
  · simp only [if_pos hremains]
    exact ⟨fun _ => .inl hremains, fun _ len => ⟨_, _, fun _ => rfl⟩⟩
  simp only [if_neg hremains]
  cases heof : r.proto_parser_eof with
  | true => exact ⟨fun _ => .inr (.inl rfl), fun _ len => ⟨[], r, fun _ => rfl⟩⟩
  | false =>
    rw [hmove (Nat.eq_zero_of_not_pos hremains), drop_zero] at hbuf
    -- the record at the front decides, be it one of the others or this one
    obtain ⟨first, behind, hfront, hfirst⟩ : ∃ (first : Fcgi.Record) (behind : Bytes),
        r.proto_parser_buf = first.wire ++ behind ∧
          ((∀ first ∈ records.head?, first.type = 5) ↔ first.type = 5) := by
      cases records with
      | nil => exact ⟨stdin, rest, hbuf, fun _ => htype, fun _ => nofun⟩
      | cons first records =>
        rw [wire_cons, append_assoc] at hbuf
        refine ⟨first, _, hbuf, fun h => h first rfl, ?_⟩
        rintro h _ ⟨⟩
        exact h
    rw [hfirst]
    constructor
    · -- without anything to read, the call returns `EAGAIN`
      intro h
      by_contra hne
      obtain ⟨buf, r', h⟩ := h 0
      have hskip := bodyRecord_front 0 hfront
      rw [if_neg (fun htype => hne (.inr (.inr htype)))] at hskip
      have hagain := h []
      simp only [Bool.false_eq_true, if_false, stdinLoop, hskip] at hagain
      cases hagain
    · rintro (h | h | h)
      · exact absurd h hremains
      · cases h
      · intro len
        have hret := bodyRecord_front len hfront
        rw [if_pos h] at hret
        split_ifs at hret <;> exact ⟨_, _, fun reads => stdinLoop_ret reads false hret⟩

/-- A `STDIN` record without content at the front ends the body, whatever follows. -/
theorem read_body_from_buffer_iff_empty :
    FromBuffer ⟨Fcgi.wire [smallRecord 5 [] (by decide)] ++
      ((smallRecord 5 [104] (by decide)).wire ++ []), 4096, 0, 0, 0, false, (0, 0), [], []⟩ :=
  (read_body_from_buffer_iff _ _ _ _ (fun _ => rfl) rfl rfl).mpr
    (.inr (.inr (by rintro _ ⟨⟩; rfl)))

/-- Behind a record of the type 4, a complete `STDIN` record waits for the socket. -/
theorem read_body_skips_to_socket :
    (upsgi_proto_fastcgi_read_body ⟨Fcgi.wire [smallRecord 4 [] (by decide)] ++
      ((smallRecord 5 [104] (by decide)).wire ++ []), 4096, 0, 0, 0, false, (0, 0), [], []⟩
        ⟨1, [.wouldBlock]⟩).1 = .again := by
  decide

end Upsgi
