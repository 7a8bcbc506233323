import Upsgi.Lib.FastcgiRecord
import Upsgi.Proto.AddVar
import Upsgi.Proto.HttpReader

/-! # The FastCGI parser

    `upsgi_proto_fastcgi_parser` (`proto/fastcgi.c`) is called each time the socket may have
    data.  It appends what it reads to `proto_parser_buf`, takes the complete records off its
    front, and ends at the header of the first `STDIN` record.  The content of each `PARAMS`
    record goes to `fastcgi_to_upsgi`, which appends its variables to the packet.

    Where the reads are cut does not matter.  Where the stream of parameters is cut into records
    does: each record is parsed by itself, so no parameter may be divided between two of them.

    `realloc` is taken to succeed.
-/

namespace Upsgi

open Framing Fcgi List

/-! ### Parameters -/

/-- The length at the beginning of `buf`, and what follows; at least one more byte must. -/
def fcgiLength : Bytes → Option (Nat × Bytes)
  | [] => none
  | octet :: rest =>
      if 127 < octet.toNat then
        match rest with
        | b :: c :: d :: next :: rest => some (be32 octet b c d ^^^ 2 ^ 31, next :: rest)
        | _ => none
      else
        match rest with
        | next :: rest => some (octet.toNat, next :: rest)
        | [] => none

/-- The loop of `fastcgi_to_upsgi` on the rest of the record. -/
def paramLoop (buffer_size : Nat) : Nat → Bytes → Bytes → Option Bytes
  | 0, _, pkt => some pkt
  | _ + 1, [], pkt => some pkt
  | fuel + 1, buf, pkt =>
      match fcgiLength buf with
      | none => none
      | some (keylen, buf) =>
          match fcgiLength buf with
          | none => none
          | some (vallen, buf) =>
              if buf.length < keylen + vallen then none
              else if 65535 < keylen ∨ 65535 < vallen then none
              else
                match addVar buffer_size pkt (buf.take keylen, (buf.drop keylen).take vallen) with
                | none => none
                | some pkt =>
                    -- `(keylen + vallen) - 1` has 32 bits: it jumps behind the record
                    if keylen + vallen = 0 then some pkt
                    else paramLoop buffer_size fuel (buf.drop (keylen + vallen)) pkt

/-- `none` is the return value -1. -/
def fastcgi_to_upsgi (buffer_size : Nat) (pkt buf : Bytes) : Option Bytes :=
  paramLoop buffer_size (buf.length + 1) buf pkt

/-! ### Records -/

/-- The fields of a `struct wsgi_request` that the protocol uses, and the bytes that the socket
    still has.  `proto_parser_buf` are the first `proto_parser_move + proto_parser_pos` bytes of
    that buffer, `proto_parser_remains_buf` is an offset into it, and `buffer` is the packet. -/
structure FcgiRequest where
  proto_parser_buf : Bytes := []
  proto_parser_buf_size : Nat
  proto_parser_move : Nat := 0
  proto_parser_remains : Nat := 0
  proto_parser_remains_buf : Nat := 0
  proto_parser_eof : Bool := false
  stream_id : UInt8 × UInt8 := (0, 0)
  buffer : Bytes := []
  unread : Bytes
  deriving DecidableEq, Repr

/-- The first call allocates the buffer. -/
def FcgiRequest.fresh (buffer_size : Nat) (stream : Bytes) : FcgiRequest :=
  { proto_parser_buf_size := buffer_size, unread := stream }

/-- What is read of a record header. -/
structure FcgiHeader where
  fcgi_type : UInt8
  fcgi_len : Nat
  pad : Nat
  stream_id : UInt8 × UInt8
  deriving DecidableEq, Repr

def FcgiHeader.fcgi_all_len (h : FcgiHeader) : Nat :=
  8 + h.fcgi_len + h.pad

/-- The header at the beginning of the buffer, if all of it was read. -/
def fcgiHeader : Bytes → Option FcgiHeader
  | _ :: type :: req1 :: req0 :: cl1 :: cl0 :: pad :: _ :: _ =>
      some ⟨type, be16 cl1 cl0, pad.toNat, (req1, req0)⟩
  | _ => none

namespace FcgiRequest

/-- The buffer is made larger if the record does not fit behind what was read. -/
def grow (r : FcgiRequest) (fcgi_all_len : Nat) : FcgiRequest :=
  let space := r.proto_parser_buf_size - r.proto_parser_buf.length
  if space < fcgi_all_len then
    { r with proto_parser_buf_size := r.proto_parser_buf_size + (fcgi_all_len - space) }
  else r

/-- The record at the front is taken off. -/
def takeOff (r : FcgiRequest) (fcgi_all_len : Nat) : FcgiRequest :=
  { r with proto_parser_buf := r.proto_parser_buf.drop fcgi_all_len }

end FcgiRequest

/-- What `read` returns. -/
inductive FcgiRead where
  | got (r : FcgiRequest)
  | again
  | error
  /-- The return value 0. -/
  | closed
  deriving DecidableEq, Repr

/-- `read` to the end of the buffer.  Without space it returns 0, as when the client closed the
    connection.  When all bytes of the client were read, it would block. -/
def FcgiRequest.read (r : FcgiRequest) : SockRead → FcgiRead
  | .wouldBlock => .again
  | .error => .error
  | .data n =>
      let space := r.proto_parser_buf_size - r.proto_parser_buf.length
      if n = 0 ∨ space = 0 then .closed
      else if r.unread = [] then .again
      else
        let len := min (min n space) r.unread.length
        .got { r with
          proto_parser_buf := r.proto_parser_buf ++ r.unread.take len
          unread := r.unread.drop len }

/-- `UPSGI_AGAIN`, `UPSGI_OK` and -1. -/
inductive ParserRet where
  | again
  | ok
  | error
  deriving DecidableEq, Repr

/-- The loop of `upsgi_proto_fastcgi_parser`. -/
def recordLoop (buffer_size : Nat) : Nat → FcgiRequest → ParserRet × FcgiRequest
  | 0, r => (.again, r)
  | fuel + 1, r =>
      match fcgiHeader r.proto_parser_buf with
      | none => (.again, r)
      | some h =>
          let r := { r with stream_id := h.stream_id }
          -- `STDIN` ends the loop
          if h.fcgi_type = 5 then
            (.ok, { r with proto_parser_eof := r.proto_parser_eof || decide (h.fcgi_len = 0) })
          else if h.fcgi_all_len ≤ r.proto_parser_buf.length then
            let content := (r.proto_parser_buf.drop 8).take h.fcgi_len
            -- other types than `PARAMS` are ignored
            match if h.fcgi_type = 4 then fastcgi_to_upsgi buffer_size r.buffer content
              else some r.buffer with
            | none => (.error, r)
            | some buffer =>
                recordLoop buffer_size fuel ({ r with buffer := buffer }.takeOff h.fcgi_all_len)
          else (.again, r.grow h.fcgi_all_len)

/-- One call. -/
def upsgi_proto_fastcgi_parser_call (buffer_size : Nat) (r : FcgiRequest) (ev : SockRead) :
    ParserRet × FcgiRequest :=
  match r.read ev with
  | .got r => recordLoop buffer_size (r.proto_parser_buf.length + 1) r
  | .again => (.again, r)
  | .error => (.error, r)
  | .closed => (.error, r)

/-- The calls that follow one another on a connection. -/
def readFastcgi (buffer_size : Nat) : FcgiRequest → List SockRead → ParserRet × FcgiRequest
  | r, [] => (.again, r)
  | r, ev :: evs =>
      match upsgi_proto_fastcgi_parser_call buffer_size r ev with
      | (.again, r) => readFastcgi buffer_size r evs
      | out => out

/-! ### Reading lengths -/

theorem xor_high_bit {m : Nat} (h : m < 2 ^ 31) : (2 ^ 31 + m) ^^^ 2 ^ 31 = m := by
  have hdiv : ((2 ^ 31 + m) ^^^ 2 ^ 31) / 2 ^ 31 = 0 := by
    rw [Nat.xor_div_two_pow, Nat.add_div_left m (by decide), Nat.div_eq_of_lt h]
    rfl
  have hmod : ((2 ^ 31 + m) ^^^ 2 ^ 31) % 2 ^ 31 = m := by
    rw [Nat.xor_mod_two_pow, Nat.add_mod_left, Nat.mod_self, Nat.xor_zero, Nat.mod_eq_of_lt h]
  have hsplit := Nat.div_add_mod ((2 ^ 31 + m) ^^^ 2 ^ 31) (2 ^ 31)
  rw [hdiv, hmod, Nat.mul_zero, Nat.zero_add] at hsplit
  exact hsplit.symm

/-- A long length is marked in its first byte. -/
theorem long_mark {n : Nat} (hn : n < 2 ^ 31) :
    127 < (UInt8.ofNat (n / 16777216 + 128)).toNat := by
  rw [UInt8.toNat_ofNat']
  omega

/-- A length is read back if something follows. -/
theorem fcgiLength_append {long : Bool} {n : Nat} (hn : n < if long then 2 ^ 31 else 128)
    (q : Bytes) :
    fcgiLength (lengthBytes long n ++ q) = if q = [] then none else some (n, q) := by
  cases long with
  | true =>
    rw [if_pos rfl] at hn
    have hmark := long_mark hn
    cases q with
    | nil => exact if_pos hmark
    | cons next q =>
      have hlen : fcgiLength (lengthBytes true n ++ next :: q) =
          some (be32 _ _ _ _ ^^^ 2 ^ 31, next :: q) := if_pos hmark
      rw [hlen, be32_lengthBytes hn, xor_high_bit hn, if_neg (cons_ne_nil _ _)]
  | false =>
    rw [if_neg nofun] at hn
    have hoctet : (UInt8.ofNat n).toNat = n := by
      rw [UInt8.toNat_ofNat']
      omega
    have hmark : ¬127 < (UInt8.ofNat n).toNat := by omega
    cases q with
    | nil => exact if_neg hmark
    | cons next q =>
      have hlen : fcgiLength (lengthBytes false n ++ next :: q) =
          some ((UInt8.ofNat n).toNat, next :: q) := if_neg hmark
      rw [hlen, hoctet, if_neg (cons_ne_nil _ _)]

variable {q buf : Bytes} {rec : Fcgi.Record}

/-- The beginning of a length is not read. -/
theorem fcgiLength_short {long : Bool} {n : Nat} (hn : n < if long then 2 ^ 31 else 128)
    (hq : q <+: lengthBytes long n) (hlt : q.length < (lengthBytes long n).length) :
    fcgiLength q = none := by
  cases long with
  | true =>
    rw [if_pos rfl] at hn
    have hmark := long_mark hn
    rw [prefix_iff_eq_take.mp hq]
    have hlt : q.length < 4 := hlt
    match q.length, hlt with
    | 0, _ => rfl
    | 1, _ | 2, _ | 3, _ => exact if_pos hmark
  | false =>
    have hlt : q.length < 1 := hlt
    rw [length_eq_zero_iff.mp (Nat.lt_one_iff.mp hlt)]
    rfl

/-! ### Parameters in records -/

theorem lengthBytes_length_pos (long : Bool) (n : Nat) : 0 < (lengthBytes long n).length := by
  cases long with
  | true | false => exact Nat.zero_lt_succ _

/-- The pairs that the packet can hold. -/
def ParamOk (p : Param) : Prop :=
  p.name ≠ [] ∧ p.name.length ≤ 65535 ∧ p.value.length ≤ 65535

instance (p : Param) : Decidable (ParamOk p) :=
  inferInstanceAs (Decidable (_ ∧ _))

section params

variable {buffer_size fuel : Nat} {p : Param} {ps : List Param} {pkt : Bytes}

/-- The loop takes the beginning of its buffer apart if the two lengths can be read. -/
theorem paramLoop_eq {buf₁ buf₂ : Bytes} {keylen vallen : Nat} (hbuf : buf ≠ [])
    (hkey : fcgiLength buf = some (keylen, buf₁)) (hval : fcgiLength buf₁ = some (vallen, buf₂)) :
    paramLoop buffer_size (fuel + 1) buf pkt =
      if buf₂.length < keylen + vallen then none
      else if 65535 < keylen ∨ 65535 < vallen then none
      else
        (addVar buffer_size pkt (buf₂.take keylen, (buf₂.drop keylen).take vallen)).bind fun pkt =>
          if keylen + vallen = 0 then some pkt
          else paramLoop buffer_size fuel (buf₂.drop (keylen + vallen)) pkt := by
  cases buf with
  | nil => nomatch hbuf
  | cons octet rest =>
    rw [paramLoop]
    · rw [hkey]
      dsimp only
      rw [hval]
      dsimp only
      split
      · rfl
      · split
        · rfl
        · cases addVar buffer_size pkt (buf₂.take keylen, (buf₂.drop keylen).take vallen) with
          | none | some pkt => rfl
    · exact cons_ne_nil _ _

/-- A length that cannot be read ends the loop. -/
theorem paramLoop_none (hbuf : buf ≠ [])
    (h : fcgiLength buf = none ∨ ∃ keylen buf₁, fcgiLength buf = some (keylen, buf₁) ∧
      fcgiLength buf₁ = none) : paramLoop buffer_size (fuel + 1) buf pkt = none := by
  cases buf with
  | nil => nomatch hbuf
  | cons octet rest =>
    rw [paramLoop]
    · rcases h with hkey | ⟨keylen, buf₁, hkey, hval⟩
      · rw [hkey]
      · rw [hkey]
        dsimp only
        rw [hval]
    · exact cons_ne_nil _ _

theorem wire_ne_nil (p : Param) : p.wire ≠ [] := by
  refine ne_nil_of_length_pos ?_
  have hpos := lengthBytes_length_pos p.longName p.name.length
  unfold Param.wire
  rw [length_append]
  omega

theorem paramLoop_wire (hp : ParamOk p) (buf : Bytes) :
    paramLoop buffer_size (fuel + 1) (p.wire ++ buf) pkt =
      (addVar buffer_size pkt p.pair).bind (paramLoop buffer_size fuel buf) := by
  obtain ⟨hname, hnamelen, hvaluelen⟩ := hp
  have hpos : 0 < p.name.length := length_pos_of_ne_nil hname
  have hbody : (p.name ++ p.value) ++ buf ≠ [] := by
    refine ne_nil_of_length_pos ?_
    rw [length_append, length_append]
    omega
  have hkey : fcgiLength (p.wire ++ buf) = some (p.name.length,
      lengthBytes p.longValue p.value.length ++ ((p.name ++ p.value) ++ buf)) := by
    unfold Param.wire
    rw [append_assoc, append_assoc, fcgiLength_append p.name_lt,
      if_neg (append_ne_nil_of_right_ne_nil _ hbody)]
  have hval : fcgiLength (lengthBytes p.longValue p.value.length ++ ((p.name ++ p.value) ++ buf)) =
      some (p.value.length, (p.name ++ p.value) ++ buf) := by
    rw [fcgiLength_append p.value_lt, if_neg hbody]
  have hwire : p.wire ++ buf ≠ [] := append_ne_nil_of_left_ne_nil (wire_ne_nil p) _
  rw [paramLoop_eq hwire hkey hval, if_neg, if_neg, append_assoc, take_left,
    drop_left, take_left, ← append_assoc, ← length_append, drop_left]
  · refine congrArg _ (funext fun pkt => if_neg ?_)
    rw [length_append]
    omega
  · omega
  · rw [length_append, length_append]
    omega

/-- Whole parameters are appended to the packet. -/
theorem paramLoop_params (hps : ∀ p ∈ ps, ParamOk p) (hfuel : ps.length < fuel) :
    paramLoop buffer_size fuel (params ps) pkt = addVars buffer_size pkt (ps.map Param.pair) := by
  induction ps generalizing fuel pkt with
  | nil =>
    cases fuel with
    | zero | succ fuel => rfl
  | cons p ps ih =>
    obtain ⟨hp, hps⟩ := forall_mem_cons.mp hps
    cases fuel with
    | zero => nomatch hfuel
    | succ fuel =>
      rw [params_cons, paramLoop_wire hp, map_cons, addVars_cons]
      exact congrArg _ (funext fun pkt => ih hps (Nat.lt_of_succ_lt_succ hfuel))

/-- The beginning of a parameter cannot be read, wherever it is cut. -/
theorem paramLoop_beginning (hq : q <+: p.wire) (hne : q ≠ [])
    (hlt : q.length < p.wire.length) : paramLoop buffer_size (fuel + 1) q pkt = none := by
  unfold Param.wire at hq hlt
  rcases append_cut hq with ⟨hq, hshort⟩ | ⟨q₁, rfl, hq₁⟩
  · exact paramLoop_none hne (.inl (fcgiLength_short p.name_lt hq hshort))
  have hkey := fcgiLength_append p.name_lt q₁
  by_cases hnil₁ : q₁ = []
  · rw [if_pos hnil₁] at hkey
    exact paramLoop_none hne (.inl hkey)
  rw [if_neg hnil₁] at hkey
  rcases append_cut hq₁ with ⟨hq₁, hshort⟩ | ⟨q₂, rfl, hq₂⟩
  · exact paramLoop_none hne (.inr ⟨_, _, hkey, fcgiLength_short p.value_lt hq₁ hshort⟩)
  have hval := fcgiLength_append p.value_lt q₂
  by_cases hnil₂ : q₂ = []
  · rw [if_pos hnil₂] at hval
    exact paramLoop_none hne (.inr ⟨_, _, hkey, hval⟩)
  rw [if_neg hnil₂] at hval
  -- the cut is in the name or in the value
  rw [paramLoop_eq hne hkey hval, if_pos]
  rw [length_append, length_append, length_append, length_append,
    length_append] at hlt
  omega

/-- A record that ends inside a parameter is refused. -/
theorem paramLoop_divided (hps : ∀ p ∈ ps, ParamOk p) (hq : q <+: p.wire) (hne : q ≠ [])
    (hlt : q.length < p.wire.length)
    (hfuel : ps.length < fuel) : paramLoop buffer_size fuel (params ps ++ q) pkt = none := by
  induction ps generalizing fuel pkt with
  | nil =>
    cases fuel with
    | zero => nomatch hfuel
    | succ fuel => exact paramLoop_beginning hq hne hlt
  | cons p' ps ih =>
    obtain ⟨hp', hps⟩ := forall_mem_cons.mp hps
    cases fuel with
    | zero => nomatch hfuel
    | succ fuel =>
      rw [params_cons, append_assoc, paramLoop_wire hp']
      refine Option.bind_eq_none_iff.mpr fun pkt _ => ?_
      exact ih hps (Nat.lt_of_succ_lt_succ hfuel)

theorem length_le_params (ps : List Param) : ps.length ≤ (params ps).length := by
  induction ps with
  | nil => exact le_rfl
  | cons p ps ih =>
    have hpos := length_pos_of_ne_nil (wire_ne_nil p)
    rw [params_cons, length_append, length_cons]
    omega

theorem fastcgi_to_upsgi_params (hps : ∀ p ∈ ps, ParamOk p) :
    fastcgi_to_upsgi buffer_size pkt (params ps) = addVars buffer_size pkt (ps.map Param.pair) :=
  paramLoop_params hps (Nat.lt_succ_of_le (length_le_params ps))

theorem fastcgi_to_upsgi_divided (hps : ∀ p ∈ ps, ParamOk p) (hq : q <+: p.wire) (hne : q ≠ [])
    (hlt : q.length < p.wire.length) :
    fastcgi_to_upsgi buffer_size pkt (params ps ++ q) = none := by
  refine paramLoop_divided hps hq hne hlt ?_
  have hle := length_le_params ps
  rw [length_append]
  omega

/-- A parameter in one record has a frame of less than `2 ^ 16` bytes: a long name or value
    takes four bytes for its length. -/
theorem frameSize_lt_wire (h : 65535 ≤ frameSize p.pair) : frameSize p.pair < p.wire.length := by
  obtain ⟨name, value, longName, longValue, hname, hvalue⟩ := p
  have hsize : frameSize (name, value) = name.length + value.length + 4 := rfl
  unfold Param.pair at h ⊢
  unfold Param.wire
  dsimp only at h ⊢
  rw [length_append, length_append, length_append]
  cases longName with
  | true =>
    have hfour : (lengthBytes true name.length).length = 4 := rfl
    have hpos := lengthBytes_length_pos longValue value.length
    omega
  | false =>
    rw [if_neg nofun] at hname
    cases longValue with
    | true =>
      have hfour : (lengthBytes true value.length).length = 4 := rfl
      have hpos := lengthBytes_length_pos false name.length
      omega
    | false =>
      rw [if_neg nofun] at hvalue
      omega

end params

/-! ### Records in the buffer -/

/-- What the parser makes of a record before `STDIN`. -/
def recordVars (buffer_size : Nat) (pkt : Bytes) (rec : Fcgi.Record) : Option Bytes :=
  if rec.type = 4 then fastcgi_to_upsgi buffer_size pkt rec.content else some pkt

def packetOf (buffer_size : Nat) (pkt : Bytes) (records : List Fcgi.Record) : Option Bytes :=
  records.foldlM (recordVars buffer_size) pkt

theorem packetOf_cons (buffer_size : Nat) (pkt : Bytes) (rec : Fcgi.Record)
    (records : List Fcgi.Record) :
    packetOf buffer_size pkt (rec :: records) =
      (recordVars buffer_size pkt rec).bind fun pkt => packetOf buffer_size pkt records :=
  foldlM_cons

/-- What the parser reads of a record first. -/
def headerOf (rec : Fcgi.Record) : FcgiHeader :=
  ⟨rec.type, rec.content.length, rec.padding.length, (rec.req1, rec.req0)⟩

theorem headerOf_all_len (rec : Fcgi.Record) : (headerOf rec).fcgi_all_len = rec.wire.length :=
  rec.wire_length.symm

theorem fcgiHeader_short {c : Bytes} (h : c.length < 8) : fcgiHeader c = none := by
  unfold fcgiHeader
  split
  · simp only [length_cons] at h
    omega
  · rfl

theorem fcgiHeader_wire {c : Bytes} (h : c <+: rec.wire ++ q) (hlen : 8 ≤ c.length) :
    fcgiHeader c = some (headerOf rec) := by
  unfold Fcgi.Record.wire at h
  rw [append_assoc] at h
  rcases append_cut h with ⟨-, hshort⟩ | ⟨c', rfl, -⟩
  · rw [Fcgi.Record.header_length] at hshort
    omega
  · have hread : fcgiHeader (rec.header ++ c') = some
        ⟨rec.type, be16 (UInt8.ofNat (rec.content.length / 256)) (UInt8.ofNat rec.content.length),
          (UInt8.ofNat rec.padding.length).toNat, (rec.req1, rec.req0)⟩ := rfl
    rw [hread, be16_ofNat rec.content_lt, UInt8.toNat_ofNat', Nat.mod_eq_of_lt rec.padding_lt]
    rfl

theorem wire_content (rec : Fcgi.Record) (q : Bytes) :
    ((rec.wire ++ q).drop 8).take rec.content.length = rec.content := by
  unfold Fcgi.Record.wire
  rw [append_assoc, append_assoc, ← rec.header_length, drop_left, take_left]

/-- The bytes that the loop needs before it goes on. -/
def front : List Fcgi.Record → Nat
  | [] => 8
  | rec :: _ => rec.wire.length

section records

variable {buffer_size fuel : Nat} {records left : List Fcgi.Record} {stdin : Fcgi.Record}
  {rest : Bytes} {r : FcgiRequest}

/-- The records `left` are still to come, and then the bytes `tail`. -/
structure Left (buffer_size : Nat) (records : List Fcgi.Record) (tail : Bytes)
    (left : List Fcgi.Record) (r : FcgiRequest) : Prop where
  types : ∀ rec ∈ left, rec.type ≠ 5
  stream : r.proto_parser_buf ++ r.unread = Fcgi.wire left ++ tail
  packet : packetOf buffer_size r.buffer left = packetOf buffer_size [] records
  size : 8 ≤ r.proto_parser_buf_size
  fits : r.proto_parser_buf.length ≤ r.proto_parser_buf_size
  move : r.proto_parser_move = 0
  remains : r.proto_parser_remains = 0
  eof : r.proto_parser_eof = false

/-- A complete record is taken off when its variables were added. -/
theorem Left.takeOff {buffer : Bytes}
    (h : Left buffer_size records (stdin.wire ++ rest) (rec :: left) r)
    (hbuf : r.proto_parser_buf = rec.wire ++ buf)
    (hvars : recordVars buffer_size r.buffer rec = some buffer) :
    Left buffer_size records (stdin.wire ++ rest) left
      ({ r with stream_id := (headerOf rec).stream_id, buffer := buffer }.takeOff
        rec.wire.length) := by
  have hdrop : r.proto_parser_buf.drop rec.wire.length = buf := by
    rw [hbuf, drop_left]
  have hlength : r.proto_parser_buf.length = rec.wire.length + buf.length := by
    rw [hbuf, length_append]
  have hpacket := h.packet
  rw [packetOf_cons, hvars, Option.bind_some] at hpacket
  have hstream := h.stream
  rw [hbuf, wire_cons, append_assoc, append_assoc] at hstream
  refine ⟨(forall_mem_cons.mp h.types).2, ?_, hpacket, h.size, ?_, h.move, h.remains, h.eof⟩
  · show r.proto_parser_buf.drop rec.wire.length ++ r.unread = _
    rw [hdrop, append_cancel_left hstream]
  · show (r.proto_parser_buf.drop rec.wire.length).length ≤ r.proto_parser_buf_size
    rw [hdrop]
    have hfits := h.fits
    omega

/-- What the loop can return on a stream of records that `stdin` and `rest` follow. -/
inductive LoopOk (buffer_size : Nat) (records : List Fcgi.Record) (stdin : Fcgi.Record)
    (rest unread : Bytes) : ParserRet × FcgiRequest → Prop where
  | again {r : FcgiRequest} (left : List Fcgi.Record)
      (h : Left buffer_size records (stdin.wire ++ rest) left r)
      (hfront : r.proto_parser_buf.length < front left)
      (hspace : r.proto_parser_buf.length < r.proto_parser_buf_size) (hunread : r.unread = unread) :
      LoopOk buffer_size records stdin rest unread (.again, r)
  | ok {r : FcgiRequest} (hpacket : packetOf buffer_size [] records = some r.buffer)
      (hstream : r.proto_parser_buf ++ r.unread = stdin.wire ++ rest)
      (hbuf : 8 ≤ r.proto_parser_buf.length)
      (hfits : r.proto_parser_buf.length ≤ r.proto_parser_buf_size)
      (hmove : r.proto_parser_move = 0) (hremains : r.proto_parser_remains = 0)
      (heof : r.proto_parser_eof = decide (stdin.content.length = 0)) :
      LoopOk buffer_size records stdin rest unread (.ok, r)
  | error {r : FcgiRequest} (h : packetOf buffer_size [] records = none) :
      LoopOk buffer_size records stdin rest unread (.error, r)

theorem grow_space (r : FcgiRequest) {all_len : Nat} (hpos : 0 < all_len)
    (hfits : r.proto_parser_buf.length ≤ r.proto_parser_buf_size) :
    r.proto_parser_buf.length < (r.grow all_len).proto_parser_buf_size ∧
      r.proto_parser_buf_size ≤ (r.grow all_len).proto_parser_buf_size := by
  unfold FcgiRequest.grow
  dsimp only
  split
  · dsimp only
    omega
  · omega

theorem grow_frame (r : FcgiRequest) (all_len : Nat) :
    ∃ size, r.grow all_len = { r with proto_parser_buf_size := size } := by
  unfold FcgiRequest.grow
  dsimp only
  split <;> exact ⟨_, rfl⟩

theorem Left.grow (h : Left buffer_size records (stdin.wire ++ rest) left r) {all_len : Nat}
    (hpos : 0 < all_len) :
    Left buffer_size records (stdin.wire ++ rest) left (r.grow all_len) ∧
      (r.grow all_len).proto_parser_buf = r.proto_parser_buf ∧
      (r.grow all_len).unread = r.unread ∧
      (r.grow all_len).proto_parser_buf.length < (r.grow all_len).proto_parser_buf_size := by
  obtain ⟨hspace, hle⟩ := grow_space r hpos h.fits
  obtain ⟨size, hgrow⟩ := grow_frame r all_len
  rw [hgrow] at hspace hle ⊢
  exact ⟨{ h with size := Nat.le_trans h.size hle, fits := Nat.le_of_lt hspace }, rfl, rfl, hspace⟩

/-- The loop takes off one record after the other until one is not complete or has the type of
    `stdin`. -/
theorem recordLoop_ok (hstdin : stdin.type = 5)
    (h : Left buffer_size records (stdin.wire ++ rest) left r)
    (hfuel : r.proto_parser_buf.length < fuel) :
    LoopOk buffer_size records stdin rest r.unread (recordLoop buffer_size fuel r) := by
  induction fuel generalizing r left with
  | zero => nomatch hfuel
  | succ fuel ih =>
    unfold recordLoop
    have hbegins : r.proto_parser_buf <+: Fcgi.wire left ++ (stdin.wire ++ rest) :=
      ⟨r.unread, h.stream⟩
    by_cases hshort : r.proto_parser_buf.length < 8
    · -- the header is not complete
      rw [fcgiHeader_short hshort]
      refine .again left h ?_ (Nat.lt_of_lt_of_le hshort h.size) rfl
      cases left with
      | nil => exact hshort
      | cons rec left =>
        show r.proto_parser_buf.length < rec.wire.length
        rw [rec.wire_length]
        omega
    have hlen := Nat.le_of_not_lt hshort
    cases left with
    | nil =>
      rw [fcgiHeader_wire hbegins hlen]
      dsimp only
      rw [if_pos (show (headerOf stdin).fcgi_type = 5 from hstdin)]
      refine .ok h.packet.symm h.stream hlen h.fits h.move h.remains ?_
      rw [h.eof, Bool.false_or]
      rfl
    | cons rec left =>
      have htype := (forall_mem_cons.mp h.types).1
      rw [wire_cons, append_assoc] at hbegins
      rw [fcgiHeader_wire hbegins hlen]
      dsimp only
      rw [if_neg (show (headerOf rec).fcgi_type ≠ 5 from htype), headerOf_all_len]
      have hid : Left buffer_size records (stdin.wire ++ rest) (rec :: left)
          { r with stream_id := (headerOf rec).stream_id } :=
        { h with }
      rcases append_cut hbegins with ⟨-, hincomplete⟩ | ⟨buf, hbuf, -⟩
      · rw [if_neg (Nat.not_le_of_lt hincomplete)]
        have hpos : 0 < rec.wire.length := Nat.lt_of_le_of_lt (Nat.zero_le _) hincomplete
        obtain ⟨hgrow, hsame, hunread, hspace⟩ := hid.grow hpos
        exact .again (rec :: left) hgrow (by rw [hsame]; exact hincomplete) hspace hunread
      · -- the record is complete
        have hwire : rec.wire.length ≤ r.proto_parser_buf.length := by
          rw [hbuf, length_append]
          exact Nat.le_add_right _ _
        have hcontent : (r.proto_parser_buf.drop 8).take (headerOf rec).fcgi_len = rec.content := by
          rw [hbuf]
          exact wire_content rec buf
        rw [if_pos hwire, hcontent]
        show LoopOk buffer_size records stdin rest r.unread
          (match recordVars buffer_size r.buffer rec with | none => _ | some buffer => _)
        cases hparams : recordVars buffer_size r.buffer rec with
        | none =>
          have hpacket := h.packet
          rw [packetOf_cons, hparams] at hpacket
          exact .error hpacket.symm
        | some buffer =>
          refine ih (h.takeOff hbuf hparams) ?_
          show (r.proto_parser_buf.drop rec.wire.length).length < fuel
          rw [length_drop]
          have hwirelen := rec.wire_length
          omega

/-! ### The calls of a connection -/

/-- What a `read` with space can do on a connection that stays open. -/
inductive ReadOk (r : FcgiRequest) (ev : SockRead) : FcgiRead → Prop where
  | again (h : dataReads [ev] = 0 ∨ r.unread = []) : ReadOk r ev .again
  | got (len : Nat) (hpos : 0 < len) (hle : len ≤ r.unread.length)
      (hfits : r.proto_parser_buf.length + len ≤ r.proto_parser_buf_size) :
      ReadOk r ev (.got { r with
        proto_parser_buf := r.proto_parser_buf ++ r.unread.take len
        unread := r.unread.drop len })

theorem read_ok {ev : SockRead} (hspace : r.proto_parser_buf.length < r.proto_parser_buf_size)
    (hev : ev.Delivers) : ReadOk r ev (r.read ev) := by
  cases ev with
  | wouldBlock => exact .again (.inl rfl)
  | error => exact hev.elim
  | data n =>
    have hn : 0 < n := hev
    unfold FcgiRequest.read
    dsimp only
    rw [if_neg (by omega)]
    split
    · rename_i hnil
      exact .again (.inr hnil)
    · rename_i hne
      have hunread := length_pos_of_ne_nil hne
      refine .got _ ?_ ?_ ?_ <;> omega

/-- Something is still to be read. -/
theorem Left.unread_ne_nil (h : Left buffer_size records (stdin.wire ++ rest) left r)
    (hfront : r.proto_parser_buf.length < front left) :
    (stdin.wire ++ rest).length < r.unread.length + 8 ∧ r.unread ≠ [] := by
  have hlen := congrArg List.length h.stream
  rw [length_append, length_append] at hlen
  have hstdin : 8 ≤ (stdin.wire ++ rest).length := by
    rw [length_append, stdin.wire_length]
    omega
  have hbound : (stdin.wire ++ rest).length < r.unread.length + 8 := by
    cases left with
    | nil =>
      have hfront : _ < 8 := hfront
      omega
    | cons rec left =>
      have hfront : _ < rec.wire.length := hfront
      rw [wire_cons, length_append] at hlen
      omega
  exact ⟨hbound, ne_nil_of_length_pos (by omega)⟩

theorem dataReads_le_one (ev : SockRead) : dataReads [ev] ≤ 1 :=
  countP_le_length

theorem dataReads_cons (ev : SockRead) (evs : List SockRead) :
    dataReads (ev :: evs) = dataReads [ev] + dataReads evs := by
  unfold dataReads
  rw [← countP_append]
  rfl

section

variable (hstdin : stdin.type = 5) (h : Left buffer_size records (stdin.wire ++ rest) left r)
    (hfront : r.proto_parser_buf.length < front left)
    (hspace : r.proto_parser_buf.length < r.proto_parser_buf_size)
include hstdin h hfront hspace

/-- Step: a call goes on with the records, and each read brings it further. -/
theorem fastcgi_parser_ok {ev : SockRead}
    (hev : ev.Delivers) : ∃ unread : Bytes, unread.length + dataReads [ev] ≤ r.unread.length ∧
      LoopOk buffer_size records stdin rest unread
        (upsgi_proto_fastcgi_parser_call buffer_size r ev) := by
  have hread := read_ok hspace hev
  unfold upsgi_proto_fastcgi_parser_call
  generalize r.read ev = got at hread
  cases hread with
  | again hnone =>
    refine ⟨r.unread, ?_, .again left h hfront hspace rfl⟩
    have hnone := hnone.resolve_right (h.unread_ne_nil hfront).2
    omega
  | got len hpos hle hfits =>
    have hone := dataReads_le_one ev
    have hmore : Left buffer_size records (stdin.wire ++ rest) left
        { r with
          proto_parser_buf := r.proto_parser_buf ++ r.unread.take len
          unread := r.unread.drop len } := by
      refine { h with stream := ?_, fits := ?_ }
      · rw [append_assoc, take_append_drop]
        exact h.stream
      · rw [length_append, length_take_of_le hle]
        exact hfits
    refine ⟨r.unread.drop len, ?_, recordLoop_ok hstdin hmore (Nat.lt_succ_self _)⟩
    rw [length_drop]
    omega

/-- Run: the calls end in the first `STDIN` record, or the parameters are refused. -/
theorem readFastcgi_ok (evs : List SockRead) (hevs : ∀ ev ∈ evs, SockRead.Delivers ev) :
    ∃ unread : Bytes, LoopOk buffer_size records stdin rest unread (readFastcgi buffer_size r evs) ∧
      ((readFastcgi buffer_size r evs).1 = .again →
        unread.length + dataReads evs ≤ r.unread.length) := by
  induction evs generalizing r left with
  | nil => exact ⟨r.unread, .again left h hfront hspace rfl, fun _ => le_rfl⟩
  | cons ev evs ih =>
    obtain ⟨hev, hevs⟩ := forall_mem_cons.mp hevs
    obtain ⟨unread, hless, hok⟩ := fastcgi_parser_ok hstdin h hfront hspace hev
    unfold readFastcgi
    generalize upsgi_proto_fastcgi_parser_call buffer_size r ev = out at hok
    cases hok with
    | again left' h' hfront' hspace' hunread =>
      obtain ⟨unread', hok', hless'⟩ := ih h' hfront' hspace' hevs
      refine ⟨unread', hok', fun hagain => ?_⟩
      have hrest := hless' hagain
      rw [dataReads_cons]
      rw [hunread] at hrest
      omega
    | ok hpacket hstream hbuf hfits hmove hremains heof =>
      exact ⟨[], .ok hpacket hstream hbuf hfits hmove hremains heof, nofun⟩
    | error hnone => exact ⟨[], .error hnone, nofun⟩

end

/-- On every stream of records, however the reads cut it: the parser ends at the first `STDIN`
    record and has made the packet of the records before it, or it refuses them. -/
theorem fastcgi_independent_of_reads (hsize : 8 ≤ buffer_size)
    (htypes : ∀ rec ∈ records, rec.type ≠ 5) (hstdin : stdin.type = 5) (evs : List SockRead)
    (hevs : ∀ ev ∈ evs, SockRead.Delivers ev) :
    ∃ unread : Bytes, LoopOk buffer_size records stdin rest unread
        (readFastcgi buffer_size (.fresh buffer_size (Fcgi.wire records ++ (stdin.wire ++ rest))) evs) ∧
      ((readFastcgi buffer_size (.fresh buffer_size (Fcgi.wire records ++ (stdin.wire ++ rest)))
        evs).1 = .again → dataReads evs < (Fcgi.wire records).length + 8) := by
  have hfresh : Left buffer_size records (stdin.wire ++ rest) records
      (.fresh buffer_size (Fcgi.wire records ++ (stdin.wire ++ rest))) :=
    ⟨htypes, rfl, rfl, hsize, Nat.zero_le _, rfl, rfl, rfl⟩
  have hfront : 0 < front records := by
    cases records with
    | nil => exact Nat.zero_lt_succ _
    | cons rec records =>
      show 0 < rec.wire.length
      rw [rec.wire_length]
      omega
  have hspace : 0 < buffer_size := by omega
  obtain ⟨unread, hok, hless⟩ := readFastcgi_ok hstdin hfresh hfront hspace evs hevs
  refine ⟨unread, hok, fun hagain => ?_⟩
  have hread := hless hagain
  generalize readFastcgi buffer_size _ evs = out at hok hagain
  cases hok with
  | again left h hfront hspace hunread =>
    have hbound := (h.unread_ne_nil hfront).1
    have htotal : unread.length + dataReads evs ≤ (Fcgi.wire records ++ (stdin.wire ++ rest)).length :=
      hread
    rw [length_append] at htotal
    rw [hunread] at hbound
    omega
  | ok hpacket hstream hbuf hfits hmove hremains heof | error hnone => nomatch hagain

end records

/-! ### The stream of parameters -/

/-- The contents of the `PARAMS` records. -/
def paramContents (records : List Fcgi.Record) : List Bytes :=
  (records.filter fun rec => rec.type = 4).map Fcgi.Record.content

/-- No parameter is divided between two records. -/
def Undivided (records : List Fcgi.Record) (ps : List Param) : Prop :=
  ∃ groups : List (List Param), groups.flatten = ps ∧ paramContents records = groups.map params

section stream

variable {buffer_size : Nat} {records : List Fcgi.Record} {ps : List Param} {pkt : Bytes}

theorem paramContents_cons_of_eq (h : rec.type = 4) (records : List Fcgi.Record) :
    paramContents (rec :: records) = rec.content :: paramContents records := by
  unfold paramContents
  rw [filter_cons_of_pos, map_cons]
  exact decide_eq_true h

theorem paramContents_cons_of_ne (h : rec.type ≠ 4) (records : List Fcgi.Record) :
    paramContents (rec :: records) = paramContents records := by
  unfold paramContents
  rw [filter_cons_of_neg]
  exact fun hdec => h (of_decide_eq_true hdec)

/-- Records with whole parameters. -/
theorem packetOf_undivided (hps : ∀ p ∈ ps, ParamOk p) (h : Undivided records ps) :
    packetOf buffer_size pkt records = addVars buffer_size pkt (ps.map Param.pair) ∧
      ∀ p ∈ ps, p.wire.length < 65536 := by
  obtain ⟨groups, rfl, hcontents⟩ := h
  induction records generalizing groups pkt with
  | nil =>
    obtain rfl : groups = [] := map_eq_nil_iff.mp hcontents.symm
    exact ⟨rfl, nofun⟩
  | cons rec records ih =>
    rw [packetOf_cons]
    unfold recordVars
    by_cases htype : rec.type = 4
    · rw [paramContents_cons_of_eq htype] at hcontents
      obtain ⟨ps, groups, rfl, hfirst, hrest⟩ := map_eq_cons_iff.mp hcontents.symm
      rw [flatten_cons] at hps ⊢
      obtain ⟨hps, hgroups⟩ := forall_mem_append.mp hps
      rw [if_pos htype, ← hfirst, fastcgi_to_upsgi_params hps, map_append, addVars_append]
      refine ⟨congrArg _ (funext fun pkt => (ih groups hrest.symm hgroups).1), ?_⟩
      refine forall_mem_append.mpr ⟨fun p hp => ?_, (@ih pkt groups hrest.symm hgroups).2⟩
      -- a parameter is part of the content of its record
      have hle : p.wire.length ≤ (params ps).length :=
        (sublist_flatten_of_mem (mem_map_of_mem hp)).length_le
      rw [hfirst] at hle
      exact Nat.lt_of_le_of_lt hle rec.content_lt
    · rw [paramContents_cons_of_ne htype] at hcontents
      rw [if_neg htype, Option.bind_some]
      exact ih groups hcontents hps

/-- Records that are accepted have whole parameters. -/
theorem undivided_of_packetOf (hps : ∀ p ∈ ps, ParamOk p)
    (hstream : (paramContents records).flatten = params ps) {pkt' : Bytes}
    (h : packetOf buffer_size pkt records = some pkt') : Undivided records ps := by
  induction records generalizing ps pkt with
  | nil =>
    have hnil : params ps = [] := hstream.symm
    have hle := length_le_params ps
    rw [hnil] at hle
    exact ⟨[], (length_eq_zero_iff.mp (Nat.le_zero.mp hle)).symm, rfl⟩
  | cons rec records ih =>
    obtain ⟨pkt₁, hfirst, hrest⟩ := Option.bind_eq_some_iff.mp h
    by_cases htype : rec.type = 4
    · rw [paramContents_cons_of_eq htype, flatten_cons] at hstream
      obtain ⟨ps₁, ps₂, q, rfl, hcontent, hq⟩ := flatMap_cut Param.wire ps rec.content ⟨_, hstream⟩
      obtain ⟨hps₁, hps₂⟩ := forall_mem_append.mp hps
      have hcontent : rec.content = params ps₁ ++ q := hcontent
      rcases hq with rfl | ⟨p, ps₃, rfl, hq, hne, hlt⟩
      · -- the record ends with a parameter
        rw [append_nil] at hcontent
        rw [hcontent, params_append] at hstream
        obtain ⟨groups, hflat, hgroups⟩ := ih hps₂ (append_cancel_left hstream) hrest
        refine ⟨ps₁ :: groups, ?_, ?_⟩
        · rw [flatten_cons, hflat]
        · rw [paramContents_cons_of_eq htype, hcontent, hgroups, map_cons]
      · unfold recordVars at hfirst
        rw [if_pos htype, hcontent, fastcgi_to_upsgi_divided hps₁ hq hne hlt] at hfirst
        nomatch hfirst
    · rw [paramContents_cons_of_ne htype] at hstream
      obtain ⟨groups, hflat, hgroups⟩ := ih hps hstream hrest
      exact ⟨groups, hflat, by rw [paramContents_cons_of_ne htype, hgroups]⟩

/-- A buffer without room for a header is never enough. -/
theorem readFastcgi_tiny {r : FcgiRequest} (hsize : r.proto_parser_buf_size < 8)
    (hfits : r.proto_parser_buf.length ≤ r.proto_parser_buf_size) (evs : List SockRead) :
    (readFastcgi buffer_size r evs).1 ≠ .ok := by
  induction evs generalizing r with
  | nil => nofun
  | cons ev evs ih =>
    unfold readFastcgi upsgi_proto_fastcgi_parser_call
    cases hread : r.read ev with
    | again => exact ih hsize hfits
    | error | closed => nofun
    | got r' =>
      obtain ⟨hsize', hfits'⟩ : r'.proto_parser_buf_size = r.proto_parser_buf_size ∧
          r'.proto_parser_buf.length ≤ r.proto_parser_buf_size := by
        cases ev with
        | wouldBlock | error => nomatch hread
        | data n =>
          unfold FcgiRequest.read at hread
          dsimp only at hread
          split at hread
          · nomatch hread
          · split at hread
            · nomatch hread
            · cases hread
              refine ⟨rfl, ?_⟩
              rw [length_append, length_take]
              omega
      have hshort : r'.proto_parser_buf.length < 8 := by omega
      dsimp only
      unfold recordLoop
      rw [fcgiHeader_short hshort]
      exact ih (by omega) (by omega)

end stream

/-- The parser accepts a stream, whatever the reads are, after at most `need` of them, and makes
    the packet `pkt` of it. -/
def FastcgiAccepts (buffer_size : Nat) (stream : Bytes) (need : Nat) (pkt : Bytes) : Prop :=
  ∀ evs : List SockRead, (∀ ev ∈ evs, ev.Delivers) →
    ((readFastcgi buffer_size (.fresh buffer_size stream) evs).1 = .again ∧ dataReads evs < need) ∨
    ((readFastcgi buffer_size (.fresh buffer_size stream) evs).1 = .ok ∧
      (readFastcgi buffer_size (.fresh buffer_size stream) evs).2.buffer = pkt)

/-- The stream of parameters is accepted exactly when no parameter is divided between two
    records (and a record header fits the buffer), and then the packet has its pairs in order. -/
theorem fastcgi_params_accepted_iff (buffer_size : Nat) (records : List Fcgi.Record)
    (stdin : Fcgi.Record) (rest : Bytes) (ps : List Param) (htypes : ∀ rec ∈ records, rec.type ≠ 5)
    (hstdin : stdin.type = 5) (hps : ∀ p ∈ ps, ParamOk p)
    (hstream : (paramContents records).flatten = params ps)
    (hroom : packetSize (ps.map Param.pair) < buffer_size) :
    FastcgiAccepts buffer_size (Fcgi.wire records ++ (stdin.wire ++ rest))
        ((Fcgi.wire records).length + 8) (packet (ps.map Param.pair)) ↔
      8 ≤ buffer_size ∧ Undivided records ps := by
  constructor
  · intro haccepts
    -- one byte at a time, until the header of `stdin` is there
    have hbytes : ∀ ev ∈ List.replicate ((Fcgi.wire records).length + 8) (SockRead.data 1),
        ev.Delivers := by
      intro ev hev
      rw [eq_of_mem_replicate hev]
      exact Nat.zero_lt_one
    obtain ⟨hok, -⟩ := (haccepts _ hbytes).resolve_left fun h => by
      have hcount : dataReads (List.replicate ((Fcgi.wire records).length + 8) (SockRead.data 1)) =
          (Fcgi.wire records).length + 8 := by
        unfold dataReads
        rw [countP_replicate, if_pos rfl]
      omega
    have hsize : 8 ≤ buffer_size := by
      by_contra htiny
      exact readFastcgi_tiny (Nat.lt_of_not_le htiny) (Nat.zero_le _) _ hok
    refine ⟨hsize, ?_⟩
    obtain ⟨unread, hloop, -⟩ := @fastcgi_independent_of_reads buffer_size records stdin rest hsize
      htypes hstdin _ hbytes
    generalize readFastcgi buffer_size _ _ = out at hloop hok
    cases hloop with
    | again left h hfront hspace hunread | error hnone => nomatch hok
    | ok hpacket hstream' hbuf hfits hmove hremains heof =>
      exact undivided_of_packetOf hps hstream hpacket
  · rintro ⟨hsize, hundivided⟩ evs hevs
    obtain ⟨hpacket, hwire⟩ := @packetOf_undivided buffer_size records ps [] hps hundivided
    have hvars : addVars buffer_size [] (ps.map Param.pair) = some (packet (ps.map Param.pair)) := by
      refine addVars_small ?_ fun e he => ?_
      · rw [length_nil, Nat.zero_add]
        exact hroom
      · obtain ⟨p, hp, rfl⟩ := mem_map.mp he
        have hlt := hwire p hp
        have hlong := @frameSize_lt_wire p
        omega
    rw [hvars] at hpacket
    obtain ⟨unread, hloop, hneed⟩ := @fastcgi_independent_of_reads buffer_size records stdin rest
      hsize htypes hstdin evs hevs
    generalize readFastcgi buffer_size _ evs = out at hloop hneed ⊢
    cases hloop with
    | again left h hfront hspace hunread => exact .inl ⟨rfl, hneed rfl⟩
    | ok hmade hstream' hbuf hfits hmove hremains heof =>
      exact .inr ⟨rfl, (Option.some.inj (hpacket.symm.trans hmade)).symm⟩
    | error hnone => nomatch hpacket.symm.trans hnone

/-! ### A divided parameter -/

/-- A record of request 1. -/
def smallRecord (type : UInt8) (content : Bytes) (h : content.length < 65536) : Fcgi.Record :=
  { version := 1, type, req1 := 0, req0 := 1, content, padding := [], reserved := 0
    content_lt := h, padding_lt := by decide }

/-- The parameter `A=b`. -/
def smallParam : Param :=
  { name := [65], value := [98], longName := false, longValue := false
    name_lt := by decide, value_lt := by decide }

/-- The parameter in one record. -/
theorem fastcgi_params_accepted_whole :
    FastcgiAccepts 4096 (Fcgi.wire [smallRecord 4 [1, 1, 65, 98] (by decide)] ++
      ((smallRecord 5 [] (by decide)).wire ++ [])) 20 (packet [([65], [98])]) := by
  refine (fastcgi_params_accepted_iff 4096 [smallRecord 4 [1, 1, 65, 98] (by decide)]
    (smallRecord 5 [] (by decide)) [] [smallParam] ?_ rfl ?_ rfl (by decide)).mpr ⟨by decide, ?_⟩
  · exact fun rec hrec => by rw [mem_singleton.mp hrec]; decide
  · exact fun p hp => by rw [mem_singleton.mp hp]; decide
  · exact ⟨[[smallParam]], rfl, rfl⟩

/-- The parameter is cut behind its two lengths, and the first record is refused. -/
theorem fastcgi_params_divided :
    ParamOk smallParam ∧
    (paramContents [smallRecord 4 [1, 1] (by decide), smallRecord 4 [65, 98] (by decide)]).flatten =
      params [smallParam] ∧
    packetSize [smallParam.pair] < 4096 ∧
    (readFastcgi 4096 (.fresh 4096
      (Fcgi.wire [smallRecord 4 [1, 1] (by decide), smallRecord 4 [65, 98] (by decide)] ++
        ((smallRecord 5 [] (by decide)).wire ++ []))) [.data 100]).1 = .error := by
  exact ⟨by decide, rfl, by decide, rfl⟩

end Upsgi
