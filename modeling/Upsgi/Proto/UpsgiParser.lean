import Upsgi.Proto.FastcgiParser

/-! # The parsers of upsgi packets

    `upsgi_proto_upsgi_parser` and `upsgi_proto_supsgi_parser` (`proto/upsgi.c`) read a header of
    four bytes and a packet of the size that it declares.  What was read beyond the packet is the
    beginning of the body.  The second one reads from a TLS connection; `SSL_read` is taken to do
    what `read` does.

    Both see the same packet and the same body, however the stream is cut into reads.  But only
    the first one stores the size of the packet in `wsgi_req->len`.
-/

namespace Upsgi

open Framing List

/-! ### The parsers -/

/-- The fields of a `struct wsgi_request` that the parsers use, and what the client sent and was
    not read yet.  `uh` are the first `proto_parser_pos` bytes at that pointer, and
    `proto_parser_remains_buf` are the remaining bytes behind the packet. -/
structure PacketReader where
  uh : Bytes := []
  len : Nat := 0
  proto_parser_remains_buf : Bytes := []
  unread : Bytes

/-- The size in a complete header, between the two modifiers. -/
def pktsize : Bytes → Option Nat
  | _ :: a :: b :: _ :: _ => some (fromLe16 a b)
  | _ => none

def checkSize (buffer_size size : Nat) (r : PacketReader) : ParserRet × PacketReader :=
  if r.uh.length - 4 = size then (.ok, r)
  else if size < r.uh.length - 4 then
    (.ok, { r with proto_parser_remains_buf := r.uh.drop (4 + size) })
  else if buffer_size < size then (.error, r)
  else (.again, r)

/-- A call; `tls` says which parser it is. -/
def packetParser (tls : Bool) (buffer_size : Nat) (r : PacketReader) :
    SockRead → ParserRet × PacketReader
  | .wouldBlock => (.again, r)
  | .error => (.error, r)
  | .data n =>
      let len := min (min n (buffer_size + 4 - r.uh.length)) r.unread.length
      if 0 < len then
        let r := { r with uh := r.uh ++ r.unread.take len, unread := r.unread.drop len }
        match pktsize r.uh with
        | none => (.again, r)
        | some size =>
            -- the parser for TLS has no assignment to `len`
            checkSize buffer_size size (if tls then r else { r with len := size })
      else (.error, r)

def upsgi_proto_upsgi_parser_call := packetParser false

def upsgi_proto_supsgi_parser_call := packetParser true

/-- The calls of a parser until one returns something else than `UPSGI_AGAIN`. -/
def readPacket (parser : PacketReader → SockRead → ParserRet × PacketReader) :
    PacketReader → List SockRead → ParserRet × PacketReader
  | r, [] => (.again, r)
  | r, ev :: evs =>
      match parser r ev with
      | (.again, r) => readPacket parser r evs
      | out => out

/-- A fresh request, read from the socket. -/
def readPlain (buffer_size : Nat) (stream : Bytes) : List SockRead → ParserRet × PacketReader :=
  readPacket (upsgi_proto_upsgi_parser_call buffer_size) { unread := stream }

/-- And from a TLS connection. -/
def readTls (buffer_size : Nat) (stream : Bytes) : List SockRead → ParserRet × PacketReader :=
  readPacket (upsgi_proto_supsgi_parser_call buffer_size) { unread := stream }

/-! ### Outcomes -/

/-- The stream begins with a complete packet of this size, for which there is room. -/
def HasPacket (buffer_size : Nat) (stream : Bytes) (size : Nat) : Prop :=
  pktsize stream = some size ∧ size ≤ buffer_size ∧ 4 + size ≤ stream.length

/-- So far the packet is not complete. -/
structure Waiting (tls : Bool) (buffer_size : Nat) (stream : Bytes) (r : PacketReader) : Prop where
  stream : r.uh ++ r.unread = stream
  small : ∀ size, pktsize r.uh = some size → r.uh.length < 4 + size ∧ size ≤ buffer_size
  len : tls = true → r.len = 0
  remains : r.proto_parser_remains_buf = []

inductive PacketOutcome (tls : Bool) (buffer_size : Nat) (stream : Bytes) :
    ParserRet × PacketReader → Prop where
  | again {r : PacketReader} (h : Waiting tls buffer_size stream r) :
      PacketOutcome tls buffer_size stream (.again, r)
  | refused {r : PacketReader} (h : ∀ size, ¬HasPacket buffer_size stream size) :
      PacketOutcome tls buffer_size stream (.error, r)
  | accepted {r : PacketReader} {size : Nat} (h : HasPacket buffer_size stream size)
      (huh : r.uh.take (4 + size) = stream.take (4 + size))
      (hlen : r.len = if tls then 0 else size)
      (hbody : r.proto_parser_remains_buf ++ r.unread = stream.drop (4 + size)) :
      PacketOutcome tls buffer_size stream (.ok, r)

theorem pktsize_append {bs : Bytes} {size : Nat} (h : pktsize bs = some size) (more : Bytes) :
    pktsize (bs ++ more) = some size ∧ 4 ≤ bs.length := by
  unfold pktsize at h
  split at h
  · refine ⟨h, ?_⟩
    simp only [length_cons]
    omega
  · cases h

theorem pktsize_isSome {bs : Bytes} (h : 4 ≤ bs.length) : ∃ size, pktsize bs = some size := by
  match bs, h with
  | _ :: a :: b :: _ :: _, _ => exact ⟨_, rfl⟩

variable {tls : Bool} {buffer_size : Nat} {stream : Bytes} {r : PacketReader}

/-- A header that is complete decides, together with the number of bytes behind it. -/
theorem checkSize_outcome {size : Nat} (hstream : r.uh ++ r.unread = stream)
    (hsize : pktsize r.uh = some size) (hroom : r.uh.length ≤ buffer_size + 4)
    (hlen : r.len = if tls then 0 else size) (hremains : r.proto_parser_remains_buf = []) :
    PacketOutcome tls buffer_size stream (checkSize buffer_size size r) := by
  obtain ⟨hstreamSize, hfour⟩ := pktsize_append hsize r.unread
  rw [hstream] at hstreamSize
  have hlength := congrArg List.length hstream
  rw [length_append] at hlength
  have hfits : 4 + size ≤ r.uh.length → HasPacket buffer_size stream size :=
    fun hle => ⟨hstreamSize, by omega, by omega⟩
  unfold checkSize
  split_ifs with hexact hmore hlarge
  · refine .accepted (hfits (by omega)) ?_ hlen ?_
    · rw [← hstream, take_append_of_le_length (by omega)]
    · rw [hremains, ← hstream, nil_append, drop_append_of_le_length (by omega),
        drop_eq_nil_of_le (by omega), nil_append]
  · refine .accepted (hfits (by omega)) ?_ hlen ?_
    · rw [← hstream, take_append_of_le_length (by omega)]
    · rw [← hstream, drop_append_of_le_length (by omega)]
  · refine .refused fun other hother => ?_
    obtain rfl := Option.some.inj (hstreamSize.symm.trans hother.1)
    exact absurd hother.2.1 (Nat.not_le_of_lt hlarge)
  · refine .again ⟨hstream, ?_, fun htls => by rw [hlen, if_pos htls], hremains⟩
    intro other hother
    obtain rfl := Option.some.inj (hsize.symm.trans hother)
    omega

/-- Step: one call. -/
theorem packetParser_outcome (h : Waiting tls buffer_size stream r) {ev : SockRead}
    (hev : ev.Delivers) :
    PacketOutcome tls buffer_size stream (packetParser tls buffer_size r ev) := by
  have hlength := congrArg List.length h.stream
  rw [length_append] at hlength
  -- as long as the parser waits, there is room for more
  have hroom : r.uh.length < buffer_size + 4 := by
    by_cases hfour : r.uh.length < 4
    · omega
    · obtain ⟨size, hsize⟩ := pktsize_isSome (Nat.le_of_not_lt hfour)
      have hsmall := h.small size hsize
      omega
  cases ev with
  | wouldBlock => exact .again h
  | error => exact hev.elim
  | data n =>
    have hn : 0 < n := hev
    unfold packetParser
    dsimp only
    generalize hlen : min (min n (buffer_size + 4 - r.uh.length)) r.unread.length = len
    by_cases hpos : 0 < len
    · rw [if_pos hpos]
      have hread : (r.uh ++ r.unread.take len) ++ r.unread.drop len = stream := by
        rw [append_assoc, take_append_drop, h.stream]
      cases hsize : pktsize (r.uh ++ r.unread.take len) with
      | none => exact .again ⟨hread, by simp [hsize], h.len, h.remains⟩
      | some size =>
        have hfull : (r.uh ++ r.unread.take len).length ≤ buffer_size + 4 := by
          rw [length_append, length_take]
          omega
        cases tls with
        | true => exact checkSize_outcome hread hsize hfull (h.len rfl) h.remains
        | false => exact checkSize_outcome hread hsize hfull rfl h.remains
    · -- all of the stream was read
      rw [if_neg hpos]
      refine .refused fun size hpacket => ?_
      have hnil : r.unread = [] := eq_nil_of_length_eq_zero (by omega)
      have huh : r.uh = stream := by rw [← h.stream, hnil, append_nil]
      have hsmall := h.small size (huh ▸ hpacket.1)
      have hle := hpacket.2.2
      rw [← huh] at hle
      omega

/-- Run: the calls on a stream. -/
theorem readPacket_outcome (h : Waiting tls buffer_size stream r) (evs : List SockRead)
    (hevs : ∀ ev ∈ evs, ev.Delivers) :
    PacketOutcome tls buffer_size stream (readPacket (packetParser tls buffer_size) r evs) := by
  induction evs generalizing r with
  | nil => exact .again h
  | cons ev evs ih =>
    rw [forall_mem_cons] at hevs
    have hstep := packetParser_outcome h hevs.1
    unfold readPacket
    generalize packetParser tls buffer_size r ev = out at hstep ⊢
    cases hstep with
    | again h => exact ih h hevs.2
    | refused h => exact .refused h
    | accepted h huh hlen hbody => exact .accepted h huh hlen hbody

theorem waiting_fresh (tls : Bool) (buffer_size : Nat) (stream : Bytes) :
    Waiting tls buffer_size stream { unread := stream } :=
  ⟨rfl, nofun, fun _ => rfl, rfl⟩

/-! ### Agreement -/

/-- Two parsers end alike: with the same status and, if it is `UPSGI_OK`, with the same header and
    packet, the same `len`, and the same bytes left for the body. -/
def Alike (size : Nat) (out out' : ParserRet × PacketReader) : Prop :=
  out.1 = out'.1 ∧ (out.1 = .ok →
    out.2.uh.take (4 + size) = out'.2.uh.take (4 + size) ∧ out.2.len = out'.2.len ∧
      out.2.proto_parser_remains_buf ++ out.2.unread =
        out'.2.proto_parser_remains_buf ++ out'.2.unread)

/-- On any stream, cut in any two ways, the two parsers end alike if and only if the packet is
    refused or empty. -/
theorem upsgi_parsers_alike_iff (buffer_size : Nat) (stream : Bytes) (evs evs' : List SockRead)
    (hevs : ∀ ev ∈ evs, ev.Delivers) (hevs' : ∀ ev ∈ evs', ev.Delivers)
    (hends : (readPlain buffer_size stream evs).1 ≠ .again)
    (hends' : (readTls buffer_size stream evs').1 ≠ .again) :
    Alike ((pktsize stream).getD 0) (readPlain buffer_size stream evs)
        (readTls buffer_size stream evs') ↔
      ∀ size, HasPacket buffer_size stream size → size = 0 := by
  have hplain : PacketOutcome false buffer_size stream (readPlain buffer_size stream evs) :=
    readPacket_outcome (waiting_fresh false buffer_size stream) evs hevs
  have htls : PacketOutcome true buffer_size stream (readTls buffer_size stream evs') :=
    readPacket_outcome (waiting_fresh true buffer_size stream) evs' hevs'
  generalize readPlain buffer_size stream evs = out at *
  generalize readTls buffer_size stream evs' = out' at *
  unfold Alike
  cases hplain with
  | again => nomatch hends
  | refused hnot =>
    cases htls with
    | again => nomatch hends'
    | refused _ => exact ⟨fun _ size h => absurd h (hnot size), fun _ => ⟨rfl, nofun⟩⟩
    | accepted h => exact absurd h (hnot _)
  | @accepted r size h huh hlen hbody =>
    cases htls with
    | again => nomatch hends'
    | refused hnot => exact absurd h (hnot _)
    | @accepted r' size' h' huh' hlen' hbody' =>
      obtain rfl := Option.some.inj (h.1.symm.trans h'.1)
      rw [h.1, Option.getD_some]
      constructor
      · rintro ⟨_, hok⟩ other hother
        obtain ⟨_, hsame, _⟩ := hok rfl
        obtain rfl := Option.some.inj (h.1.symm.trans hother.1)
        exact hlen.symm.trans (hsame.trans hlen')
      · intro hzero
        refine ⟨rfl, fun _ => ⟨huh.trans huh'.symm, ?_, hbody.trans hbody'.symm⟩⟩
        exact (hlen.trans (hzero _ h)).trans hlen'.symm

/-- An empty packet with a body, in one read and byte by byte. -/
theorem upsgi_parsers_alike_iff_empty : Alike 0 (readPlain 8 [0, 0, 0, 0, 65] [.data 9])
    (readTls 8 [0, 0, 0, 0, 65] [.data 1, .wouldBlock, .data 1, .data 1, .data 1]) :=
  (upsgi_parsers_alike_iff 8 [0, 0, 0, 0, 65] _ _ (by decide) (by decide) (by decide)
    (by decide)).mpr fun _ h => Option.some.inj (h.1.symm.trans rfl)

/-- A packet of one byte: the parser for TLS leaves the length 0. -/
theorem upsgi_parsers_lengths_differ :
    (readPlain 8 [0, 1, 0, 0, 65] [.data 9]).2.len = 1 ∧
      (readTls 8 [0, 1, 0, 0, 65] [.data 9]).2.len = 0 ∧
      ¬Alike 1 (readPlain 8 [0, 1, 0, 0, 65] [.data 9]) (readTls 8 [0, 1, 0, 0, 65] [.data 9]) :=
  ⟨rfl, rfl, fun h => absurd (h.2 rfl).2.1 (by decide)⟩

end Upsgi
