import Upsgi.Body.Chunked
import Upsgi.Lib.Terminator
import Upsgi.Proto.HttpParse

/-! # Reading the header block

    `upsgi_proto_http_parser` (`proto/http.c`) is called each time the socket
    of a new connection may have data, until it does not answer `UPSGI_AGAIN`.
    It appends what it reads to `proto_parser_buf` and looks for an empty line
    with a small automaton whose status survives from one call to the next.
    The block up to the empty line goes to `http_parse`; what was read behind
    it is the beginning of the body.

    Where the reads are cut does not matter: the block that is parsed, the
    bytes left for the body, and whether the request is refused for its size
    are functions of the byte stream.
-/

namespace Upsgi

open Framing Terminator List

/-! ### The parser -/

/-- What `read` does in one call: it would block, it fails, or `n` bytes have
    arrived; none have when the client closed the connection. -/
inductive SockRead where
  | wouldBlock
  | error
  | data (n : Nat)

/-- The connection while its header block is read.  `proto_parser_buf` are the
    first `proto_parser_pos` bytes of that buffer. -/
structure HeadReader where
  proto_parser_buf : Bytes
  proto_parser_status : Nat
  unread : Bytes

/-- A fresh connection. -/
def HeadReader.fresh (stream : Bytes) : HeadReader where
  proto_parser_buf := []
  proto_parser_status := 0
  unread := stream

/-- The return of a call.  Only `again` is followed by another one. -/
inductive HeadReturn where
  /-- `UPSGI_AGAIN`. -/
  | again (r : HeadReader)
  /-- "invalid HTTP request size" -/
  | tooLarge
  | readError
  | closed
  /-- What `http_parse` was given and made of it, and the connection it leaves
      for the body. -/
  | parsed (block : Bytes) (result : Except HttpReject HttpRequest) (conn : Conn)

/-- The status after a byte; `none` is the end of the block. -/
def parserStatus (proto_parser_status : Nat) (c : UInt8) : Option Nat :=
  if c = CR ∧ (proto_parser_status = 0 ∨ proto_parser_status = 2) then
    some (proto_parser_status + 1)
  else if c = CR then some 1
  else if c = LF ∧ proto_parser_status = 1 then some 2
  else if c = LF ∧ proto_parser_status = 3 then none
  else some 0

/-- The label `parse`: `len` bytes were read to the end of the buffer. -/
def parseRead (cfg : HttpConfig) (r : HeadReader) (len : Nat) : HeadReturn :=
  let proto_parser_buf := r.proto_parser_buf ++ r.unread.take len
  let unread := r.unread.drop len
  match scan parserStatus r.proto_parser_status 0 (r.unread.take len) with
  | .more proto_parser_status => .again ⟨proto_parser_buf, proto_parser_status, unread⟩
  | .found j =>
      -- the remains are the last bytes of the buffer
      let proto_parser_remains := len - j
      let block := proto_parser_buf.take (r.proto_parser_buf.length + j)
      .parsed block (http_parse cfg block)
        ⟨proto_parser_buf.drop (proto_parser_buf.length - proto_parser_remains), unread⟩

/-- One call of `upsgi_proto_http_parser`. -/
def upsgi_proto_http_parser_call (cfg : HttpConfig) (r : HeadReader) : SockRead → HeadReturn
  | .wouldBlock =>
      if cfg.buffer_size - r.proto_parser_buf.length = 0 then .tooLarge else .again r
  | .error =>
      if cfg.buffer_size - r.proto_parser_buf.length = 0 then .tooLarge else .readError
  | .data n =>
      if cfg.buffer_size - r.proto_parser_buf.length = 0 then .tooLarge
      else
        let len := min (min n (cfg.buffer_size - r.proto_parser_buf.length)) r.unread.length
        if 0 < len then parseRead cfg r len else .closed

/-- The calls that follow one another on a connection. -/
def readHead (cfg : HttpConfig) : HeadReader → List SockRead → HeadReturn
  | r, [] => .again r
  | r, ev :: evs =>
      match upsgi_proto_http_parser_call cfg r ev with
      | .again r => readHead cfg r evs
      | out => out

/-! ### The automaton -/

/-- The end of a header block. -/
def emptyLine : Bytes := [CR, LF, CR, LF]

/-- The symbols of the pattern. -/
theorem emptyLine_get {k : Nat} (hk : k < 4) :
    (emptyLine.get ⟨k, hk⟩ = CR ↔ k = 0 ∨ k = 2) ∧ (emptyLine.get ⟨k, hk⟩ = LF ↔ k = 1 ∨ k = 3) := by
  match k, hk with
  | 0, _ | 1, _ | 2, _ | 3, _ => decide +revert

section automaton

variable {seen : Bytes} {c : UInt8} {status k : Nat}

/-- A longer match ends in the byte that was read last. -/
theorem matched_snoc_iff (hk : k < 4) :
    Matched emptyLine (seen ++ [c]) (k + 1) ↔ emptyLine.get ⟨k, hk⟩ = c ∧ Matched emptyLine seen k :=
  matched_succ_iff hk

/-- A stretch that ends in `\r` does not end in `\n`. -/
theorem matched_parity (h1 : Matched emptyLine seen (k + 1)) (h2 : Matched emptyLine seen (k + 2))
    (hk : k + 1 < 4) : False := by
  rcases eq_nil_or_concat seen with rfl | ⟨before, c, rfl⟩
  · have hlen := h1.length_le
    simp [emptyLine] at hlen
  · rw [concat_eq_append] at h1 h2
    have hc1 := ((matched_snoc_iff (by omega)).mp h1).1
    have hc2 := ((matched_snoc_iff hk).mp h2).1
    have hget1 := (emptyLine_get (show k < 4 by omega)).1
    rw [hc1, ← hc2] at hget1
    have := hget1.symm.trans (emptyLine_get hk).1
    omega

/-- Only a longer match says that something was matched. -/
theorem longest_snoc {status' : Nat} (h : ∀ j (hj : j < 3),
      emptyLine.get ⟨j, Nat.lt_succ_of_lt hj⟩ = c → Matched emptyLine seen j → j + 1 ≤ status') :
    ∀ k, k < 4 → Matched emptyLine (seen ++ [c]) k → k ≤ status' := by
  intro k hk hmatched
  cases k with
  | zero => exact Nat.zero_le _
  | succ j =>
    obtain ⟨hc, hj⟩ := (matched_snoc_iff (by omega)).mp hmatched
    exact h j (by omega) hc hj

theorem emptyLine_snoc_iff (h : Terminator.Tracks emptyLine status seen) :
    emptyLine <:+ seen ++ [c] ↔ c = LF ∧ status = 3 := by
  show Matched emptyLine (seen ++ [c]) (3 + 1) ↔ _
  rw [matched_snoc_iff (by decide)]
  constructor
  · intro ⟨hc, hm⟩
    have hle := h.longest 3 (by decide) hm
    have hlt : status < 4 := h.lt
    exact ⟨hc.symm, by omega⟩
  · intro ⟨hc, hs⟩
    exact ⟨hc.symm, hs ▸ h.matched⟩

/-- The automaton of the source is the matching automaton of the empty line. -/
theorem parserStatus_isAutomaton : IsAutomaton emptyLine parserStatus where
  complete := by
    intro status seen c h
    rw [emptyLine_snoc_iff h]
    unfold parserStatus
    have hne : LF ≠ CR := by decide
    constructor
    · intro hnone
      split_ifs at hnone with h1 h2 h3 h4
      exact h4
    · intro ⟨hc, hs⟩
      simp [hc, hs, hne]
  status := by
    intro status seen c status' h hstep
    have hlt : status < 4 := h.lt
    have hincomplete : ¬ emptyLine <:+ seen ++ [c] := by
      rw [emptyLine_snoc_iff h]
      intro ⟨hc, hs⟩
      rw [hc, hs] at hstep
      cases hstep
    have habsent := h.absent.snoc hincomplete
    unfold parserStatus at hstep
    split_ifs at hstep with h1 h2 h3 h4
    · -- `\r` where it was expected
      cases hstep
      obtain ⟨rfl, hs⟩ := h1
      have hnext : emptyLine.get ⟨status, hlt⟩ = CR := (emptyLine_get hlt).1.mpr hs
      refine ⟨?_, (matched_snoc_iff hlt).mpr ⟨hnext, h.matched⟩, ?_, habsent⟩
      · show status + 1 < 4
        omega
      · apply longest_snoc
        intro j hj _ hmatched
        exact Nat.succ_le_succ (h.longest j (show j < 4 by omega) hmatched)
    · -- another `\r`: only the first symbol is matched
      cases hstep
      subst h2
      refine ⟨by decide, (matched_snoc_iff (by decide)).mpr ⟨rfl, matched_zero _ _⟩, ?_, habsent⟩
      apply longest_snoc
      intro j hj hc hmatched
      have hparity := (emptyLine_get (show j < 4 by omega)).1.mp hc
      have hle := h.longest j (show j < 4 by omega) hmatched
      rcases hparity with rfl | rfl
      · exact Nat.le_refl 1
      · obtain rfl : status = 3 := by
          have : status ≠ 2 := fun hs => h1 ⟨rfl, Or.inr hs⟩
          omega
        exact (matched_parity hmatched h.matched (by decide)).elim
    · -- the first line end
      cases hstep
      obtain ⟨rfl, rfl⟩ := h3
      refine ⟨by decide, (matched_snoc_iff (by decide)).mpr ⟨rfl, h.matched⟩, ?_, habsent⟩
      apply longest_snoc
      intro j hj _ hmatched
      exact Nat.succ_le_succ (h.longest j (show j < 4 by omega) hmatched)
    · -- any other byte
      cases hstep
      refine ⟨by decide, matched_zero _ _, ?_, habsent⟩
      apply longest_snoc
      intro j hj hc hmatched
      have hle := h.longest j (show j < 4 by omega) hmatched
      exfalso
      match j, hj with
      | 0, _ => exact h2 hc.symm
      | 1, _ =>
        have hs1 : status ≠ 1 := fun hs => h3 ⟨hc.symm, hs⟩
        have hs3 : status ≠ 3 := fun hs => h4 ⟨hc.symm, hs⟩
        obtain rfl : status = 2 := by omega
        exact matched_parity hmatched h.matched (by decide)
      | 2, _ => exact h2 hc.symm

end automaton

/-! ### The calls of a connection -/

/-- The reads of a client that neither fails nor goes away. -/
def SockRead.Delivers : SockRead → Prop
  | .wouldBlock => True
  | .error => False
  | .data n => 0 < n

instance : DecidablePred SockRead.Delivers
  | .wouldBlock => isTrue trivial
  | .error => isFalse id
  | .data n => inferInstanceAs (Decidable (0 < n))

/-- The number of reads that brought something. -/
def dataReads (evs : List SockRead) : Nat :=
  evs.countP fun
    | .data _ => true
    | _ => false

/-- What the stream `block ++ rest`, with the header block `block`, is to be
    answered with. -/
def AnswersFor (cfg : HttpConfig) (block rest : Bytes) : HeadReturn → Prop
  | .tooLarge => cfg.buffer_size < block.length
  | .parsed b result conn =>
      block.length ≤ cfg.buffer_size ∧ b = block ∧ result = http_parse cfg block ∧
        conn.incoming = rest
  | _ => False

/-- While the empty line is looked for. -/
structure Searching (cfg : HttpConfig) (stream : Bytes) (r : HeadReader) : Prop where
  stream_eq : r.proto_parser_buf ++ r.unread = stream
  tracks : Terminator.Tracks emptyLine r.proto_parser_status r.proto_parser_buf
  fits : r.proto_parser_buf.length ≤ cfg.buffer_size

section calls

variable {cfg : HttpConfig} {block rest : Bytes}

/-- The bytes behind the label `parse`. -/
theorem parseRead_spec {r : HeadReader} {len : Nat} (hblock : EndsFirst emptyLine block)
    (h : Searching cfg (block ++ rest) r) (hlen : len ≤ r.unread.length)
    (hfit : r.proto_parser_buf.length + len ≤ cfg.buffer_size) :
    (∃ r', parseRead cfg r len = .again r' ∧ Searching cfg (block ++ rest) r' ∧
      r'.proto_parser_buf.length = r.proto_parser_buf.length + len) ∨
    AnswersFor cfg block rest (parseRead cfg r len) := by
  have hscan := scan_spec parserStatus_isAutomaton (r.unread.take len) r.proto_parser_status 0
    r.proto_parser_buf h.tracks
  have htake : (r.unread.take len).length = len := by
    rw [length_take]
    omega
  unfold parseRead
  cases hres : scan parserStatus r.proto_parser_status 0 (r.unread.take len) with
  | more status =>
    rw [hres] at hscan
    left
    refine ⟨_, rfl, ⟨?_, hscan, ?_⟩, ?_⟩
    · rw [append_assoc, take_append_drop, h.stream_eq]
    · rw [length_append, htake]
      exact hfit
    · rw [length_append, htake]
  | found j =>
    rw [hres] at hscan
    obtain ⟨m, hm, hle, hends⟩ := hscan
    obtain rfl : j = m := by omega
    right
    -- the buffer is the block and the remains behind it
    have hbuf : r.proto_parser_buf ++ r.unread.take len =
        (r.proto_parser_buf ++ (r.unread.take len).take j) ++ (r.unread.take len).drop j := by
      rw [append_assoc, take_append_drop]
    have hjlen : (r.proto_parser_buf ++ (r.unread.take len).take j).length =
        r.proto_parser_buf.length + j := by
      rw [length_append, length_take, htake]
      omega
    have hstream : (r.proto_parser_buf ++ (r.unread.take len).take j) ++
        ((r.unread.take len).drop j ++ r.unread.drop len) = block ++ rest := by
      rw [← append_assoc, ← hbuf, append_assoc, take_append_drop, h.stream_eq]
    obtain ⟨hb, hr⟩ := hends.unique hblock hstream
    have hblocktake : (r.proto_parser_buf ++ r.unread.take len).take (r.proto_parser_buf.length + j) =
        block := by
      rw [hbuf, ← hjlen, take_left, hb]
    have hremains : (r.proto_parser_buf ++ r.unread.take len).length - (len - j) =
        r.proto_parser_buf.length + j := by
      rw [length_append, htake]
      omega
    refine ⟨?_, hblocktake, by rw [hblocktake], ?_⟩
    · rw [← hb, hjlen]
      omega
    · show (r.proto_parser_buf ++ r.unread.take len).drop _ ++ r.unread.drop len = rest
      rw [hremains, hbuf, ← hjlen, drop_left, hr]

/-- Step: a call either goes on searching, further down the stream when it read
    something, or gives the answer. -/
theorem http_parser_step {r : HeadReader} {ev : SockRead} (hblock : EndsFirst emptyLine block)
    (h : Searching cfg (block ++ rest) r) (hev : ev.Delivers) :
    (∃ r', upsgi_proto_http_parser_call cfg r ev = .again r' ∧ Searching cfg (block ++ rest) r' ∧
      r.proto_parser_buf.length + dataReads [ev] ≤ r'.proto_parser_buf.length) ∨
    AnswersFor cfg block rest (upsgi_proto_http_parser_call cfg r ev) := by
  have hbefore : r.proto_parser_buf.length < block.length :=
    h.tracks.absent.length_lt hblock h.stream_eq
  have hroom : ∀ out, cfg.buffer_size - r.proto_parser_buf.length = 0 →
      out = HeadReturn.tooLarge → AnswersFor cfg block rest out := by
    intro out hfull hout
    rw [hout]
    show cfg.buffer_size < block.length
    have := h.fits
    omega
  cases ev with
  | wouldBlock =>
    simp only [upsgi_proto_http_parser_call]
    split
    · next hfull => exact Or.inr (hroom _ hfull rfl)
    · exact Or.inl ⟨r, rfl, h, le_rfl⟩
  | error => exact hev.elim
  | data n =>
    simp only [upsgi_proto_http_parser_call]
    split
    · next hfull => exact Or.inr (hroom _ hfull rfl)
    · next hspace =>
      -- the empty line is still to come, so there is something to read
      have hunread : 0 < r.unread.length := by
        have hlen := congrArg List.length h.stream_eq
        rw [length_append, length_append] at hlen
        omega
      have hn : 0 < n := hev
      rw [if_pos (by omega)]
      have hfits := h.fits
      have hle := Nat.min_le_right (min n (cfg.buffer_size - r.proto_parser_buf.length))
        r.unread.length
      rcases parseRead_spec hblock h hle (by omega) with ⟨r', hr', hsearch, hlen⟩ | hanswer
      · refine Or.inl ⟨r', hr', hsearch, ?_⟩
        have hone : dataReads [SockRead.data n] = 1 := rfl
        omega
      · exact Or.inr hanswer

/-- Run: the calls give the answer, and they do so before there were as many
    reads as the block has bytes. -/
theorem readHead_spec (hblock : EndsFirst emptyLine block) (evs : List SockRead) (r : HeadReader)
    (h : Searching cfg (block ++ rest) r) (hevs : ∀ ev ∈ evs, ev.Delivers) :
    (∃ r', readHead cfg r evs = .again r' ∧
      r.proto_parser_buf.length + dataReads evs < block.length) ∨
    AnswersFor cfg block rest (readHead cfg r evs) := by
  induction evs generalizing r with
  | nil => exact Or.inl ⟨r, rfl, h.tracks.absent.length_lt hblock h.stream_eq⟩
  | cons ev evs ih =>
    rw [forall_mem_cons] at hevs
    rw [readHead]
    rcases http_parser_step hblock h hevs.1 with ⟨r', hr', hsearch, hlen⟩ | hanswer
    · rw [hr']
      rcases ih r' hsearch hevs.2 with ⟨r'', hr'', hlt⟩ | hanswer
      · refine Or.inl ⟨r'', hr'', ?_⟩
        have hsum : dataReads (ev :: evs) = dataReads [ev] + dataReads evs := by
          unfold dataReads
          rw [← countP_append]
          rfl
        omega
      · exact Or.inr hanswer
    · -- an answer ends the calls
      right
      cases hout : upsgi_proto_http_parser_call cfg r ev with
      | again r' =>
        rw [hout] at hanswer
        exact hanswer.elim
      | _ =>
        rw [hout] at hanswer
        exact hanswer

end calls

/-- On every stream that contains an empty line, however the reads cut it and
    wherever the socket would have blocked: the block up to the first empty line
    is parsed and the rest is left for the body, or the request is refused and
    the block is larger than the buffer.  At most as many reads are needed as
    the block has bytes. -/
theorem http_head_independent_of_reads (cfg : HttpConfig) (stream : Bytes)
    (h : emptyLine <:+: stream) :
    ∃ block rest, stream = block ++ rest ∧ EndsFirst emptyLine block ∧
      ∀ evs, (∀ ev ∈ evs, SockRead.Delivers ev) →
        (∃ r, readHead cfg (.fresh stream) evs = .again r ∧ dataReads evs < block.length) ∨
        AnswersFor cfg block rest (readHead cfg (.fresh stream) evs) := by
  obtain ⟨block, rest, rfl, hblock⟩ := exists_endsFirst (by decide) h
  refine ⟨block, rest, rfl, hblock, ?_⟩
  intro evs hevs
  have hfresh : Searching cfg (block ++ rest) (.fresh (block ++ rest)) :=
    ⟨rfl, tracks_nil (by decide), Nat.zero_le _⟩
  have hrun := readHead_spec hblock evs _ hfresh hevs
  rwa [show (HeadReader.fresh (block ++ rest)).proto_parser_buf.length = 0 from rfl,
    Nat.zero_add] at hrun

/-- Three bytes, an empty line and a byte of body, read byte by byte. -/
theorem http_head_independent_of_reads_bytewise :
    ∃ cfg block rest, cfg.buffer_size = 64 ∧ lit "GET\r\n\r\nb" = block ++ rest ∧
      AnswersFor cfg block rest
        (readHead cfg (.fresh (lit "GET\r\n\r\nb")) (List.replicate 8 (.data 1))) := by
  obtain ⟨cfg, hsize⟩ : ∃ cfg : HttpConfig, cfg.buffer_size = 64 :=
    ⟨{ buffer_size := 64, peer := .inet [], inet_ntop4 := fun _ => none,
       inet_ntop6 := fun _ => none }, rfl⟩
  obtain ⟨block, rest, hstream, _, hrun⟩ := http_head_independent_of_reads cfg
    (lit "GET\r\n\r\nb") ⟨lit "GET", lit "b", by decide⟩
  refine ⟨cfg, block, rest, hsize, hstream, ?_⟩
  rcases hrun (List.replicate 8 (.data 1)) (by simp [SockRead.Delivers]) with
    ⟨r, _, hlt⟩ | hanswer
  · -- the block is no longer than the stream
    have hlen := congrArg List.length hstream
    rw [length_append, show (lit "GET\r\n\r\nb").length = 8 by decide] at hlen
    rw [show dataReads (List.replicate 8 (.data 1)) = 8 from rfl] at hlt
    omega
  · exact hanswer

end Upsgi
