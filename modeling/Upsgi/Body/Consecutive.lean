import Upsgi.Body.Decoding
import Upsgi.Body.KeepAlive

/-! # Reads of a request body

    Whatever a body is kept in, a read takes the next bytes of it.  Each kind of
    storage has its own idea of a position: `post_pos` and the file, `post_pos`
    and the buffer, `post_pos` and the connection, or the decoder and what is
    left of the last chunk.  What they have in common is the rest of the body
    that they stand for, and a read gives the beginning of that rest.
-/

namespace Upsgi

open Framing
open ChunkedCoding hiding Bytes
open List

/-! ### Successive reads -/

/-- What a read of at most `hint` bytes gives where `rest` is left of a body. -/
def expectedRead (rest : Bytes) (hint : Nat) : ReadResult :=
  if rest = [] then .empty else .data (rest.take hint)

/-- What reads one after another give. -/
def expectedReads : Bytes → List Nat → List ReadResult
  | _, [] => []
  | rest, hint :: hints => expectedRead rest hint :: expectedReads (rest.drop hint) hints

/-- Calls of `upsgi_request_body_read` one after another. -/
def bodyReads (cfg : BodyConfig) (head : Head) :
    List (Nat × ReadEnv) → BodyState → BodyState × List ReadResult
  | [], st => (st, [])
  | (hint, env) :: reads, st =>
      let (st, result) := upsgi_request_body_read cfg head hint env st
      let (st, results) := bodyReads cfg head reads st
      (st, result :: results)

variable {rest bytes : Bytes} {hint n : Nat} {conn : Conn} {cfg : BodyConfig} {st : BodyState}
    {head : Head}

/-- The bytes a read took are what is expected of it. -/
theorem data_eq_expectedRead (hrest : rest ≠ [])
    (hn : n = min hint rest.length) : .data (rest.take n) = expectedRead rest hint := by
  unfold expectedRead
  rw [if_neg hrest, hn, take_eq_take_min (i := hint)]

/-! ### What the decoder still has to deliver -/

/-- `bytes` is the data of the chunks that are still to come.  A chunk that the
    decoder is going to refuse counts. -/
structure Ahead (conn : Conn) (d : Decoder) (bytes : Bytes) : Prop where
  between : Between d
  readable : ReadableFrom d.phase (d.rest conn)
  to_come : ∃ chunks more q t, bytes = chunks.flatten ++ more ∧
    Reaches sizeLimit d.phase (d.rest conn) chunks q t ∧ Halted sizeLimit q t ∧
      (q = .complete → more = [])

/-- What a call of the decoder does with the data that is to come. -/
def TakesAhead (bytes : Bytes) : Conn × Decoder × ChunkResult → Prop
  | (conn, d, .chunk data) => data ≠ [] ∧ ∃ bytes', bytes = data ++ bytes' ∧ Ahead conn d bytes'
  | (conn, d, .finished) => bytes = [] ∧ Ahead conn d []
  | (_, _, .fail) => True

theorem upsgi_chunked_read_ahead (cfg : ChunkedConfig) (call : ChunkedCall) (conn : Conn)
    (chunked_input : Option Decoder) (h : Ahead conn (chunked_input.getD (Decoder.new cfg)) bytes) :
    TakesAhead bytes (upsgi_chunked_read cfg call conn chunked_input) := by
  obtain ⟨chunks, more, q, t, hbytes, hreach, hhalt, hcomplete⟩ := h.to_come
  have hgives := upsgi_chunked_read_gives cfg call conn chunked_input rfl h.between h.readable
  generalize upsgi_chunked_read cfg call conn chunked_input = out at hgives ⊢
  obtain ⟨conn', d', result⟩ := out
  cases result with
  | chunk data =>
    obtain ⟨hne, _, hstep, hbetween⟩ := hgives
    -- the chunk is the first one on the way to the halt
    obtain ⟨chunks', hchunks, hreach'⟩ := hstep.factor hreach hhalt
    refine ⟨hne, chunks'.flatten ++ more, ?_, hbetween, h.readable.reached hstep, ?_⟩
    · rw [hbytes, hchunks]
      simp
    · exact ⟨chunks', more, q, t, rfl, hreach', hhalt, hcomplete⟩
  | finished =>
    obtain ⟨hdone, hstep, hbetween⟩ := hgives
    -- so the halt is the end of the body
    obtain ⟨rfl, rfl, rfl⟩ := hstep.unique hreach (halted_complete _) hhalt
    have hphase : d'.phase = .complete := if_pos hdone
    refine ⟨by rw [hbytes, hcomplete rfl]; rfl, hbetween, ?_, ?_⟩
    · rw [hphase]
      exact h.readable.reached hstep
    · rw [hphase]
      exact ⟨[], [], .complete, _, rfl, .refl _ _, halted_complete _, fun _ => rfl⟩
  | fail => trivial

/-- Loop: the bytes that were asked for are taken off the data that is to come. -/
theorem smartLoop_ahead (cfg : ChunkedConfig) (calls : Nat → ChunkedCall) (room : Nat → Bool)
    (ret : Bytes) (rounds : Nat) :
    ∀ (remains : Nat) (conn : Conn) (chunked_input : Option Decoder) (buf bytes : Bytes),
      remains ≤ rounds → Ahead conn (chunked_input.getD (Decoder.new cfg)) bytes →
      ∀ conn' d' buf' data,
        smartLoop cfg calls room ret rounds remains conn chunked_input buf =
          (conn', d', buf', some data) →
        ∃ bytes', Ahead conn' (d'.getD (Decoder.new cfg)) bytes' ∧
          data = ret ++ (buf ++ bytes.take remains) ∧ buf' ++ bytes' = bytes.drop remains := by
  induction rounds with
  | zero =>
    intro remains conn chunked_input buf bytes hrounds h conn' d' buf' data hloop
    obtain rfl : remains = 0 := Nat.le_zero.mp hrounds
    cases hloop
    exact ⟨bytes, h, by simp, rfl⟩
  | succ rounds ih =>
    intro remains conn chunked_input buf bytes hrounds h conn' d' buf' data hloop
    unfold smartLoop at hloop
    split at hloop
    · next hzero =>
      subst hzero
      cases hloop
      exact ⟨bytes, h, by simp, rfl⟩
    · have htakes := upsgi_chunked_read_ahead cfg (calls rounds) conn chunked_input h
      generalize upsgi_chunked_read cfg (calls rounds) conn chunked_input = out at htakes hloop
      obtain ⟨conn₁, d₁, result⟩ := out
      cases result with
      | fail => cases hloop
      | finished =>
        -- the body is at its end
        obtain ⟨rfl, hahead⟩ := htakes
        cases hloop
        exact ⟨[], hahead, by simp, by simp⟩
      | chunk chunk =>
        obtain ⟨hne, bytes', rfl, hahead⟩ := htakes
        dsimp only at hloop
        split at hloop
        · cases hloop
        · split at hloop
          · -- the chunk has more than what was asked for
            next hless =>
            have hcut : (buf ++ chunk).length - (chunk.length - remains) = buf.length + remains := by
              rw [length_append]
              omega
            rw [hcut] at hloop
            cases hloop
            refine ⟨bytes', hahead, ?_, ?_⟩
            · rw [take_append_of_le_length (Nat.le_of_lt hless), take_length_add_append]
            · rw [drop_append_of_le_length (Nat.le_of_lt hless), drop_length_add_append]
          · -- all of the chunk is wanted
            next hmore =>
            have hpos : 0 < chunk.length := length_pos_iff.mpr hne
            obtain ⟨bytes'', hahead', hdata, hbuf⟩ := ih (remains - chunk.length) conn₁ (some d₁)
              (buf ++ chunk) bytes' (by omega) hahead conn' d' buf' data hloop
            have hsplit : remains = chunk.length + (remains - chunk.length) := by omega
            refine ⟨bytes'', hahead', ?_, ?_⟩
            · rw [hdata, hsplit, take_length_add_append, ← hsplit]
              simp
            · rw [hbuf, hsplit, drop_length_add_append, ← hsplit]

/-- The same for the read of a number of bytes, what is left of an earlier chunk
    first. -/
theorem upsgi_chunked_read_smart_ahead (cfg : ChunkedConfig) (calls : Nat → ChunkedCall)
    (room : Nat → Bool) (len : Nat) {conn' : Conn} {chunked_input d' : Option Decoder}
    {buf buf' data : Bytes} (h : Ahead conn (chunked_input.getD (Decoder.new cfg)) bytes)
    (hread : upsgi_chunked_read_smart cfg calls room len conn chunked_input buf =
      (conn', d', buf', some data)) :
    ∃ bytes', Ahead conn' (d'.getD (Decoder.new cfg)) bytes' ∧
      data = (buf ++ bytes).take len ∧ buf' ++ bytes' = (buf ++ bytes).drop len := by
  unfold upsgi_chunked_read_smart at hread
  split at hread
  · next hlen =>
    cases hread
    refine ⟨bytes, h, ?_, ?_⟩
    · rw [take_append_of_le_length hlen]
    · rw [drop_append_of_le_length hlen]
  · next hlen =>
    obtain ⟨bytes', hahead, hdata, hbuf⟩ := smartLoop_ahead cfg calls room buf _ _ conn
      chunked_input [] bytes le_rfl h conn' d' buf' data hread
    have hsplit : len = buf.length + (len - buf.length) := by omega
    refine ⟨bytes', hahead, ?_, ?_⟩
    · rw [hdata, hsplit, take_length_add_append, ← hsplit]
      rfl
    · rw [hbuf, hsplit, drop_length_add_append, ← hsplit]

/-! ### The rest of a body -/

/-- The storage of a body with a length stands for `rest`. -/
def StoredAt (cfg : BodyConfig) (head : Head) (st : BodyState) (rest : Bytes) : Prop :=
  match st.post_file with
  | some file =>
      file.content.length = head.post_cl ∧ file.pos = st.post_pos ∧
        rest = file.content.drop st.post_pos
  | none =>
      if 0 < cfg.post_buffering then
        st.post_buffering_buf.length = head.post_cl ∧
          rest = st.post_buffering_buf.drop st.post_pos
      else rest = st.conn.incoming.take (head.post_cl - st.post_pos)

/-- The decoder and what is left of the last chunk stand for `rest`. -/
def ChunkedAt (cfg : BodyConfig) (st : BodyState) (rest : Bytes) : Prop :=
  ∃ bytes, Ahead st.conn (st.chunked_input.getD (Decoder.new cfg.toChunkedConfig)) bytes ∧
    rest = st.body_chunked_buf ++ bytes

/-- The next byte a read gives is the first one of `rest`. -/
def ReadsFrom (cfg : BodyConfig) (head : Head) (st : BodyState) (rest : Bytes) : Prop :=
  if head.body_is_chunked then ChunkedAt cfg st rest else StoredAt cfg head st rest

/-- A read of a chunked body. -/
theorem readChunked_readsFrom (env : ReadEnv) (hpos : 0 < hint) (h : ChunkedAt cfg st rest)
    (hok : (readChunked cfg hint env st).2 ≠ .fail) :
    (readChunked cfg hint env st).2 = expectedRead rest hint ∧
      ChunkedAt cfg (readChunked cfg hint env st).1 (rest.drop hint) := by
  obtain ⟨bytes, hahead, rfl⟩ := h
  unfold readChunked at hok ⊢
  dsimp only at hok ⊢
  rw [if_neg (show ¬ hint = 0 by omega)] at hok ⊢
  split at hok
  · nomatch hok
  · next hholds =>
    rw [if_neg hholds]
    cases hread : upsgi_chunked_read_smart cfg.toChunkedConfig env.calls env.room hint st.conn
      st.chunked_input st.body_chunked_buf with
    | mk conn out =>
      obtain ⟨d, buf, ret⟩ := out
      rw [hread] at hok
      cases ret with
      | none => nomatch hok
      | some data =>
        obtain ⟨bytes', hahead', rfl, hbuf⟩ :=
          upsgi_chunked_read_smart_ahead cfg.toChunkedConfig env.calls env.room hint hahead hread
        unfold expectedRead
        -- the result is empty at the end of the body only
        cases hdata : (st.body_chunked_buf ++ bytes).take hint with
        | nil =>
          have hend : st.body_chunked_buf ++ bytes = [] :=
            (take_eq_nil_iff.mp hdata).resolve_left (by omega)
          rw [if_pos hend]
          exact ⟨rfl, bytes', hahead', hbuf.symm⟩
        | cons c data =>
          have hmore : st.body_chunked_buf ++ bytes ≠ [] := by
            intro hnil
            rw [hnil, take_nil] at hdata
            cases hdata
          rw [if_neg hmore]
          exact ⟨rfl, bytes', hahead', hbuf.symm⟩

/-- A sum that does not wrap around cuts the read at the end of the body. -/
theorem read_remains {pos : Nat} (hpos : pos < head.post_cl) (hsum : hint + head.post_cl ≤ 2 ^ 64) :
    (if head.post_cl < (hint + pos) % 2 ^ 64 then head.post_cl - pos else hint) =
      min hint (head.post_cl - pos) := by
  split <;> omega

/-- A read that is cut at the end of the body leaves what a read that is not cut
    leaves. -/
theorem drop_cut (bytes : Bytes) {pos : Nat} (hn : n = min hint (bytes.length - pos)) :
    (bytes.drop pos).drop hint = bytes.drop (pos + n) := by
  rw [drop_drop]
  by_cases hle : hint ≤ bytes.length - pos
  · rw [hn, Nat.min_eq_left hle]
  · rw [drop_eq_nil_of_le (by omega), drop_eq_nil_of_le (by omega)]

/-- Bytes that are all there, in memory or in a file. -/
theorem drop_expectedRead {pos : Nat} (hpos : pos < bytes.length)
    (hn : n = min hint (bytes.length - pos)) :
    .data ((bytes.drop pos).take n) = expectedRead (bytes.drop pos) hint := by
  apply data_eq_expectedRead
  · rw [ne_eq, drop_eq_nil_iff]
    omega
  · rw [length_drop, hn]

theorem StoredAt.at_end (h : StoredAt cfg head st rest)
    (hend : head.post_cl ≤ st.post_pos) : rest = [] := by
  unfold StoredAt at h
  split at h
  · obtain ⟨hlen, _, rfl⟩ := h
    exact drop_eq_nil_of_le (by omega)
  · split at h
    · obtain ⟨hlen, rfl⟩ := h
      exact drop_eq_nil_of_le (by omega)
    · rw [h, Nat.sub_eq_zero_of_le hend, take_zero]

/-- A read from the temporary file. -/
theorem readFile_readsFrom {file : PostFile} (env : ReadEnv)
    (hlen : file.content.length = head.post_cl) (hfile : file.pos = st.post_pos)
    (hpos : st.post_pos < head.post_cl) (hn : n = min hint (head.post_cl - st.post_pos))
    (hok : (readFile n env file st).2 ≠ .fail) :
    (readFile n env file st).2 = expectedRead (file.content.drop st.post_pos) hint ∧
      StoredAt cfg head (readFile n env file st).1 ((file.content.drop st.post_pos).drop hint) := by
  unfold readFile at hok ⊢
  split at hok
  · nomatch hok
  · next hworks =>
    rw [if_neg hworks]
    have hpos' : st.post_pos < file.content.length := by rwa [hlen]
    rw [← hlen] at hn
    constructor
    · rw [hfile]
      exact drop_expectedRead hpos' hn
    · exact ⟨hlen, by rw [hfile], drop_cut file.content hn⟩

/-- A read from the connection. -/
theorem readSocket_readsFrom (env : ReadEnv) (hplain : cfg.post_buffering = 0)
    (hfile : st.post_file = none) (hpos : 0 < n) (hn : n = min hint (head.post_cl - st.post_pos))
    (hok : (readSocket n env st).2 ≠ .fail) :
    (readSocket n env st).2 =
        expectedRead (st.conn.incoming.take (head.post_cl - st.post_pos)) hint ∧
      StoredAt cfg head (readSocket n env st).1
        ((st.conn.incoming.take (head.post_cl - st.post_pos)).drop hint) := by
  have hspec := readAll_spec (fun n => Nat.le_refl (id n)) (fun _ => true) env.recvs st.conn n
  unfold readSocket at hok ⊢
  generalize readAll id (fun _ => true) env.recvs st.conn n = out at hspec hok ⊢
  obtain ⟨conn, bytes, complete⟩ := out
  dsimp only at hspec hok ⊢
  obtain ⟨hread, _, hcomplete⟩ := hspec
  cases complete with
  | false => nomatch hok
  | true =>
    have hlen : bytes.length = n := hcomplete rfl
    have htake : st.conn.incoming.take n = bytes := by
      rw [← hread, ← hlen, take_left]
    have hdrop : st.conn.incoming.drop n = conn.incoming := by
      rw [← hread, ← hlen, drop_left]
    have hmore : n ≤ st.conn.incoming.length := by
      rw [← hread, length_append]
      omega
    constructor
    · show ReadResult.data bytes = _
      rw [← htake, show n = min n (head.post_cl - st.post_pos) by omega, ← take_take]
      apply data_eq_expectedRead
      · intro hnil
        have := congrArg List.length hnil
        rw [length_take, length_nil] at this
        omega
      · rw [length_take]
        omega
    · show match st.post_file with | some file => _ | none => _
      rw [hfile]
      rw [if_neg (by omega), ← hdrop, hlen, drop_take]
      by_cases hle : hint ≤ head.post_cl - st.post_pos
      · rw [show n = hint by omega, Nat.sub_sub]
      · -- the read has reached the end of the body
        rw [show head.post_cl - st.post_pos - hint = 0 by omega,
          show head.post_cl - (st.post_pos + n) = 0 by omega, take_zero, take_zero]

/-- A read of a body with a length. -/
theorem read_stored_readsFrom (env : ReadEnv) (hplain : head.body_is_chunked = false)
    (hpos : 0 < hint) (hsum : hint + head.post_cl ≤ 2 ^ 64) (h : StoredAt cfg head st rest)
    (hok : (upsgi_request_body_read cfg head hint env st).2 ≠ .fail) :
    (upsgi_request_body_read cfg head hint env st).2 = expectedRead rest hint ∧
      StoredAt cfg head (upsgi_request_body_read cfg head hint env st).1 (rest.drop hint) := by
  unfold upsgi_request_body_read at hok ⊢
  rw [if_neg (by rw [hplain]; decide)] at hok ⊢
  by_cases hend : head.post_cl = 0 ∨ head.post_cl ≤ st.post_pos
  · -- nothing is left
    rw [if_pos hend]
    have hnil : rest = [] := h.at_end (by omega)
    subst hnil
    rw [drop_nil]
    exact ⟨rfl, h⟩
  · rw [if_neg hend] at hok ⊢
    have hlt : st.post_pos < head.post_cl := by omega
    dsimp only at hok ⊢
    rw [if_neg (show ¬ hint = 0 by omega), read_remains hlt hsum] at hok ⊢
    generalize hn : min hint (head.post_cl - st.post_pos) = n at hok ⊢
    rw [if_neg (show ¬ n = 0 by omega)] at hok ⊢
    unfold StoredAt at h
    cases hfile : st.post_file with
    | some file =>
      rw [hfile] at h hok
      obtain ⟨hlen, hfilePos, rfl⟩ := h
      dsimp only at hok ⊢
      split at hok
      · nomatch hok
      · next hholds =>
        rw [if_neg hholds]
        exact readFile_readsFrom env hlen hfilePos hlt hn.symm hok
    | none =>
      rw [hfile] at h hok
      dsimp only at h hok ⊢
      split at h
      · next hbuffering =>
        obtain ⟨hlen, rfl⟩ := h
        rw [if_pos hbuffering]
        have hlt' : st.post_pos < st.post_buffering_buf.length := by rwa [hlen]
        rw [← hlen] at hn
        refine ⟨drop_expectedRead hlt' hn.symm, ?_⟩
        unfold StoredAt
        rw [if_pos hbuffering]
        exact ⟨hlen, drop_cut _ hn.symm⟩
      · next hbuffering =>
        subst h
        rw [if_neg hbuffering] at hok ⊢
        split at hok
        · nomatch hok
        · next hholds =>
          rw [if_neg hholds]
          exact readSocket_readsFrom env (by omega) hfile (by omega) hn.symm hok

/-- Step: a read that does not fail gives the next bytes of the body. -/
theorem upsgi_request_body_read_readsFrom (env : ReadEnv) (hpos : 0 < hint)
    (hsum : head.body_is_chunked = false → hint + head.post_cl ≤ 2 ^ 64)
    (h : ReadsFrom cfg head st rest)
    (hok : (upsgi_request_body_read cfg head hint env st).2 ≠ .fail) :
    (upsgi_request_body_read cfg head hint env st).2 = expectedRead rest hint ∧
      ReadsFrom cfg head (upsgi_request_body_read cfg head hint env st).1 (rest.drop hint) := by
  unfold ReadsFrom at h ⊢
  cases hchunked : head.body_is_chunked with
  | true =>
    rw [hchunked, if_pos rfl] at h
    unfold upsgi_request_body_read at hok ⊢
    rw [if_pos hchunked] at hok ⊢
    exact readChunked_readsFrom env hpos h hok
  | false =>
    rw [hchunked, if_neg (by decide)] at h
    exact read_stored_readsFrom env hchunked hpos (hsum hchunked) h hok

/-- Run: reads that do not fail give the body from there on. -/
theorem bodyReads_readsFrom (reads : List (Nat × ReadEnv)) (hreads : ∀ read ∈ reads, 0 < read.1)
    (hsums : ∀ read ∈ reads, read.1 + head.post_cl ≤ 2 ^ 64) (h : ReadsFrom cfg head st rest)
    (hok : .fail ∉ (bodyReads cfg head reads st).2) :
    (bodyReads cfg head reads st).2 = expectedReads rest (reads.map Prod.fst) := by
  induction reads generalizing st rest with
  | nil => rfl
  | cons read reads ih =>
    obtain ⟨hint, env⟩ := read
    rw [forall_mem_cons] at hreads hsums
    have hstep := upsgi_request_body_read_readsFrom env hreads.1 (fun _ => hsums.1) h
    unfold bodyReads at hok ⊢
    generalize upsgi_request_body_read cfg head hint env st = out at hstep hok ⊢
    obtain ⟨st', result⟩ := out
    dsimp only at hstep hok ⊢
    rw [mem_cons, not_or] at hok
    obtain ⟨hresult, hnext⟩ := hstep (fun hfail => hok.1 hfail.symm)
    have hrest := ih hreads.2 hsums.2 hnext hok.2
    rw [hresult, hrest]
    rfl

/-! ### The whole body -/

/-- The chunks a request body comes in; a body with a length is one piece. -/
def CarriesChunks (head : Head) (stream : Bytes) (chunks : List Bytes) : Prop :=
  if head.body_is_chunked then
    head.post_cl = 0 ∧ ∃ body tail, stream = body ++ tail ∧ SeqOf body chunks
  else chunks = [stream.take head.post_cl]

/-- Post buffering gives nothing out. -/
theorem startBody_undelivered (cfg : BodyConfig) (head : Head) (alloc : Bool) (recvs : List Recv)
    (conn : Conn) :
    (startBody cfg head alloc recvs conn).body_chunked_buf = [] ∧
      (startBody cfg head alloc recvs conn).post_pos = 0 := by
  unfold startBody upsgi_postbuffer_do_in_disk upsgi_postbuffer_do_in_mem
  split
  · exact ⟨rfl, rfl⟩
  · split
    · split <;> exact ⟨rfl, rfl⟩
    · split <;> exact ⟨rfl, rfl⟩

/-- A request that was not aborted has the whole body before it. -/
theorem startBody_storedAt {alloc : Bool} {recvs : List Recv}
    (hstart : (startBody cfg head alloc recvs conn).aborted = false) :
    StoredAt cfg head (startBody cfg head alloc recvs conn) (conn.incoming.take head.post_cl) := by
  -- what a loop of reads has stored when it was not cut short
  have hall : ∀ {bound : Nat → Nat} {stored : Recv → Bool}, (∀ n, bound n ≤ n) →
      (readAll bound stored recvs conn head.post_cl).2.2 = true →
      (readAll bound stored recvs conn head.post_cl).2.1.length = head.post_cl ∧
        conn.incoming.take head.post_cl = (readAll bound stored recvs conn head.post_cl).2.1 := by
    intro bound stored hbound hcomplete
    obtain ⟨hread, _, hlen⟩ := readAll_spec hbound stored recvs conn head.post_cl
    refine ⟨hlen hcomplete, ?_⟩
    rw [← hread]
    exact take_left' (hlen hcomplete)
  unfold startBody at hstart ⊢
  split at hstart
  · next hzero =>
    rw [if_pos hzero]
    show if 0 < cfg.post_buffering then _ else _
    rw [if_neg (by omega)]
    rfl
  · next hbuffering =>
    rw [if_neg hbuffering]
    split at hstart
    · next hlarge =>
      rw [if_pos hlarge]
      unfold upsgi_postbuffer_do_in_disk at hstart ⊢
      split at hstart
      · cases hstart
      · next halloc =>
        rw [if_neg halloc]
        obtain ⟨hlen, htake⟩ := hall (fun n => Nat.min_le_left n _)
          (by rw [← Bool.not_eq_false']; exact hstart)
        exact ⟨hlen, rfl, htake⟩
    · next hsmall =>
      rw [if_neg hsmall]
      unfold upsgi_postbuffer_do_in_mem at hstart ⊢
      split at hstart
      · cases hstart
      · next halloc =>
        rw [if_neg halloc]
        obtain ⟨hlen, htake⟩ := hall (fun n => Nat.le_refl (id n))
          (by rw [← Bool.not_eq_false']; exact hstart)
        show if 0 < cfg.post_buffering then _ else _
        rw [if_pos (by omega)]
        exact ⟨hlen, htake⟩

theorem startBody_chunkedAt (alloc : Bool) (recvs : List Recv) {body tail : Bytes}
    {chunks : List Bytes} (hlen : head.post_cl = 0) (hstream : conn.incoming = body ++ tail)
    (hseq : SeqOf body chunks) (hsizes : ∀ data ∈ chunks, data.length ≠ 2 ^ 64 - 2) :
    ChunkedAt cfg (startBody cfg head alloc recvs conn) chunks.flatten := by
  have hsame : SameConnection (.fresh conn) (startBody cfg head alloc recvs conn) :=
    startBody_chunked hlen alloc recvs conn
  obtain ⟨hconn, hnew, _, _⟩ := hsame
  refine ⟨chunks.flatten, ?_, by rw [(startBody_undelivered ..).1]; rfl⟩
  rw [hconn, hnew]
  have hrest : (Decoder.new cfg.toChunkedConfig).rest conn = body ++ tail := hstream
  refine ⟨between_new cfg.toChunkedConfig, ?_, ?_⟩
  · show ReadableFrom .line ((Decoder.new cfg.toChunkedConfig).rest conn)
    rw [hrest]
    exact readableFrom_of_seqOf hseq hsizes tail
  · obtain ⟨first, more, q, t, rfl, hreach, hhalt, hcomplete⟩ := hseq.halts tail
    refine ⟨first, more.flatten, q, t, flatten_append, ?_, hhalt, ?_⟩
    · show Reaches sizeLimit .line ((Decoder.new cfg.toChunkedConfig).rest conn) first q t
      rw [hrest]
      exact hreach
    · intro hq
      rw [hcomplete hq]
      rfl

/-- A request starts before its body. -/
theorem startBody_readsFrom {alloc : Bool} {recvs : List Recv} {chunks : List Bytes}
    (hbody : CarriesChunks head conn.incoming chunks)
    (hsizes : head.body_is_chunked = true → ∀ data ∈ chunks, data.length ≠ 2 ^ 64 - 2)
    (hstart : (startBody cfg head alloc recvs conn).aborted = false) :
    ReadsFrom cfg head (startBody cfg head alloc recvs conn) chunks.flatten := by
  unfold CarriesChunks at hbody
  unfold ReadsFrom
  cases hchunked : head.body_is_chunked with
  | true =>
    rw [hchunked, if_pos rfl] at hbody
    obtain ⟨hlen, body, tail, hstream, hseq⟩ := hbody
    exact startBody_chunkedAt alloc recvs hlen hstream hseq (hsizes hchunked)
  | false =>
    rw [hchunked, if_neg (by decide)] at hbody
    rw [if_neg (by decide), hbody, flatten_singleton]
    exact startBody_storedAt hstart

/-- Reads of a request body, in whatever it is kept and however it arrives: as
    long as none of them fails they give the body from its beginning, each one
    the next bytes up to its hint, and the empty result at its end.  Not so for
    a chunk whose size is taken for an incomplete line, and for hints that are
    so large that the sum with the position wraps around. -/
theorem body_reads_consecutive {cfg : BodyConfig} {head : Head} {alloc : Bool} {recvs : List Recv}
    {conn : Conn} {chunks : List Bytes} {reads : List (Nat × ReadEnv)}
    (hbody : CarriesChunks head conn.incoming chunks)
    (hstart : (startBody cfg head alloc recvs conn).aborted = false)
    (hhints : ∀ read ∈ reads, 0 < read.1 ∧ read.1 < 2 ^ 63)
    (hsizes : head.body_is_chunked = true → ∀ data ∈ chunks, data.length ≠ 2 ^ 64 - 2)
    (hsums : ∀ read ∈ reads, read.1 + head.post_cl ≤ 2 ^ 64)
    (hok : .fail ∉ (bodyReads cfg head reads (startBody cfg head alloc recvs conn)).2) :
    (bodyReads cfg head reads (startBody cfg head alloc recvs conn)).2 =
      expectedReads chunks.flatten (reads.map Prod.fst) :=
  bodyReads_readsFrom reads (fun read hread => (hhints read hread).1) hsums
    (startBody_readsFrom hbody hsizes hstart) hok

/-- Reads of two bytes at most, from a connection that gives one at a time. -/
def readPair : Nat × ReadEnv :=
  (2,
    { alloc := true
      fread := true
      recvs := []
      calls := fun _ => { beyond := [], recvs := List.replicate 16 ⟨8, 1, true, []⟩ }
      room := fun _ => true })

/-- A body of one chunk, read in pairs of bytes. -/
theorem body_reads_consecutive_pairs :
    (bodyReads smallConfig chunkedHead [readPair, readPair, readPair]
        (startBody smallConfig chunkedHead true [] ⟨[], chunkedStream⟩)).2 =
      [.data (lit "ab"), .data (lit "c"), .empty] := by
  have hlast : SeqOf (lit "0\r\n\r\n") [] :=
    .last [48] ⟨by decide, by simp; decide⟩ (by decide)
  have hbody : CarriesChunks chunkedHead (Conn.mk [] chunkedStream).incoming [lit "abc"] := by
    refine ⟨rfl, lit "3\r\nabc\r\n0\r\n\r\n", lit "GET", by decide, ?_⟩
    exact .chunk [51] (lit "abc") _ [] ⟨by decide, by simp; decide⟩ (by decide) (by decide) hlast
  have hreads : (bodyReads smallConfig chunkedHead [readPair, readPair, readPair]
      (startBody smallConfig chunkedHead true [] ⟨[], chunkedStream⟩)).2 =
        expectedReads [lit "abc"].flatten [2, 2, 2] :=
    body_reads_consecutive hbody rfl (by simp [readPair]) (by simp [lit])
      (by simp [readPair, chunkedHead]) (by decide +kernel)
  decide

/-- A read of one byte from a connection that gives the first size line in three
    pieces and then the six bytes behind it. -/
def readBehindLine : Nat × ReadEnv :=
  (1,
    { alloc := true
      fread := true
      recvs := []
      calls := fun _ =>
        { beyond := []
          recvs := [⟨8, 8, true, []⟩, ⟨8, 8, true, []⟩, ⟨8, 2, true, []⟩, ⟨8, 6, true, []⟩] }
      room := fun _ => true })

/-- A chunk of `2 ^ 64 - 2` bytes: its size is taken for an incomplete line and
    its data for the next one, so that the read gives another byte than the
    first one. -/
theorem body_read_skips_size_line :
    ∃ data : Bytes, data.length = 2 ^ 64 - 2 ∧
      CarriesChunks chunkedHead (lit "fffffffffffffffe\r\n" ++ (data ++ lit "\r\n0\r\n\r\n")) [data] ∧
      (bodyReads smallConfig chunkedHead [readBehindLine] (startBody smallConfig chunkedHead true []
        ⟨[], lit "fffffffffffffffe\r\n" ++ (data ++ lit "\r\n0\r\n\r\n")⟩)).2 = [.data (lit "X")] ∧
      expectedReads [data].flatten [1] = [.data (lit "1")] := by
  have hlen : (lit "1\r\nX\r\n" ++ List.replicate (2 ^ 64 - 8) 0).length = 2 ^ 64 - 2 := by
    rw [length_append, length_replicate]
    rfl
  refine ⟨lit "1\r\nX\r\n" ++ List.replicate (2 ^ 64 - 8) 0, hlen, ?_, ?_, rfl⟩
  · generalize lit "1\r\nX\r\n" ++ List.replicate (2 ^ 64 - 8) 0 = data at hlen
    have hne : data ≠ [] := by
      intro hnil
      rw [hnil] at hlen
      cases hlen
    have hlast : SeqOf (lit "0\r\n\r\n") [] :=
      .last [48] ⟨by decide, by simp; decide⟩ (by decide)
    have hseq := SeqOf.chunk (lit "fffffffffffffffe") data _ [] ⟨by decide, by decide +kernel⟩
      (by rw [hlen]; decide +kernel) hne hlast
    refine ⟨rfl, _, [], ?_, hseq⟩
    rw [append_nil, append_assoc, append_assoc]
    rfl
  · -- the data is not read any further than its first six bytes
    decide +kernel

end Upsgi
