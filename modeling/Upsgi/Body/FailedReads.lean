import Upsgi.Body.ChunkedRuns
import Upsgi.Body.Consecutive

/-! # Chunked reads that fail

    A read of a chunked body may find that the connection has nothing to give in
    time, and the application may try again.  What `upsgi_chunked_read` has
    decoded so far stays in its buffer.  But before it asks for more,
    `upsgi_chunked_read_smart` moves what is left of earlier chunks from
    `body_chunked_buf` to the buffer of its result, and that buffer is destroyed
    when the read fails.
-/

namespace Upsgi

open Framing
open ChunkedCoding hiding Bytes
open List

/-! ### A body that is still to come -/

/-- The rest of the body is in the stream, with `bytes` as its data. -/
structure Undelivered (conn : Conn) (d : Decoder) (bytes : Bytes) : Prop where
  between : Between d
  to_come : ∃ chunks tail, bytes = chunks.flatten ∧
    Reaches sizeLimit d.phase (d.rest conn) chunks .complete tail

section Undelivered

variable {cfg : ChunkedConfig} {conn conn' : Conn} {d : Decoder} {bytes bytes' : Bytes}

theorem Undelivered.ahead (h : Undelivered conn d bytes) : Ahead conn d bytes := by
  obtain ⟨chunks, tail, rfl, hreach⟩ := h.to_come
  refine ⟨h.between, readableFrom_of_complete hreach, ?_⟩
  exact ⟨chunks, [], .complete, tail, by rw [append_nil], hreach, halted_complete tail,
    fun _ => rfl⟩

/-- The stream says what is to come. -/
theorem Ahead.eq (h : Ahead conn d bytes) (h' : Undelivered conn d bytes') : bytes = bytes' := by
  obtain ⟨chunks, more, q, t, rfl, hreach, hhalt, hcomplete⟩ := h.to_come
  obtain ⟨chunks', tail, rfl, hreach'⟩ := h'.to_come
  obtain ⟨rfl, rfl, rfl⟩ := hreach.unique hreach' hhalt (halted_complete tail)
  rw [hcomplete rfl, append_nil]

/-- A call of the decoder leaves the rest of the body in the stream, and all of
    it when the call fails. -/
theorem upsgi_chunked_read_undelivered (call : ChunkedCall) (chunked_input : Option Decoder)
    (h : Undelivered conn (chunked_input.getD (Decoder.new cfg)) bytes) :
    ∃ bytes', Undelivered (upsgi_chunked_read cfg call conn chunked_input).1
        (upsgi_chunked_read cfg call conn chunked_input).2.1 bytes' ∧
      ((upsgi_chunked_read cfg call conn chunked_input).2.2 = .fail → bytes' = bytes) := by
  obtain ⟨chunks, tail, rfl, hreach⟩ := h.to_come
  have hgives := upsgi_chunked_read_gives cfg call conn chunked_input rfl h.between
    h.ahead.readable
  generalize upsgi_chunked_read cfg call conn chunked_input = out at hgives ⊢
  obtain ⟨conn', d', result⟩ := out
  cases result with
  | chunk data =>
    obtain ⟨_, _, hstep, hbetween⟩ := hgives
    obtain ⟨more, _, hmore⟩ := hstep.factor hreach (halted_complete tail)
    exact ⟨more.flatten, ⟨hbetween, more, tail, rfl, hmore⟩, nofun⟩
  | finished =>
    obtain ⟨hdone, _, hbetween⟩ := hgives
    have hphase : d'.phase = .complete := if_pos hdone
    refine ⟨[], ⟨hbetween, [], d'.rest conn', rfl, ?_⟩, nofun⟩
    rw [hphase]
    exact .refl _ _
  | fail =>
    rcases hgives with ⟨_, q, t, hrefused, hlook⟩ | ⟨_, _, hbetween, hstep, _⟩
    · -- a complete body is not refused
      obtain ⟨_, rfl, _⟩ :=
        hrefused.unique hreach (.inr ⟨_, hlook⟩) (halted_complete tail)
      cases hlook
    · obtain ⟨more, hchunks, hmore⟩ := hstep.factor hreach (halted_complete tail)
      subst hchunks
      exact ⟨chunks.flatten, ⟨hbetween, chunks, tail, rfl, hmore⟩, fun _ => rfl⟩

/-- Loop: when a call of the decoder fails, the chunks that came before are kept
    in `body_chunked_buf`. -/
theorem smartLoop_failed (calls : Nat → ChunkedCall) {room : Nat → Bool}
    (hroom : ∀ r, room r = true) (ret : Bytes) (rounds : Nat) :
    ∀ (remains : Nat) (conn : Conn) (chunked_input : Option Decoder) (buf bytes : Bytes),
      Undelivered conn (chunked_input.getD (Decoder.new cfg)) bytes →
      ∀ conn' d' buf',
        smartLoop cfg calls room ret rounds remains conn chunked_input buf = (conn', d', buf', none) →
        ∃ bytes', Undelivered conn' (d'.getD (Decoder.new cfg)) bytes' ∧
          buf' ++ bytes' = buf ++ bytes := by
  induction rounds with
  | zero =>
    intro remains conn chunked_input buf bytes h conn' d' buf' hloop
    cases hloop
  | succ rounds ih =>
    intro remains conn chunked_input buf bytes h conn' d' buf' hloop
    have htakes := upsgi_chunked_read_ahead cfg (calls rounds) conn chunked_input h.ahead
    obtain ⟨bytes₁, hnext, hfail⟩ := upsgi_chunked_read_undelivered (calls rounds) chunked_input h
    unfold smartLoop at hloop
    split at hloop
    · cases hloop
    · generalize upsgi_chunked_read cfg (calls rounds) conn chunked_input = out
        at htakes hnext hfail hloop
      obtain ⟨conn₁, d₁, result⟩ := out
      cases result with
      | fail =>
        cases hloop
        exact ⟨bytes₁, hnext, by rw [hfail rfl]⟩
      | finished => cases hloop
      | chunk chunk =>
        obtain ⟨_, bytes₂, rfl, hahead⟩ := htakes
        obtain rfl := hahead.eq hnext
        dsimp only at hloop
        rw [if_neg (by rw [hroom]; exact Bool.noConfusion)] at hloop
        split at hloop
        · cases hloop
        · obtain ⟨bytes', hlast, hbuf⟩ := ih _ conn₁ (some d₁) _ bytes₂ hnext conn' d' buf' hloop
          exact ⟨bytes', hlast, by rw [hbuf, append_assoc]⟩

end Undelivered

/-! ### Calls one after another -/

/-- The part of a request that `upsgi_chunked_read_smart` works on. -/
structure SmartState where
  conn : Conn
  chunked_input : Option Decoder
  body_chunked_buf : Bytes

/-- A call for a number of bytes. -/
structure SmartCall where
  len : Nat
  len_pos : 0 < len
  calls : Nat → ChunkedCall

/-- A call of `upsgi_chunked_read_smart` that was made. -/
structure SmartRead where
  before : SmartState
  after : SmartState
  result : Option Bytes

/-- One call; memory does not run out. -/
def SmartCall.read (cfg : ChunkedConfig) (call : SmartCall) (st : SmartState) : SmartRead :=
  let out := upsgi_chunked_read_smart cfg call.calls (fun _ => true) call.len st.conn
    st.chunked_input st.body_chunked_buf
  ⟨st, ⟨out.1, out.2.1, out.2.2.1⟩, out.2.2.2⟩

def smartReads (cfg : ChunkedConfig) : List SmartCall → SmartState → List SmartRead
  | [], _ => []
  | call :: calls, st => call.read cfg st :: smartReads cfg calls (call.read cfg st).after

/-- The bytes of the calls that did not fail. -/
def deliveredBytes (reads : List SmartRead) : Bytes :=
  (reads.filterMap SmartRead.result).flatten

/-- `rest` is the data of the body that no call has given out: what is left of
    earlier chunks and what is still to come. -/
def SmartState.Holds (cfg : ChunkedConfig) (st : SmartState) (rest : Bytes) : Prop :=
  ∃ bytes, Undelivered st.conn (st.chunked_input.getD (Decoder.new cfg)) bytes ∧
    rest = st.body_chunked_buf ++ bytes

/-- The calls deliver a beginning of the body, and those that fail leave the data
    that was not given out. -/
def LosesNothing (cfg : ChunkedConfig) (body : Bytes) (reads : List SmartRead) : Prop :=
  deliveredBytes reads <+: body ∧
    ∀ read ∈ reads, read.result = none → ∀ rest, read.before.Holds cfg rest → read.after.Holds cfg rest

section Runs

variable {cfg : ChunkedConfig} {st : SmartState} {rest rest' : Bytes}

theorem SmartState.Holds.unique (h : st.Holds cfg rest) (h' : st.Holds cfg rest') : rest = rest' := by
  obtain ⟨bytes, hbytes, rfl⟩ := h
  obtain ⟨bytes', hbytes', rfl⟩ := h'
  rw [hbytes.ahead.eq hbytes']

/-- Step: a call that does not fail gives the next bytes. -/
theorem SmartCall.read_some (call : SmartCall) (h : st.Holds cfg rest) {data : Bytes}
    (hresult : (call.read cfg st).result = some data) :
    data = rest.take call.len ∧ (call.read cfg st).after.Holds cfg (rest.drop call.len) := by
  obtain ⟨bytes, hbytes, rfl⟩ := h
  have honTrack : ∃ bytes', Undelivered (call.read cfg st).after.conn
      ((call.read cfg st).after.chunked_input.getD (Decoder.new cfg)) bytes' := by
    refine upsgi_chunked_read_smart_invariant
      (fun conn d => ∃ bytes, Undelivered conn (d.getD (Decoder.new cfg)) bytes) ?_ call.calls _ _ _
      ⟨bytes, hbytes⟩
    rintro inner conn chunked_input ⟨bytes, h⟩
    obtain ⟨bytes', h', _⟩ := upsgi_chunked_read_undelivered inner chunked_input h
    exact ⟨bytes', h'⟩
  obtain ⟨bytes', hundelivered⟩ := honTrack
  cases hread : upsgi_chunked_read_smart cfg call.calls (fun _ => true) call.len st.conn
    st.chunked_input st.body_chunked_buf with
  | mk conn out =>
    obtain ⟨d, buf, ret⟩ := out
    unfold SmartCall.read at hresult hundelivered ⊢
    rw [hread] at hresult hundelivered ⊢
    subst hresult
    obtain ⟨bytes'', hahead, hdata, hbuf⟩ :=
      upsgi_chunked_read_smart_ahead cfg call.calls _ call.len hbytes.ahead hread
    obtain rfl := hahead.eq hundelivered
    exact ⟨hdata, _, hundelivered, hbuf.symm⟩

/-- Step: a call that fails loses what it found in `body_chunked_buf`. -/
theorem SmartCall.read_none (call : SmartCall) (h : st.Holds cfg rest)
    (hresult : (call.read cfg st).result = none) :
    (call.read cfg st).after.Holds cfg (rest.drop st.body_chunked_buf.length) := by
  obtain ⟨bytes, hbytes, rfl⟩ := h
  rw [drop_left]
  cases hread : upsgi_chunked_read_smart cfg call.calls (fun _ => true) call.len st.conn
    st.chunked_input st.body_chunked_buf with
  | mk conn out =>
    obtain ⟨d, buf, ret⟩ := out
    unfold SmartCall.read at hresult ⊢
    rw [hread] at hresult ⊢
    subst hresult
    unfold upsgi_chunked_read_smart at hread
    split at hread
    · cases hread
    · obtain ⟨bytes', hundelivered, hbuf⟩ := smartLoop_failed call.calls (fun _ => rfl) _ _ _ _ _ []
        bytes hbytes conn d buf hread
      exact ⟨bytes', hundelivered, hbuf.symm⟩

/-- Every call finds a rest of the body. -/
theorem smartReads_holds (calls : List SmartCall) (h : st.Holds cfg rest) :
    ∀ read ∈ smartReads cfg calls st, ∃ (call : SmartCall) (rest' : Bytes),
      read = call.read cfg read.before ∧ read.before.Holds cfg rest' := by
  induction calls generalizing st rest with
  | nil => nofun
  | cons call calls ih =>
    intro read hread
    rcases mem_cons.mp hread with rfl | hread
    · exact ⟨call, rest, rfl, h⟩
    · cases hresult : (call.read cfg st).result with
      | some data => exact ih (call.read_some h hresult).2 read hread
      | none => exact ih (call.read_none h hresult) read hread

/-- Run: calls that fail with nothing in `body_chunked_buf` do no harm. -/
theorem smartReads_delivered (calls : List SmartCall) (h : st.Holds cfg rest)
    (hempty : ∀ read ∈ smartReads cfg calls st, read.result = none →
      read.before.body_chunked_buf = []) :
    deliveredBytes (smartReads cfg calls st) <+: rest := by
  induction calls generalizing st rest with
  | nil => exact nil_prefix
  | cons call calls ih =>
    unfold smartReads at hempty ⊢
    rw [forall_mem_cons] at hempty
    cases hresult : (call.read cfg st).result with
    | some data =>
      obtain ⟨rfl, hnext⟩ := call.read_some h hresult
      have hlater := ih hnext hempty.2
      unfold deliveredBytes at hlater ⊢
      rw [filterMap_cons_some hresult, flatten_cons]
      nth_rewrite 2 [← take_append_drop call.len rest]
      exact (prefix_append_right_inj _).mpr hlater
    | none =>
      have hnext := call.read_none h hresult
      have hnil : st.body_chunked_buf = [] := hempty.1 hresult
      rw [hnil] at hnext
      have hlater := ih hnext hempty.2
      unfold deliveredBytes at hlater ⊢
      rw [filterMap_cons_none hresult]
      exact hlater

end Runs

/-- Calls of `upsgi_chunked_read_smart` for a body of chunks, with reads of the
    connection that may give nothing in time: no data of the body is lost exactly
    if every call that fails finds `body_chunked_buf` empty. -/
theorem failed_reads_lose_nothing_iff (cfg : ChunkedConfig) {body tail : Bytes} {chunks : List Bytes}
    (hseq : SeqOf body chunks) (hsizes : ∀ data ∈ chunks, data.length < sizeLimit) (conn : Conn)
    (hconn : conn.incoming = body ++ tail) (calls : List SmartCall) :
    LosesNothing cfg chunks.flatten (smartReads cfg calls ⟨conn, none, []⟩) ↔
      ∀ read ∈ smartReads cfg calls ⟨conn, none, []⟩, read.result = none →
        read.before.body_chunked_buf = [] := by
  have hstart : (SmartState.mk conn none []).Holds cfg chunks.flatten := by
    have hrest : (Decoder.new cfg).rest conn = body ++ tail := hconn
    refine ⟨chunks.flatten, ⟨between_new cfg, chunks, tail, rfl, ?_⟩, rfl⟩
    show Reaches sizeLimit .line ((Decoder.new cfg).rest conn) chunks .complete tail
    rw [hrest]
    exact reaches_complete_iff.mpr ⟨body, rfl, hseq, hsizes⟩
  have hholds := smartReads_holds calls hstart
  constructor
  · intro hnothing read hread hresult
    obtain ⟨call, rest, hcall, h⟩ := hholds read hread
    have hkept := hnothing.2 read hread hresult rest h
    have hlost := call.read_none h (hcall ▸ hresult)
    rw [← hcall] at hlost
    -- the rest is not shorter than before
    have hlen := congrArg List.length (hkept.unique hlost)
    obtain ⟨bytes, _, rfl⟩ := h
    rw [drop_left, length_append] at hlen
    exact length_eq_zero_iff.mp (by omega)
  · intro hempty
    refine ⟨smartReads_delivered calls hstart hempty, ?_⟩
    intro read hread hresult rest h
    obtain ⟨call, _, hcall, _⟩ := hholds read hread
    have hafter := call.read_none h (hcall ▸ hresult)
    rwa [← hcall, hempty read hread hresult] at hafter

/-- Two chunks. -/
def twoChunks : Bytes := lit "3\r\nabc\r\n2\r\nde\r\n0\r\n\r\n"

/-- A call for `len + 1` bytes; the connection has up to `ready` bytes each time. -/
def smartCall (len ready : Nat) : SmartCall where
  len := len + 1
  len_pos := Nat.succ_pos len
  calls := fun _ => ⟨[], [recvUpTo ready]⟩

theorem seqOf_twoChunks : SeqOf twoChunks [lit "abc", lit "de"] := by
  have hlast : SeqOf (lit "0\r\n\r\n") [] :=
    .last [48] ⟨by decide, by simp; decide⟩ (by decide)
  exact .chunk [51] (lit "abc") _ _ ⟨by decide, by simp; decide⟩ (by decide) (by decide)
    (.chunk [50] (lit "de") _ _ ⟨by decide, by simp; decide⟩ (by decide) (by decide) hlast)

/-- A call at the beginning of a chunk fails and is made again. -/
theorem failed_reads_lose_nothing_first :
    LosesNothing smallPage [lit "abc", lit "de"].flatten
      (smartReads smallPage [smartCall 1 0, smartCall 1 8] ⟨⟨[], twoChunks⟩, none, []⟩) :=
  (failed_reads_lose_nothing_iff smallPage seqOf_twoChunks (by decide) ⟨[], twoChunks⟩
    (append_nil _).symm [smartCall 1 0, smartCall 1 8]).mpr (by decide +kernel)

/-- One byte of the first chunk is read, then three are asked for and nothing comes
    in time: the two bytes that were left of the chunk are gone, and the next
    call gives the second chunk. -/
theorem failed_read_loses_bytes :
    SeqOf twoChunks [lit "abc", lit "de"] ∧
      (smartReads smallPage [smartCall 0 8, smartCall 2 0, smartCall 1 100]
        ⟨⟨[], twoChunks⟩, none, []⟩).map SmartRead.result = [some (lit "a"), none, some (lit "de")] ∧
      ¬ deliveredBytes (smartReads smallPage [smartCall 0 8, smartCall 2 0, smartCall 1 100]
        ⟨⟨[], twoChunks⟩, none, []⟩) <+: [lit "abc", lit "de"].flatten :=
  ⟨seqOf_twoChunks, by decide +kernel, by decide +kernel⟩

end Upsgi
