import Upsgi.Body.Decoding

/-! # Runs of the chunked decoder

    What an application gets when it calls `upsgi_chunked_read` until the body
    is complete or refused.  On streams whose size lines are readable this is a
    function of the stream: it is what the reference decoder gives, whatever
    the reads bring at a time and however often a call returns without a chunk.
-/

namespace Upsgi

open Framing
open ChunkedCoding hiding Bytes
open List

/-! ### Runs -/

/-- How the calls made on a body ended. -/
inductive RunEnd where
  /-- There are bytes left to read, or chunks left to hand out. -/
  | more
  /-- Everything was read and the last call still waits for bytes. -/
  | waiting
  /-- Complete; `rest` is what follows the body. -/
  | complete (rest : Bytes)
  /-- Refused where the stream stands at `rest`. -/
  | refused (rest : Bytes)
  deriving DecidableEq

/-- Calls of `upsgi_chunked_read` until the body is complete or refused: the
    chunks they deliver, and how they end.  A null pointer for lack of bytes,
    as a call that does not block returns it, is followed by the next call. -/
def chunkedRun (cfg : ChunkedConfig) :
    List ChunkedCall → Conn → Option Decoder → List Bytes × RunEnd
  | [], _, _ => ([], .more)
  | call :: calls, conn, d =>
      match upsgi_chunked_read cfg call conn d with
      | (conn, d, .chunk data) =>
          let (chunks, e) := chunkedRun cfg calls conn (some d)
          (data :: chunks, e)
      | (conn, d, .finished) => ([], .complete (d.rest conn))
      | (conn, d, .fail) =>
          if d.Refused then ([], .refused (d.rest conn))
          else if calls.isEmpty ∧ conn.incoming = [] then ([], .waiting)
          else chunkedRun cfg calls conn (some d)

/-- What the end of a run says about the reference decoder. -/
def RunEnd.At (q : Phase) (t : Bytes) : RunEnd → Prop
  | .more => True
  | .waiting => look sizeLimit q t = .stuck ∧ q ≠ .complete
  | .complete rest => q = .complete ∧ t = rest
  | .refused rest => look sizeLimit q t = .refuse rest

variable {d d' : Decoder}

theorem Decoder.phase_ne_complete (h : d.complete = false) : d.phase ≠ .complete := by
  unfold Decoder.phase
  rw [if_neg (by rw [h]; decide)]
  cases d.status with
  | line | data | final => nofun

/-- Run: the chunks are those of the reference decoder, and the run ends where
    it halts. -/
theorem chunkedRun_reaches (cfg : ChunkedConfig) (calls : List ChunkedCall) (conn : Conn)
    (chunked_input : Option Decoder) (hd : chunked_input.getD (Decoder.new cfg) = d)
    (hbetween : Between d) (hread : ReadableFrom d.phase (d.rest conn)) :
    ∃ q t, Reaches sizeLimit d.phase (d.rest conn) (chunkedRun cfg calls conn chunked_input).1 q t ∧
      (chunkedRun cfg calls conn chunked_input).2.At q t := by
  induction calls generalizing conn chunked_input d with
  | nil => exact ⟨_, _, .refl _ _, trivial⟩
  | cons call calls ih =>
    have hgives := upsgi_chunked_read_gives cfg call conn chunked_input hd hbetween hread
    rw [chunkedRun]
    generalize upsgi_chunked_read cfg call conn chunked_input = out at hgives ⊢
    obtain ⟨conn', d', result⟩ := out
    cases result with
    | chunk data =>
      obtain ⟨_, _, hreach, hbetween'⟩ := hgives
      obtain ⟨q, t, hmore, hend⟩ := ih conn' (some d') rfl hbetween' (hread.reached hreach)
      exact ⟨q, t, hreach.trans hmore, hend⟩
    | finished =>
      obtain ⟨_, hreach, _⟩ := hgives
      exact ⟨_, _, hreach, rfl, rfl⟩
    | fail =>
      dsimp only
      rcases hgives with ⟨hrefused, q, t, hreach, hlook⟩ | ⟨hopen, hincomplete, hbetween', hreach, hstuck⟩
      · rw [if_pos hrefused]
        exact ⟨q, t, hreach, hlook⟩
      · rw [if_neg hopen]
        split
        · next hlast =>
          exact ⟨_, _, hreach, hstuck hlast.2, Decoder.phase_ne_complete hincomplete⟩
        · obtain ⟨q, t, hmore, hend⟩ := ih conn' (some d') rfl hbetween' (hread.reached hreach)
          exact ⟨q, t, hreach.trans hmore, hend⟩

/-- A run is settled when it does not lack calls or reads. -/
def RunEnd.Settled : RunEnd → Prop
  | .more => False
  | _ => True

/-- Where a settled run ends, the reference decoder halts; and the place tells
    how the run ended. -/
theorem RunEnd.At.halted {e : RunEnd} {q : Phase} {t : Bytes} (h : e.At q t) (hsettled : e.Settled) :
    Halted sizeLimit q t := by
  cases e with
  | more => exact hsettled.elim
  | waiting => exact .inl h.1
  | complete rest =>
    rw [h.1]
    exact halted_complete t
  | refused rest => exact .inr ⟨rest, h⟩

theorem RunEnd.At.unique {e e' : RunEnd} {q : Phase} {t : Bytes} (h : e.At q t) (h' : e'.At q t)
    (hsettled : e.Settled) (hsettled' : e'.Settled) : e = e' := by
  cases e with
  | more => exact hsettled.elim
  | waiting =>
    cases e' with
    | more => exact hsettled'.elim
    | waiting => rfl
    | complete rest => exact absurd h'.1 h.2
    | refused rest => cases h.1.symm.trans h'
  | complete rest =>
    cases e' with
    | more => exact hsettled'.elim
    | waiting => exact absurd h.1 h'.2
    | complete rest' => rw [← h.2, ← h'.2]
    | refused rest' =>
      have hlook : look sizeLimit q t = .refuse rest' := h'
      rw [h.1] at hlook
      cases hlook
  | refused rest =>
    have hlook : look sizeLimit q t = .refuse rest := h
    cases e' with
    | more => exact hsettled'.elim
    | waiting => cases h'.1.symm.trans hlook
    | complete rest' =>
      rw [h'.1] at hlook
      cases hlook
    | refused rest' =>
      have hlook' : look sizeLimit q t = .refuse rest' := h'
      rw [Look.refuse.inj (hlook.symm.trans hlook')]

/-! ### Progress -/

/-- A read that finds room and brings something. -/
structure Recv.Brings (recv : Recv) : Prop where
  budget : 0 < recv.budget
  ready : 0 < recv.ready
  room : recv.room = true

/-- The buffer is not limited and its content fits in it. -/
structure Decoder.Roomy (d : Decoder) : Prop where
  unlimited : d.buf.limit = 0
  fits : d.buf.data.length ≤ d.buf.len

theorem upsgi_buffer_ensure_room {ub : UpsgiBuffer} (len : Nat) (hlimit : ub.limit = 0)
    (hfits : ub.data.length ≤ ub.len) :
    ∃ ub', upsgi_buffer_ensure ub len true = some ub' ∧ ub'.limit = 0 ∧
      ub'.data.length + len ≤ ub'.len := by
  unfold upsgi_buffer_ensure
  dsimp only
  split
  · rw [if_neg (by rw [hlimit]; simp), if_neg (by decide)]
    refine ⟨_, rfl, hlimit, ?_⟩
    show ub.data.length + len ≤ ub.len + (len - (ub.len - ub.data.length))
    omega
  · exact ⟨ub, rfl, hlimit, by omega⟩

theorem readBody_ne_nil (conn : Conn) {len : Nat} {recv : Recv} (hbrings : recv.Brings)
    (hlen : 0 < len) (hconn : conn.incoming ≠ []) : (readBody conn len recv).2 ≠ [] := by
  have hbudget := hbrings.budget
  have hready := hbrings.ready
  unfold readBody upsgi_proto_base_read_body
  split
  · next hremains =>
    have hpos : 0 < conn.proto_parser_remains.length := length_pos_iff.mpr hremains
    refine ne_nil_of_length_pos ?_
    simp only [length_take]
    omega
  · next hremains =>
    have hunread : conn.unread ≠ [] := by
      intro hnil
      apply hconn
      rw [Conn.incoming, hnil, not_not.mp hremains]
      rfl
    have hpos : 0 < conn.unread.length := length_pos_iff.mpr hunread
    refine ne_nil_of_length_pos ?_
    simp only [length_take]
    omega

/-- The buffer has the same size and limit and holds no more than before. -/
structure Decoder.Shrinks (d d' : Decoder) : Prop where
  len : d'.buf.len = d.buf.len
  limit : d'.buf.limit = d.buf.limit
  held : d'.buf.data.length ≤ d.buf.data.length

theorem Decoder.Shrinks.refl (d : Decoder) : d.Shrinks d := ⟨rfl, rfl, le_rfl⟩

theorem Decoder.Shrinks.trans {d d' d'' : Decoder} (h : d.Shrinks d') (h' : d'.Shrinks d'') :
    d.Shrinks d'' :=
  ⟨h'.len.trans h.len, h'.limit.trans h.limit, Nat.le_trans h'.held h.held⟩

theorem Decoder.shrinks_drop (d : Decoder) (n : Nat) : d.Shrinks (d.setData (d.buf.data.drop n)) := by
  refine ⟨rfl, rfl, ?_⟩
  show (d.buf.data.drop n).length ≤ _
  rw [length_drop]
  exact Nat.sub_le _ _

theorem Decoder.shrinks_emptied (d : Decoder) : d.Shrinks d.emptied := by
  obtain ⟨hlen, hlimit, hheld⟩ := d.shrinks_drop d.decapitate
  exact ⟨hlen, hlimit, hheld⟩

/-- A parse never adds to the buffer. -/
theorem chunkedParse_shrinks (beyond : Bytes) (d : Decoder) :
    d.Shrinks (chunkedParse beyond d).1 := by
  have hfinal : ∀ d : Decoder, d.Shrinks (upsgi_chunked_require_final_crlf d).1 := by
    intro d
    unfold upsgi_chunked_require_final_crlf
    split
    · exact ⟨rfl, rfl, le_rfl⟩
    · split
      · exact .refl d
      · obtain ⟨hlen, hlimit, hheld⟩ := d.shrinks_drop 2
        exact ⟨hlen, hlimit, hheld⟩
  have hdata : ∀ d : Decoder, d.Shrinks (chunkedData d).1 := by
    intro d
    unfold chunkedData
    dsimp only
    split
    · exact ⟨rfl, rfl, le_rfl⟩
    · split
      · exact .refl d
      · exact ⟨rfl, rfl, le_rfl⟩
  unfold chunkedParse
  split
  · have hline : (upsgi_chunked_readline d.buf.data beyond).2.length ≤ d.buf.data.length := by
      unfold upsgi_chunked_readline
      split
      · exact le_rfl
      · exact le_rfl
      · show (d.buf.data.drop _).length ≤ _
        rw [length_drop]
        omega
    generalize upsgi_chunked_readline d.buf.data beyond = out at hline ⊢
    obtain ⟨chunk_len, data⟩ := out
    have hsized : d.Shrinks (d.sized data chunk_len) := ⟨rfl, rfl, hline⟩
    dsimp only
    split
    · exact ⟨rfl, rfl, hline⟩
    · split
      · exact hsized
      · split
        · exact hsized.trans (hfinal _)
        · exact hsized.trans (hdata _)
  · exact hdata d
  · exact hfinal d

theorem Decoder.Roomy.shrinks (h : d.Roomy) (hshrinks : d.Shrinks d') : d'.Roomy where
  unlimited := hshrinks.limit.trans h.unlimited
  fits := by
    rw [hshrinks.len]
    exact Nat.le_trans hshrinks.held h.fits

theorem chunkedParse_roomy (beyond : Bytes) (h : d.Roomy) :
    (chunkedParse beyond d).1.Roomy :=
  h.shrinks (chunkedParse_shrinks beyond d)

/-- The buffer stays large enough for its content. -/
theorem upsgi_buffer_ensure_fits {ub ub' : UpsgiBuffer} {len : Nat} {room : Bool}
    (h : upsgi_buffer_ensure ub len room = some ub') (hlimit : ub.limit = 0)
    (hfits : ub.data.length ≤ ub.len) : ub'.limit = 0 ∧ ub'.data.length ≤ ub'.len := by
  unfold upsgi_buffer_ensure at h
  dsimp only at h
  split at h
  · rw [if_neg (by rw [hlimit]; simp)] at h
    split at h
    · cases h
    · cases h
      exact ⟨hlimit, show ub.data.length ≤ ub.len + _ by omega⟩
  · cases h
    exact ⟨hlimit, hfits⟩

/-- A read fills at most the room in the buffer. -/
theorem Decoder.received_roomy {buf : UpsgiBuffer} {got : Bytes} (hlimit : buf.limit = 0)
    (hfits : buf.data.length ≤ buf.len) (hlen : got.length ≤ buf.len - buf.data.length) :
    ({ Decoder.setData { d with buf := buf } (buf.data ++ got) with
      need := d.need - got.length } : Decoder).Roomy := by
  refine ⟨hlimit, ?_⟩
  show (buf.data ++ got).length ≤ buf.len
  rw [length_append]
  omega

theorem chunkedLoop_roomy (cfg : ChunkedConfig) (recvs : List Recv) (conn : Conn) (d : Decoder)
    (h : d.Roomy) : (chunkedLoop cfg recvs conn d).2.1.Roomy := by
  induction recvs generalizing conn d with
  | nil => exact h
  | cons recv recvs ih =>
    unfold chunkedLoop
    cases hbuf : upsgi_buffer_ensure d.buf (max cfg.page_size d.need) recv.room with
    | none => exact h
    | some buf =>
      obtain ⟨hlimit, hfits⟩ := upsgi_buffer_ensure_fits hbuf h.unlimited h.fits
      have hlen := readBody_length conn (buf.len - buf.data.length) recv
      dsimp only
      generalize readBody conn (buf.len - buf.data.length) recv = out at hlen ⊢
      obtain ⟨conn', got⟩ := out
      dsimp only at hlen ⊢
      have hroomy := Decoder.received_roomy (d := d) hlimit hfits hlen
      split
      · exact ⟨hlimit, hfits⟩
      · split
        · exact ih conn' _ hroomy
        · have hparsed := chunkedParse_roomy recv.beyond hroomy
          split
          · next d' result hparse =>
            rw [hparse] at hparsed
            exact hparsed
          · next d' hparse =>
            rw [hparse] at hparsed
            exact ih conn' d' hparsed

theorem Decoder.Roomy.emptied (h : d.Roomy) : d.emptied.Roomy :=
  h.shrinks d.shrinks_emptied

/-- No call makes the buffer too small for its content. -/
theorem upsgi_chunked_read_roomy (cfg : ChunkedConfig) (call : ChunkedCall) (conn : Conn)
    (chunked_input : Option Decoder) (h : (chunked_input.getD (Decoder.new cfg)).Roomy) :
    (upsgi_chunked_read cfg call conn chunked_input).2.1.Roomy := by
  unfold upsgi_chunked_read
  generalize chunked_input.getD (Decoder.new cfg) = d at h ⊢
  dsimp only
  split
  · exact h
  · split
    · exact h
    · split
      · exact chunkedLoop_roomy cfg call.recvs conn _ h.emptied
      · have hparsed := chunkedParse_roomy call.beyond h.emptied
        unfold Decoder.emptied at hparsed
        split
        · next d' result hparse =>
          rw [hparse] at hparsed
          exact hparsed
        · next d' hparse =>
          rw [hparse] at hparsed
          exact chunkedLoop_roomy cfg call.recvs conn d' hparsed

/-- A parse that fails has refused the stream. -/
theorem chunkedParse_refused {beyond : Bytes} (hneed : d.need = 0)
    (h : chunkedParse beyond d = (d', some .fail)) : d'.Refused := by
  have hfinal : ∀ d : Decoder, upsgi_chunked_require_final_crlf d = (d', some .fail) →
      d.need = 0 → d'.Refused := by
    intro d h hneed
    unfold upsgi_chunked_require_final_crlf at h
    split at h
    · cases h
    · next hlen =>
      split at h
      · cases h
        refine ⟨hneed, .inl ?_⟩
        intro hnil
        exact hlen (by simp [hnil])
      · cases h
  have hchunk : ∀ d : Decoder, chunkedData d = (d', some .fail) → d.need = 0 → d'.Refused := by
    intro d h hneed
    unfold chunkedData at h
    dsimp only at h
    split at h
    · cases h
    · next hlen =>
      split at h
      · cases h
        refine ⟨hneed, .inl ?_⟩
        intro hnil
        exact hlen (by simp [hnil])
      · cases h
  unfold chunkedParse at h
  split at h
  · dsimp only at h
    split at h
    · cases h
    · split at h
      · next hneg =>
        cases h
        exact ⟨hneed, .inr hneg⟩
      · split at h
        · exact hfinal _ h hneed
        · exact hchunk _ h hneed
  · exact hchunk d h hneed
  · exact hfinal d h hneed

/-- A call with more reads than there are bytes, each of which brings something,
    returns a null pointer only for a refusal or when everything was read. -/
structure Exhausts (conn : Conn) (out : Conn × Decoder × ChunkResult) : Prop where
  read : out.1.incoming.length ≤ conn.incoming.length
  starved : out.2.2 = .fail → ¬ out.2.1.Refused → out.1.incoming = []

theorem Exhausts.mono {conn conn' : Conn} {out : Conn × Decoder × ChunkResult}
    (h : Exhausts conn' out) (hle : conn'.incoming.length ≤ conn.incoming.length) :
    Exhausts conn out :=
  ⟨Nat.le_trans h.read hle, h.starved⟩

/-- A parse and, when it has no result, what is done next. -/
theorem Exhausts.parse_then (beyond : Bytes) {conn : Conn} (h : d.Roomy) (hneed : d.need = 0)
    {next : Decoder → Conn × Decoder × ChunkResult}
    (hnext : ∀ d', d'.Roomy → Exhausts conn (next d')) :
    Exhausts conn (match chunkedParse beyond d with
      | (d, some result) => (conn, d, result)
      | (d, none) => next d) := by
  have hroomy := chunkedParse_roomy beyond h
  cases hparse : chunkedParse beyond d with
  | mk d' result =>
    rw [hparse] at hroomy
    cases result with
    | none => exact hnext d' hroomy
    | some result =>
      refine ⟨le_rfl, ?_⟩
      intro hfail hopen
      have hfail' : result = .fail := hfail
      rw [hfail'] at hparse
      exact absurd (chunkedParse_refused hneed hparse) hopen

theorem chunkedLoop_exhausts (cfg : ChunkedConfig) (recvs : List Recv) (conn : Conn) (d : Decoder)
    (h : d.Roomy) (hmany : conn.incoming.length < recvs.length)
    (hbrings : ∀ recv ∈ recvs, recv.Brings) : Exhausts conn (chunkedLoop cfg recvs conn d) := by
  induction recvs generalizing conn d with
  | nil => nomatch hmany
  | cons recv recvs ih =>
    rw [forall_mem_cons] at hbrings
    obtain ⟨buf, hbuf, hlimit, hroom⟩ :=
      upsgi_buffer_ensure_room (max cfg.page_size d.need) h.unlimited h.fits
    have hdata := upsgi_buffer_ensure_data hbuf
    have hpage := cfg.page_size_pos
    unfold chunkedLoop
    rw [hbrings.1.room, hbuf]
    dsimp only
    have hread := readBody_incoming conn (buf.len - buf.data.length) recv
    have hlen := readBody_length conn (buf.len - buf.data.length) recv
    have hne := readBody_ne_nil conn hbrings.1 (show 0 < buf.len - buf.data.length by omega)
    generalize readBody conn (buf.len - buf.data.length) recv = out at hread hlen hne ⊢
    obtain ⟨conn', got⟩ := out
    dsimp only at hread hlen hne ⊢
    have hcount := congrArg List.length hread
    rw [length_append] at hcount
    split
    · next hnil =>
      -- a read that brings nothing has found the end
      refine ⟨?_, ?_⟩
      · show conn'.incoming.length ≤ _
        omega
      · intro _ _
        show conn'.incoming = []
        by_contra hinc
        rw [hnil, nil_append] at hread
        exact hne (hread ▸ hinc) hnil
    · next hgot =>
      have hpos : 0 < got.length := length_pos_iff.mpr hgot
      have hroomy := Decoder.received_roomy (d := d) hlimit (by omega) hlen
      have hmany' : conn'.incoming.length < recvs.length := by
        rw [length_cons] at hmany
        omega
      split
      · exact (ih conn' _ hroomy hmany' hbrings.2).mono (by omega)
      · next hneed =>
        apply Exhausts.mono _ (show conn'.incoming.length ≤ conn.incoming.length by omega)
        apply Exhausts.parse_then recv.beyond hroomy (Nat.eq_zero_of_not_pos hneed)
        intro d' hd'
        exact ih conn' d' hd' hmany' hbrings.2

/-- A call with reads enough. -/
structure ChunkedCall.Plenty (n : Nat) (call : ChunkedCall) : Prop where
  many : n < call.recvs.length
  brings : ∀ recv ∈ call.recvs, recv.Brings

theorem upsgi_chunked_read_exhausts (cfg : ChunkedConfig) {call : ChunkedCall} {conn : Conn}
    {chunked_input : Option Decoder} (hd : chunked_input.getD (Decoder.new cfg) = d) (h : d.Roomy)
    (hheld : d.decapitate ≤ d.buf.data.length) (hplenty : call.Plenty conn.incoming.length) :
    Exhausts conn (upsgi_chunked_read cfg call conn chunked_input) := by
  unfold upsgi_chunked_read
  rw [hd]
  dsimp only
  split
  · exact ⟨le_rfl, nofun⟩
  · rw [if_neg (Nat.not_lt.mpr hheld)]
    split
    · exact chunkedLoop_exhausts cfg call.recvs conn _ h.emptied hplenty.many hplenty.brings
    · next hready =>
      rw [not_or] at hready
      apply Exhausts.parse_then call.beyond h.emptied (Nat.eq_zero_of_not_pos hready.1)
      intro d' hd'
      exact chunkedLoop_exhausts cfg call.recvs conn d' hd' hplenty.many hplenty.brings

theorem ChunkedCall.Plenty.mono {n m : Nat} {call : ChunkedCall} (h : call.Plenty n) (hle : m ≤ n) :
    call.Plenty m :=
  ⟨Nat.lt_of_le_of_lt hle h.many, h.brings⟩

section

variable (cfg : ChunkedConfig) (calls : List ChunkedCall) {n : Nat} (conn : Conn)
    (chunked_input : Option Decoder) (hd : chunked_input.getD (Decoder.new cfg) = d)
    (hbetween : Between d) (hroomy : d.Roomy)
include cfg calls conn chunked_input hd hbetween hroomy

/-- When everything was read and bytes are missing, all further calls wait. -/
theorem chunkedRun_stuck (hend : conn.incoming = []) (hincomplete : d.complete = false)
    (hstuck : look sizeLimit d.phase (d.rest conn) = .stuck)
    (hread : ReadableFrom d.phase (d.rest conn)) (hplenty : ∀ call ∈ calls, call.Plenty n)
    (hne : calls ≠ []) : chunkedRun cfg calls conn chunked_input = ([], .waiting) := by
  have hhalt : Halted sizeLimit d.phase (d.rest conn) := .inl hstuck
  induction calls generalizing conn chunked_input d with
  | nil => nomatch hne
  | cons call calls ih =>
    rw [forall_mem_cons] at hplenty
    have hgives := upsgi_chunked_read_gives cfg call conn chunked_input hd hbetween hread
    have hexhausts := upsgi_chunked_read_exhausts cfg hd hroomy hbetween.held
      (hplenty.1.mono (by rw [hend]; exact Nat.zero_le n))
    have hroomy' := upsgi_chunked_read_roomy cfg call conn chunked_input (hd ▸ hroomy)
    rw [chunkedRun]
    generalize upsgi_chunked_read cfg call conn chunked_input = out at hgives hexhausts hroomy' ⊢
    obtain ⟨conn', d', result⟩ := out
    have hend' : conn'.incoming = [] := by
      have := hexhausts.read
      rw [hend] at this
      exact eq_nil_of_length_eq_zero (Nat.le_zero.mp this)
    cases result with
    | chunk data => cases (hhalt.reaches hgives.2.2.1).1
    | finished =>
      exact absurd (hhalt.reaches hgives.2.1).2.1.symm (Decoder.phase_ne_complete hincomplete)
    | fail =>
      dsimp only
      rcases hgives with ⟨_, q, t, hreach, hlook⟩ | ⟨hopen, hincomplete', hbetween', hreach, hstuck'⟩
      · obtain ⟨_, rfl, rfl⟩ := hhalt.reaches hreach
        cases hstuck.symm.trans hlook
      · rw [if_neg hopen]
        split
        · rfl
        · next hlast =>
          have hne' : calls ≠ [] := by
            intro hnil
            exact hlast ⟨by rw [hnil]; rfl, hend'⟩
          exact ih conn' (some d') rfl hbetween' hroomy' hend' hincomplete' (hstuck' hend')
            (hread.reached hreach) hplenty.2 hne' (.inl (hstuck' hend'))

/-- With calls and reads enough a run is settled. -/
theorem chunkedRun_settled (hread : ReadableFrom d.phase (d.rest conn))
    (hn : conn.incoming.length ≤ n) (hplenty : ∀ call ∈ calls, call.Plenty n)
    (hcalls : (d.rest conn).length < calls.length) :
    (chunkedRun cfg calls conn chunked_input).2.Settled := by
  induction calls generalizing conn chunked_input d with
  | nil => nomatch hcalls
  | cons call calls ih =>
    rw [forall_mem_cons] at hplenty
    rw [length_cons] at hcalls
    have hgives := upsgi_chunked_read_gives cfg call conn chunked_input hd hbetween hread
    have hexhausts := upsgi_chunked_read_exhausts cfg hd hroomy hbetween.held (hplenty.1.mono hn)
    have hroomy' := upsgi_chunked_read_roomy cfg call conn chunked_input (hd ▸ hroomy)
    rw [chunkedRun]
    generalize upsgi_chunked_read cfg call conn chunked_input = out at hgives hexhausts hroomy' ⊢
    obtain ⟨conn', d', result⟩ := out
    dsimp only at hgives ⊢
    cases result with
    | chunk data =>
      obtain ⟨_, _, hreach, hbetween'⟩ := hgives
      have hshorter := hreach.length_le
      rw [length_singleton] at hshorter
      exact ih conn' (some d') rfl hbetween' hroomy' (hread.reached hreach)
        (Nat.le_trans hexhausts.read hn) hplenty.2 (show (d'.rest conn').length < _ by omega)
    | finished => trivial
    | fail =>
      dsimp only
      rcases hgives with ⟨hrefused, _⟩ | ⟨hopen, hincomplete, hbetween', hreach, hstuck⟩
      · rw [if_pos hrefused]
        trivial
      · have hend : conn'.incoming = [] := hexhausts.starved rfl hopen
        rw [if_neg hopen]
        split
        · trivial
        · next hlast =>
          have hne : calls ≠ [] := by
            intro hnil
            exact hlast ⟨by rw [hnil]; rfl, hend⟩
          rw [chunkedRun_stuck cfg calls conn' (some d') rfl hbetween' hroomy' hend
            hincomplete (hstuck hend) (hread.reached hreach) hplenty.2 hne]
          trivial

end

/-! ### Independence of the reads -/

section fresh

variable {cfg : ChunkedConfig} {conn : Conn} {calls : List ChunkedCall}

/-- A run on a new decoder. -/
theorem chunkedRun_new_reaches (cfg : ChunkedConfig) (calls : List ChunkedCall)
    (hread : ReadableFrom .line conn.incoming) :
    ∃ q t, Reaches sizeLimit .line conn.incoming (chunkedRun cfg calls conn none).1 q t ∧
      (chunkedRun cfg calls conn none).2.At q t :=
  chunkedRun_reaches cfg calls conn none rfl (between_new cfg) hread

theorem chunkedRun_new_settled (hlimit : cfg.chunked_input_limit = 0)
    (hread : ReadableFrom .line conn.incoming)
    (hplenty : ∀ call ∈ calls, call.Plenty conn.incoming.length)
    (hcalls : conn.incoming.length < calls.length) :
    (chunkedRun cfg calls conn none).2.Settled :=
  chunkedRun_settled cfg calls conn none rfl (between_new cfg) ⟨hlimit, Nat.zero_le _⟩ hread
    le_rfl hplenty hcalls

end fresh

/-- On a stream whose size lines are readable, any two runs deliver the same
    chunks and end in the same way at the same place of the stream, once they
    have had calls and reads enough; until then a run has delivered the first
    chunks of the others. -/
theorem chunked_runs_independent {cfg cfg' : ChunkedConfig} {conn conn' : Conn}
    {calls calls' : List ChunkedCall} (hstream : conn'.incoming = conn.incoming)
    (hread : ReadableFrom .line conn.incoming) :
    ((chunkedRun cfg' calls' conn' none).2.Settled →
      (chunkedRun cfg calls conn none).1 <+: (chunkedRun cfg' calls' conn' none).1) ∧
    ((chunkedRun cfg calls conn none).2.Settled → (chunkedRun cfg' calls' conn' none).2.Settled →
      chunkedRun cfg calls conn none = chunkedRun cfg' calls' conn' none) ∧
    (cfg.chunked_input_limit = 0 → (∀ call ∈ calls, call.Plenty conn.incoming.length) →
      conn.incoming.length < calls.length → (chunkedRun cfg calls conn none).2.Settled) := by
  obtain ⟨q, t, hreach, hat⟩ := chunkedRun_new_reaches cfg calls hread
  have hread' : ReadableFrom .line conn'.incoming := by rwa [hstream]
  obtain ⟨q', t', hreach', hat'⟩ := chunkedRun_new_reaches cfg' calls' hread'
  rw [hstream] at hreach'
  refine ⟨?_, ?_, fun hlimit => chunkedRun_new_settled hlimit hread⟩
  · intro hsettled'
    obtain ⟨more, hmore, _⟩ := hreach.factor hreach' (hat'.halted hsettled')
    exact ⟨more, hmore.symm⟩
  · intro hsettled hsettled'
    obtain ⟨hchunks, rfl, rfl⟩ :=
      hreach.unique hreach' (hat.halted hsettled) (hat'.halted hsettled')
    exact Prod.ext hchunks (hat.unique hat' hsettled hsettled')

/-- A read of at most `n` bytes; what lies behind the buffer is a NUL byte. -/
def recvUpTo (n : Nat) : Recv := ⟨100, n, true, []⟩

/-- A small buffer without a limit. -/
def smallPage : ChunkedConfig := ⟨16, by decide, 0, .inl rfl⟩

/-- A last chunk, read at once and in small pieces. -/
theorem chunked_runs_independent_pieces :
    chunkedRun smallPage [⟨[], [recvUpTo 9]⟩] ⟨[], lit "0\r\n\r\n"⟩ none =
      chunkedRun smallPage [⟨[], [recvUpTo 1, recvUpTo 1]⟩, ⟨[], [recvUpTo 0]⟩,
        ⟨[], List.replicate 3 (recvUpTo 1)⟩] ⟨[], lit "0\r\n\r\n"⟩ none := by
  have hseq : SeqOf (lit "0\r\n\r\n") [] :=
    .last [48] ⟨by decide, by simp; decide⟩ (by decide)
  have hreach : Reaches sizeLimit .line (lit "0\r\n\r\n" ++ []) [] .complete [] :=
    hseq.reaches (by simp) []
  have hread : ReadableFrom .line (Conn.mk [] (lit "0\r\n\r\n")).incoming :=
    readableFrom_of_complete hreach
  apply (chunked_runs_independent rfl hread).2.1
  · rw [show chunkedRun smallPage [⟨[], [recvUpTo 9]⟩] ⟨[], lit "0\r\n\r\n"⟩ none =
      ([], .complete []) by decide +kernel]
    trivial
  · rw [show chunkedRun smallPage [⟨[], [recvUpTo 1, recvUpTo 1]⟩, ⟨[], [recvUpTo 0]⟩,
      ⟨[], List.replicate 3 (recvUpTo 1)⟩] ⟨[], lit "0\r\n\r\n"⟩ none = ([], .complete []) by
        decide +kernel]
    trivial

/-- A size line without digits: read together with what follows it, the next
    digits are taken for its size and a chunk is delivered; read alone, the size
    is 0 and the stream is refused. -/
theorem chunked_runs_differ :
    chunkedRun smallPage [⟨[], [recvUpTo 9]⟩, ⟨[], []⟩] ⟨[], lit "\r\n1\r\n"⟩ none =
        ([lit "1"], .waiting) ∧
      chunkedRun smallPage [⟨[], [recvUpTo 2, recvUpTo 9]⟩] ⟨[], lit "\r\n1\r\n"⟩ none =
        ([], .refused (lit "1\r\n")) := by
  constructor <;> decide +kernel

/-! ### The grammar -/

theorem toSsize_lt {n : Nat} (h : n < 2 ^ 64) : toSsize n < sizeLimit := by
  unfold toSsize
  split
  · next hlt =>
    show (n : Int) < ((2 ^ 63 : Nat) : Int)
    omega
  · show (n : Int) - 2 ^ 64 < ((2 ^ 63 : Nat) : Int)
    omega

theorem strtoul16_lt (buf : Bytes) : strtoul16 buf < 2 ^ 64 := by
  unfold strtoul16
  split
  dsimp only
  split
  · decide
  · split
    · exact Nat.mod_lt _ (by decide)
    · omega

/-- Whatever the stream, a size is smaller than the limit. -/
theorem upsgi_chunked_readline_lt (buf beyond : Bytes) :
    (upsgi_chunked_readline buf beyond).1 < sizeLimit := by
  unfold upsgi_chunked_readline
  split
  · exact show (-2 : Int) < sizeLimit by decide
  · exact show (-1 : Int) < sizeLimit by decide
  · exact toSsize_lt (strtoul16_lt _)

/-- The size of the chunk and of what is handed out. -/
def SmallChunk (d : Decoder) (result : Option ChunkResult) : Prop :=
  d.chunk_len < sizeLimit ∧ ∀ data, result = some (.chunk data) → data.length < sizeLimit

theorem chunkedParse_small (beyond : Bytes) (h : d.chunk_len < sizeLimit) :
    SmallChunk (chunkedParse beyond d).1 (chunkedParse beyond d).2 := by
  have hfinal : ∀ d : Decoder, d.chunk_len < sizeLimit →
      SmallChunk (upsgi_chunked_require_final_crlf d).1 (upsgi_chunked_require_final_crlf d).2 := by
    intro d h
    unfold upsgi_chunked_require_final_crlf
    split
    · exact ⟨h, nofun⟩
    · split <;> exact ⟨h, nofun⟩
  have hchunk : ∀ d : Decoder, d.chunk_len < sizeLimit →
      SmallChunk (chunkedData d).1 (chunkedData d).2 := by
    intro d h
    unfold chunkedData
    dsimp only
    split
    · exact ⟨h, nofun⟩
    · split
      · exact ⟨h, nofun⟩
      · refine ⟨h, ?_⟩
        intro data hdata
        obtain rfl := ChunkResult.chunk.inj (Option.some.inj hdata)
        have hnat : d.chunk_len.toNat < sizeLimit := by
          have h' : d.chunk_len < ((2 ^ 63 : Nat) : Int) := h
          show d.chunk_len.toNat < 2 ^ 63
          omega
        rw [length_take]
        omega
  unfold chunkedParse
  split
  · have hline := upsgi_chunked_readline_lt d.buf.data beyond
    generalize upsgi_chunked_readline d.buf.data beyond = out at hline ⊢
    obtain ⟨chunk_len, data⟩ := out
    dsimp only
    split
    · exact ⟨hline, nofun⟩
    · split
      · exact ⟨hline, nofun⟩
      · split
        · exact hfinal _ hline
        · exact hchunk _ hline
  · exact hchunk d h
  · exact hfinal d h

theorem readRule_small :
    ReadRule (fun _ d => d.chunk_len < sizeLimit) (fun _ d result => SmallChunk d (some result)) where
  starved := fun h _ => ⟨h, nofun⟩
  ensured := fun h _ _ => h
  received := fun h _ _ => h
  goes_on := by
    intro conn d d' beyond h _ _ hparse
    have hsmall := chunkedParse_small beyond h
    rw [hparse] at hsmall
    exact hsmall.1
  ends := by
    intro conn d d' result beyond h _ _ hparse
    have hsmall := chunkedParse_small beyond h
    rwa [hparse] at hsmall

/-- Whatever the stream, no run delivers a chunk of `2 ^ 63` bytes or more. -/
theorem chunkedRun_small (cfg : ChunkedConfig) (calls : List ChunkedCall) (conn : Conn)
    (chunked_input : Option Decoder) (hd : chunked_input.getD (Decoder.new cfg) = d)
    (h : d.chunk_len < sizeLimit) :
    ∀ data ∈ (chunkedRun cfg calls conn chunked_input).1, data.length < sizeLimit := by
  induction calls generalizing conn chunked_input d with
  | nil => nofun
  | cons call calls ih =>
    have hsmall := readRule_small.upsgi_chunked_read cfg call conn chunked_input hd
      (fun _ => ⟨h, nofun⟩) (fun _ => ⟨h, nofun⟩) (fun _ _ => h)
    rw [chunkedRun]
    generalize upsgi_chunked_read cfg call conn chunked_input = out at hsmall ⊢
    obtain ⟨conn', d', result⟩ := out
    have hnext := ih conn' (some d') rfl hsmall.1
    cases result with
    | chunk data =>
      intro data' hdata'
      rcases mem_cons.mp hdata' with rfl | hmem
      · exact hsmall.2 data' rfl
      · exact hnext data' hmem
    | finished => nofun
    | fail =>
      dsimp only
      split
      · nofun
      · split
        · nofun
        · exact hnext

end Upsgi
