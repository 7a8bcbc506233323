import Upsgi.Body.Boundary
import Upsgi.Lib.ChunkedDecoding

/-! # The decoder and the reference decoder

    The decoder gets the stream in pieces of any size and is called again and
    again.  What it has in its buffer and what is still to come are together
    the rest of the stream, and what the decoder does is what the reference
    decoder does there: so it does not matter where the pieces were cut.

    Two size lines are the exception.  On a line without digits the number is
    read from whatever follows the line in memory, and a size of `2 ^ 64 - 2`
    is taken for the sign that the line is not complete yet.
-/

namespace Upsgi

open Framing
open ChunkedCoding hiding Bytes
open List

/-- The decoder refuses sizes that do not fit in a `ssize_t`. -/
abbrev sizeLimit : Nat := 2 ^ 63

/-! ### Size lines -/

/-- What the scan for a size line says about the bytes it saw. -/
theorem readlineScan_spec (buf : Bytes) : ∀ i,
    match readlineScan false i buf with
    | .more => ∃ digits, (∀ c ∈ digits, isDigit c = true) ∧ (buf = digits ∨ buf = digits ++ [CR])
    | .bad => ∃ digits c rest, (∀ c ∈ digits, isDigit c = true) ∧
        ((buf = digits ++ c :: rest ∧ isDigit c = false ∧ c ≠ CR) ∨
          (buf = digits ++ CR :: c :: rest ∧ c ≠ LF))
    | .line len => ∃ digits rest, (∀ c ∈ digits, isDigit c = true) ∧
        buf = digits ++ crlf ++ rest ∧ len = i + digits.length + 2 := by
  induction buf with
  | nil =>
    intro i
    exact ⟨[], by simp, .inl rfl⟩
  | cons c buf ih =>
    intro i
    by_cases hc : isDigit c = true
    · -- one digit more in front
      have hall : ∀ digits : Bytes, (∀ c ∈ digits, isDigit c = true) →
          ∀ c' ∈ c :: digits, isDigit c' = true := by
        intro digits h
        rw [forall_mem_cons]
        exact ⟨hc, h⟩
      have hnext := ih (i + 1)
      rw [readlineScan, if_pos hc]
      cases hscan : readlineScan false (i + 1) buf with
      | more =>
        rw [hscan] at hnext
        obtain ⟨digits, hdigits, rfl | rfl⟩ := hnext
        · exact ⟨c :: buf, hall _ hdigits, .inl rfl⟩
        · exact ⟨c :: digits, hall _ hdigits, .inr rfl⟩
      | bad =>
        rw [hscan] at hnext
        obtain ⟨digits, c', rest, hdigits, ⟨rfl, h⟩ | ⟨rfl, h⟩⟩ := hnext
        · exact ⟨c :: digits, c', rest, hall _ hdigits, .inl ⟨rfl, h⟩⟩
        · exact ⟨c :: digits, c', rest, hall _ hdigits, .inr ⟨rfl, h⟩⟩
      | line len =>
        rw [hscan] at hnext
        obtain ⟨digits, rest, hdigits, rfl, rfl⟩ := hnext
        refine ⟨c :: digits, rest, hall _ hdigits, rfl, ?_⟩
        rw [length_cons]
        omega
    · rw [readlineScan, if_neg hc]
      by_cases hcr : c = CR
      · subst hcr
        cases buf with
        | nil => exact ⟨[], by simp, .inr rfl⟩
        | cons c' buf =>
          rw [readlineScan]
          by_cases hlf : c' = LF
          · subst hlf
            exact ⟨[], buf, by simp, rfl, by simp⟩
          · rw [if_neg hlf]
            exact ⟨[], c', buf, by simp, .inr ⟨rfl, hlf⟩⟩
      · rw [if_neg hcr]
        exact ⟨[], c, buf, by simp, .inl ⟨rfl, by simpa using hc, hcr⟩⟩

/-- A size the decoder reads for what it is: it has a digit, and it is not the
    one that is returned as -2. -/
def ReadableSize (stream : Bytes) : Prop :=
  ¬ crlf <+: stream ∧
    ∀ digits rest, IsSize digits → stream = digits ++ crlf ++ rest → value digits ≠ 2 ^ 64 - 2

/-- Every size line is readable that is reached from a place in the stream. -/
def ReadableFrom (p : Phase) (stream : Bytes) : Prop :=
  ∀ chunks rest, Reaches sizeLimit p stream chunks .line rest → ReadableSize rest

theorem ReadableFrom.reached {p q : Phase} {s t : Bytes} {chunks : List Bytes}
    (h : ReadableFrom p s) (hreach : Reaches sizeLimit p s chunks q t) : ReadableFrom q t := by
  intro more rest hmore
  exact h (chunks ++ more) rest (hreach.trans hmore)

/-! ### Bodies -/

section

variable {body : Bytes} {chunks : List Bytes} (h : SeqOf body chunks)
    (hsizes : ∀ data ∈ chunks, data.length ≠ 2 ^ 64 - 2) (tail : Bytes)
include h hsizes tail

/-- The first size line of a body is readable unless its chunk has `2 ^ 64 - 2`
    bytes. -/
theorem readableSize_of_seqOf :
    ReadableSize (body ++ tail) := by
  obtain ⟨digits, after, hbody, hsize, hvalue⟩ : ∃ digits after, body = digits ++ crlf ++ after ∧
      IsSize digits ∧ value digits ≠ 2 ^ 64 - 2 := by
    cases h with
    | last digits hsize hzero => exact ⟨digits, crlf, rfl, hsize, by rw [hzero]; decide⟩
    | chunk digits data rest chunks hsize hvalue _ _ =>
      rw [forall_mem_cons] at hsizes
      exact ⟨digits, data ++ crlf ++ rest, by simp, hsize, by rw [hvalue]; exact hsizes.1⟩
  have hline : body ++ tail = digits ++ crlf ++ (after ++ tail) := by
    rw [hbody, append_assoc]
  constructor
  · -- the first byte is a digit
    intro hcrlf
    obtain ⟨c, more, rfl⟩ := exists_cons_of_ne_nil hsize.1
    obtain ⟨u, hu⟩ := hcrlf
    rw [hline] at hu
    have hc : (13 : UInt8) = c := (List.cons.inj hu).1
    have hdigit := hsize.2 c (by simp)
    rw [← hc] at hdigit
    nomatch hdigit
  · intro digits' rest' hsize' heq
    obtain ⟨rfl, _⟩ := line_unique hsize hsize' (hline.symm.trans heq)
    exact hvalue

/-- All size lines of a body are readable when no chunk has that size. -/
theorem readableFrom_of_seqOf :
    ReadableFrom .line (body ++ tail) := by
  intro chunks' t hreach
  obtain ⟨body', more, rfl, hmore, rfl⟩ := h.line_reached hreach
  apply readableSize_of_seqOf hmore
  intro data hdata
  exact hsizes data (mem_append_right _ hdata)

end

/-- All size lines of a body with small chunks are readable. -/
theorem readableFrom_of_complete {p : Phase} {s rest : Bytes} {chunks : List Bytes}
    (h : Reaches sizeLimit p s chunks .complete rest) : ReadableFrom p s := by
  intro chunks' t hreach
  obtain ⟨more, _, hmore⟩ := hreach.factor h (halted_complete rest)
  obtain ⟨body, rfl, hseq, hsmall⟩ := reaches_complete_iff.mp hmore
  apply readableSize_of_seqOf hseq
  intro data hdata
  have : data.length < 2 ^ 63 := hsmall data hdata
  omega

/-! ### The place in the stream -/

/-- What the decoder waits for, in terms of the reference decoder. -/
def Decoder.phase (d : Decoder) : Phase :=
  if d.complete then .complete
  else
    match d.status with
    | .line => .line
    | .data => .data d.chunk_len.toNat
    | .final => .final

/-- The rest of the stream: a chunk that was handed out does not count. -/
def Decoder.rest (d : Decoder) (conn : Conn) : Bytes :=
  d.buf.data.drop d.decapitate ++ conn.incoming

/-- The decoder once that chunk is removed. -/
def Decoder.emptied (d : Decoder) : Decoder :=
  { d.setData (d.buf.data.drop d.decapitate) with decapitate := 0 }

/-- The decoder behind a size line. -/
def Decoder.sized (d : Decoder) (data : Bytes) (chunk_len : Int) : Decoder :=
  { d.setData data with chunk_len := chunk_len }

/-- How `need` fits to the bytes in the buffer. -/
def Decoder.Waits (d : Decoder) : Prop :=
  match d.status with
  | .line =>
      d.need ≤ 1 ∧ (0 < d.need → readlineScan false 0 d.buf.data = .more) ∧
        (d.buf.data = [] → 0 ≤ d.chunk_len)
  | .data =>
      0 < d.chunk_len ∧ (0 < d.need → d.buf.data.length + d.need = d.chunk_len.toNat + 2) ∧
        (d.need = 0 → d.chunk_len.toNat + 2 ≤ d.buf.data.length)
  | .final =>
      (0 < d.need → d.buf.data.length + d.need = 2) ∧ (d.need = 0 → 2 ≤ d.buf.data.length)

/-- Between two calls. -/
structure Between (d : Decoder) : Prop where
  held : d.decapitate ≤ d.buf.data.length
  waits : d.complete = false → d.emptied.Waits
  small : d.chunk_len < sizeLimit

/-- The state after a null pointer tells why: the stream was refused when the
    decoder waits for nothing although it has bytes, or has refused a size. -/
def Decoder.Refused (d : Decoder) : Prop :=
  d.need = 0 ∧ (d.buf.data ≠ [] ∨ d.chunk_len < 0)

instance (d : Decoder) : Decidable d.Refused :=
  inferInstanceAs (Decidable (_ ∧ _))

/-- What a call gives that starts where the reference decoder is in phase `p`
    before the stream `s`. -/
def CallGives (p : Phase) (s : Bytes) (conn : Conn) (d : Decoder) : ChunkResult → Prop
  | .chunk data =>
      data ≠ [] ∧ data.length < sizeLimit ∧ Reaches sizeLimit p s [data] d.phase (d.rest conn) ∧
        Between d
  | .finished => d.complete = true ∧ Reaches sizeLimit p s [] .complete (d.rest conn) ∧ Between d
  | .fail =>
      (d.Refused ∧ ∃ q t, Reaches sizeLimit p s [] q t ∧ look sizeLimit q t = .refuse (d.rest conn)) ∨
        (¬ d.Refused ∧ d.complete = false ∧ Between d ∧
          Reaches sizeLimit p s [] d.phase (d.rest conn) ∧
          (conn.incoming = [] → look sizeLimit d.phase (d.rest conn) = .stuck))

/-- Inside a call. -/
structure InCall (p : Phase) (s : Bytes) (conn : Conn) (d : Decoder) : Prop where
  incomplete : d.complete = false
  decapitated : d.decapitate = 0
  waits : d.Waits
  small : d.chunk_len < sizeLimit
  reaches : Reaches sizeLimit p s [] d.phase (d.buf.data ++ conn.incoming)

theorem Decoder.rest_of_zero {d : Decoder} (h : d.decapitate = 0) (conn : Conn) :
    d.rest conn = d.buf.data ++ conn.incoming := by
  rw [Decoder.rest, h, drop_zero]

theorem Decoder.emptied_of_zero {d : Decoder} (h : d.decapitate = 0) : d.emptied = d := by
  unfold Decoder.emptied
  cases d
  cases h
  rfl

section

variable {p : Phase} {s : Bytes} {conn : Conn} {d : Decoder} (h : InCall p s conn d)
include h

theorem InCall.between : Between d := by
  refine ⟨?_, ?_, h.small⟩
  · rw [h.decapitated]
    exact Nat.zero_le _
  · intro _
    rw [Decoder.emptied_of_zero h.decapitated]
    exact h.waits

/-- A decoder that waits has too few bytes for the reference decoder, too. -/
theorem InCall.stuck (hwait : 0 < d.need ∨ d.buf.data = []) (hend : conn.incoming = []) :
    look sizeLimit d.phase (d.buf.data ++ conn.incoming) = .stuck := by
  have hwaits := h.waits
  rw [hend, append_nil]
  unfold Decoder.phase
  rw [if_neg (by rw [h.incomplete]; decide)]
  unfold Decoder.Waits at hwaits
  cases hstatus : d.status with
  | line =>
    rw [hstatus] at hwaits
    show lookLine _ _ = _
    rcases hwait with hneed | hnil
    · have hscan := readlineScan_spec d.buf.data 0
      rw [hwaits.2.1 hneed] at hscan
      obtain ⟨digits, hdigits, hbuf | hbuf⟩ := hscan
      · rw [hbuf]
        exact (lookLine_part hdigits).1
      · rw [hbuf]
        exact (lookLine_part hdigits).2
    · rw [hnil]
      rfl
  | data =>
    rw [hstatus] at hwaits
    show lookData _ _ = _
    apply if_pos
    by_cases hneed : 0 < d.need
    · have := hwaits.2.1 hneed
      omega
    · have hlen := hwaits.2.2 (Nat.eq_zero_of_not_pos hneed)
      rw [hwait.resolve_left hneed] at hlen ⊢
      nomatch hlen
  | final =>
    rw [hstatus] at hwaits
    show lookFinal _ = _
    apply if_pos
    by_cases hneed : 0 < d.need
    · have := hwaits.1 hneed
      omega
    · have hlen := hwaits.2 (Nat.eq_zero_of_not_pos hneed)
      rw [hwait.resolve_left hneed] at hlen ⊢
      nomatch hlen

/-- Waiting is not refusing. -/
theorem InCall.not_refused (hwait : 0 < d.need ∨ d.buf.data = []) : ¬ d.Refused := by
  intro hrefused
  obtain ⟨hneed, hwhy⟩ := hrefused
  have hnil : d.buf.data = [] := hwait.resolve_left (by omega)
  have hneg : d.chunk_len < 0 := hwhy.resolve_left (fun hne => hne hnil)
  have hwaits := h.waits
  unfold Decoder.Waits at hwaits
  cases hstatus : d.status with
  | line =>
    rw [hstatus] at hwaits
    have := hwaits.2.2 hnil
    omega
  | data =>
    rw [hstatus] at hwaits
    have := hwaits.1
    omega
  | final =>
    rw [hstatus] at hwaits
    have hlen := hwaits.2 hneed
    rw [hnil] at hlen
    nomatch hlen

end

/-! ### Parses -/

/-- What holds after a parse: the call goes on or it is over. -/
def ParseGives (p : Phase) (s : Bytes) (conn : Conn) : Decoder × Option ChunkResult → Prop
  | (d, none) => InCall p s conn d
  | (d, some result) => CallGives p s conn d result

section parses

variable {p : Phase} {s : Bytes} {conn : Conn} {d : Decoder}

section

variable (hincomplete : d.complete = false) (hdecap : d.decapitate = 0) (hneed : d.need = 0)
include hincomplete hdecap hneed

theorem require_final_crlf_gives (hsmall : d.chunk_len < sizeLimit)
    (hreach : Reaches sizeLimit p s [] .final (d.buf.data ++ conn.incoming)) :
    ParseGives p s conn (upsgi_chunked_require_final_crlf d) := by
  unfold upsgi_chunked_require_final_crlf
  split
  · next hlen =>
    refine ⟨hincomplete, hdecap, ⟨?_, ?_⟩, hsmall, ?_⟩
    · intro _
      show d.buf.data.length + (2 - d.buf.data.length) = 2
      omega
    · intro hzero
      have : 2 - d.buf.data.length = 0 := hzero
      show 2 ≤ d.buf.data.length
      omega
    · unfold Decoder.phase
      rw [if_neg (by show ¬ d.complete = true; rw [hincomplete]; decide)]
      exact hreach
  · next hlen =>
    have hlook : look sizeLimit .final (d.buf.data ++ conn.incoming) =
        if d.buf.data.take 2 = crlf then .go .complete (d.buf.data.drop 2 ++ conn.incoming)
        else .refuse (d.buf.data ++ conn.incoming) := by
      show lookFinal _ = _
      unfold lookFinal
      rw [if_neg (by rw [length_append]; omega), take_append_of_le_length (by omega),
        drop_append_of_le_length (by omega)]
    split
    · next hcrlf =>
      left
      refine ⟨⟨hneed, .inl ?_⟩, .final, _, hreach, ?_⟩
      · intro hnil
        exact hlen (by simp [hnil])
      · rw [hlook, if_neg (show ¬ d.buf.data.take 2 = crlf from hcrlf), Decoder.rest_of_zero hdecap]
    · next hcrlf =>
      have htake : d.buf.data.take 2 = crlf := not_not.mp hcrlf
      rw [if_pos htake] at hlook
      have hrest : ({ d.setData (d.buf.data.drop 2) with
          need := 0, status := .line, complete := true } : Decoder).rest conn =
          d.buf.data.drop 2 ++ conn.incoming := by
        show (d.buf.data.drop 2).drop d.decapitate ++ conn.incoming = _
        rw [hdecap, drop_zero]
      refine ⟨rfl, ?_, ?_, ?_, hsmall⟩
      · rw [hrest]
        exact hreach.trans (.go hlook (.refl _ _))
      · show d.decapitate ≤ _
        omega
      · nofun

theorem chunkedData_gives (hpos : 0 < d.chunk_len) (hsmall : d.chunk_len < sizeLimit)
    (hreach : Reaches sizeLimit p s [] (.data d.chunk_len.toNat) (d.buf.data ++ conn.incoming)) :
    ParseGives p s conn (chunkedData d) := by
  unfold chunkedData
  dsimp only
  split
  · next hlen =>
    refine ⟨hincomplete, hdecap, ⟨hpos, ?_, ?_⟩, hsmall, ?_⟩
    · intro _
      show d.buf.data.length + (d.chunk_len.toNat + 2 - d.buf.data.length) = d.chunk_len.toNat + 2
      omega
    · intro hzero
      have : d.chunk_len.toNat + 2 - d.buf.data.length = 0 := hzero
      show d.chunk_len.toNat + 2 ≤ d.buf.data.length
      omega
    · unfold Decoder.phase
      rw [if_neg (by show ¬ d.complete = true; rw [hincomplete]; decide)]
      exact hreach
  · next hlen =>
    have hlook : look sizeLimit (.data d.chunk_len.toNat) (d.buf.data ++ conn.incoming) =
        if (d.buf.data.drop d.chunk_len.toNat).take 2 = crlf then
          .emit (d.buf.data.take d.chunk_len.toNat)
            (d.buf.data.drop (d.chunk_len.toNat + 2) ++ conn.incoming)
        else .refuse (d.buf.data ++ conn.incoming) := by
      show lookData _ _ = _
      unfold lookData
      rw [if_neg (by rw [length_append]; omega), drop_append_of_le_length (by omega),
        take_append_of_le_length (by rw [length_drop]; omega),
        take_append_of_le_length (by omega), drop_append_of_le_length (by omega)]
    split
    · next hcrlf =>
      left
      refine ⟨⟨hneed, .inl ?_⟩, _, _, hreach, ?_⟩
      · intro hnil
        rw [hnil] at hlen
        exact hlen (by simp)
      · rw [hlook, if_neg (by simpa [upsgi_chunked_require_crlf, crlf] using hcrlf),
          Decoder.rest_of_zero hdecap]
    · next hcrlf =>
      have htake : (d.buf.data.drop d.chunk_len.toNat).take 2 = crlf := by
        simpa [upsgi_chunked_require_crlf, crlf] using hcrlf
      rw [if_pos htake] at hlook
      have hphase : ({ d with decapitate := d.chunk_len.toNat + 2, status := .line } :
          Decoder).phase = .line := by
        unfold Decoder.phase
        rw [if_neg (by show ¬ d.complete = true; rw [hincomplete]; decide)]
      refine ⟨?_, ?_, ?_, ?_, ?_, hsmall⟩
      · intro hnil
        have hlen' := congrArg List.length hnil
        rw [length_take, length_nil] at hlen'
        omega
      · rw [length_take]
        omega
      · rw [hphase]
        exact hreach.trans (.emit hlook (.refl _ _))
      · show d.chunk_len.toNat + 2 ≤ d.buf.data.length
        omega
      · intro _
        refine ⟨?_, ?_, ?_⟩
        · show d.need ≤ 1
          omega
        · intro h
          have h' : 0 < d.need := h
          omega
        · intro _
          show 0 ≤ d.chunk_len
          omega

end

/-- The line of a readable size, in the buffer as a whole. -/
theorem chunkedParse_size_gives {digits after : Bytes} (beyond : Bytes) (h : InCall p s conn d)
    (hneed : d.need = 0) (hstatus : d.status = .line) (hsize : IsSize digits)
    (hvalue : value digits ≠ 2 ^ 64 - 2) (hbuf : d.buf.data = digits ++ crlf ++ after) :
    ParseGives p s conn (chunkedParse beyond d) := by
  have hphase : d.phase = .line := by
    unfold Decoder.phase
    rw [if_neg (by rw [h.incomplete]; decide), hstatus]
  have hreach := h.reaches
  rw [hphase, hbuf, append_assoc] at hreach
  have hlook : look sizeLimit .line (digits ++ crlf ++ (after ++ conn.incoming)) = _ :=
    lookLine_line hsize (after ++ conn.incoming)
  unfold chunkedParse
  rw [hstatus]
  rw [hbuf, upsgi_chunked_readline_size hsize]
  dsimp only
  by_cases hsmall : value digits < 2 ^ 63
  · rw [Nat.min_eq_left (by omega), toSsize_of_lt hsmall, if_neg (by omega), if_neg (by omega)]
    have hlt : ((value digits : Nat) : Int) < sizeLimit := by
      show ((value digits : Nat) : Int) < ((2 ^ 63 : Nat) : Int)
      omega
    by_cases hzero : value digits = 0
    · rw [if_pos (by omega)]
      rw [if_pos hzero] at hlook
      show ParseGives p s conn (upsgi_chunked_require_final_crlf (d.sized after (value digits)))
      exact require_final_crlf_gives h.incomplete h.decapitated hneed hlt
        (hreach.trans (.go hlook (.refl _ _)))
    · rw [if_neg (by omega)]
      rw [if_neg hzero, if_pos hsmall] at hlook
      show ParseGives p s conn (chunkedData (d.sized after (value digits)))
      have hpos : 0 < ((value digits : Nat) : Int) := by omega
      exact chunkedData_gives h.incomplete h.decapitated hneed hpos hlt
        (hreach.trans (.go hlook (.refl _ _)))
  · -- too large for a `ssize_t`: the result is negative
    have hzero : value digits ≠ 0 := by omega
    rw [if_neg hzero, if_neg hsmall] at hlook
    have hneg : toSsize (min (value digits) (2 ^ 64 - 1)) < 0 ∧
        toSsize (min (value digits) (2 ^ 64 - 1)) ≠ -2 := by
      have hmin : 2 ^ 63 ≤ min (value digits) (2 ^ 64 - 1) ∧
          min (value digits) (2 ^ 64 - 1) ≠ 2 ^ 64 - 2 ∧
          min (value digits) (2 ^ 64 - 1) < 2 ^ 64 := by
        omega
      generalize min (value digits) (2 ^ 64 - 1) = n at hmin ⊢
      unfold toSsize
      rw [if_neg (by omega)]
      omega
    rw [if_neg hneg.2, if_pos hneg.1]
    left
    refine ⟨⟨hneed, .inr hneg.1⟩, .line, _, hreach, ?_⟩
    rw [hlook]
    congr 1
    have hdecap : (d.sized after (toSsize (min (value digits) (2 ^ 64 - 1)))).decapitate = 0 :=
      h.decapitated
    exact (Decoder.rest_of_zero hdecap conn).symm

section

variable (beyond : Bytes) (h : InCall p s conn d) (hread : ReadableFrom p s) (hneed : d.need = 0)
    (hdata : d.buf.data ≠ [])
include beyond h hread hneed hdata

/-- A size line, in the buffer as a whole or in part. -/
theorem chunkedParse_line_gives
    (hstatus : d.status = .line) : ParseGives p s conn (chunkedParse beyond d) := by
  have hphase : d.phase = .line := by
    unfold Decoder.phase
    rw [if_neg (by rw [h.incomplete]; decide), hstatus]
  have hreach := h.reaches
  rw [hphase] at hreach
  have hreadable := hread [] _ hreach
  have hscan := readlineScan_spec d.buf.data 0
  cases hline : readlineScan false 0 d.buf.data with
  | more =>
    have hcall : upsgi_chunked_readline d.buf.data beyond = (-2, d.buf.data) := by
      unfold upsgi_chunked_readline
      rw [hline]
    unfold chunkedParse
    rw [hstatus]
    rw [hcall]
    refine ⟨h.incomplete, h.decapitated, ?_, ?_, ?_⟩
    · show match d.status with | .line => _ | .data => _ | .final => _
      rw [hstatus]
      refine ⟨?_, fun _ => hline, fun hnil => absurd hnil hdata⟩
      show d.need + 1 ≤ 1
      omega
    · show (-2 : Int) < sizeLimit
      decide
    · show Reaches sizeLimit p s [] (if d.complete = true then _ else match d.status with
        | .line => _ | .data => _ | .final => _) (d.buf.data ++ conn.incoming)
      rw [if_neg (by rw [h.incomplete]; decide), hstatus]
      exact hreach
  | bad =>
    have hcall : upsgi_chunked_readline d.buf.data beyond = (-1, d.buf.data) := by
      unfold upsgi_chunked_readline
      rw [hline]
    have hlook : look sizeLimit .line (d.buf.data ++ conn.incoming) =
        .refuse (d.buf.data ++ conn.incoming) := by
      rw [hline] at hscan
      obtain ⟨digits, c, rest, hdigits, ⟨hbuf, hc, hcr⟩ | ⟨hbuf, hlf⟩⟩ := hscan
      · rw [hbuf, append_assoc]
        exact lookLine_byte hdigits hc hcr _
      · rw [hbuf, append_assoc]
        exact lookLine_lineEnd hdigits hlf _
    unfold chunkedParse
    rw [hstatus]
    rw [hcall]
    dsimp only
    left
    refine ⟨⟨hneed, .inl hdata⟩, .line, _, hreach, ?_⟩
    rw [hlook]
    congr 1
    have hdecap : (d.sized d.buf.data (-1)).decapitate = 0 := h.decapitated
    exact (Decoder.rest_of_zero hdecap conn).symm
  | line len =>
    rw [hline] at hscan
    obtain ⟨digits, after, hdigits, hbuf, _⟩ := hscan
    have hne : digits ≠ [] := by
      intro hnil
      apply hreadable.1
      rw [hbuf, hnil, nil_append, append_assoc]
      exact ⟨_, rfl⟩
    have hvalue := hreadable.2 digits (after ++ conn.incoming) ⟨hne, hdigits⟩
      (by rw [hbuf, append_assoc])
    exact chunkedParse_size_gives beyond h hneed hstatus ⟨hne, hdigits⟩ hvalue hbuf

/-- One parse, in every status. -/
theorem chunkedParse_gives : ParseGives p s conn (chunkedParse beyond d) := by
  have hreach := h.reaches
  have hwaits := h.waits
  unfold Decoder.Waits at hwaits
  unfold Decoder.phase at hreach
  rw [if_neg (by rw [h.incomplete]; decide)] at hreach
  cases hstatus : d.status with
  | line => exact chunkedParse_line_gives beyond h hread hneed hdata hstatus
  | data =>
    rw [hstatus] at hreach hwaits
    simp only [chunkedParse, hstatus]
    exact chunkedData_gives h.incomplete h.decapitated hneed hwaits.1 h.small hreach
  | final =>
    rw [hstatus] at hreach
    simp only [chunkedParse, hstatus]
    exact require_final_crlf_gives h.incomplete h.decapitated hneed h.small hreach

end

end parses

/-! ### Calls -/

/-- Bytes that come do not change the place in the stream. -/
theorem InCall.received {p : Phase} {s : Bytes} {conn conn' : Conn} {d : Decoder} {got : Bytes}
    (h : InCall p s conn d) (hne : got ≠ []) (hgot : got ++ conn'.incoming = conn.incoming) :
    InCall p s conn' (d.received got) := by
  have hlen : 0 < got.length := length_pos_iff.mpr hne
  have hwaits := h.waits
  refine ⟨h.incomplete, h.decapitated, ?_, h.small, ?_⟩
  · unfold Decoder.Waits at hwaits ⊢
    show match d.status with | .line => _ | .data => _ | .final => _
    have hdata : (d.received got).buf.data.length = d.buf.data.length + got.length :=
      length_append
    have hneed : (d.received got).need = d.need - got.length := rfl
    cases hstatus : d.status with
    | line =>
      rw [hstatus] at hwaits
      refine ⟨by rw [hneed]; omega, ?_, ?_⟩
      · intro hpos
        omega
      · intro hnil
        exact absurd (append_eq_nil_iff.mp hnil).2 hne
    | data =>
      rw [hstatus] at hwaits
      refine ⟨hwaits.1, ?_, ?_⟩
      · intro hpos
        have := hwaits.2.1 (by omega)
        show _ = d.chunk_len.toNat + 2
        omega
      · intro hzero
        show d.chunk_len.toNat + 2 ≤ _
        by_cases hpos : 0 < d.need
        · have := hwaits.2.1 hpos
          omega
        · have := hwaits.2.2 (by omega)
          omega
    | final =>
      rw [hstatus] at hwaits
      constructor
      · intro hpos
        have := hwaits.1 (by omega)
        omega
      · intro hzero
        by_cases hpos : 0 < d.need
        · have := hwaits.1 hpos
          omega
        · have := hwaits.2 (by omega)
          omega
  · show Reaches sizeLimit p s [] d.phase (d.buf.data ++ got ++ conn'.incoming)
    rw [append_assoc, hgot]
    exact h.reaches

/-- What a call preserves and gives. -/
theorem readRule_inCall {p : Phase} {s : Bytes} (hread : ReadableFrom p s) :
    ReadRule (InCall p s) (CallGives p s) where
  starved := by
    intro conn d h hwait
    right
    refine ⟨h.not_refused hwait, h.incomplete, h.between, ?_, ?_⟩
    · rw [Decoder.rest_of_zero h.decapitated]
      exact h.reaches
    · intro hend
      rw [Decoder.rest_of_zero h.decapitated]
      exact h.stuck hwait hend
  ensured := by
    intro conn conn' d buf h hdata hconn
    have hwaits := h.waits
    refine ⟨h.incomplete, h.decapitated, ?_, h.small, ?_⟩
    · unfold Decoder.Waits at hwaits ⊢
      simpa only [hdata] using hwaits
    · show Reaches sizeLimit p s [] d.phase (buf.data ++ conn'.incoming)
      rw [hdata, hconn]
      exact h.reaches
  received := fun h hne hgot => h.received hne hgot
  goes_on := by
    intro conn d d' beyond h hneed hdata hparse
    have hgives := chunkedParse_gives beyond h hread hneed hdata
    rwa [hparse] at hgives
  ends := by
    intro conn d d' result beyond h hneed hdata hparse
    have hgives := chunkedParse_gives beyond h hread hneed hdata
    rwa [hparse] at hgives

/-- A call that finds its size lines readable does what the reference decoder
    does, wherever the reads were cut. -/
theorem upsgi_chunked_read_gives (cfg : ChunkedConfig) (call : ChunkedCall) (conn : Conn)
    (chunked_input : Option Decoder) {d : Decoder}
    (hd : chunked_input.getD (Decoder.new cfg) = d) (hbetween : Between d)
    (hread : ReadableFrom d.phase (d.rest conn)) :
    CallGives d.phase (d.rest conn) (upsgi_chunked_read cfg call conn chunked_input).1
      (upsgi_chunked_read cfg call conn chunked_input).2.1
      (upsgi_chunked_read cfg call conn chunked_input).2.2 := by
  apply (readRule_inCall hread).upsgi_chunked_read cfg call conn chunked_input hd
  · intro hcomplete
    have hphase : d.phase = .complete := if_pos hcomplete
    rw [hphase]
    exact ⟨hcomplete, .refl _ _, hbetween⟩
  · exact fun hless => absurd hbetween.held (Nat.not_le.mpr hless)
  · exact fun hincomplete _ =>
      ⟨hincomplete, rfl, hbetween.waits hincomplete, hbetween.small, .refl _ _⟩

theorem between_new (cfg : ChunkedConfig) : Between (Decoder.new cfg) := by
  refine ⟨Nat.le_refl 0, ?_, show (0 : Int) < sizeLimit by decide⟩
  intro _
  exact ⟨Nat.zero_le 1, nofun, fun _ => Int.le_refl 0⟩

end Upsgi
