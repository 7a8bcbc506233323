import Upsgi.Body.Chunked

/-! # The decoder and the end of a chunked body

    On a stream that begins with a complete chunked body the decoder never
    loses track of it: what its buffer and the connection hold together is
    always exactly what is left of the body, followed by the bytes behind it.
-/

namespace Upsgi

open Framing List
open ChunkedCoding hiding Bytes

/-! ### Reads -/

/-- A read takes bytes from the front of the connection. -/
theorem upsgi_proto_base_read_body_incoming (conn : Conn) (len ready : Nat) :
    (upsgi_proto_base_read_body conn len ready).2 ++
      (upsgi_proto_base_read_body conn len ready).1.incoming = conn.incoming := by
  unfold upsgi_proto_base_read_body Conn.incoming
  by_cases h : conn.proto_parser_remains = []
  · simp [h]
  · simp [h, ← append_assoc]

theorem upsgi_proto_base_read_body_length (conn : Conn) (len ready : Nat) :
    (upsgi_proto_base_read_body conn len ready).2.length ≤ len := by
  unfold upsgi_proto_base_read_body
  by_cases h : conn.proto_parser_remains = []
  · simp only [h, ne_eq, not_true_eq_false, if_false, length_take]
    omega
  · simp only [ne_eq, h, not_false_eq_true, if_true, length_take]
    omega

theorem readBody_incoming (conn : Conn) (len : Nat) (recv : Recv) :
    (readBody conn len recv).2 ++ (readBody conn len recv).1.incoming = conn.incoming :=
  upsgi_proto_base_read_body_incoming conn _ _

theorem readBody_length (conn : Conn) (len : Nat) (recv : Recv) :
    (readBody conn len recv).2.length ≤ len :=
  (upsgi_proto_base_read_body_length conn _ _).trans (Nat.min_le_right _ _)

/-- Bytes that begin with `front`: either a part of it was read, or all of it. -/
theorem read_part_or_all {buf incoming front rest : Bytes} (h : buf ++ incoming = front ++ rest) :
    (buf.length < front.length ∧ buf = front.take buf.length) ∨
      ∃ more, buf = front ++ more ∧ more ++ incoming = rest := by
  rcases append_eq_append_iff.mp h with ⟨a, hfront, hinc⟩ | ⟨c, hbuf, hrest⟩
  · by_cases ha : a = []
    · right
      subst ha
      exact ⟨[], by simpa using hfront.symm, by simpa using hinc⟩
    · left
      have hpos : 0 < a.length := length_pos_iff.mpr ha
      subst hfront
      exact ⟨by rw [length_append]; omega, by simp⟩
  · right
    exact ⟨c, hbuf, hrest.symm⟩

/-! ### Chunk lines -/

variable {digits tail : Bytes} {conn : Conn} {d : Decoder}

/-- A part of a chunk line has no line end. -/
theorem readlineScan_part (h : ∀ c ∈ digits, isDigit c = true) :
    ∀ n i, n < digits.length + 2 →
      readlineScan false i ((digits ++ crlf).take n) = .more := by
  induction digits with
  | nil =>
    intro n i hn
    match n, hn with
    | 0, _ => rfl
    | 1, _ => rfl
  | cons c digits ih =>
    intro n i hn
    cases n with
    | zero => rfl
    | succ n =>
      have hc : isDigit c = true := h c (by simp)
      simp only [cons_append, take_succ_cons, readlineScan, hc, if_true]
      exact ih (fun c' hc' => h c' (by simp [hc'])) n (i + 1)
        (by simp only [length_cons] at hn; omega)

/-- A chunk line is found, whatever comes after it. -/
theorem readlineScan_line (h : ∀ c ∈ digits, isDigit c = true) (rest : Bytes) : ∀ i,
      readlineScan false i (digits ++ crlf ++ rest) = .line (i + digits.length + 2) := by
  induction digits with
  | nil => intro i; rfl
  | cons c digits ih =>
    intro i
    have hc : isDigit c = true := h c (by simp)
    simp only [cons_append, readlineScan, hc, if_true]
    rw [ih (fun c' hc' => h c' (by simp [hc'])) (i + 1)]
    simp only [length_cons, LineScan.line.injEq]
    omega

/-- A digit is none of the bytes `strtoul` takes before the digits. -/
theorem isDigit_plain {c : UInt8} (h : isDigit c = true) :
    isspace c = false ∧ c ≠ 45 ∧ c ≠ 43 ∧ c ≠ 120 ∧ c ≠ 88 := by
  have hlow : 48 ≤ c.toNat := by
    unfold isDigit digit at h
    simp only [UInt8.le_iff_toNat_le, UInt8.reduceToNat] at h
    by_contra hlt
    rw [if_neg (by omega), if_neg (by omega), if_neg (by omega)] at h
    nomatch h
  refine ⟨?_, ?_, ?_, ?_, ?_⟩
  · rw [Bool.eq_false_iff]
    intro hspace
    simp only [isspace, Bool.or_eq_true, decide_eq_true_eq, Bool.and_eq_true,
      UInt8.le_iff_toNat_le, UInt8.reduceToNat] at hspace
    rcases hspace with rfl | ⟨-, hle⟩
    · nomatch hlow
    · omega
  -- the others are single bytes that are not digits
  all_goals
    rintro rfl
    nomatch h

theorem skipSign_digit {c : UInt8} (h : isDigit c = true) (buf : Bytes) :
    skipSign (c :: buf) = (false, c :: buf) := by
  obtain ⟨-, hminus, hplus, -, -⟩ := isDigit_plain h
  rw [skipSign, if_neg hminus, if_neg hplus]

/-- Behind the first digit of a chunk line stands a digit or the line end, so
    that there is no `0x`. -/
theorem skipHexMark_line (h : ∀ c ∈ digits, isDigit c = true)
    (rest : Bytes) : skipHexMark (digits ++ CR :: rest) = digits ++ CR :: rest := by
  have hskip : ∀ z x buf, x ≠ 120 → x ≠ 88 → skipHexMark (z :: x :: buf) = z :: x :: buf := by
    intro z x buf h120 h88
    cases buf with
    | nil => rfl
    | cons c buf => rw [skipHexMark, if_neg (by simp [h120, h88])]
  match digits, h with
  | [], _ =>
    cases rest with
    | nil => rfl
    | cons x rest =>
      cases rest with
      | nil => rfl
      | cons c rest =>
        rw [nil_append, skipHexMark, if_neg (fun hmark => absurd hmark.1 (by decide))]
  | [z], _ => exact hskip z CR rest (by decide) (by decide)
  | z :: x :: more, h =>
    obtain ⟨-, -, -, h120, h88⟩ := isDigit_plain (h x (by simp))
    exact hskip z x _ h120 h88

/-- `strtoul` on a chunk line gives its size, or `ULONG_MAX`. -/
theorem strtoul16_line (h : IsSize digits) (rest : Bytes) :
    strtoul16 (digits ++ CR :: rest) = min (value digits) (2 ^ 64 - 1) := by
  obtain ⟨hne, hdigits⟩ := h
  obtain ⟨c, more, rfl⟩ := exists_cons_of_ne_nil hne
  have hc : isDigit c = true := hdigits c (by simp)
  have hdrop : ((c :: more) ++ CR :: rest).dropWhile isspace = (c :: more) ++ CR :: rest := by
    simp [(isDigit_plain hc).1]
  have hsign : skipSign ((c :: more) ++ CR :: rest) = (false, (c :: more) ++ CR :: rest) :=
    skipSign_digit hc _
  unfold strtoul16
  rw [hdrop, hsign]
  dsimp only
  rw [skipHexMark_line hdigits, takeWhile_size hdigits]
  by_cases hlarge : 2 ^ 64 ≤ value (c :: more)
  · rw [if_pos hlarge]
    omega
  · rw [if_neg hlarge]
    simp only [Bool.false_eq_true, if_false]
    omega

theorem toSsize_of_lt {n : Nat} (h : n < 2 ^ 63) : toSsize n = n := by
  rw [toSsize, if_pos h]

section

variable (h : IsSize digits)
include h

/-- A whole chunk line is removed, and its size is returned. -/
theorem upsgi_chunked_readline_size (rest beyond : Bytes) :
    upsgi_chunked_readline (digits ++ crlf ++ rest) beyond =
      (toSsize (min (value digits) (2 ^ 64 - 1)), rest) := by
  have hnum : strtoul16 (digits ++ crlf ++ rest ++ beyond) =
      min (value digits) (2 ^ 64 - 1) := by
    rw [append_assoc, append_assoc]
    exact strtoul16_line h _
  have hdrop : (digits ++ crlf ++ rest).drop (digits.length + 2) = rest := by
    rw [show digits.length + 2 = (digits ++ crlf).length by
      simp [crlf], drop_left]
  unfold upsgi_chunked_readline
  rw [readlineScan_line h.2 rest 0]
  dsimp only
  rw [hnum, Nat.zero_add, hdrop]

theorem upsgi_chunked_readline_line (hvalue : value digits < 2 ^ 63)
    (rest beyond : Bytes) :
    upsgi_chunked_readline (digits ++ crlf ++ rest) beyond =
      ((value digits : Int), rest) := by
  rw [upsgi_chunked_readline_size h, Nat.min_eq_left (by omega), toSsize_of_lt hvalue]

/-- A part of a chunk line is left in the buffer. -/
theorem upsgi_chunked_readline_part {n : Nat} (hn : n < digits.length + 2) (beyond : Bytes) :
    upsgi_chunked_readline ((digits ++ crlf).take n) beyond =
      (-2, (digits ++ crlf).take n) := by
  unfold upsgi_chunked_readline
  rw [readlineScan_part h.2 n 0 hn]

end

/-! ### What is left of the body -/

/-- The bytes the decoder waits for, followed by the bytes behind the body. -/
def Decoder.Expects (d : Decoder) (tail rest : Bytes) : Prop :=
  match d.complete, d.status with
  | true, _ => rest = tail
  | false, .line => ∃ body, ChunkedCoding.Seq body ∧ body.length < 2 ^ 63 ∧ rest = body ++ tail
  | false, .data =>
      ∃ data body, data ≠ [] ∧ d.chunk_len = data.length ∧ ChunkedCoding.Seq body ∧
        body.length < 2 ^ 63 ∧ rest = data ++ ChunkedCoding.crlf ++ (body ++ tail)
  | false, .final => rest = ChunkedCoding.crlf ++ tail

/-- Between two calls: a chunk that was handed out is still in the buffer. -/
structure Tracks (tail : Bytes) (conn : Conn) (d : Decoder) : Prop where
  held : d.decapitate ≤ d.buf.data.length
  rest : d.Expects tail (d.buf.data.drop d.decapitate ++ conn.incoming)

/-- Inside a call. -/
structure Decoding (tail : Bytes) (conn : Conn) (d : Decoder) : Prop where
  incomplete : d.complete = false
  decapitated : d.decapitate = 0
  rest : d.Expects tail (d.buf.data ++ conn.incoming)

theorem Decoding.tracks (h : Decoding tail conn d) :
    Tracks tail conn d := by
  constructor
  · rw [h.decapitated]
    exact Nat.zero_le _
  · rw [h.decapitated, drop_zero]
    exact h.rest

/-- What holds after a parse: `P` when the call goes on, `Q` when it is over. -/
def AfterParse (P Q : Conn → Decoder → Prop) (conn : Conn) : Decoder × Option ChunkResult → Prop
  | (d, none) => P conn d
  | (d, some _) => Q conn d

/-- The line end behind the last chunk. -/
theorem require_final_crlf_after (hincomplete : d.complete = false) (hdecap : d.decapitate = 0)
    (hrest : d.buf.data ++ conn.incoming = crlf ++ tail) :
    AfterParse (Decoding tail) (Tracks tail) conn (upsgi_chunked_require_final_crlf d) := by
  unfold upsgi_chunked_require_final_crlf
  rcases read_part_or_all hrest with ⟨hlt, -⟩ | ⟨more, hbuf, htail⟩
  · -- the line end has not come as a whole
    rw [if_pos (show d.buf.data.length < 2 from hlt)]
    refine ⟨hincomplete, hdecap, ?_⟩
    simpa only [Decoder.Expects, hincomplete] using hrest
  · have hlen : ¬d.buf.data.length < 2 := by
      rw [hbuf]
      simp [crlf]
    have htake : d.buf.data.take 2 = [CR, LF] := by
      rw [hbuf]
      rfl
    have hdrop : d.buf.data.drop 2 = more := by
      rw [hbuf]
      rfl
    rw [if_neg hlen, if_neg (not_not.mpr htake)]
    constructor
    · show d.decapitate ≤ _
      omega
    · show (d.buf.data.drop 2).drop d.decapitate ++ conn.incoming = tail
      rw [hdecap, drop_zero, hdrop, htail]

/-- The bytes of a chunk whose line was read. -/
theorem chunkedData_after {data body : Bytes} (hincomplete : d.complete = false)
    (hdecap : d.decapitate = 0) (hdata : data ≠ []) (hlen : d.chunk_len = data.length)
    (hbody : Seq body) (hshort : body.length < 2 ^ 63)
    (hrest : d.buf.data ++ conn.incoming = data ++ crlf ++ (body ++ tail)) :
    AfterParse (Decoding tail) (Tracks tail) conn (chunkedData d) := by
  have hnat : d.chunk_len.toNat = data.length := by
    rw [hlen, Int.toNat_natCast]
  have hfront : (data ++ crlf).length = data.length + 2 := by
    simp [crlf]
  unfold chunkedData
  rw [hnat]
  rcases read_part_or_all hrest with ⟨hlt, -⟩ | ⟨more, hbuf, hmore⟩
  · rw [if_pos (hfront ▸ hlt)]
    refine ⟨hincomplete, hdecap, ?_⟩
    show Decoder.Expects _ _ _
    simp only [Decoder.Expects, hincomplete]
    exact ⟨data, body, hdata, hlen, hbody, hshort, hrest⟩
  · have hle : data.length + 2 ≤ d.buf.data.length := by
      rw [hbuf, length_append, hfront]
      omega
    have hcrlf : upsgi_chunked_require_crlf d.buf.data data.length = true := by
      rw [upsgi_chunked_require_crlf, hbuf, append_assoc, drop_left]
      rfl
    have hdrop : d.buf.data.drop (data.length + 2) = more := by
      rw [hbuf, ← hfront, drop_left]
    rw [if_neg (Nat.not_lt.mpr hle), if_neg (by rw [hcrlf]; decide)]
    constructor
    · exact hle
    · show Decoder.Expects _ _ (d.buf.data.drop (data.length + 2) ++ conn.incoming)
      simp only [Decoder.Expects, hincomplete]
      exact ⟨body, hbody, hshort, by rw [hdrop, hmore]⟩

/-- A chunk line and what follows it. -/
theorem chunkedParse_line_after (beyond : Bytes) (hstatus : d.status = .line)
    (h : Decoding tail conn d) :
    AfterParse (Decoding tail) (Tracks tail) conn (chunkedParse beyond d) := by
  obtain ⟨hincomplete, hdecap, hrest⟩ := h
  simp only [Decoder.Expects, hincomplete, hstatus] at hrest
  obtain ⟨body, hbody, hshort, hrest⟩ := hrest
  obtain ⟨digits, after, rfl, hsize, hkind⟩ := hbody.line
  have hvalue : value digits < 2 ^ 63 := by
    rcases hkind with ⟨hzero, -⟩ | ⟨data, rest, hlen, -, -, rfl⟩
    · omega
    · simp only [length_append] at hshort
      omega
  rw [append_assoc] at hrest
  unfold chunkedParse
  rw [hstatus]
  rcases read_part_or_all hrest with ⟨hlt, hpart⟩ | ⟨more, hbuf, hmore⟩
  · -- a part of the line: nothing is removed and one more byte is asked for
    have hn : d.buf.data.length < digits.length + 2 := by
      simpa [crlf] using hlt
    have hline : upsgi_chunked_readline d.buf.data beyond = (-2, d.buf.data) := by
      have hread := upsgi_chunked_readline_part hsize hn beyond
      rwa [← hpart] at hread
    rw [hline]
    refine ⟨hincomplete, hdecap, ?_⟩
    show Decoder.Expects _ _ (d.buf.data ++ conn.incoming)
    simp only [Decoder.Expects, Decoder.setData, hincomplete, hstatus]
    exact ⟨_, hbody, hshort, by rw [hrest, ← append_assoc]⟩
  · rw [hbuf, upsgi_chunked_readline_line hsize hvalue]
    dsimp only
    rw [if_neg (by omega), if_neg (by omega)]
    rcases hkind with ⟨hzero, rfl⟩ | ⟨data, rest, hlen, hdata, hseq, rfl⟩
    · rw [if_pos (by omega)]
      exact require_final_crlf_after hincomplete hdecap hmore
    · have hpos : 0 < data.length := length_pos_iff.mpr hdata
      have hrestShort : rest.length < 2 ^ 63 := by
        simp only [length_append] at hshort
        omega
      rw [if_neg (by omega)]
      have hdataRest : more ++ conn.incoming = data ++ crlf ++ (rest ++ tail) := by
        rw [hmore, ← append_assoc]
      have hchunk : ((value digits : Nat) : Int) = (data.length : Nat) := by
        rw [hlen]
      exact chunkedData_after
        (d := { d.setData more with chunk_len := (value digits : Int) })
        hincomplete hdecap hdata hchunk hseq hrestShort hdataRest

/-- One parse, in every status. -/
theorem chunkedParse_after (beyond : Bytes) (h : Decoding tail conn d) :
    AfterParse (Decoding tail) (Tracks tail) conn (chunkedParse beyond d) := by
  cases hstatus : d.status with
  | line => exact chunkedParse_line_after beyond hstatus h
  | data =>
    have hrest := h.rest
    simp only [Decoder.Expects, h.incomplete, hstatus] at hrest
    obtain ⟨data, body, hdata, hlen, hbody, hshort, hrest⟩ := hrest
    simp only [chunkedParse, hstatus]
    exact chunkedData_after h.incomplete h.decapitated hdata hlen hbody hshort hrest
  | final =>
    have hrest := h.rest
    simp only [Decoder.Expects, h.incomplete, hstatus] at hrest
    simp only [chunkedParse, hstatus]
    exact require_final_crlf_after h.incomplete h.decapitated hrest

/-! ### Calls -/

/-- A larger buffer holds the same bytes. -/
theorem upsgi_buffer_ensure_data {ub ub' : UpsgiBuffer} {len : Nat} {room : Bool}
    (h : upsgi_buffer_ensure ub len room = some ub') : ub'.data = ub.data := by
  unfold upsgi_buffer_ensure at h
  dsimp only at h
  split at h
  · split at h <;> split at h <;> cases h <;> rfl
  · rw [Option.some.inj h]

/-- The bytes a read has brought, in the buffer. -/
def Decoder.received (d : Decoder) (got : Bytes) : Decoder :=
  { d.setData (d.buf.data ++ got) with need := d.need - got.length }

section rule

variable {P Q : Conn → Decoder → Prop}

/-- What a property of the decoder inside a call must bear: the call may end at
    any time, the buffer may grow, bytes may come, and a nonempty buffer may be
    parsed. -/
structure CallRule (P Q : Conn → Decoder → Prop) : Prop where
  done : ∀ {conn d}, P conn d → Q conn d
  ensured : ∀ {conn conn' d buf}, P conn d → buf.data = d.buf.data →
    conn'.incoming = conn.incoming → P conn' { d with buf := buf }
  received : ∀ {conn conn' d got}, P conn d → got ≠ [] → got ++ conn'.incoming = conn.incoming →
    P conn' (d.received got)
  parsed : ∀ {conn d} beyond, P conn d → d.buf.data ≠ [] →
    AfterParse P Q conn (chunkedParse beyond d)

/-- A parse without a result asks for bytes. -/
theorem chunkedParse_need {beyond : Bytes} {d' : Decoder}
    (h : chunkedParse beyond d = (d', none)) : 0 < d'.need := by
  have hfinal : ∀ d d' : Decoder, upsgi_chunked_require_final_crlf d = (d', none) → 0 < d'.need := by
    intro d d' h
    unfold upsgi_chunked_require_final_crlf at h
    split at h
    · cases h
      show 0 < 2 - d.buf.data.length
      omega
    · split at h <;> cases h
  have hdata : ∀ d d' : Decoder, chunkedData d = (d', none) → 0 < d'.need := by
    intro d d' h
    unfold chunkedData at h
    dsimp only at h
    split at h
    · cases h
      show 0 < d.chunk_len.toNat + 2 - d.buf.data.length
      omega
    · split at h <;> cases h
  unfold chunkedParse at h
  split at h
  · dsimp only at h
    split at h
    · cases h
      exact Nat.succ_pos _
    · split at h
      · cases h
      · split at h
        · exact hfinal _ _ h
        · exact hdata _ _ h
  · exact hdata _ _ h
  · exact hfinal _ _ h

/-- The same with the result of the call: a call that ends without a parse
    waited for bytes, and a parse is made when none are waited for. -/
structure ReadRule (P : Conn → Decoder → Prop) (R : Conn → Decoder → ChunkResult → Prop) :
    Prop where
  starved : ∀ {conn d}, P conn d → (0 < d.need ∨ d.buf.data = []) → R conn d .fail
  ensured : ∀ {conn conn' d buf}, P conn d → buf.data = d.buf.data →
    conn'.incoming = conn.incoming → P conn' { d with buf := buf }
  received : ∀ {conn conn' d got}, P conn d → got ≠ [] → got ++ conn'.incoming = conn.incoming →
    P conn' (d.received got)
  goes_on : ∀ {conn d d'} beyond, P conn d → d.need = 0 → d.buf.data ≠ [] →
    chunkedParse beyond d = (d', none) → P conn d'
  ends : ∀ {conn d d' result} beyond, P conn d → d.need = 0 → d.buf.data ≠ [] →
    chunkedParse beyond d = (d', some result) → R conn d' result

theorem CallRule.readRule (rule : CallRule P Q) : ReadRule P (fun conn d _ => Q conn d) where
  starved := fun h _ => rule.done h
  ensured := rule.ensured
  received := rule.received
  goes_on := by
    intro conn d d' beyond h _ hdata hparse
    have hafter := rule.parsed beyond h hdata
    rwa [hparse] at hafter
  ends := by
    intro conn d d' result beyond h _ hdata hparse
    have hafter := rule.parsed beyond h hdata
    rwa [hparse] at hafter

variable {R : Conn → Decoder → ChunkResult → Prop}

/-- A parse and, when it has no result, what is done next. -/
theorem ReadRule.parse_then (rule : ReadRule P R) (beyond : Bytes) (h : P conn d)
    (hneed : d.need = 0) (hdata : d.buf.data ≠ []) {next : Decoder → Conn × Decoder × ChunkResult}
    (hnext : ∀ d', P conn d' → 0 < d'.need → R (next d').1 (next d').2.1 (next d').2.2) :
    let out := match chunkedParse beyond d with
      | (d, some result) => (conn, d, result)
      | (d, none) => next d
    R out.1 out.2.1 out.2.2 := by
  cases hparse : chunkedParse beyond d with
  | mk d' result =>
    cases result with
    | some result => exact rule.ends beyond h hneed hdata hparse
    | none => exact hnext d' (rule.goes_on beyond h hneed hdata hparse) (chunkedParse_need hparse)

/-- The loop, by induction on the reads it makes. -/
theorem ReadRule.chunkedLoop (rule : ReadRule P R) (cfg : ChunkedConfig) :
    ∀ (recvs : List Recv) (conn : Conn) (d : Decoder), P conn d →
      (0 < d.need ∨ d.buf.data = []) →
      R (chunkedLoop cfg recvs conn d).1 (chunkedLoop cfg recvs conn d).2.1
        (chunkedLoop cfg recvs conn d).2.2 := by
  intro recvs
  induction recvs with
  | nil =>
    intro conn d h hwait
    exact rule.starved h hwait
  | cons recv recvs ih =>
    intro conn d h hwait
    unfold Upsgi.chunkedLoop
    cases hbuf : upsgi_buffer_ensure d.buf (max cfg.page_size d.need) recv.room with
    | none => exact rule.starved h hwait
    | some buf =>
      dsimp only
      have hdata : buf.data = d.buf.data := upsgi_buffer_ensure_data hbuf
      have hread := readBody_incoming conn (buf.len - buf.data.length) recv
      generalize readBody conn (buf.len - buf.data.length) recv = out at hread ⊢
      obtain ⟨conn', got⟩ := out
      by_cases hgot : got = []
      · subst hgot
        apply rule.starved (rule.ensured h hdata hread)
        show 0 < d.need ∨ buf.data = []
        rwa [hdata]
      · rw [if_neg hgot]
        have hreceived := rule.received (rule.ensured h hdata rfl) hgot hread
        change P conn' { Decoder.setData _ (buf.data ++ got) with need := d.need - got.length }
          at hreceived
        split
        · next hneed => exact ih conn' _ hreceived (.inl hneed)
        · next hneed =>
          apply rule.parse_then recv.beyond hreceived (Nat.eq_zero_of_not_pos hneed)
          · simp [Decoder.setData, hgot]
          · intro d' hd' hneed'
            exact ih conn' d' hd' (.inl hneed')

/-- A call: nothing is done with a decoder that is complete or holds less than it
    has to remove, and any other begins without the chunk handed out before. -/
theorem ReadRule.upsgi_chunked_read (rule : ReadRule P R) (cfg : ChunkedConfig) (call : ChunkedCall)
    (conn : Conn) (chunked_input : Option Decoder) (hd : chunked_input.getD (Decoder.new cfg) = d)
    (hdone : d.complete = true → R conn d .finished)
    (hbroken : d.buf.data.length < d.decapitate → R conn d .fail)
    (h : d.complete = false → d.decapitate ≤ d.buf.data.length →
      P conn { d.setData (d.buf.data.drop d.decapitate) with decapitate := 0 }) :
    R (upsgi_chunked_read cfg call conn chunked_input).1
      (upsgi_chunked_read cfg call conn chunked_input).2.1
      (upsgi_chunked_read cfg call conn chunked_input).2.2 := by
  unfold Upsgi.upsgi_chunked_read
  rw [hd]
  dsimp only
  split
  · next hcomplete => exact hdone hcomplete
  · next hincomplete =>
    split
    · next hless => exact hbroken hless
    · next hheld =>
      have hbegin := h (Bool.eq_false_iff.mpr hincomplete) (Nat.not_lt.mp hheld)
      split
      · next hwait => exact rule.chunkedLoop cfg call.recvs conn _ hbegin hwait
      · next hready =>
        rw [not_or] at hready
        apply rule.parse_then call.beyond hbegin (Nat.eq_zero_of_not_pos hready.1) hready.2
        intro d' hd' hneed
        exact rule.chunkedLoop cfg call.recvs conn d' hd' (.inl hneed)

end rule

theorem callRule_tracks (tail : Bytes) : CallRule (Decoding tail) (Tracks tail) where
  done := Decoding.tracks
  ensured := by
    intro conn conn' d buf h hdata hconn
    refine ⟨h.incomplete, h.decapitated, ?_⟩
    show d.Expects tail (buf.data ++ conn'.incoming)
    rw [hdata, hconn]
    exact h.rest
  received := by
    intro conn conn' d got h _ hgot
    refine ⟨h.incomplete, h.decapitated, ?_⟩
    show d.Expects tail (d.buf.data ++ got ++ conn'.incoming)
    rw [append_assoc, hgot]
    exact h.rest
  parsed := fun beyond h _ => chunkedParse_after beyond h

/-- A call of the decoder, on a request whose decoder keeps track of the body. -/
theorem upsgi_chunked_read_tracks (cfg : ChunkedConfig) (call : ChunkedCall) (conn : Conn)
    (chunked_input : Option Decoder) (h : Tracks tail conn (chunked_input.getD (Decoder.new cfg))) :
    Tracks tail (upsgi_chunked_read cfg call conn chunked_input).1
      (upsgi_chunked_read cfg call conn chunked_input).2.1 :=
  (callRule_tracks tail).readRule.upsgi_chunked_read cfg call conn chunked_input rfl (fun _ => h)
    (fun _ => h) (fun hincomplete _ => ⟨hincomplete, rfl, h.rest⟩)

/-- A new decoder at the beginning of a body. -/
theorem tracks_new (cfg : ChunkedConfig) {body : Bytes} (hbody : Seq body)
    (hshort : body.length < 2 ^ 63)
    (h : conn.incoming = body ++ tail) : Tracks tail conn (Decoder.new cfg) :=
  ⟨Nat.zero_le _, ⟨body, hbody, hshort, h⟩⟩

/-- What the decoder holds is exactly what is left of the body. -/
def Decoder.HoldsRest (d : Decoder) : Prop :=
  d.Expects [] (d.buf.data.drop d.decapitate)

/-- What the decoder waits for ends at one place only. -/
theorem Decoder.Expects.unique {held after : Bytes} (h : d.Expects [] held)
    (h' : d.Expects tail (held ++ after)) : after = tail := by
  cases hcomplete : d.complete with
  | true =>
    simp only [Decoder.Expects, hcomplete] at h h'
    rwa [h, nil_append] at h'
  | false =>
    cases hstatus : d.status with
    | line =>
      simp only [Decoder.Expects, hcomplete, hstatus, append_nil] at h h'
      obtain ⟨body, hbody, -, rfl⟩ := h
      obtain ⟨body', hbody', -, heq⟩ := h'
      exact (hbody.unique hbody' heq).2
    | data =>
      simp only [Decoder.Expects, hcomplete, hstatus, append_nil] at h h'
      obtain ⟨data, body, -, hlen, hbody, -, rfl⟩ := h
      obtain ⟨data', body', -, hlen', hbody', -, heq⟩ := h'
      have hsame : data.length = data'.length := by omega
      rw [append_assoc] at heq
      have hrest := (append_inj heq (by simp [hsame])).2
      exact (hbody.unique hbody' hrest).2
    | final =>
      simp only [Decoder.Expects, hcomplete, hstatus, append_nil] at h h'
      subst h
      exact append_cancel_left h'

/-- Without the bytes behind the body, exactly the rest of the body is left. -/
theorem Decoder.Expects.cancel {held : Bytes}
    (h : d.Expects tail (held ++ tail)) : d.Expects [] held := by
  cases hcomplete : d.complete with
  | true =>
    simp only [Decoder.Expects, hcomplete] at h ⊢
    simpa using h
  | false =>
    cases hstatus : d.status with
    | line =>
      simp only [Decoder.Expects, hcomplete, hstatus, append_nil] at h ⊢
      obtain ⟨body, hbody, hshort, heq⟩ := h
      exact ⟨body, hbody, hshort, append_cancel_right heq⟩
    | data =>
      simp only [Decoder.Expects, hcomplete, hstatus, append_nil] at h ⊢
      obtain ⟨data, body, hdata, hlen, hbody, hshort, heq⟩ := h
      rw [← append_assoc] at heq
      exact ⟨data, body, hdata, hlen, hbody, hshort, append_cancel_right heq⟩
    | final =>
      simp only [Decoder.Expects, hcomplete, hstatus, append_nil] at h ⊢
      exact append_cancel_right h

/-! ### Bytes the decoder took

    On any other stream the decoder may do anything, but its state shows whether
    it ever took a byte off the connection. -/

/-- The decoder took a byte. -/
def Decoder.Used (d : Decoder) : Prop :=
  d.chunk_len ≠ 0 ∨ d.status = .final ∨ d.complete = true ∨ d.buf.data ≠ []

/-- A chunk that is waited for or was handed out has a byte at least. -/
structure Decoder.Sound (d : Decoder) : Prop where
  waiting : d.status = .data → 0 < d.chunk_len
  handed : 0 < d.decapitate → 0 < d.chunk_len

/-- A parse leaves a trace; while the call goes on nothing is handed out. -/
def LeavesTrace : Decoder × Option ChunkResult → Prop
  | (d, none) => d.Sound ∧ d.Used ∧ d.decapitate = 0
  | (d, some _) => d.Sound ∧ d.Used

theorem require_final_crlf_trace (h : d.Sound) (hdecap : d.decapitate = 0) :
    LeavesTrace (upsgi_chunked_require_final_crlf d) := by
  unfold upsgi_chunked_require_final_crlf
  split
  · exact ⟨⟨nofun, h.handed⟩, .inr (.inl rfl), hdecap⟩
  · rename_i hlen
    split
    · have hne : d.buf.data ≠ [] := by
        intro hnil
        exact hlen (by simp [hnil])
      exact ⟨h, .inr (.inr (.inr hne))⟩
    · exact ⟨⟨nofun, h.handed⟩, .inr (.inr (.inl rfl))⟩

theorem chunkedData_trace (h : d.Sound) (hdecap : d.decapitate = 0)
    (hlen : 0 < d.chunk_len) : LeavesTrace (chunkedData d) := by
  have hne : d.chunk_len ≠ 0 := by omega
  unfold chunkedData
  dsimp only
  split
  · exact ⟨⟨fun _ => hlen, h.handed⟩, .inl hne, hdecap⟩
  · split
    · exact ⟨h, .inl hne⟩
    · exact ⟨⟨fun _ => hlen, fun _ => hlen⟩, .inl hne⟩

theorem chunkedParse_trace (beyond : Bytes) (h : d.Sound)
    (hdecap : d.decapitate = 0) : LeavesTrace (chunkedParse beyond d) := by
  unfold chunkedParse
  cases hstatus : d.status with
  | line =>
    generalize upsgi_chunked_readline d.buf.data beyond = out
    obtain ⟨chunk_len, data⟩ := out
    dsimp only
    -- nothing was handed out, so the new size cannot contradict it
    have hsound : ({ d.setData data with chunk_len := chunk_len } : Decoder).Sound := by
      constructor
      · intro hwait
        nomatch hstatus.symm.trans hwait
      · intro hpos
        exact absurd (show 0 < d.decapitate from hpos) (by omega)
    split
    · refine ⟨⟨hsound.waiting, hsound.handed⟩, .inl ?_, hdecap⟩
      show chunk_len ≠ 0
      omega
    · split
      · refine ⟨hsound, .inl ?_⟩
        show chunk_len ≠ 0
        omega
      · split
        · exact require_final_crlf_trace hsound hdecap
        · exact chunkedData_trace hsound hdecap (show 0 < chunk_len by omega)
  | data => exact chunkedData_trace h hdecap (h.waiting hstatus)
  | final => exact require_final_crlf_trace h hdecap

/-- Since `conn` and `d` the decoder took the bytes that are missing now, and its
    state shows whether there are any. -/
structure TookFrom (conn : Conn) (d : Decoder) (conn' : Conn) (d' : Decoder) : Prop where
  sound : d'.Sound
  took : ∃ got, got ++ conn'.incoming = conn.incoming ∧ (d'.Used ↔ d.Used ∨ got ≠ [])

theorem TookFrom.same {d' : Decoder} (hsound : d'.Sound)
    (hused : d'.Used ↔ d.Used) : TookFrom conn d conn d' :=
  ⟨hsound, [], rfl, by simp [hused]⟩

/-- Only whether the decoder is in use matters. -/
theorem TookFrom.move {conn₁ conn₂ : Conn} {d₁ d₂ : Decoder} (h : TookFrom conn d conn₁ d₁)
    (hsound : d₂.Sound) (hconn : conn₂.incoming = conn₁.incoming) (hused : d₂.Used ↔ d₁.Used) :
    TookFrom conn d conn₂ d₂ := by
  obtain ⟨got, hgot, hiff⟩ := h.took
  exact ⟨hsound, got, by rw [hconn, hgot], hused.trans hiff⟩

theorem callRule_took (conn₀ : Conn) (d₀ : Decoder) :
    CallRule (fun conn d => TookFrom conn₀ d₀ conn d ∧ d.decapitate = 0) (TookFrom conn₀ d₀) where
  done := And.left
  ensured := by
    intro conn conn' d buf h hdata hconn
    refine ⟨h.1.move ⟨h.1.sound.waiting, h.1.sound.handed⟩ hconn ?_, h.2⟩
    simp only [Decoder.Used, hdata]
  received := by
    intro conn conn' d got h hne hgot
    obtain ⟨before, hbefore, -⟩ := h.1.took
    have hused : (d.received got).Used := by
      refine .inr (.inr (.inr ?_))
      simp [Decoder.received, Decoder.setData, hne]
    refine ⟨⟨⟨h.1.sound.waiting, h.1.sound.handed⟩, before ++ got, ?_, ?_⟩, h.2⟩
    · rw [append_assoc, hgot, hbefore]
    · simp [hused, hne]
  parsed := by
    intro conn d beyond h hdata
    have htrace := chunkedParse_trace beyond h.1.sound h.2
    have hused : d.Used := .inr (.inr (.inr hdata))
    generalize chunkedParse beyond d = out at htrace ⊢
    match out, htrace with
    | (d', none), ⟨hsound, hused', hdecap⟩ =>
      exact ⟨h.1.move hsound rfl (iff_of_true hused' hused), hdecap⟩
    | (d', some _), ⟨hsound, hused'⟩ =>
      exact h.1.move hsound rfl (iff_of_true hused' hused)

/-- A call of the decoder on any stream. -/
theorem upsgi_chunked_read_took (cfg : ChunkedConfig) (call : ChunkedCall) (conn : Conn)
    (chunked_input : Option Decoder) (h : (chunked_input.getD (Decoder.new cfg)).Sound) :
    TookFrom conn (chunked_input.getD (Decoder.new cfg))
      (upsgi_chunked_read cfg call conn chunked_input).1
      (upsgi_chunked_read cfg call conn chunked_input).2.1 := by
  generalize hd : chunked_input.getD (Decoder.new cfg) = d at h
  have hsame : TookFrom conn d conn d := .same h Iff.rfl
  apply (callRule_took conn d).readRule.upsgi_chunked_read cfg call conn chunked_input hd
    (fun _ => hsame) (fun _ => hsame)
  intro _ _
  refine ⟨.same ⟨h.waiting, nofun⟩ ?_, rfl⟩
  by_cases hdecap : d.decapitate = 0
  · simp [Decoder.Used, Decoder.setData, hdecap]
  · -- the chunk that is removed has left its size behind
    have hpos := h.handed (Nat.pos_of_ne_zero hdecap)
    have hne : d.chunk_len ≠ 0 := by omega
    exact iff_of_true (.inl hne) (.inl hne)

end Upsgi
