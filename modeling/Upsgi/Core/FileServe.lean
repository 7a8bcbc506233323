import Upsgi.Core.Range

/-! # Sending a file

    `upsgi_real_file_serve` of `core/static.c` answers a request for a file that is
    already found: it decides between 304, 416, 206 and 200, sets the headers, and
    hands a part of the file to `upsgi_response_sendfile_do` of `core/writer.c`.

    The file is the variant that `upsgi_static_want_gzip` chose; its `stat` is the
    only one that is looked at afterwards.  `timegm` is a parameter.
-/

namespace Upsgi

open Framing (Bytes)

/-! ### Dates -/

/-- The fields of `struct tm` that are set. -/
structure Tm where
  tm_mday : Int
  tm_mon : Int
  tm_year : Int
  tm_hour : Int
  tm_min : Int
  tm_sec : Int
  deriving DecidableEq, Repr

/-- The text of a header: the memory from its first byte on, and its length.  A date
    is read at fixed places, which may lie behind the text. -/
structure HeaderText where
  mem : Nat → UInt8
  len : Nat

def upsgi_str2_num (str : Nat → UInt8) (pos : Nat) : Int :=
  10 * charDigit (str pos) + charDigit (str (pos + 1))

def upsgi_str4_num (str : Nat → UInt8) (pos : Nat) : Int :=
  1000 * charDigit (str pos) + 100 * charDigit (str (pos + 1)) +
    10 * charDigit (str (pos + 2)) + charDigit (str (pos + 3))

/-- The month of a date, from its first three letters (`none`: return 0). -/
def dateMonth (a b c : Char) : Option Int :=
  match a with
  | 'J' =>
      if b = 'a' then some 0
      else if b = 'u' then
        if c = 'n' then some 5 else if c = 'l' then some 6 else none
      else none
  | 'F' => some 1
  | 'M' =>
      if b ≠ 'a' then none else if c = 'r' then some 2 else if c = 'y' then some 4 else none
  | 'A' => if c = 'r' then some 3 else if c = 'g' then some 7 else none
  | 'S' => some 8
  | 'O' => some 9
  | 'N' => some 10
  | 'D' => some 11
  | _ => none

/-- `parse_http_date`.  Only a text of another length without a comma behind the day
    of the week is refused. -/
def parse_http_date (timegm : Tm → Int) (date : HeaderText) : Int :=
  let char := fun i => Char.ofNat (date.mem i).toNat
  if date.len ≠ 29 ∧ date.mem 3 ≠ COMMA then 0
  else
    match dateMonth (char 8) (char 9) (char 10) with
    | none => 0
    | some tm_mon =>
        timegm
          { tm_mday := upsgi_str2_num date.mem 5
            tm_mon := tm_mon
            tm_year := upsgi_str4_num date.mem 12 - 1900
            tm_hour := upsgi_str2_num date.mem 17
            tm_min := upsgi_str2_num date.mem 20
            tm_sec := upsgi_str2_num date.mem 23 }

/-! ### Requests, files and responses -/

/-- `struct stat`. -/
structure FileStat where
  st_size : Nat
  st_mtime : Int

/-- The fields of the request that are read. -/
structure FileRequest where
  range : ByteRange
  if_range : Option HeaderText
  if_modified_since : HeaderText
  /-- The method is `HEAD`. -/
  head : Bool
  ignore_body : Bool

/-- `upsgi.file_serve_mode`. -/
inductive FileServeMode where
  | nginx
  | apache
  | raw
  deriving DecidableEq, Repr

inductive ContentRange where
  /-- `bytes */size`. -/
  | unsatisfied (size : Int)
  /-- `bytes start-stop/size`. -/
  | bytes (start stop size : Int)
  deriving DecidableEq, Repr

/-- The response, as far as the file is concerned. -/
structure FileResponse where
  status : Nat
  content_length : Option Int := none
  content_range : Option ContentRange := none
  /-- The name of the file is left to the frontend (`X-Accel-Redirect`, `X-Sendfile`). -/
  delegated : Bool := false
  /-- Offset and length of the part of the file that is sent. -/
  sent : Option (Int × Int) := none
  deriving DecidableEq, Repr

/-- `upsgi_response_add_content_range`: `none` is the return value -1. -/
def upsgi_response_add_content_range (resp : FileResponse) (start stop cl : Int) :
    Option FileResponse :=
  if start = -1 ∧ stop = -1 ∧ 0 ≤ cl then some { resp with content_range := some (.unsatisfied cl) }
  else if start < 0 ∨ stop < start ∨ cl ≤ stop then none
  else some { resp with content_range := some (.bytes start stop cl) }

/-- What `upsgi_response_sendfile_do_can_close` hands on.  The arguments are `size_t`,
    and a length of 0 stands for the whole file. -/
def upsgi_response_sendfile_do (req : FileRequest) (st : FileStat) (pos len : Int) :
    Option (Int × Int) :=
  let pos : Int := pos % 2 ^ 64
  let len : Int := len % 2 ^ 64
  if req.ignore_body then none
  else if len = 0 then
    if (st.st_size : Int) ≤ pos then none else some (pos, (st.st_size : Int))
  else some (pos, len)

/-! ### The answer -/

section Serve

variable (timegm : Tm → Int)

/-- The file did not change since the date of the client. -/
def notModified (req : FileRequest) (st : FileStat) : Bool :=
  decide (req.if_modified_since.len ≠ 0) &&
    decide (st.st_mtime ≤ parse_http_date timegm req.if_modified_since)

/-- `when`: the date of `If-Range`, and 0 without one. -/
def ifRangeDate (req : FileRequest) : Int :=
  match req.if_range with
  | none => 0
  | some date => parse_http_date timegm date

/-- The header of a valid range, with the original size. -/
def sendRange (st : FileStat) (range : ByteRange) (resp : FileResponse) : Option FileResponse :=
  if range.parsed = .valid then
    upsgi_response_add_content_range resp range.range_from range.range_to st.st_size
  else some resp

/-- The headers and the transfer of `upsgi_real_file_serve`, behind its switch. -/
def sendFile (mode : FileServeMode) (req : FileRequest) (st : FileStat) (range : ByteRange)
    (status : Nat) (fsize : Int) : Option FileResponse :=
  match mode with
  | .nginx => some { status := status, delegated := true }
  | .apache => some { status := status, delegated := true }
  | .raw =>
      (sendRange st range { status := status, content_length := some fsize }).map fun resp =>
        if req.head then resp
        else { resp with sent := upsgi_response_sendfile_do req st range.range_from fsize }

/-- `upsgi_real_file_serve`: `none` is the return value -1. -/
def upsgi_real_file_serve (mode : FileServeMode) (req : FileRequest) (st : FileStat) :
    Option FileResponse :=
  if notModified timegm req st then some { status := 304 }
  else
    let range := upsgi_fix_range_for_size req.range st.st_size
    match range.parsed with
    | .invalid => upsgi_response_add_content_range { status := 416 } (-1) (-1) st.st_size
    | .valid =>
        if ifRangeDate timegm req < st.st_mtime then
          sendFile mode req st range 206 (range.range_to - range.range_from + 1)
        else
          -- fallthrough
          sendFile mode req st range 200 st.st_size
    | _ => sendFile mode req st range 200 st.st_size

end Serve

section Cases

variable {timegm : Tm → Int} {mode : FileServeMode} {req : FileRequest} {st : FileStat}

theorem real_file_serve_notModified (h : notModified timegm req st = true) :
    upsgi_real_file_serve timegm mode req st = some { status := 304 } :=
  if_pos h

section

variable (h : notModified timegm req st = false)
include h

theorem real_file_serve_whole
    (hfixed : (upsgi_fix_range_for_size req.range st.st_size).parsed = .notParsed) :
    upsgi_real_file_serve timegm mode req st =
      sendFile mode req st (upsgi_fix_range_for_size req.range st.st_size) 200 st.st_size := by
  unfold upsgi_real_file_serve
  rw [h, if_neg nofun]
  dsimp only
  rw [hfixed]

theorem real_file_serve_unsatisfied
    (hfixed : (upsgi_fix_range_for_size req.range st.st_size).parsed = .invalid) :
    upsgi_real_file_serve timegm mode req st =
      some { status := 416, content_range := some (.unsatisfied st.st_size) } := by
  unfold upsgi_real_file_serve upsgi_response_add_content_range
  rw [h, if_neg nofun]
  dsimp only
  rw [hfixed]
  exact if_pos ⟨rfl, rfl, Int.natCast_nonneg _⟩

theorem real_file_serve_valid
    (hfixed : (upsgi_fix_range_for_size req.range st.st_size).parsed = .valid) :
    upsgi_real_file_serve timegm mode req st =
      let range := upsgi_fix_range_for_size req.range st.st_size
      if ifRangeDate timegm req < st.st_mtime then
        sendFile mode req st range 206 (range.range_to - range.range_from + 1)
      else sendFile mode req st range 200 st.st_size := by
  unfold upsgi_real_file_serve
  rw [h, if_neg nofun]
  dsimp only
  rw [hfixed]

end

end Cases

/-! ### Consistency -/

/-- No range, or one that lies in the file. -/
def RangeGiven (range : ByteRange) (size : Nat) : Prop :=
  range = ⟨.notParsed, 0, 0⟩ ∨
    (range.parsed = .parsed ∧ 0 ≤ range.range_from ∧ range.range_from ≤ range.range_to ∧
      range.range_to < size)

/-- The file itself is part of the response. -/
def FileRequest.Transfers (req : FileRequest) : Prop :=
  req.head = false ∧ req.ignore_body = false

/-- The number of bytes of the file that are sent. -/
def FileResponse.sentLength (resp : FileResponse) : Int :=
  (resp.sent.map Prod.snd).getD 0

/-- Status, headers and transfer tell the same story. -/
structure Consistent (req : FileRequest) (size : Nat) (resp : FileResponse) : Prop where
  part : resp.status = 206 ↔ ∃ start stop total, resp.content_range = some (.bytes start stop total)
  length : ∀ n, resp.content_length = some n → req.Transfers → resp.sentLength = n
  whole : resp.status = 200 → resp.content_length = some (size : Int) ∧
    (req.Transfers → resp.sent = if size = 0 then none else some (0, (size : Int)))
  named : ∀ start stop total, resp.content_range = some (.bytes start stop total) →
    total = size ∧ resp.content_length = some (stop - start + 1) ∧
      (req.Transfers → resp.sent = some (start, stop - start + 1))
  inside : ∀ pos len, resp.sent = some (pos, len) → 0 ≤ pos ∧ 0 ≤ len ∧ pos + len ≤ size

section Consistency

variable {timegm : Tm → Int} {req : FileRequest} {st : FileStat} {range : ByteRange}

theorem sendfile_part {pos len : Int} (hpos : 0 ≤ pos) (hlen : 0 < len)
    (hin : pos + len ≤ st.st_size) (hsize : st.st_size < 2 ^ 63) (h : req.ignore_body = false) :
    upsgi_response_sendfile_do req st pos len = some (pos, len) := by
  unfold upsgi_response_sendfile_do
  have hp : pos % 2 ^ 64 = pos := Int.emod_eq_of_lt hpos (by omega)
  have hl : len % 2 ^ 64 = len := Int.emod_eq_of_lt (by omega) (by omega)
  rw [hp, hl, h, if_neg nofun, if_neg (by omega)]

/-- The whole file, of which nothing is sent if it is empty. -/
theorem sendfile_whole (hsize : st.st_size < 2 ^ 63) (h : req.ignore_body = false) :
    upsgi_response_sendfile_do req st 0 st.st_size =
      if st.st_size = 0 then none else some (0, (st.st_size : Int)) := by
  split
  · next hzero =>
    unfold upsgi_response_sendfile_do
    rw [h, hzero]
    rfl
  · exact sendfile_part (Int.le_refl 0) (by omega) (by omega) hsize h

/-- Nothing is sent without a body. -/
theorem sendfile_ignored {pos len : Int} (h : req.ignore_body = true) :
    upsgi_response_sendfile_do req st pos len = none := by
  unfold upsgi_response_sendfile_do
  rw [h]
  rfl

/-- The whole file is asked for, in one way or the other. -/
def AsksWhole (range : ByteRange) (size : Nat) : Prop :=
  range.parsed = .notParsed ∨ (range.range_from = 0 ∧ range.range_to = size - 1)

theorem fix_range_whole {size : Nat} (hgiven : RangeGiven range size) (h : AsksWhole range size) :
    (upsgi_fix_range_for_size range size).parsed = .notParsed ∧
      (upsgi_fix_range_for_size range size).range_from = 0 := by
  rcases hgiven with rfl | ⟨hparsed, -⟩
  · exact ⟨rfl, rfl⟩
  · rcases h with hnot | ⟨hfrom, hto⟩
    · rw [hnot] at hparsed
      nomatch hparsed
    · unfold upsgi_fix_range_for_size
      rw [if_neg (not_not_intro hparsed), hfrom, hto]
      rw [if_neg (Int.lt_irrefl 0), if_neg (Int.lt_irrefl _), if_pos ⟨rfl, rfl⟩]
      exact ⟨rfl, rfl⟩

theorem fix_range_part {size : Nat} (hgiven : RangeGiven range size) (h : ¬ AsksWhole range size) :
    upsgi_fix_range_for_size range size = ⟨.valid, range.range_from, range.range_to⟩ ∧
      0 ≤ range.range_from ∧ range.range_from ≤ range.range_to ∧ range.range_to < size := by
  rcases hgiven with rfl | ⟨hparsed, hfrom, hle, hto⟩
  · exact absurd (.inl rfl) h
  · have hpart := (not_or.mp h).2
    refine ⟨?_, hfrom, hle, hto⟩
    unfold upsgi_fix_range_for_size
    rw [if_neg (not_not_intro hparsed)]
    rw [if_neg (Int.not_lt.mpr hfrom), if_neg (Int.not_lt.mpr (Int.le_sub_one_of_lt hto)),
      if_neg hpart, if_pos hle]

/-- The response to a `HEAD`, or with the part of the file that is sent. -/
theorem sendFile_raw_valid {status : Nat} {fsize : Int} (hvalid : range.parsed = .valid)
    (hfrom : 0 ≤ range.range_from) (hle : range.range_from ≤ range.range_to)
    (hto : range.range_to < st.st_size) :
    sendFile .raw req st range status fsize = some
      { status := status
        content_length := some fsize
        content_range := some (.bytes range.range_from range.range_to st.st_size)
        sent := if req.head then none
          else upsgi_response_sendfile_do req st range.range_from fsize } := by
  unfold sendFile sendRange upsgi_response_add_content_range
  rw [if_pos hvalid, if_neg (by omega), if_neg (by omega)]
  cases req.head <;> rfl

theorem sendFile_raw_whole {status : Nat} {fsize : Int} (hnot : range.parsed = .notParsed) :
    sendFile .raw req st range status fsize = some
      { status := status
        content_length := some fsize
        sent := if req.head then none
          else upsgi_response_sendfile_do req st range.range_from fsize } := by
  unfold sendFile sendRange
  rw [hnot, if_neg (by decide)]
  cases req.head <;> rfl

/-- What is sent, when something is, of a transfer that may be left out. -/
theorem sent_cases {pos len : Int} {sent : Option (Int × Int)}
    (h : sent = if req.head then none else upsgi_response_sendfile_do req st pos len) :
    sent = none ∨ (req.Transfers ∧ sent = upsgi_response_sendfile_do req st pos len) := by
  cases hhead : req.head with
  | true => exact .inl (by rw [h, hhead]; rfl)
  | false =>
    cases hbody : req.ignore_body with
    | true => exact .inl (by rw [h, hhead]; exact sendfile_ignored hbody)
    | false => exact .inr ⟨⟨hhead, hbody⟩, by rw [h, hhead]; rfl⟩

/-- A part of the file is sent as it is announced. -/
theorem sendFile_consistent_part (hvalid : range.parsed = .valid) (hsize : st.st_size < 2 ^ 63)
    (hfrom : 0 ≤ range.range_from) (hle : range.range_from ≤ range.range_to)
    (hto : range.range_to < st.st_size) :
    ∃ resp, sendFile .raw req st range 206 (range.range_to - range.range_from + 1) = some resp ∧
      Consistent req st.st_size resp := by
  have hpart (h : req.Transfers) : upsgi_response_sendfile_do req st range.range_from
        (range.range_to - range.range_from + 1) =
      some (range.range_from, range.range_to - range.range_from + 1) :=
    sendfile_part hfrom (by omega) (by omega) hsize h.2
  have hsent (h : req.Transfers) : (if req.head then none
        else upsgi_response_sendfile_do req st range.range_from
          (range.range_to - range.range_from + 1)) =
      some (range.range_from, range.range_to - range.range_from + 1) := by
    rw [h.1, if_neg nofun, hpart h]
  refine ⟨_, sendFile_raw_valid hvalid hfrom hle hto, ?_, ?_, nofun, ?_, ?_⟩
  · exact ⟨fun _ => ⟨_, _, _, rfl⟩, fun _ => rfl⟩
  · rintro n hn htransfer
    cases hn
    exact congrArg (fun sent => (sent.map Prod.snd).getD 0) (hsent htransfer)
  · rintro start stop total hrange
    cases hrange
    exact ⟨rfl, rfl, hsent⟩
  · intro pos len hpos
    rcases sent_cases rfl with hnone | ⟨htransfer, hdo⟩
    · nomatch hnone.symm.trans hpos
    · cases (hpart htransfer).symm.trans (hdo.symm.trans hpos)
      omega

/-- The whole file is. -/
theorem sendFile_consistent_whole (hnot : range.parsed = .notParsed) (hfrom : range.range_from = 0)
    (hsize : st.st_size < 2 ^ 63) :
    ∃ resp, sendFile .raw req st range 200 st.st_size = some resp ∧
      Consistent req st.st_size resp := by
  have hwhole (h : req.Transfers) : upsgi_response_sendfile_do req st range.range_from st.st_size =
      if st.st_size = 0 then none else some (0, (st.st_size : Int)) := by
    rw [hfrom, sendfile_whole hsize h.2]
  have hsent (h : req.Transfers) : (if req.head then none
        else upsgi_response_sendfile_do req st range.range_from st.st_size) =
      if st.st_size = 0 then none else some (0, (st.st_size : Int)) := by
    rw [h.1, if_neg nofun, hwhole h]
  refine ⟨_, sendFile_raw_whole hnot, ?_, ?_, fun _ => ⟨rfl, hsent⟩, ?_, ?_⟩
  · exact ⟨nofun, fun ⟨_, _, _, h⟩ => nomatch h⟩
  · rintro n hn htransfer
    cases hn
    refine (congrArg (fun sent => (sent.map Prod.snd).getD 0) (hsent htransfer)).trans ?_
    split
    · next hzero => rw [hzero]; rfl
    · rfl
  · nofun
  · intro pos len hpos
    rcases sent_cases rfl with hnone | ⟨htransfer, hdo⟩
    · nomatch hnone.symm.trans hpos
    · have hsome := (hwhole htransfer).symm.trans (hdo.symm.trans hpos)
      split at hsome
      · nomatch hsome
      · cases hsome
        omega

/-- Behind the fallthrough the status is that of the whole file, and the header that
    of a part. -/
theorem sendFile_fallthrough {resp : FileResponse} (hvalid : range.parsed = .valid)
    (hfrom : 0 ≤ range.range_from) (hle : range.range_from ≤ range.range_to)
    (hto : range.range_to < st.st_size)
    (h : sendFile .raw req st range 200 st.st_size = some resp) :
    ¬ Consistent req st.st_size resp := by
  rw [sendFile_raw_valid hvalid hfrom hle hto] at h
  cases h
  intro hconsistent
  nomatch hconsistent.part.mpr ⟨_, _, _, rfl⟩

/-- **Status, headers and transfer agree unless a range that lies in the file is
    asked for with an `If-Range` date at which the file had its current state.** -/
theorem real_file_serve_consistent (timegm : Tm → Int) (req : FileRequest) (st : FileStat)
    (hsize : st.st_size < 2 ^ 63) (hgiven : RangeGiven req.range st.st_size) :
    (∃ resp, upsgi_real_file_serve timegm .raw req st = some resp ∧
        Consistent req st.st_size resp) ↔
      notModified timegm req st = true ∨ AsksWhole req.range st.st_size ∨
        ifRangeDate timegm req < st.st_mtime := by
  cases hmodified : notModified timegm req st with
  | true =>
    refine ⟨fun _ => .inl rfl, fun _ => ⟨_, real_file_serve_notModified hmodified, ?_⟩⟩
    exact ⟨⟨nofun, fun ⟨_, _, _, h⟩ => nomatch h⟩, nofun, nofun, nofun, nofun⟩
  | false =>
    by_cases hwhole : AsksWhole req.range st.st_size
    · obtain ⟨hnot, hfrom⟩ := fix_range_whole hgiven hwhole
      rw [real_file_serve_whole hmodified hnot]
      exact ⟨fun _ => .inr (.inl hwhole), fun _ => sendFile_consistent_whole hnot hfrom hsize⟩
    · obtain ⟨hfix, hfrom, hle, hto⟩ := fix_range_part hgiven hwhole
      rw [real_file_serve_valid hmodified (by rw [hfix]), hfix]
      split
      · next hdate =>
        exact ⟨fun _ => .inr (.inr hdate), fun _ =>
          sendFile_consistent_part rfl hsize hfrom hle hto⟩
      · next hdate =>
        constructor
        · rintro ⟨resp, hresp, hconsistent⟩
          have hnot := @sendFile_fallthrough req st
            ⟨.valid, req.range.range_from, req.range.range_to⟩ resp rfl hfrom hle hto hresp
          exact absurd hconsistent hnot
        · rintro (hnot | hasks | hlt)
          · nomatch hnot
          · exact absurd hasks hwhole
          · exact absurd hlt hdate

end Consistency

/-- A request for a file of ten bytes that was modified at the time 100. -/
def tenBytes : FileStat := ⟨10, 100⟩

/-- The bytes `range_from` to `range_to`, with a date in `If-Range`. -/
def rangeRequest (range_from range_to : Int) (if_range : Option HeaderText) : FileRequest :=
  ⟨⟨.parsed, range_from, range_to⟩, if_range, ⟨fun _ => 0, 0⟩, false, false⟩

/-- The text of a header in front of zeros. -/
def headerText (text : Bytes) : HeaderText :=
  ⟨fun i => text.getD i 0, text.length⟩

theorem real_file_serve_consistent_part :
    ∃ resp, upsgi_real_file_serve (fun _ => 0) .raw (rangeRequest 2 5 none) tenBytes = some resp ∧
      Consistent (rangeRequest 2 5 none) 10 resp :=
  (real_file_serve_consistent (fun _ => 0) (rangeRequest 2 5 none) tenBytes (by decide)
    (.inr ⟨rfl, by decide, by decide, by decide⟩)).mpr (.inr (.inr (by decide)))

/-- The file was not modified after the date: a response for the whole file announces
    four bytes of it, and the transfer goes on behind its end. -/
theorem real_file_serve_fallthrough :
    let date := headerText (lit "Thu, 01 Jan 1970 00:03:20 GMT")
    let timegm : Tm → Int := fun tm => 60 * tm.tm_min + tm.tm_sec
    let resp : FileResponse :=
      { status := 200, content_length := some 10, content_range := some (.bytes 2 5 10),
        sent := some (2, 10) }
    upsgi_real_file_serve timegm .raw (rangeRequest 2 5 (some date)) tenBytes = some resp ∧
      ¬ Consistent (rangeRequest 2 5 (some date)) 10 resp := by
  refine ⟨by decide, fun h => ?_⟩
  nomatch h.part.mpr ⟨2, 5, 10, rfl⟩

end Upsgi
