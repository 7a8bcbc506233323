import Upsgi.Core.Writer

/-! # The first write of a response

    The headers and the first chunk of the body are sent by one `writev`.  However the
    connection takes the bytes, it gets the headers and then the chunk, and the counters
    are those of writing one after the other.
-/

namespace Upsgi

open Framing (Bytes)
open Iovec (advance)
open List

/-! ### The vectors after a partial write -/

/-- The first loop finds the vector in which the write has ended. -/
theorem consumedIov_spec (vs : List Bytes) (i new_len : Nat) {wlen : Nat}
    (h : wlen < vs.flatten.length) :
    ∃ k v rest skip, vs.drop k = v :: rest ∧
      consumedIov vs i new_len wlen = (new_len - k, i + k, skip) ∧
      advance vs wlen = v.drop skip :: rest := by
  induction vs generalizing i new_len wlen with
  | nil => nomatch h
  | cons v vs ih =>
    rw [flatten_cons, length_append] at h
    by_cases hv : v.length ≤ wlen
    · obtain ⟨k, u, rest, skip, hdrop, hconsumed, hadvance⟩ :=
        @ih (i + 1) (new_len - 1) (wlen - v.length) (by omega)
      refine ⟨k + 1, u, rest, skip, hdrop, ?_, ?_⟩
      · rw [consumedIov, if_pos hv, hconsumed]
        congr 1
        · omega
        · congr 1
          omega
      · rw [Iovec.advance_consumed vs hv, hadvance]
    · refine ⟨0, v, vs, wlen, rfl, ?_, ?_⟩
      · rw [consumedIov, if_neg hv]
        rfl
      · exact Iovec.advance_first vs (Nat.lt_of_not_le hv)

theorem take_set_self {iov : List Bytes} {pos : Nat} (v : Bytes) (h : pos < iov.length) :
    (iov.set pos v).take (pos + 1) = iov.take pos ++ [v] := by
  rw [take_add_one, take_set_of_le (Nat.le_refl pos), getElem?_set_self h]
  rfl

/-- Behind the top, the second loop only moves vectors. -/
theorem moveIov_rest (skip_bytes n i pos : Nat) (iov : List Bytes) (hpos : 0 < pos) (hle : pos ≤ i)
    (hlen : i + n ≤ iov.length) :
    (moveIov skip_bytes n i pos iov).take (pos + n) = iov.take pos ++ (iov.drop i).take n := by
  -- what is below `pos` is in place, and what is from `i` on is still untouched
  induction n generalizing i pos iov with
  | zero => rw [moveIov, take_zero, append_nil, Nat.add_zero]
  | succ n ih =>
    have hi : i < iov.length := by omega
    have hget : iov.getD i [] = iov[i] := by
      rw [getD_eq_getElem?_getD, getElem?_eq_getElem hi, Option.getD_some]
    have hlen' : i + 1 + n ≤ (iov.set pos iov[i]).length := by
      rw [length_set]
      omega
    have hrest : (iov.set pos iov[i]).drop (i + 1) = iov.drop (i + 1) := by
      rw [drop_set, if_pos (by omega)]
    have hcount : pos + (n + 1) = pos + 1 + n := by omega
    rw [moveIov, if_neg (by omega), hget, hcount,
      ih (i + 1) (pos + 1) _ (by omega) (by omega) hlen', take_set_self _ (by omega), hrest,
      drop_eq_getElem_cons hi, take_succ_cons, append_assoc]
    rfl

/-- The second loop: the vector in which the write has ended comes to the top. -/
theorem moveIov_top (skip_bytes n i : Nat) (iov : List Bytes) (hlen : i + (n + 1) ≤ iov.length) :
    (moveIov skip_bytes (n + 1) i 0 iov).take (n + 1) =
      (iov.getD i []).drop skip_bytes :: (iov.drop (i + 1)).take n := by
  have hi : i < iov.length := by omega
  have hcut : iov.modify i (List.drop skip_bytes) =
      iov.set i ((iov.getD i []).drop skip_bytes) := by
    rw [modify_eq_set]
    rfl
  have hget : (iov.set i ((iov.getD i []).drop skip_bytes)).getD i [] =
      (iov.getD i []).drop skip_bytes := by
    rw [getD_eq_getElem?_getD, getElem?_set_self hi, Option.getD_some]
  have hlen' : i + 1 + n ≤ ((iov.set i ((iov.getD i []).drop skip_bytes)).set 0
      ((iov.getD i []).drop skip_bytes)).length := by
    rw [length_set, length_set]
    omega
  have htop : ((iov.set i ((iov.getD i []).drop skip_bytes)).set 0
      ((iov.getD i []).drop skip_bytes)).take 1 = [(iov.getD i []).drop skip_bytes] :=
    take_set_self _ (by rw [length_set]; omega)
  rw [moveIov, if_pos rfl, hcut, hget, Nat.add_comm n 1,
    moveIov_rest _ _ _ _ _ (by omega) (by omega) hlen', drop_set, if_pos (by omega),
    drop_set, if_pos (by omega), htop]
  rfl

theorem moveIov_length (skip_bytes n i pos : Nat) (iov : List Bytes) :
    (moveIov skip_bytes n i pos iov).length = iov.length := by
  induction n generalizing i pos iov with
  | zero => rfl
  | succ n ih =>
    rw [moveIov, ih, length_set]
    split
    · exact length_modify ..
    · rfl

/-- The vectors in use are what is left of those before. -/
theorem rebuildIov_spec {iov : List Bytes} {len wlen : Nat} (hlen : len ≤ iov.length)
    (h : wlen < (iov.take len).flatten.length) :
    (rebuildIov iov len wlen).1.take (rebuildIov iov len wlen).2 = advance (iov.take len) wlen ∧
      (rebuildIov iov len wlen).2 = (advance (iov.take len) wlen).length ∧
      (rebuildIov iov len wlen).1.length = iov.length := by
  obtain ⟨k, v, rest, skip, hdrop, hconsumed, hadvance⟩ := consumedIov_spec _ 0 len h
  have hlength := congrArg List.length hdrop
  rw [length_drop, length_take, Nat.min_eq_left hlen, length_cons] at hlength
  rw [drop_take, drop_eq_getElem_cons (by omega : k < iov.length), hlength, take_succ_cons] at hdrop
  injection hdrop with hv hrest
  have hget : iov.getD k [] = v := by
    rw [getD_eq_getElem?_getD, getElem?_eq_getElem (by omega), Option.getD_some, hv]
  unfold rebuildIov
  rw [hconsumed, hadvance]
  dsimp only
  rw [Nat.zero_add, hlength, length_cons]
  refine ⟨?_, rfl, moveIov_length ..⟩
  rw [moveIov_top _ _ _ _ (by omega), hget, hrest]

/-! ### The plain loop -/

/-- The schedule behind the calls in which the connection takes this many bytes, if it
    does and no wait fails before. -/
def acceptRest : Nat → List WriteCall → Option (List WriteCall)
  | 0, ws => some ws
  | _ + 1, [] => none
  | left + 1, .wrote n :: ws => acceptRest (left - n) ws
  | left + 1, .again true :: ws => acceptRest (left + 1) ws
  | _ + 1, .again false :: _ => none
  | _ + 1, .failed :: _ => none

/-- The rest of the buffer is written. -/
def Response.wrote (res : Response) (buf : Bytes) : Response :=
  { res with write_pos := buf.length, sent := res.sent ++ buf.drop res.write_pos }

section PlainLoop

variable {buf : Bytes} {res : Response}

/-- A call of `write` that takes something: it takes all that is left, or the loop goes
    on behind it. -/
theorem proto_base_write_wrote (n : Nat) (hpos : res.write_pos < buf.length) :
    (buf.length - res.write_pos ≤ n + 1 ∧
      upsgi_proto_base_write res buf (.wrote n) = (.ok, res.wrote buf)) ∨
    (∃ res', upsgi_proto_base_write res buf (.wrote n) = (.more, res') ∧
      res'.write_pos = res.write_pos + (n + 1) ∧ res'.write_pos < buf.length ∧
      res'.wrote buf = res.wrote buf) := by
  have hdrop : (buf.drop res.write_pos).length = buf.length - res.write_pos := length_drop
  have hne : (buf.drop res.write_pos).take (n + 1) ≠ [] := by
    rw [← length_pos_iff, length_take]
    omega
  unfold upsgi_proto_base_write
  dsimp only
  rw [if_neg hne]
  unfold Response.accept
  dsimp only
  by_cases hall : buf.length - res.write_pos ≤ n + 1
  · rw [take_of_length_le (by omega), hdrop, if_pos (by omega)]
    refine .inl ⟨hall, ?_⟩
    unfold Response.wrote
    rw [Nat.add_sub_cancel' (Nat.le_of_lt hpos)]
  · have hlen : ((buf.drop res.write_pos).take (n + 1)).length = n + 1 := by
      rw [length_take]
      omega
    rw [hlen, if_neg (by omega)]
    refine .inr ⟨_, rfl, rfl, (by omega : res.write_pos + (n + 1) < buf.length), ?_⟩
    unfold Response.wrote
    rw [append_assoc, ← drop_drop, take_append_drop]

/-- A schedule that takes what is left lets the loop return. -/
theorem writeLoop_accepts {ws rest : List WriteCall} (hpos : res.write_pos < buf.length)
    (hws : acceptRest (buf.length - res.write_pos) ws = some rest) :
    writeLoop buf ws res = (.ok, res.wrote buf, rest) := by
  induction ws generalizing res with
  | nil =>
    obtain ⟨left, hleft⟩ := Nat.exists_eq_succ_of_ne_zero (Nat.sub_ne_zero_of_lt hpos)
    rw [hleft] at hws
    nomatch hws
  | cons w ws ih =>
    obtain ⟨left, hleft⟩ := Nat.exists_eq_succ_of_ne_zero (Nat.sub_ne_zero_of_lt hpos)
    have hcons := hws
    rw [hleft] at hcons
    unfold writeLoop
    cases w with
    | wrote n =>
      have hcons : acceptRest (left - n) ws = some rest := hcons
      rcases proto_base_write_wrote n hpos with ⟨hall, hwrite⟩ | ⟨res', hwrite, hat, hpos', hsame⟩
      -- the schedule is used up to here exactly when the buffer is
      · rw [Nat.sub_eq_zero_of_le (by omega : left ≤ n), acceptRest] at hcons
        rw [hwrite, Option.some.inj hcons]
      · rw [hwrite, ← hsame]
        refine ih hpos' ?_
        rw [show buf.length - res'.write_pos = left - n by omega]
        exact hcons
    | again ready =>
      cases ready with
      | true =>
        refine ih hpos ?_
        rw [hleft]
        exact hcons
      | false => nomatch hcons
    | failed => nomatch hcons

/-- The loop changes the position and the connection only, and an error is counted. -/
theorem writeLoop_frame (buf : Bytes) (ws : List WriteCall) (res : Response) :
    ((writeLoop buf ws res).1 = .ok → ∃ write_pos sent,
        (writeLoop buf ws res).2.1 = { res with write_pos := write_pos, sent := sent }) ∧
      ((writeLoop buf ws res).1 = .error → (writeLoop buf ws res).2.1.write_errors ≠ 0) := by
  induction ws generalizing res with
  | nil => exact ⟨nofun, nofun⟩
  | cons w ws ih =>
    unfold writeLoop
    cases w with
    | wrote n =>
      unfold upsgi_proto_base_write
      dsimp only
      split_ifs
      · exact ⟨nofun, fun _ => Nat.succ_ne_zero _⟩
      · exact ⟨fun _ => ⟨_, _, rfl⟩, nofun⟩
      · exact ih _
    | again ready =>
      cases ready with
      | true => exact ih res
      | false => exact ⟨nofun, fun _ => Nat.succ_ne_zero _⟩
    | failed => exact ⟨nofun, fun _ => Nat.succ_ne_zero _⟩

end PlainLoop

/-! ### The vector loop -/

/-- The vectors in use are what is left after `w` bytes. -/
structure AtByte (header body : Bytes) (iov : List Bytes) (iov_len w : Nat) : Prop where
  used : iov.take iov_len = advance [header, body] w
  count : iov_len = (advance [header, body] w).length
  inside : iov_len ≤ iov.length

/-- Everything is written, and the counters are set. -/
def Response.bothWritten (res : Response) (header body : Bytes) : Response :=
  { res with
    headers_size := header.length
    response_size := res.response_size + body.length
    headers_sent := true
    write_pos := 0
    sent := res.sent ++ (header ++ body).drop res.write_pos }

section VectorLoop

variable {header body : Bytes} {iov : List Bytes} {iov_len w : Nat} {res : Response}

theorem advance_header (h : w < header.length) :
    advance [header, body] w = [header.drop w, body] :=
  Iovec.advance_first _ h

theorem advance_body (h : header.length ≤ w) (hw : w < header.length + body.length) :
    advance [header, body] w = [body.drop (w - header.length)] := by
  rw [Iovec.advance_consumed _ h, Iovec.advance_first _ (by omega)]

theorem AtByte.flatten (h : AtByte header body iov iov_len w) :
    (iov.take iov_len).flatten = (header ++ body).drop w := by
  rw [h.used, Iovec.flatten_advance, flatten_cons, flatten_singleton]

/-- A partial write leads to a later byte. -/
theorem AtByte.later {wlen : Nat} (h : AtByte header body iov iov_len w)
    (hwlen : wlen < ((header ++ body).drop w).length) :
    AtByte header body (rebuildIov iov iov_len wlen).1 (rebuildIov iov iov_len wlen).2 (w + wlen) := by
  rw [← h.flatten] at hwlen
  obtain ⟨hused, hcount, hlength⟩ := rebuildIov_spec h.inside hwlen
  rw [h.used, Iovec.advance_advance] at hused hcount
  refine ⟨hused, hcount, ?_⟩
  have htake := congrArg List.length hused
  rw [length_take, ← hcount] at htake
  omega

/-- One vector is left exactly when the headers are written. -/
theorem AtByte.single (h : AtByte header body iov iov_len w)
    (hw : w < header.length + body.length) :
    iov_len = 1 ↔ header.length ≤ w := by
  rw [h.count]
  constructor
  · intro hone
    by_contra hlt
    rw [advance_header (Nat.lt_of_not_le hlt)] at hone
    exact absurd hone (by decide : (2 : Nat) ≠ 1)
  · intro hle
    rw [advance_body hle hw]
    rfl

theorem writevLoop_single (ws : List WriteCall) (res : Response) (iov : List Bytes) :
    writevLoop header body ws res iov 1 = bodyLoop (iov.getD 0 []) ws (res.settle header) := by
  cases ws with
  | nil | cons w ws => rw [writevLoop, if_pos rfl]

/-- The counters are settled early, and the plain loop writes the rest of the body. -/
theorem writevLoop_fallback {ws rest : List WriteCall} (h : AtByte header body iov 1 w)
    (hw : w < header.length + body.length) (hpos : res.write_pos = w)
    (hsize : res.headers_size = 0)
    (hws : acceptRest (header.length + body.length - w) ws = some rest) :
    writevLoop header body ws res iov 1 = (.ok, res.bothWritten header body, rest) := by
  have hle := (h.single hw).mp rfl
  have hbuf : iov.getD 0 [] = body.drop (w - header.length) := by
    have hused := h.used
    rw [advance_body hle hw] at hused
    cases iov with
    | nil => nomatch hused
    | cons v vs => exact (List.cons.inj hused).1
  have hlen : (body.drop (w - header.length)).length = header.length + body.length - w := by
    rw [length_drop]
    omega
  have hloop : writeLoop (body.drop (w - header.length)) ws (res.settle header) =
      (.ok, (res.settle header).wrote (body.drop (w - header.length)), rest) := by
    refine writeLoop_accepts ?_ ?_
    · show 0 < _
      omega
    · rw [hlen]
      exact hws
  rw [writevLoop_single, hbuf, bodyLoop, hloop]
  -- the body written so far is counted before the loop, the rest behind it
  have hresponse : res.response_size + (w - header.length) + (header.length + body.length - w) =
      res.response_size + body.length := by omega
  unfold Response.bodyDone Response.wrote Response.settle Response.bothWritten
  dsimp only
  rw [hsize, hpos, hlen, drop_zero, drop_append, drop_eq_nil_of_le hle,
    nil_append, Nat.zero_add, hresponse]

/-- The bytes of a partial write, and those after it. -/
theorem Response.bothWritten_accept (n : Nat) (hpos : res.write_pos = w)
    (hlen : (((header ++ body).drop w).take n).length = n) :
    (res.accept (((header ++ body).drop w).take n)).bothWritten header body =
      res.bothWritten header body := by
  unfold Response.bothWritten Response.accept
  rw [hlen, hpos, append_assoc, ← drop_drop, take_append_drop]

/-- The last bytes are taken by `writev`. -/
theorem Response.bothDone_accept (hpos : res.write_pos = w) (hsize : res.headers_size = 0) :
    (res.accept ((header ++ body).drop w)).bothDone header body = res.bothWritten header body := by
  unfold Response.bothDone Response.bothWritten Response.accept
  rw [hsize, hpos, Nat.zero_add]

theorem writevLoop_accepts {ws rest : List WriteCall} (h : AtByte header body iov iov_len w)
    (hw : w < header.length + body.length) (hpos : res.write_pos = w)
    (hsize : res.headers_size = 0)
    (hws : acceptRest (header.length + body.length - w) ws = some rest) :
    writevLoop header body ws res iov iov_len = (.ok, res.bothWritten header body, rest) := by
  induction ws generalizing res iov iov_len w with
  | nil =>
    obtain ⟨left, hleft⟩ := Nat.exists_eq_succ_of_ne_zero (Nat.sub_ne_zero_of_lt hw)
    rw [hleft] at hws
    nomatch hws
  | cons c ws ih =>
    -- the last write may have ended behind the headers
    by_cases hone : iov_len = 1
    · rw [hone] at h ⊢
      exact writevLoop_fallback h hw hpos hsize hws
    obtain ⟨left, hleft⟩ := Nat.exists_eq_succ_of_ne_zero (Nat.sub_ne_zero_of_lt hw)
    have hcons := hws
    rw [hleft] at hcons
    rw [writevLoop, if_neg hone]
    cases c with
    | wrote n =>
      have hcons : acceptRest (left - n) ws = some rest := hcons
      have hall : ((header ++ body).drop w).length = left + 1 := by
        rw [length_drop, length_append]
        exact hleft
      unfold upsgi_proto_base_writev
      dsimp only
      rw [h.flatten]
      by_cases hn : left ≤ n
      · have htake : ((header ++ body).drop w).take (n + 1) = (header ++ body).drop w :=
          take_of_length_le (by omega)
        rw [Nat.sub_eq_zero_of_le hn, acceptRest] at hcons
        rw [htake, if_neg (ne_nil_of_length_eq_add_one hall), if_pos rfl]
        dsimp only
        rw [Response.bothDone_accept hpos hsize, Option.some.inj hcons]
      · have hlen : (((header ++ body).drop w).take (n + 1)).length = n + 1 := by
          rw [length_take]
          omega
        rw [if_neg (ne_nil_of_length_eq_add_one hlen), if_neg (by omega), hlen]
        rw [← Response.bothWritten_accept (n + 1) hpos hlen]
        refine ih (h.later (by omega)) (by omega) ?_ hsize ?_
        · show res.write_pos + _ = _
          rw [hlen, hpos]
        · rw [show header.length + body.length - (w + (n + 1)) = left - n by omega]
          exact hcons
    | again ready =>
      cases ready with
      | true =>
        refine ih h hw hpos hsize ?_
        rw [hleft]
        exact hcons
      | false => nomatch hcons
    | failed => nomatch hcons

end VectorLoop

/-! ### The counters between two calls -/

/-- Nothing is counted before the headers are sent, unless a write has failed or there
    are no headers. -/
structure CountersSettled (res : Response) : Prop where
  position : res.write_errors = 0 → res.write_pos = 0
  unsent : res.write_errors = 0 → res.headers_sent = false → res.headers_size = 0
  unwritten : res.write_errors = 0 → res.headers_sent = false → res.headers ≠ none →
    res.response_size = 0

/-- A call leaves the counters settled if it returns. -/
def EndsSettled (r : WriteRet × Response × List WriteCall) : Prop :=
  r.1 ≠ .pending → CountersSettled r.2.1

section Counters

variable {res : Response}

theorem CountersSettled.of_errors (h : res.write_errors ≠ 0) : CountersSettled res :=
  ⟨fun hzero => absurd hzero h, fun hzero => absurd hzero h, fun hzero => absurd hzero h⟩

theorem CountersSettled.of_sent (hsent : res.headers_sent = true) (hpos : res.write_pos = 0) :
    CountersSettled res :=
  ⟨fun _ => hpos, fun _ h => Bool.noConfusion (hsent.symm.trans h),
    fun _ h => Bool.noConfusion (hsent.symm.trans h)⟩

/-- What `upsgi_response_write_headers_do0` may come to. -/
inductive HeadersOk (res : Response) : HeadersRet × Response → Prop where
  | done (hnone : res.write_errors = 0 → res.headers_sent = false → res.headers = none) :
      HeadersOk res (.done, res)
  | error {res' : Response} (h : CountersSettled res') : HeadersOk res (.error, res')
  | send (header : Bytes) : HeadersOk res (.send header, { res with headers := some header })

theorem write_headers_do0_ok (prepare : Bytes → Prepared) (h : CountersSettled res) :
    HeadersOk res (upsgi_response_write_headers_do0 prepare res) := by
  unfold upsgi_response_write_headers_do0
  cases hheaders : res.headers with
  | none => exact .done fun _ _ => hheaders
  | some headers =>
    have hsome : res.headers ≠ none := by
      rw [hheaders]
      nofun
    dsimp only
    by_cases hguard : res.headers_sent ∨ res.response_size ≠ 0 ∨ res.write_errors ≠ 0
    · rw [if_pos hguard]
      -- there are headers, so that nothing of the body was written without them
      refine .done fun herrors hsent => ?_
      have hresponse := h.unwritten herrors hsent hsome
      rcases hguard with hguard | hguard | hguard
      · nomatch hsent.symm.trans hguard
      · exact absurd hresponse hguard
      · exact absurd herrors hguard
    · rw [if_neg hguard]
      have hresponse : res.response_size = 0 := by
        by_contra hne
        exact hguard (.inr (.inl hne))
      cases prepare headers with
      | broken | refused headers => exact .error ⟨h.position, h.unsent, fun _ _ _ => hresponse⟩
      | full headers => exact .error (.of_errors (Nat.succ_ne_zero _))
      | ready headers => exact .send _

theorem bodyLoop_settled (buf : Bytes) (ws : List WriteCall)
    (h : res.write_errors = 0 → res.headers_sent = false →
      res.headers_size = 0 ∧ res.headers = none) : EndsSettled (bodyLoop buf ws res) := by
  have hframe := writeLoop_frame buf ws res
  unfold bodyLoop
  generalize writeLoop buf ws res = r at hframe
  obtain ⟨ret, res', rest⟩ := r
  intro hpending
  cases ret with
  | ok =>
    obtain ⟨write_pos, sent, rfl⟩ := hframe.1 rfl
    exact ⟨fun _ => rfl, fun herrors hsent => (h herrors hsent).1,
      fun herrors hsent hsome => absurd (h herrors hsent).2 hsome⟩
  | error => exact .of_errors (hframe.2 rfl)
  | pending => nomatch hpending

theorem sendBody_settled (body : Bytes) (ws : List WriteCall) (hres : CountersSettled res)
    (hnone : res.write_errors = 0 → res.headers_sent = false → res.headers = none) :
    EndsSettled (sendBody body ws res) := by
  unfold sendBody
  split
  · exact fun _ => hres
  · exact bodyLoop_settled body ws fun herrors hsent =>
      ⟨hres.unsent herrors hsent, hnone herrors hsent⟩

/-- After the headers, either there were none, or they are sent. -/
theorem write_headers_do_settled (prepare : Bytes → Prepared) (ws : List WriteCall)
    (h : CountersSettled res) :
    EndsSettled (upsgi_response_write_headers_do prepare ws res) ∧
      ((upsgi_response_write_headers_do prepare ws res).1 = .ok →
        let res' := (upsgi_response_write_headers_do prepare ws res).2.1
        res'.write_errors = 0 → res'.headers_sent = false → res'.headers = none) := by
  have hdo0 := write_headers_do0_ok prepare h
  unfold upsgi_response_write_headers_do
  generalize upsgi_response_write_headers_do0 prepare res = r at hdo0
  cases hdo0 with
  | done hnone => exact ⟨fun _ => h, fun _ => hnone⟩
  | error hres => exact ⟨fun _ => hres, nofun⟩
  | send header =>
    have hframe := writeLoop_frame header ws { res with headers := some header }
    dsimp only
    generalize writeLoop header ws { res with headers := some header } = r at hframe
    obtain ⟨ret, res', rest⟩ := r
    cases ret with
    | ok => exact ⟨fun _ => .of_sent rfl rfl, fun _ _ h => Bool.noConfusion h⟩
    | error => exact ⟨fun _ => .of_errors (hframe.2 rfl), nofun⟩
    | pending => exact ⟨nofun, nofun⟩

theorem writevLoop_settled (header body : Bytes) (ws : List WriteCall) (res : Response)
    (iov : List Bytes) (iov_len : Nat) :
    EndsSettled (writevLoop header body ws res iov iov_len) := by
  induction ws generalizing res iov iov_len with
  | nil =>
    by_cases hone : iov_len = 1
    · rw [hone, writevLoop_single]
      exact bodyLoop_settled _ _ fun _ h => Bool.noConfusion h
    · rw [writevLoop, if_neg hone]
      exact nofun
  | cons w ws ih =>
    by_cases hone : iov_len = 1
    · rw [hone, writevLoop_single]
      exact bodyLoop_settled _ _ fun _ h => Bool.noConfusion h
    · rw [writevLoop, if_neg hone]
      generalize upsgi_proto_base_writev res iov iov_len w = r
      obtain ⟨ret, res', iov', iov_len'⟩ := r
      match ret with
      | .ok => exact fun _ => .of_sent rfl rfl
      | .more | .again true => exact ih res' iov' iov_len'
      | .again false | .fail => exact fun _ => .of_errors (Nat.succ_ne_zero _)

section

variable (prepare : Bytes → Prepared) (body : Bytes) (ws : List WriteCall) (h : CountersSettled res)
include prepare body ws h

theorem writev_headers_and_body_do_settled :
    EndsSettled (upsgi_response_writev_headers_and_body_do prepare body ws res) := by
  have hdo0 := write_headers_do0_ok prepare h
  unfold upsgi_response_writev_headers_and_body_do
  generalize upsgi_response_write_headers_do0 prepare res = r at hdo0
  cases hdo0 with
  | done _ => exact fun _ => h
  | error hres => exact fun _ => hres
  | send header => exact writevLoop_settled header body ws _ _ _

theorem writeSeparately_settled : EndsSettled (writeSeparately prepare body ws res) := by
  obtain ⟨hends, hnone⟩ := write_headers_do_settled prepare ws h
  unfold writeSeparately
  generalize upsgi_response_write_headers_do prepare ws res = r at hends hnone
  obtain ⟨ret, res', rest⟩ := r
  cases ret with
  | ok => exact sendBody_settled body rest (hends nofun) (hnone rfl)
  | error => exact fun _ => .of_errors (Nat.succ_ne_zero _)
  | pending => exact nofun

end

theorem write_body_do_settled (proto_writev : Bool) (prepare : Bytes → Prepared) (body : Bytes)
    (ws : List WriteCall) (h : CountersSettled res) :
    EndsSettled (upsgi_response_write_body_do proto_writev prepare body ws res) := by
  unfold upsgi_response_write_body_do
  split
  · exact fun _ => h
  split
  · exact fun _ => h
  split
  next hsent => exact sendBody_settled body ws h fun _ h => Bool.noConfusion (hsent.symm.trans h)
  split
  · exact writev_headers_and_body_do_settled prepare body ws h
  · exact writeSeparately_settled prepare body ws h

theorem EndsSettled.returned {r : WriteRet × Response × List WriteCall} (h : EndsSettled r)
    (hreturned : returnedResponse r = some res) : CountersSettled res := by
  obtain ⟨ret, res', ws⟩ := r
  cases ret with
  | ok | error =>
    cases hreturned
    exact h nofun
  | pending => nomatch hreturned

theorem responseStep_settled {res' : Response} {op : ResponseOp} (h : CountersSettled res)
    (hstep : responseStep res op = some res') : CountersSettled res' := by
  cases op with
  | setHeaders headers =>
    unfold responseStep at hstep
    dsimp only at hstep
    split at hstep
    next =>
      cases hstep
      exact h
    next hguard =>
      cases hstep
      refine ⟨h.position, h.unsent, fun _ _ _ => ?_⟩
      by_contra hne
      exact hguard (.inr (.inr (.inl hne)))
  | disableHeaders =>
    cases hstep
    exact ⟨h.position, fun _ h => Bool.noConfusion h, fun _ h => Bool.noConfusion h⟩
  | writeHeaders prepare ws => exact (write_headers_do_settled prepare ws h).1.returned hstep
  | writeBody proto_writev prepare body ws =>
    exact (write_body_do_settled proto_writev prepare body ws h).returned hstep

theorem reachable_settled (h : Machine.Reachable responseStep {} res) : CountersSettled res := by
  obtain ⟨ops, hrun⟩ := h
  refine Machine.run_invariant CountersSettled (fun _ => True) (fun s op s' hs _ => responseStep_settled hs)
    ops {} res ?_ (fun _ _ => trivial) hrun
  exact ⟨fun _ => rfl, fun _ _ => rfl, fun _ _ _ => rfl⟩

end Counters

/-! ### The first write -/

section FirstWrite

variable {prepare : Bytes → Prepared} {res : Response} {headers ready body : Bytes}

theorem write_headers_do0_send (hsent : res.headers_sent = false) (herrors : res.write_errors = 0)
    (hresponse : res.response_size = 0) (hheaders : res.headers = some headers)
    (hready : prepare headers = .ready ready) :
    upsgi_response_write_headers_do0 prepare res =
      (.send (ready ++ [13, 10]), { res with headers := some (ready ++ [13, 10]) }) := by
  have hguard : ¬(res.headers_sent ∨ res.response_size ≠ 0 ∨ res.write_errors ≠ 0) := by
    rw [hsent, herrors, hresponse]
    decide
  unfold upsgi_response_write_headers_do0
  rw [hheaders]
  dsimp only
  rw [if_neg hguard, hready]

/-- Writing the headers and then the body. -/
theorem writeSeparately_accepts {ws ws' rest : List WriteCall} {header : Bytes}
    (hpos : res.write_pos = 0) (hsize : res.headers_size = 0)
    (hdo0 : upsgi_response_write_headers_do0 prepare res =
      (.send header, { res with headers := some header }))
    (hheader : header ≠ []) (hbody : body ≠ [])
    (hws : acceptRest header.length ws = some ws') (hws' : acceptRest body.length ws' = some rest) :
    writeSeparately prepare body ws res =
      (.ok, { res with headers := some header }.bothWritten header body, rest) := by
  have hheaders : writeLoop header ws { res with headers := some header } =
      (.ok, { res with headers := some header }.wrote header, ws') := by
    refine writeLoop_accepts ?_ ?_
    · show res.write_pos < _
      rw [hpos]
      exact length_pos_iff.mpr hheader
    · show acceptRest (header.length - res.write_pos) ws = _
      rw [hpos]
      exact hws
  have hloop : ∀ res' : Response, res'.write_pos = 0 →
      writeLoop body ws' res' = (.ok, res'.wrote body, rest) := by
    intro res' hpos'
    refine writeLoop_accepts ?_ ?_
    · rw [hpos']
      exact length_pos_iff.mpr hbody
    · rw [hpos']
      exact hws'
  unfold writeSeparately upsgi_response_write_headers_do
  rw [hdo0]
  dsimp only
  rw [hheaders]
  dsimp only
  rw [sendBody, if_neg hbody, bodyLoop, hloop _ rfl]
  unfold Response.bodyDone Response.wrote Response.headersDone Response.bothWritten
  rw [hsize, hpos, drop_zero, drop_zero, drop_zero, append_assoc, Nat.zero_add]

end FirstWrite

/-- However the connection takes the headers and the first chunk, in partial writes and
    with waits in between, it gets the headers and then the chunk, and the response is the
    one after writing the headers and then the chunk with the plain loops. -/
theorem coalesced_first_write (prepare : Bytes → Prepared) (res : Response)
    (hreach : Machine.Reachable responseStep {} res) (hsent : res.headers_sent = false)
    (herrors : res.write_errors = 0) (headers ready : Bytes) (hheaders : res.headers = some headers)
    (hready : prepare headers = .ready ready) (body : Bytes) (hbody : body ≠ []) :
    ∃ final : Response,
      (∀ ws rest, acceptRest ((ready ++ [13, 10]).length + body.length) ws = some rest →
        upsgi_response_writev_headers_and_body_do prepare body ws res = (.ok, final, rest)) ∧
      (∀ ws ws' rest, acceptRest (ready ++ [13, 10]).length ws = some ws' →
        acceptRest body.length ws' = some rest →
        writeSeparately prepare body ws res = (.ok, final, rest)) ∧
      final.sent = res.sent ++ ((ready ++ [13, 10]) ++ body) ∧
      final.headers_size = (ready ++ [13, 10]).length ∧ final.response_size = body.length ∧
      final.headers_sent = true ∧ final.write_pos = 0 := by
  have hsettled := reachable_settled hreach
  have hpos := hsettled.position herrors
  have hsize := hsettled.unsent herrors hsent
  have hresponse := hsettled.unwritten herrors hsent (by rw [hheaders]; nofun)
  have hdo0 := write_headers_do0_send hsent herrors hresponse hheaders hready
  have hheader : ready ++ [13, 10] ≠ [] := append_ne_nil_of_right_ne_nil _ nofun
  -- only that the header is not empty matters from here on
  generalize ready ++ [13, 10] = header at hdo0 hheader ⊢
  have hlength := length_pos_iff.mpr hheader
  refine ⟨{ res with headers := some header }.bothWritten header body, ?_, ?_, ?_, rfl, ?_, rfl, rfl⟩
  · intro ws rest hws
    have hstart : AtByte header body [header, body] 2 0 := by
      refine ⟨?_, ?_, Nat.le_refl _⟩
      · rw [advance_header hlength]
        rfl
      · rw [advance_header hlength]
        rfl
    unfold upsgi_response_writev_headers_and_body_do
    rw [hdo0]
    exact writevLoop_accepts hstart (by omega) hpos hsize hws
  · intro ws ws' rest hws hws'
    exact writeSeparately_accepts hpos hsize hdo0 hheader hbody hws hws'
  · show res.sent ++ (header ++ body).drop res.write_pos = _
    rw [hpos, drop_zero]
  · show res.response_size + body.length = _
    rw [hresponse, Nat.zero_add]

/-- The headers "A" and the chunk "BC": the second `writev` ends within the chunk. -/
theorem coalesced_first_write_partial :
    (upsgi_response_writev_headers_and_body_do .ready [66, 67]
        [.wrote 0, .again true, .wrote 2, .wrote 5] { headers := some [65] }).1 = .ok ∧
      (upsgi_response_writev_headers_and_body_do .ready [66, 67]
        [.wrote 0, .again true, .wrote 2, .wrote 5] { headers := some [65] }).2.1.sent =
        [65, 13, 10, 66, 67] := by
  obtain ⟨final, hfinal, -, hbytes, -⟩ := coalesced_first_write .ready { headers := some [65] }
    ⟨[.setHeaders [65]], rfl⟩ rfl rfl [65] [65] rfl rfl [66, 67] (by decide)
  rw [hfinal _ [] (by decide)]
  exact ⟨rfl, hbytes⟩

end Upsgi
