import Upsgi.Core.BodyFraming
import Upsgi.Core.FileServe

/-! # Conditional ranges

    A packet is parsed and the file is sent: which range is asked for, and under
    which condition, reaches `upsgi_real_file_serve` only through the variable
    hooks.  The hooks are indexed by the length of the key.  `HTTP_IF_RANGE` has
    thirteen bytes, but it is looked for in the hook for keys of ten.
-/

namespace Upsgi

open Framing

/-! ### The variables that matter for a file -/

/-- The fields of a request that the variables of a packet set and that decide what
    is sent of a file. -/
structure FileVars where
  range : Option Bytes := none
  if_range : Option Bytes := none
  if_modified_since : Bytes := []
  deriving DecidableEq

def WsgiRequest.fileVars (req : WsgiRequest) : FileVars :=
  ⟨req.range, req.if_range, req.if_modified_since⟩

/-- A key of ten bytes that, with the length and the first byte of its value, reads
    `HTTP_IF_RANGE`. -/
def LooksIfRange (e : Pair) : Prop :=
  e.1.length = 10 ∧ (e.1 ++ le16 e.2.length ++ e.2).take 13 = lit "HTTP_IF_RANGE"

instance (e : Pair) : Decidable (LooksIfRange e) :=
  inferInstanceAs (Decidable (_ ∧ _))

/-- What one variable does to these fields. -/
def fileVar (vars : FileVars) (e : Pair) : FileVars :=
  if e.1 = lit "HTTP_RANGE" then { vars with range := some e.2 }
  else if LooksIfRange e then { vars with if_range := some e.2 }
  else if e.1 = lit "HTTP_IF_MODIFIED_SINCE" then { vars with if_modified_since := e.2 }
  else vars

/-! ### The hooks -/

/-- The result of a hook, when there is one, has these fields. -/
def Leaves (vars : FileVars) (r : Option (WsgiRequest × Bytes)) : Prop :=
  ∀ x, r = some x → x.1.fileVars = vars

theorem Leaves.some {vars : FileVars} {req : WsgiRequest} {buf : Bytes} (h : req.fileVars = vars) :
    Leaves vars (some (req, buf)) := by
  intro x hx
  cases hx
  exact h

theorem Leaves.ite {vars : FileVars} {c : Prop} [Decidable c] {a b : Option (WsgiRequest × Bytes)}
    (ha : Leaves vars a) (hb : Leaves vars b) : Leaves vars (if c then a else b) := by
  split
  · exact ha
  · exact hb

section hooks

variable (cfg : VarsConfig) (req : WsgiRequest) (key buf : Bytes)

theorem fileVars_setenv : (upsgi_setenv req buf).1.fileVars = req.fileVars := by
  unfold upsgi_setenv
  dsimp only
  split
  · rfl
  · split <;> rfl

theorem leaves_check_12 : Leaves req.fileVars (upsgi_proto_check_12 cfg req key buf) := by
  repeat' apply Leaves.ite
  all_goals first | exact .some rfl | exact .some (fileVars_setenv req buf)

theorem leaves_content_length : Leaves req.fileVars (upsgi_content_length cfg req buf) := by
  unfold upsgi_content_length
  cases get_content_length buf with
  | none => exact (fun _ h => nomatch h)
  | some n => exact .ite (fun _ h => nomatch h) (.ite (fun _ h => nomatch h) (.some rfl))

theorem leaves_check_14 : Leaves req.fileVars (upsgi_proto_check_14 cfg req key buf) :=
  .ite (.some rfl) (.ite (leaves_content_length cfg req buf)
    (.ite (.some rfl) (.ite (.some rfl) (.some rfl))))

theorem leaves_check_20 : Leaves req.fileVars (upsgi_proto_check_20 cfg req key buf) := by
  have hssl : (if upsgi_proto_key (lit "HTTP_X_FORWARDED_SSL") key then { req with https := buf }
      else req).fileVars = req.fileVars := by
    split <;> rfl
  exact .ite (.some rfl) (.ite (.some hssl) (.some hssl))

theorem leaves_transfer_encoding : Leaves req.fileVars (upsgi_transfer_encoding req buf) :=
  .ite (.ite (fun _ h => nomatch h) (.some rfl)) (.some rfl)

/-- The hooks for keys of ten and of twenty-two bytes are the only ones that set the
    fields. -/
theorem leaves_other {n : Nat} {hook : Hook} (h : upsgi_proto_hooks_setup cfg n = some hook)
    (h10 : n ≠ 10) (h22 : n ≠ 22) : Leaves req.fileVars (hook req key buf) := by
  unfold upsgi_proto_hooks_setup at h
  split at h
  case h_3 => nomatch h10
  case h_11 => nomatch h22
  case h_13 => cases h
  all_goals cases h
  case h_5 => exact leaves_check_12 cfg req key buf
  case h_7 => exact leaves_check_14 cfg req key buf
  case h_10 => exact leaves_check_20 cfg req key buf
  -- the others set one field in each branch
  all_goals
    repeat' apply Leaves.ite
    all_goals exact .some rfl

variable {cfg}

theorem leaves_check_10 {k : Bytes} (hon : cfg.honour_range = true) (hk : k.length = 10) :
    Leaves (fileVar req.fileVars (k, buf))
      (upsgi_proto_check_10 cfg req (k ++ le16 buf.length ++ buf) buf) := by
  have hims : k ≠ lit "HTTP_IF_MODIFIED_SINCE" := by
    rintro rfl
    nomatch hk
  have hrange : upsgi_proto_key (lit "HTTP_RANGE") (k ++ le16 buf.length ++ buf) = true ↔
      k = lit "HTTP_RANGE" := by
    rw [List.append_assoc]
    exact upsgi_proto_key_iff _ hk
  have hlooks : upsgi_proto_key (lit "HTTP_IF_RANGE") (k ++ le16 buf.length ++ buf) = true ↔
      LooksIfRange (k, buf) := by
    unfold upsgi_proto_key LooksIfRange
    rw [decide_eq_true_eq]
    exact ⟨fun h => ⟨hk, h⟩, fun h => h.2⟩
  -- the key cannot begin with both names
  have hboth : k = lit "HTTP_RANGE" → ¬ LooksIfRange (k, buf) := by
    rintro rfl ⟨-, h⟩
    have hten := congrArg (List.take 10) h
    have hkey : (lit "HTTP_RANGE" ++ (le16 buf.length ++ buf)).take 10 = lit "HTTP_RANGE" := by
      rw [← hk, List.take_left]
    nomatch hkey.symm.trans hten
  unfold upsgi_proto_check_10 fileVar
  rw [hon, Bool.true_and, Bool.true_and, if_neg hims]
  by_cases hr : k = lit "HTTP_RANGE"
  · rw [if_pos hr, if_pos (hrange.mpr hr), if_neg (fun h => hboth hr (hlooks.mp h))]
    exact .some rfl
  · rw [if_neg hr, if_neg (fun h => hr (hrange.mp h))]
    by_cases hl : LooksIfRange (k, buf)
    · rw [if_pos hl, if_pos (hlooks.mpr hl)]
      exact .ite (.some rfl) (.ite (.some rfl) (.some rfl))
    · rw [if_neg hl, if_neg (fun h => hl (hlooks.mp h))]
      exact .ite (.some rfl) (.ite (.some rfl) (.some rfl))

theorem leaves_check_22 {k rest : Bytes} (hk : k.length = 22) :
    Leaves (fileVar req.fileVars (k, buf)) (upsgi_proto_check_22 req (k ++ rest) buf) := by
  have hrange : k ≠ lit "HTTP_RANGE" := by
    rintro rfl
    nomatch hk
  have hlooks : ¬ LooksIfRange (k, buf) := fun h => absurd (hk.symm.trans h.1) (by decide)
  have hims : upsgi_proto_key (lit "HTTP_IF_MODIFIED_SINCE") (k ++ rest) = true ↔
      k = lit "HTTP_IF_MODIFIED_SINCE" := upsgi_proto_key_iff rest hk
  unfold upsgi_proto_check_22 fileVar
  rw [if_neg hrange, if_neg hlooks]
  by_cases hk : k = lit "HTTP_IF_MODIFIED_SINCE"
  · rw [if_pos hk, if_pos (hims.mpr hk)]
    exact .some rfl
  · rw [if_neg hk, if_neg (fun h => hk (hims.mp h))]
    refine .ite (.some rfl) ?_
    -- the scheme is none of the fields
    by_cases hproto : upsgi_proto_key (lit "HTTP_X_FORWARDED_PROTO") (k ++ rest)
    · rw [if_pos hproto]
      exact .ite (leaves_transfer_encoding { req with scheme := buf } buf) (.some rfl)
    · rw [if_neg hproto]
      exact .ite (leaves_transfer_encoding req buf) (.some rfl)

/-- The hook that is run for a variable does what `fileVar` says. -/
theorem leaves_runHook (e : Pair) (hon : cfg.honour_range = true) :
    Leaves (fileVar req.fileVars e) (runHook (upsgi_proto_hooks_setup cfg) req e) := by
  obtain ⟨k, v⟩ := e
  by_cases h10 : k.length = 10
  · simp only [runHook, h10, upsgi_proto_hooks_setup]
    exact leaves_check_10 req v hon h10
  by_cases h22 : k.length = 22
  · simp only [runHook, h22, upsgi_proto_hooks_setup]
    rw [if_pos (by decide), List.append_assoc]
    exact leaves_check_22 req v h22
  have hkeep : fileVar req.fileVars (k, v) = req.fileVars := by
    unfold fileVar
    rw [if_neg (by rintro rfl; exact h10 (by decide)), if_neg (fun h => h10 h.1),
      if_neg (by rintro rfl; exact h22 (by decide))]
  rw [hkeep]
  refine .ite ?_ (.some rfl)
  cases hhook : upsgi_proto_hooks_setup cfg k.length with
  | none => exact .some rfl
  | some hook => exact leaves_other cfg req _ v hhook h10 h22

end hooks

/-! ### The variable loop -/

section loop

variable {cfg : VarsConfig}

/-- Step: storing a variable does what `fileVar` says. -/
theorem storeVar_fileVars {req req' : WsgiRequest} {e : Pair} (hon : cfg.honour_range = true)
    (h : storeVar cfg (upsgi_proto_hooks_setup cfg) req e = some req') :
    req'.fileVars = fileVar req.fileVars e := by
  obtain ⟨req1, value, hhook, rfl⟩ := storeVar_some h
  exact leaves_runHook _ e hon _ hhook

/-- Run: and so does the loop, for all variables. -/
theorem foldlM_fileVars (hon : cfg.honour_range = true) (es : List Pair) (req req' : WsgiRequest)
    (h : es.foldlM (storeVar cfg (upsgi_proto_hooks_setup cfg)) req = some req') :
    req'.fileVars = es.foldl fileVar req.fileVars := by
  induction es generalizing req with
  | nil =>
    cases h
    rfl
  | cons e es ih =>
    obtain ⟨req1, hstep, hrun⟩ := Option.bind_eq_some_iff.mp h
    rw [List.foldl_cons, ← storeVar_fileVars hon hstep]
    exact ih req1 hrun

end loop

/-! ### Serving a packet -/

/-- A value of a variable, in front of what is behind it in the memory. -/
def textAt (behind : Bytes → Nat → UInt8) (text : Bytes) : HeaderText :=
  ⟨fun i => if i < text.length then text.getD i 0 else behind text (i - text.length), text.length⟩

/-- The range fields before the file is known.  A request starts without a range. -/
def varsRange (vars : FileVars) : Option ByteRange :=
  match vars.range with
  | none => some ⟨.notParsed, 0, 0⟩
  | some buf => upsgi_parse_http_range buf

/-- A request for a file. -/
structure FileContext where
  timegm : Tm → Int
  behind : Bytes → Nat → UInt8
  mode : FileServeMode
  ignore_body : Bool
  st : FileStat

variable (ctx : FileContext)

def FileContext.request (vars : FileVars) (head : Bool) (range : ByteRange) : FileRequest :=
  ⟨range, vars.if_range.map (textAt ctx.behind), textAt ctx.behind vars.if_modified_since, head,
    ctx.ignore_body⟩

/-- What is sent for a request with these variables. -/
def FileContext.serve (vars : FileVars) (head : Bool) : Option FileResponse :=
  (varsRange vars).bind fun range =>
    upsgi_real_file_serve ctx.timegm ctx.mode (ctx.request vars head range) ctx.st

/-- `upsgi_real_file_serve` on a request whose variables were parsed. -/
def FileContext.serveRequest (req : WsgiRequest) : Option FileResponse :=
  ctx.serve req.fileVars (upsgi_strncmp req.method (lit "HEAD") == 0)

/-- The response is the whole file, or leaves the whole file to the frontend. -/
structure FullFile (transfers : Prop) (size : Nat) (resp : FileResponse) : Prop where
  status : resp.status = 200
  no_range : resp.content_range = none
  whole : resp.delegated = false → resp.content_length = some (size : Int) ∧
    (transfers → resp.sent = if size = 0 then none else some (0, (size : Int)))

/-- A date that is not before the last change of the file. -/
def CurrentAt (date : Bytes → Option Int) (st : FileStat) (value : Bytes) : Prop :=
  ∃ d, date value = some d ∧ st.st_mtime ≤ d

/-- What `If-Range` is for: a part of the file is sent only if the file has not
    changed since the date, and otherwise the whole file is sent.  A request that is
    answered by 304 has nothing to do with ranges. -/
structure IfRangeHonoured (date : Bytes → Option Int) (es : List Pair) (head : Bool)
    (resp : Option FileResponse) : Prop where
  part : ∀ r, resp = some r → r.status = 206 →
    ∀ value, (lit "HTTP_IF_RANGE", value) ∈ es → CurrentAt date ctx.st value
  full : ∀ value, (lit "HTTP_IF_RANGE", value) ∈ es → ¬ CurrentAt date ctx.st value →
    ∃ r, resp = some r ∧
      (r.status = 304 ∨ FullFile (head = false ∧ ctx.ignore_body = false) ctx.st.st_size r)

/-- The whole file is sent whatever `If-Range` says. -/
def SendsWhole (vars : FileVars) (range : ByteRange) : Prop :=
  let req := ctx.request vars false range
  let fixed := upsgi_fix_range_for_size range ctx.st.st_size
  notModified ctx.timegm req ctx.st = true ∨ fixed.parsed = .notParsed ∨
    (ctx.mode ≠ .raw ∧ fixed.parsed = .valid ∧ ctx.st.st_mtime ≤ ifRangeDate ctx.timegm req)

/-! ### The range of a request -/

theorem parseRangeSpan_state {first last : Bytes} {r : ByteRange}
    (h : parseRangeSpan first last = some r) : r.parsed = .parsed ∨ r.parsed = .invalid := by
  unfold parseRangeSpan at h
  simp only [Option.bind_eq_bind, Option.bind_eq_some_iff] at h
  obtain ⟨from_num, -, to_num, -, hr⟩ := h
  split at hr
  · cases hr
    exact .inl rfl
  · cases hr
    exact .inr rfl

theorem parseRangeSuffix_state {last : Bytes} {r : ByteRange}
    (h : parseRangeSuffix last = some r) : r.parsed = .parsed ∨ r.parsed = .invalid := by
  unfold parseRangeSuffix at h
  simp only [Option.bind_eq_bind, Option.bind_eq_some_iff] at h
  obtain ⟨num, -, hr⟩ := h
  split at hr
  · nomatch hr
  · split at hr
    · cases hr
      exact .inl rfl
    · cases hr
      exact .inr rfl

/-- The parser of the header never says that there is no range. -/
theorem upsgi_parse_http_range_state {buf : Bytes} {r : ByteRange}
    (h : upsgi_parse_http_range buf = some r) : r.parsed = .parsed ∨ r.parsed = .invalid := by
  by_cases hshape : ∃ first last, RangeOf buf first last
  · obtain ⟨first, last, hof⟩ := hshape
    rw [upsgi_parse_http_range_of hof] at h
    split at h
    · exact parseRangeSpan_state h
    · exact parseRangeSuffix_state h
  · rw [upsgi_parse_http_range_not fun first last hof => hshape ⟨first, last, hof⟩] at h
    cases h
    exact .inr rfl

theorem fix_range_parsed {range : ByteRange} {size : Int} (h : range.parsed = .parsed) :
    let fixed := upsgi_fix_range_for_size range size
    fixed.parsed ≠ .parsed ∧ (fixed.parsed = .notParsed → fixed.range_from = 0) := by
  unfold upsgi_fix_range_for_size
  rw [if_neg (not_not_intro h)]
  dsimp only
  generalize (if range.range_from < 0 then size + range.range_from else range.range_from) = lo
  generalize (if size - 1 < range.range_to then size - 1 else range.range_to) = hi
  split
  · next hwhole => exact ⟨RangeState.noConfusion, fun _ => hwhole.1⟩
  · split <;> exact ⟨RangeState.noConfusion, (fun h => nomatch h)⟩

/-- No range means that the file is sent from its start. -/
theorem varsRange_fix {vars : FileVars} {range : ByteRange} {size : Int}
    (h : varsRange vars = some range) :
    let fixed := upsgi_fix_range_for_size range size
    fixed.parsed ≠ .parsed ∧ (fixed.parsed = .notParsed → fixed.range_from = 0) := by
  unfold varsRange at h
  split at h
  · cases h
    exact ⟨RangeState.noConfusion, fun _ => rfl⟩
  · rcases upsgi_parse_http_range_state h with hparsed | hinvalid
    · exact fix_range_parsed hparsed
    · have hsame : upsgi_fix_range_for_size range size = range := by
        unfold upsgi_fix_range_for_size
        rw [hinvalid, if_pos (by decide)]
      dsimp only
      rw [hsame, hinvalid]
      exact ⟨RangeState.noConfusion, (fun h => nomatch h)⟩

/-! ### The responses -/

section responses

variable {ctx} {vars : FileVars} {head : Bool} {range : ByteRange}

theorem sendFile_full {fixed : ByteRange} (hsize : ctx.st.st_size < 2 ^ 63)
    (h : fixed.parsed = .notParsed) (hfrom : fixed.range_from = 0) :
    ∃ r, sendFile ctx.mode (ctx.request vars head range) ctx.st fixed 200 ctx.st.st_size = some r ∧
      FullFile (head = false ∧ ctx.ignore_body = false) ctx.st.st_size r := by
  cases ctx.mode with
  | nginx | apache => exact ⟨_, rfl, rfl, rfl, (fun h => nomatch h)⟩
  | raw =>
    refine ⟨_, sendFile_raw_whole h, rfl, rfl, fun _ => ⟨rfl, ?_⟩⟩
    rintro ⟨rfl, hbody⟩
    rw [hfrom]
    exact sendfile_whole hsize hbody

/-- The status is the one that was chosen, and a valid range has its header. -/
theorem sendFile_raw_some {req : FileRequest} {st : FileStat} {fixed : ByteRange} {status : Nat}
    {fsize : Int} {r : FileResponse} (hvalid : fixed.parsed = .valid)
    (h : sendFile .raw req st fixed status fsize = some r) :
    r.status = status ∧ r.content_range ≠ none := by
  obtain ⟨r', hrange, hr⟩ := Option.map_eq_some_iff.mp h
  have hresp : r'.status = status ∧ r'.content_range ≠ none := by
    unfold sendRange upsgi_response_add_content_range at hrange
    split_ifs at hrange <;> (cases hrange; exact ⟨rfl, Option.some_ne_none _⟩)
  subst hr
  split <;> exact hresp

theorem serve_eq (hrange : varsRange vars = some range) :
    ctx.serve vars head =
      upsgi_real_file_serve ctx.timegm ctx.mode (ctx.request vars head range) ctx.st := by
  unfold FileContext.serve
  rw [hrange]
  rfl

/-- If the whole file is sent anyway, it is sent. -/
theorem serve_full (hsize : ctx.st.st_size < 2 ^ 63) (hrange : varsRange vars = some range)
    (h : SendsWhole ctx vars range) :
    ∃ r, ctx.serve vars head = some r ∧ (r.status = 304 ∨
      FullFile (head = false ∧ ctx.ignore_body = false) ctx.st.st_size r) := by
  rw [serve_eq hrange]
  cases hmodified : notModified ctx.timegm (ctx.request vars head range) ctx.st with
  | true => exact ⟨_, real_file_serve_notModified hmodified, .inl rfl⟩
  | false =>
    rcases h with hnot | hnone | ⟨hmode, hvalid, hdate⟩
    · nomatch hmodified.symm.trans hnot
    · rw [real_file_serve_whole hmodified hnone]
      obtain ⟨r, hr, hfull⟩ := sendFile_full hsize hnone ((varsRange_fix hrange).2 hnone)
      exact ⟨r, hr, .inr hfull⟩
    · have hlate : ¬ ifRangeDate ctx.timegm (ctx.request vars head range) < ctx.st.st_mtime :=
        Int.not_lt.mpr hdate
      rw [real_file_serve_valid hmodified hvalid]
      rw [if_neg hlate]
      cases hm : ctx.mode with
      | nginx | apache => exact ⟨_, rfl, .inr ⟨rfl, rfl, (fun h => nomatch h)⟩⟩
      | raw => exact absurd hm hmode

/-- Otherwise a part of it is sent, or something that is neither. -/
theorem serve_part {r : FileResponse} (hrange : varsRange vars = some range)
    (h : ¬ SendsWhole ctx vars range) (hr : ctx.serve vars head = some r) :
    r.status = 206 ∨ (r.status ≠ 304 ∧ ∀ transfers, ¬ FullFile transfers ctx.st.st_size r) := by
  obtain ⟨hchanged, hsome, hfront⟩ := not_or.mp h |>.imp_right not_or.mp
  have hmodified : notModified ctx.timegm (ctx.request vars head range) ctx.st = false :=
    Bool.eq_false_of_not_eq_true hchanged
  rw [serve_eq hrange] at hr
  cases hstate : (upsgi_fix_range_for_size range ctx.st.st_size).parsed with
  | notParsed => exact absurd hstate hsome
  | parsed => exact absurd hstate (varsRange_fix hrange).1
  | invalid =>
    rw [real_file_serve_unsatisfied hmodified hstate] at hr
    cases hr
    exact .inr ⟨(fun h304 => nomatch h304), fun _ hfull => nomatch hfull.status⟩
  | valid =>
    rw [real_file_serve_valid hmodified hstate] at hr
    split at hr
    · next hdate =>
      left
      cases hm : ctx.mode with
      | nginx | apache =>
        rw [hm] at hr
        cases hr
        rfl
      | raw =>
        rw [hm] at hr
        exact (sendFile_raw_some hstate hr).1
    · next hdate =>
      -- the date is only looked at in the raw mode
      have hraw : ctx.mode = .raw := by
        by_contra hmode
        exact hfront ⟨hmode, hstate, Int.not_lt.mp hdate⟩
      rw [hraw] at hr
      obtain ⟨hstatus, hheader⟩ := sendFile_raw_some hstate hr
      exact .inr ⟨by rw [hstatus]; decide, fun _ hfull => hheader hfull.no_range⟩

end responses

/-- **`If-Range` is honoured exactly where it does not matter**: its value meets the
    condition for a part of the file, or the whole file is sent anyway. -/
theorem if_range_honoured_iff {cfg : VarsConfig} (hon : cfg.honour_range = true) {buffer : Bytes}
    {es : List Pair} {req : WsgiRequest} (hvars : packetVars buffer = some es)
    (hparse : upsgi_parse_vars_loop cfg (upsgi_proto_hooks_setup cfg) {} buffer = some req)
    (hsize : ctx.st.st_size < 2 ^ 63) (date : Bytes → Option Int) :
    IfRangeHonoured ctx date es (upsgi_strncmp req.method (lit "HEAD") == 0)
        (ctx.serveRequest req) ↔
      (∀ value, (lit "HTTP_IF_RANGE", value) ∈ es → CurrentAt date ctx.st value) ∨
        ∃ range, varsRange (es.foldl fileVar {}) = some range ∧
          SendsWhole ctx (es.foldl fileVar {}) range := by
  rw [upsgi_parse_vars_loop_eq, hvars, Option.bind_some] at hparse
  have hreq : req.fileVars = es.foldl fileVar {} := foldlM_fileVars hon es {} req hparse
  unfold FileContext.serveRequest
  rw [hreq]
  generalize es.foldl fileVar {} = vars
  generalize (upsgi_strncmp req.method (lit "HEAD") == 0) = head
  constructor
  · intro hhonoured
    by_contra hnot
    obtain ⟨hbad, hpart⟩ := not_or.mp hnot
    obtain ⟨value, hvalue⟩ := not_forall.mp hbad
    obtain ⟨hmem, hcurrent⟩ := Classical.not_imp.mp hvalue
    obtain ⟨r, hr, hanswer⟩ := hhonoured.full value hmem hcurrent
    obtain ⟨range, hrange, -⟩ := Option.bind_eq_some_iff.mp hr
    rcases serve_part hrange (fun h => hpart ⟨range, hrange, h⟩) hr with h206 | ⟨h304, hfull⟩
    · exact hcurrent (hhonoured.part r hr h206 value hmem)
    · rcases hanswer with hstatus | hwhole
      · exact h304 hstatus
      · exact hfull _ hwhole
  · rintro (hgood | ⟨range, hrange, hwhole⟩)
    · exact ⟨fun _ _ _ => hgood, fun value hmem hbad => absurd (hgood value hmem) hbad⟩
    · obtain ⟨r, hr, hanswer⟩ := @serve_full ctx vars head range hsize hrange hwhole
      refine ⟨fun r' hr' h206 => ?_, fun _ _ _ => ⟨r, hr, hanswer⟩⟩
      cases hr.symm.trans hr'
      rcases hanswer with h304 | hfull
      · rw [h304] at h206
        nomatch h206
      · rw [hfull.status] at h206
        nomatch h206

/-- A packet that asks for four bytes under a condition. -/
def conditionalVars (value : Bytes) : List Pair :=
  [(lit "HTTP_IF_RANGE", value), (lit "HTTP_RANGE", lit "bytes=2-5")]

def conditionalConfig : VarsConfig :=
  ⟨100, 0, true, false, false, fun _ => false⟩

/-- The file of ten bytes that was modified at the time 100. -/
def conditionalFile : FileContext :=
  ⟨fun _ => 0, fun _ _ => 0, .raw, false, tenBytes⟩

/-- A date after the last change. -/
theorem if_range_honoured_current :
    ∃ req, upsgi_parse_vars_loop conditionalConfig (upsgi_proto_hooks_setup conditionalConfig) {}
        (packet (conditionalVars (lit "Thu, 01 Jan 1970 00:03:20 GMT"))) = some req ∧
      IfRangeHonoured conditionalFile (fun _ => some 200)
        (conditionalVars (lit "Thu, 01 Jan 1970 00:03:20 GMT"))
        (upsgi_strncmp req.method (lit "HEAD") == 0) (conditionalFile.serveRequest req) := by
  obtain ⟨req, hparse⟩ : ∃ req, upsgi_parse_vars_loop conditionalConfig
      (upsgi_proto_hooks_setup conditionalConfig) {}
      (packet (conditionalVars (lit "Thu, 01 Jan 1970 00:03:20 GMT"))) = some req := ⟨_, rfl⟩
  have hvars : packetVars (packet (conditionalVars (lit "Thu, 01 Jan 1970 00:03:20 GMT"))) =
      some (conditionalVars (lit "Thu, 01 Jan 1970 00:03:20 GMT")) := by decide
  have hiff := if_range_honoured_iff conditionalFile rfl hvars hparse (by decide) fun _ => some 200
  exact ⟨req, hparse, hiff.mpr (.inl fun _ _ => ⟨200, rfl, by decide⟩)⟩

/-- An entity tag is no date, but a part of the file is sent. -/
theorem if_range_entity_tag :
    ∃ req, upsgi_parse_vars_loop conditionalConfig (upsgi_proto_hooks_setup conditionalConfig) {}
        (packet (conditionalVars (lit "\"v1\""))) = some req ∧
      conditionalFile.serveRequest req = some
        { status := 206, content_length := some 4, content_range := some (.bytes 2 5 10),
          sent := some (2, 4) } ∧
      ∀ date : Bytes → Option Int, date (lit "\"v1\"") = none →
        ¬ IfRangeHonoured conditionalFile date (conditionalVars (lit "\"v1\""))
          (upsgi_strncmp req.method (lit "HEAD") == 0) (conditionalFile.serveRequest req) := by
  have hserve : ∃ req, upsgi_parse_vars_loop conditionalConfig
        (upsgi_proto_hooks_setup conditionalConfig) {}
        (packet (conditionalVars (lit "\"v1\""))) = some req ∧
      conditionalFile.serveRequest req = some
        { status := 206, content_length := some 4, content_range := some (.bytes 2 5 10),
          sent := some (2, 4) } :=
    ⟨_, rfl, by decide⟩
  obtain ⟨req, hparse, hresp⟩ := hserve
  refine ⟨req, hparse, hresp, fun date hdate hhonoured => ?_⟩
  obtain ⟨d, hd, -⟩ := hhonoured.part _ hresp rfl _ List.mem_cons_self
  nomatch hdate.symm.trans hd

end Upsgi
