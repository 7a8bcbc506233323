import Upsgi.Core.Protocol

/-! # How the variables frame the request body

    Of all variables only `CONTENT_LENGTH` and `HTTP_TRANSFER_ENCODING` decide
    where the body of a request ends.  The lemmas here follow the three fields
    of the request that hold this decision through the hooks and through the
    variable loop.
-/

namespace Upsgi

open Framing List

/-- The fields that say where the body ends. -/
structure BodyFrame where
  body_is_chunked : Bool
  has_content_length : Bool
  post_cl : Nat
  deriving DecidableEq

/-- The frame of a request. -/
def WsgiRequest.bodyFrame (req : WsgiRequest) : BodyFrame :=
  ⟨req.body_is_chunked, req.has_content_length, req.post_cl⟩

/-- What one variable does to the frame: `none` when its hook fails. -/
def frameVar (cfg : VarsConfig) (fr : BodyFrame) (e : Pair) : Option BodyFrame :=
  if e.1 = lit "CONTENT_LENGTH" then
    match get_content_length e.2 with
    | none => none
    | some n =>
        if fr.body_is_chunked then none
        else if cfg.limit_post ≠ 0 ∧ cfg.limit_post < n then none
        else some { fr with post_cl := n, has_content_length := true }
  else if e.1 = lit "HTTP_TRANSFER_ENCODING" then
    if upsgi_strnicmp e.2 (lit "chunked") = 0 then
      if fr.has_content_length then none else some { fr with body_is_chunked := true }
    else some fr
  else some fr

/-! ### The hooks -/

/-- The result of a hook, as far as the frame is concerned. -/
def hookFrame (r : Option (WsgiRequest × Bytes)) : Option BodyFrame :=
  r.map fun x => x.1.bodyFrame

/-- Both branches of a hook are looked at on their own. -/
theorem hookFrame_ite {c : Prop} [Decidable c] {a b : Option (WsgiRequest × Bytes)}
    {fr : Option BodyFrame} (ha : hookFrame a = fr) (hb : hookFrame b = fr) :
    hookFrame (if c then a else b) = fr := by
  split
  · exact ha
  · exact hb

section hooks

variable (cfg : VarsConfig) (req : WsgiRequest) (key buf : Bytes)

theorem hookFrame_check_10 :
    hookFrame (upsgi_proto_check_10 cfg req key buf) = some req.bodyFrame := by
  have hrange : (if cfg.honour_range && upsgi_proto_key (lit "HTTP_IF_RANGE") key then
      { req with if_range := some buf } else req).bodyFrame = req.bodyFrame := by
    split <;> rfl
  repeat' apply hookFrame_ite
  all_goals first | rfl | exact congrArg some hrange

theorem bodyFrame_setenv : (upsgi_setenv req buf).1.bodyFrame = req.bodyFrame := by
  unfold upsgi_setenv
  dsimp only
  split
  · rfl
  · split <;> rfl

theorem hookFrame_check_12 :
    hookFrame (upsgi_proto_check_12 cfg req key buf) = some req.bodyFrame := by
  repeat' apply hookFrame_ite
  all_goals first | rfl | exact congrArg some (bodyFrame_setenv req buf)

theorem hookFrame_check_20 :
    hookFrame (upsgi_proto_check_20 cfg req key buf) = some req.bodyFrame := by
  have hssl : (if upsgi_proto_key (lit "HTTP_X_FORWARDED_SSL") key then { req with https := buf }
      else req).bodyFrame = req.bodyFrame := by
    split <;> rfl
  repeat' apply hookFrame_ite
  all_goals first | rfl | exact congrArg some hssl

/-- A key of the length of the name it is compared with. -/
theorem upsgi_proto_key_iff {x k : Bytes} (rest : Bytes) (h : k.length = x.length) :
    upsgi_proto_key x (k ++ rest) = true ↔ k = x := by
  unfold upsgi_proto_key
  rw [decide_eq_true_eq, ← h, take_left]

theorem hookFrame_check_14 {k rest : Bytes} (hk : k.length = 14) :
    hookFrame (upsgi_proto_check_14 cfg req (k ++ rest) buf) = frameVar cfg req.bodyFrame (k, buf) := by
  have hte : k ≠ lit "HTTP_TRANSFER_ENCODING" := by
    rintro rfl
    nomatch hk
  unfold upsgi_proto_check_14 frameVar
  simp only [upsgi_proto_key_iff rest (show k.length = (lit "REQUEST_METHOD").length from hk),
    upsgi_proto_key_iff rest (show k.length = (lit "CONTENT_LENGTH").length from hk), hte, if_false]
  by_cases hm : k = lit "REQUEST_METHOD"
  · have hcl : k ≠ lit "CONTENT_LENGTH" := by rw [hm]; decide
    rw [if_pos hm, if_neg hcl]
    rfl
  · rw [if_neg hm]
    by_cases hcl : k = lit "CONTENT_LENGTH"
    · rw [if_pos hcl, if_pos hcl]
      unfold upsgi_content_length
      cases get_content_length buf with
      | none => rfl
      | some n =>
        cases hb : req.body_is_chunked <;>
          by_cases hl : cfg.limit_post ≠ 0 ∧ cfg.limit_post < n <;>
          simp [hb, hl, hookFrame, WsgiRequest.bodyFrame]
    · rw [if_neg hcl, if_neg hcl]
      repeat' apply hookFrame_ite
      all_goals rfl

theorem hookFrame_check_22 {k rest : Bytes} (hk : k.length = 22) :
    hookFrame (upsgi_proto_check_22 req (k ++ rest) buf) = frameVar cfg req.bodyFrame (k, buf) := by
  have hcl : k ≠ lit "CONTENT_LENGTH" := by
    rintro rfl
    nomatch hk
  unfold upsgi_proto_check_22 frameVar
  simp only [upsgi_proto_key_iff rest (show k.length = (lit "HTTP_TRANSFER_ENCODING").length from hk),
    upsgi_proto_key_iff rest (show k.length = (lit "HTTP_IF_MODIFIED_SINCE").length from hk),
    upsgi_proto_key_iff rest (show k.length = (lit "HTTP_SEC_WEBSOCKET_KEY").length from hk),
    upsgi_proto_key_iff rest (show k.length = (lit "HTTP_X_FORWARDED_PROTO").length from hk), hcl,
    if_false]
  by_cases hte : k = lit "HTTP_TRANSFER_ENCODING"
  · have h1 : k ≠ lit "HTTP_IF_MODIFIED_SINCE" := by rw [hte]; decide
    have h2 : k ≠ lit "HTTP_SEC_WEBSOCKET_KEY" := by rw [hte]; decide
    have h3 : k ≠ lit "HTTP_X_FORWARDED_PROTO" := by rw [hte]; decide
    rw [if_neg h1, if_neg h2, if_neg h3, if_pos hte, if_pos hte]
    unfold upsgi_transfer_encoding
    cases hb : req.has_content_length <;>
      by_cases hc : upsgi_strnicmp buf (lit "chunked") = 0 <;>
      simp [hb, hc, hookFrame, WsgiRequest.bodyFrame]
  · have hscheme : (if k = lit "HTTP_X_FORWARDED_PROTO" then { req with scheme := buf }
        else req).bodyFrame = req.bodyFrame := by
      split <;> rfl
    simp only [hte, if_false]
    repeat' apply hookFrame_ite
    all_goals first | rfl | exact congrArg some hscheme

end hooks

/-- No hook but those of the two lengths touches the frame. -/
theorem hookFrame_other {cfg : VarsConfig} {n : Nat} {hook : Hook}
    (h : upsgi_proto_hooks_setup cfg n = some hook) (h14 : n ≠ 14) (h22 : n ≠ 22)
    (req : WsgiRequest) (key buf : Bytes) :
    hookFrame (hook req key buf) = some req.bodyFrame := by
  unfold upsgi_proto_hooks_setup at h
  split at h
  case h_7 => nomatch h14
  case h_11 => nomatch h22
  case h_13 => cases h
  all_goals cases h
  case h_3 => exact hookFrame_check_10 cfg req key buf
  case h_5 => exact hookFrame_check_12 cfg req key buf
  case h_10 => exact hookFrame_check_20 cfg req key buf
  -- the others set one field in each branch
  all_goals
    repeat' apply hookFrame_ite
    all_goals rfl

/-- The hook that is run for a variable changes the frame as `frameVar` says. -/
theorem hookFrame_runHook (cfg : VarsConfig) (req : WsgiRequest) (e : Pair) :
    hookFrame (runHook (upsgi_proto_hooks_setup cfg) req e) = frameVar cfg req.bodyFrame e := by
  obtain ⟨k, v⟩ := e
  by_cases h14 : k.length = 14
  · simp only [runHook, h14, upsgi_proto_hooks_setup]
    rw [if_pos (by decide), append_assoc]
    exact hookFrame_check_14 cfg req v h14
  by_cases h22 : k.length = 22
  · simp only [runHook, h22, upsgi_proto_hooks_setup]
    rw [if_pos (by decide), append_assoc]
    exact hookFrame_check_22 cfg req v h22
  -- no other hook touches the frame
  have hcl : k ≠ lit "CONTENT_LENGTH" := by
    rintro rfl
    exact h14 (by decide)
  have hte : k ≠ lit "HTTP_TRANSFER_ENCODING" := by
    rintro rfl
    exact h22 (by decide)
  have hframe : frameVar cfg req.bodyFrame (k, v) = some req.bodyFrame := by
    simp [frameVar, hcl, hte]
  rw [hframe]
  unfold runHook
  split
  · cases hhook : upsgi_proto_hooks_setup cfg k.length with
    | none => rfl
    | some hook => exact hookFrame_other hhook h14 h22 _ _ _
  · rfl

/-! ### The variable loop -/

/-- Step: storing a variable changes the frame as `frameVar` says. -/
theorem storeVar_bodyFrame {cfg : VarsConfig} {req req' : WsgiRequest} {e : Pair}
    (h : storeVar cfg (upsgi_proto_hooks_setup cfg) req e = some req') :
    frameVar cfg req.bodyFrame e = some req'.bodyFrame := by
  obtain ⟨req1, value, hhook, rfl⟩ := storeVar_some h
  have hframe := hookFrame_runHook cfg { req with hvec := setVec req.hvec req.var_cnt e.1 } e
  rw [hhook] at hframe
  exact hframe.symm

/-- Run: so does the whole loop. -/
theorem foldlM_bodyFrame {cfg : VarsConfig} : ∀ (es : List Pair) (req req' : WsgiRequest),
    es.foldlM (storeVar cfg (upsgi_proto_hooks_setup cfg)) req = some req' →
    es.foldlM (frameVar cfg) req.bodyFrame = some req'.bodyFrame
  | [], req, req', h => by
      simp only [List.foldlM_nil, Option.pure_def, Option.some.injEq] at h
      simp [h]
  | e :: es, req, req', h => by
      obtain ⟨req1, h1, h2⟩ := Option.bind_eq_some_iff.mp h
      rw [foldlM_cons, storeVar_bodyFrame h1]
      exact foldlM_bodyFrame es req1 req' h2

/-- A variable that makes the body chunked. -/
def MakesChunked (e : Pair) : Prop :=
  e.1 = lit "HTTP_TRANSFER_ENCODING" ∧ upsgi_strnicmp e.2 (lit "chunked") = 0

instance (e : Pair) : Decidable (MakesChunked e) :=
  inferInstanceAs (Decidable (_ ∧ _))

theorem frameVar_chunked {cfg : VarsConfig} {fr fr' : BodyFrame} {e : Pair}
    (h : frameVar cfg fr e = some fr') :
    fr'.body_is_chunked = true ↔ fr.body_is_chunked = true ∨ MakesChunked e := by
  have hne : lit "CONTENT_LENGTH" ≠ lit "HTTP_TRANSFER_ENCODING" := by decide
  unfold frameVar at h
  unfold MakesChunked
  split at h
  · next hcl =>
    rw [hcl]
    split at h
    · cases h
    · split at h
      · cases h
      · split at h
        · cases h
        · cases h
          simp [hne]
  · split at h
    · next hte =>
      split at h
      · next hc =>
        split at h
        · cases h
        · cases h
          simp [hte, hc]
      · next hc =>
        cases h
        simp [hc]
    · next hte =>
      cases h
      simp [hte]

/-- After the loop the body is chunked exactly when some variable made it so. -/
theorem foldlM_frameVar_chunked {cfg : VarsConfig} : ∀ (es : List Pair) (fr fr' : BodyFrame),
    es.foldlM (frameVar cfg) fr = some fr' →
    (fr'.body_is_chunked = true ↔ fr.body_is_chunked = true ∨ ∃ e ∈ es, MakesChunked e)
  | [], fr, fr', h => by
      simp only [List.foldlM_nil, Option.pure_def, Option.some.injEq] at h
      simp [h]
  | e :: es, fr, fr', h => by
      obtain ⟨fr1, h1, h2⟩ := Option.bind_eq_some_iff.mp h
      rw [foldlM_frameVar_chunked es fr1 fr' h2, frameVar_chunked h1, or_assoc]
      simp

/-- The same of the variable loop on a packet. -/
theorem body_is_chunked_iff {cfg : VarsConfig} {buf : Bytes} {r : WsgiRequest}
    (h : upsgi_parse_vars_loop cfg (upsgi_proto_hooks_setup cfg) {} buf = some r) :
    r.body_is_chunked = true ↔ ∃ es, packetVars buf = some es ∧ ∃ e ∈ es, MakesChunked e := by
  rw [upsgi_parse_vars_loop_eq, Option.bind_eq_some_iff] at h
  obtain ⟨es, hcut, hfold⟩ := h
  have := foldlM_frameVar_chunked es _ _ (foldlM_bodyFrame es _ _ hfold)
  rw [show r.bodyFrame.body_is_chunked = r.body_is_chunked from rfl] at this
  rw [this, hcut]
  simp [WsgiRequest.bodyFrame]

/-! ### The declared length -/

/-- A decimal digit. -/
def IsDecimal (c : UInt8) : Prop :=
  48 ≤ c ∧ c ≤ 57

/-- The number written by the digits behind those already read as `val`. -/
def decimalFrom (val : Nat) (digits : Bytes) : Nat :=
  digits.foldl (fun n c => n * 10 + (c.toNat - 48)) val

@[simp] theorem decimalFrom_nil (val : Nat) : decimalFrom val [] = val := rfl

@[simp] theorem decimalFrom_cons (val : Nat) (c : UInt8) (digits : Bytes) :
    decimalFrom val (c :: digits) = decimalFrom (val * 10 + (c.toNat - 48)) digits := by
  unfold decimalFrom
  rw [foldl_cons]

/-- The value of a decimal number. -/
def decimalValue (digits : Bytes) : Nat :=
  decimalFrom 0 digits

/-- Reading on never makes the number smaller. -/
theorem le_decimalFrom (digits : Bytes) (val : Nat) : val ≤ decimalFrom val digits := by
  induction digits generalizing val with
  | nil => exact Nat.le_refl val
  | cons c digits ih =>
    have := ih (val * 10 + (c.toNat - 48))
    rw [decimalFrom_cons]
    omega

theorem isDecimal_iff (c : UInt8) : IsDecimal c ↔ ¬ (c < 48 ∨ 57 < c) := by
  unfold IsDecimal
  rw [not_or, UInt8.not_lt, UInt8.not_lt]

/-- The guard of the digit loop: it refuses exactly the numbers that would not
    fit in a `size_t`. -/
theorem overflow_guard_iff (val : Nat) {c : UInt8} (hc : IsDecimal c) :
    (SIZE_MAX - (c.toNat - 48)) / 10 < val ↔ SIZE_MAX < val * 10 + (c.toNat - 48) := by
  have h57 : c.toNat ≤ 57 := UInt8.le_iff_toNat_le.mp hc.2
  unfold SIZE_MAX
  omega

/-- The digit loop gives back the number, provided that it is one and fits. -/
theorem get_content_length_loop_iff (buf : Bytes) (val n : Nat) (hval : val ≤ SIZE_MAX) :
    get_content_length_loop val buf = some n ↔
      (∀ c ∈ buf, IsDecimal c) ∧ decimalFrom val buf = n ∧ n ≤ SIZE_MAX := by
  induction buf generalizing val with
  | nil =>
    simp only [get_content_length_loop, decimalFrom_nil, Option.some.injEq]
    constructor
    · intro h
      subst h
      exact ⟨by simp, rfl, hval⟩
    · intro h
      exact h.2.1
  | cons c buf ih =>
    rw [get_content_length_loop, decimalFrom_cons, forall_mem_cons]
    by_cases hc : IsDecimal c
    · rw [if_neg ((isDecimal_iff c).mp hc)]
      by_cases hfit : val * 10 + (c.toNat - 48) ≤ SIZE_MAX
      · have hguard := (overflow_guard_iff val hc).not.mpr (by omega)
        rw [if_neg hguard, ih _ hfit]
        simp [hc]
      · -- the digits that follow cannot bring the number back into range
        have hguard := (overflow_guard_iff val hc).mpr (by omega)
        have hle := le_decimalFrom buf (val * 10 + (c.toNat - 48))
        rw [if_pos hguard]
        constructor
        · nofun
        · intro h
          omega
    · rw [if_pos (not_not.mp ((isDecimal_iff c).not.mp hc))]
      simp [hc]

/-- `get_content_length` accepts exactly the non-empty digit strings whose value
    fits in a `size_t`. -/
theorem get_content_length_iff (buf : Bytes) (n : Nat) :
    get_content_length buf = some n ↔
      buf ≠ [] ∧ (∀ c ∈ buf, IsDecimal c) ∧ decimalValue buf = n ∧ n ≤ SIZE_MAX := by
  unfold get_content_length
  cases buf with
  | nil => simp
  | cons c buf =>
    rw [if_neg (by simp), get_content_length_loop_iff _ 0 n (Nat.zero_le _)]
    simp [decimalValue]

/-- The last `CONTENT_LENGTH` among the variables is a decimal number of value
    `n`, within `size_t` and within the configured limit. -/
def DeclaresLength (cfg : VarsConfig) (es : List Pair) (n : Nat) : Prop :=
  ∃ before value after, es = before ++ (lit "CONTENT_LENGTH", value) :: after ∧
    (∀ e ∈ after, e.1 ≠ lit "CONTENT_LENGTH") ∧
    value ≠ [] ∧ (∀ c ∈ value, IsDecimal c) ∧ decimalValue value = n ∧
    n ≤ SIZE_MAX ∧ (cfg.limit_post ≠ 0 → n ≤ cfg.limit_post)

/-- A variable of another name leaves the declared length what it was. -/
theorem DeclaresLength.snoc {cfg : VarsConfig} {es : List Pair} {n : Nat} {e : Pair}
    (h : DeclaresLength cfg es n) (he : e.1 ≠ lit "CONTENT_LENGTH") :
    DeclaresLength cfg (es ++ [e]) n := by
  obtain ⟨before, value, after, hes, hafter, hvalue⟩ := h
  refine ⟨before, value, after ++ [e], by simp [hes], ?_, hvalue⟩
  intro e' he'
  rcases mem_append.mp he' with h | h
  · exact hafter e' h
  · rw [mem_singleton.mp h]
    exact he

/-- What holds of the frame after the variables `es`. -/
structure SingleFraming (cfg : VarsConfig) (es : List Pair) (fr : BodyFrame) : Prop where
  exclusive : ¬ (fr.body_is_chunked = true ∧ fr.has_content_length = true)
  declared : fr.has_content_length = true → DeclaresLength cfg es fr.post_cl

/-- Step: each of the two hooks looks at the flag of the other one. -/
theorem SingleFraming.frameVar {cfg : VarsConfig} {es : List Pair} {fr fr' : BodyFrame} {e : Pair}
    (hinv : SingleFraming cfg es fr) (h : frameVar cfg fr e = some fr') :
    SingleFraming cfg (es ++ [e]) fr' := by
  unfold Upsgi.frameVar at h
  split at h
  · next hcl =>
    split at h
    · cases h
    · next n hn =>
      split at h
      · cases h
      · next hchunked =>
        split at h
        · cases h
        · next hlimit =>
          cases h
          obtain ⟨hne, hdigits, hvalue, hmax⟩ := (get_content_length_iff _ _).mp hn
          constructor
          · intro hboth
            exact hchunked hboth.1
          · intro _
            -- this variable is now the last of its name
            refine ⟨es, e.2, [], by rw [← hcl], by simp, hne, hdigits, hvalue, hmax, ?_⟩
            intro hl
            exact Nat.le_of_not_lt fun hgt => hlimit ⟨hl, hgt⟩
  · next hcl =>
    have hkeep : SingleFraming cfg (es ++ [e]) fr :=
      ⟨hinv.exclusive, fun hset => (hinv.declared hset).snoc hcl⟩
    split at h
    · split at h
      · split at h
        · cases h
        · next hset =>
          cases h
          exact ⟨fun hboth => hset hboth.2, fun h => absurd h hset⟩
      · cases h
        exact hkeep
    · cases h
      exact hkeep

/-- Run: the frame stays single along the whole loop. -/
theorem SingleFraming.foldlM {cfg : VarsConfig} (es done : List Pair) (fr fr' : BodyFrame)
    (hinv : SingleFraming cfg done fr) (h : es.foldlM (Upsgi.frameVar cfg) fr = some fr') :
    SingleFraming cfg (done ++ es) fr' := by
  induction es generalizing done fr with
  | nil =>
    cases h
    rwa [append_nil]
  | cons e es ih =>
    obtain ⟨fr1, h1, h2⟩ := Option.bind_eq_some_iff.mp h
    have := ih (done ++ [e]) fr1 (hinv.frameVar h1) h2
    rwa [append_assoc] at this

/-- Whatever variables a packet holds, in whatever order and however often, a
    request that gets through the loop is framed in one way at most, and its
    content length is the one declared last. -/
theorem parse_vars_single_framing {cfg : VarsConfig} {buf : Bytes} {r : WsgiRequest}
    (h : upsgi_parse_vars_loop cfg (upsgi_proto_hooks_setup cfg) {} buf = some r) :
    ∃ es, packetVars buf = some es ∧
      ¬ (r.body_is_chunked = true ∧ r.has_content_length = true) ∧
      (r.has_content_length = true → DeclaresLength cfg es r.post_cl) := by
  rw [upsgi_parse_vars_loop_eq, Option.bind_eq_some_iff] at h
  obtain ⟨es, hcut, hfold⟩ := h
  have hstart : SingleFraming cfg [] (WsgiRequest.bodyFrame {}) :=
    ⟨fun hboth => Bool.noConfusion hboth.1, fun hset => Bool.noConfusion hset⟩
  have hend := hstart.foldlM es [] _ _ (foldlM_bodyFrame es _ _ hfold)
  exact ⟨es, hcut, hend.exclusive, hend.declared⟩

/-- Two lengths, the last one counts. -/
theorem parse_vars_single_framing_twice :
    ∃ cfg buf r es, upsgi_parse_vars_loop cfg (upsgi_proto_hooks_setup cfg) {} buf = some r ∧
      r.has_content_length = true ∧ r.post_cl = 42 ∧
      packetVars buf = some es ∧ DeclaresLength cfg es r.post_cl := by
  let cfg : VarsConfig := ⟨100, 50, false, false, false, fun _ => false⟩
  let buf := packet [(lit "CONTENT_LENGTH", lit "7"), (lit "CONTENT_LENGTH", lit "42")]
  obtain ⟨r, hr, hset, hlen⟩ : ∃ r,
      upsgi_parse_vars_loop cfg (upsgi_proto_hooks_setup cfg) {} buf = some r ∧
        r.has_content_length = true ∧ r.post_cl = 42 :=
    ⟨_, rfl, rfl, rfl⟩
  obtain ⟨es, hes, _, hdeclared⟩ := parse_vars_single_framing hr
  exact ⟨cfg, buf, r, es, hr, hset, hlen, hes, hdeclared hset⟩

end Upsgi
