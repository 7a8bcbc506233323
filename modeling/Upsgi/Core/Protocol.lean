import Upsgi.Core.Strings

/-! # Request variables

    The variable loop of `upsgi_parse_vars` (`core/protocol.c`) with the
    hooks that fill the request structure.  A request packet is a sequence
    of frames; the loop cuts them out of the buffer, runs the hook
    registered for the key length, and stores key and value in the variable
    table `hvec`.

    A pointer and a length into the packet are the bytes themselves.  The
    fields a hook sets are kept under the source's names.
-/

namespace Upsgi

open Framing List

/-! ### Request and configuration -/

/-- The largest `size_t`. -/
def SIZE_MAX : Nat := 2 ^ 64 - 1

/-- The options of `struct upsgi_server` that the variable hooks read. -/
structure VarsConfig where
  vec_size : Int
  limit_post : Nat
  honour_range : Bool
  dynamic_apps : Bool
  log_x_forwarded_for : Bool
  /-- Whether `fopen` succeeds on a path (used by `UPSGI_POSTFILE`). -/
  fopen : Bytes → Bool

/-- The part of `struct wsgi_request` that the variable loop fills. -/
structure WsgiRequest where
  hvec : List Bytes := []
  var_cnt : Nat := 0
  https : Bytes := []
  path_info : Bytes := []
  path_info_pos : Int := -1
  host : Bytes := []
  if_range : Option Bytes := none
  /-- The value last handed to `upsgi_parse_http_range`, which sets the range
      fields from it alone. -/
  range : Option Bytes := none
  file : Bytes := []
  home : Bytes := []
  dynamic : Bool := false
  script_name : Bytes := []
  script_name_pos : Int := -1
  uri : Bytes := []
  remote_user : Bytes := []
  remote_addr : Bytes := []
  cookie : Bytes := []
  appid : Bytes := []
  chdir : Bytes := []
  http_origin : Bytes := []
  query_string : Bytes := []
  content_type : Bytes := []
  referer : Bytes := []
  scheme : Bytes := []
  script : Bytes := []
  module : Bytes := []
  /-- The environment variables set by `UPSGI_SETENV`, latest first. -/
  env : List Pair := []
  document_root : Bytes := []
  method : Bytes := []
  post_cl : Nat := 0
  has_content_length : Bool := false
  body_is_chunked : Bool := false
  post_file : Option Bytes := none
  callable : Bytes := []
  protocol : Bytes := []
  user_agent : Bytes := []
  authorization : Bytes := []
  touch_reload : Bytes := []
  encoding : Bytes := []
  if_modified_since : Bytes := []
  http_sec_websocket_key : Bytes := []
  http_sec_websocket_protocol : Bytes := []

/-- A variable hook gets the request, the packet from the key on, and the
    value.  It fails (`return -1`) or gives the request back together with the
    value bytes, which `UPSGI_SETENV` changes in place. -/
abbrev Hook : Type := WsgiRequest → Bytes → Bytes → Option (WsgiRequest × Bytes)

/-- The table `upsgi.proto_hooks`, indexed by key length. -/
abbrev HookTable : Type := Nat → Option Hook

/-- `!upsgi_proto_key(x, y)`: the packet continues with the name `x`. -/
def upsgi_proto_key (x key : Bytes) : Bool :=
  decide (key.take x.length = x)

/-! ### Hooks -/

/-- The digit loop of `get_content_length`. -/
def get_content_length_loop : Nat → Bytes → Option Nat
  | val, [] => some val
  | val, c :: buf =>
      if c < 48 ∨ 57 < c then none
      else if (SIZE_MAX - (c.toNat - 48)) / 10 < val then none
      else get_content_length_loop (val * 10 + (c.toNat - 48)) buf

/-- `get_content_length`: `none` is the error return. -/
def get_content_length (buf : Bytes) : Option Nat :=
  if buf.length = 0 then none else get_content_length_loop 0 buf

def upsgi_proto_check_5 : Hook := fun req key buf =>
  if upsgi_proto_key (lit "HTTPS") key then some ({ req with https := buf }, buf)
  else some (req, buf)

def upsgi_proto_check_9 : Hook := fun req key buf =>
  if upsgi_proto_key (lit "PATH_INFO") key then
    some ({ req with path_info := buf, path_info_pos := req.var_cnt + 1 }, buf)
  else if upsgi_proto_key (lit "HTTP_HOST") key then some ({ req with host := buf }, buf)
  else some (req, buf)

/-- The comparison with `HTTP_IF_RANGE` reads thirteen bytes although the hook
    is registered for keys of ten. -/
def upsgi_proto_check_10 (cfg : VarsConfig) : Hook := fun req key buf =>
  let req :=
    if cfg.honour_range && upsgi_proto_key (lit "HTTP_IF_RANGE") key then
      { req with if_range := some buf }
    else req
  if cfg.honour_range && upsgi_proto_key (lit "HTTP_RANGE") key then
    some ({ req with range := some buf }, buf)
  else if cfg.dynamic_apps && upsgi_proto_key (lit "UPSGI_FILE") key then
    some ({ req with file := buf, dynamic := true }, buf)
  else if cfg.dynamic_apps && upsgi_proto_key (lit "UPSGI_HOME") key then
    some ({ req with home := buf }, buf)
  else some (req, buf)

def upsgi_proto_check_11 : Hook := fun req key buf =>
  if upsgi_proto_key (lit "SCRIPT_NAME") key then
    some ({ req with script_name := buf, script_name_pos := req.var_cnt + 1 }, buf)
  else if upsgi_proto_key (lit "REQUEST_URI") key then some ({ req with uri := buf }, buf)
  else if upsgi_proto_key (lit "REMOTE_USER") key then some ({ req with remote_user := buf }, buf)
  else if req.host.length = 0 ∧ upsgi_proto_key (lit "SERVER_NAME") key then
    some ({ req with host := buf }, buf)
  else if req.remote_addr.length = 0 ∧ upsgi_proto_key (lit "REMOTE_ADDR") key then
    some ({ req with remote_addr := buf }, buf)
  else if upsgi_proto_key (lit "HTTP_COOKIE") key then some ({ req with cookie := buf }, buf)
  else if upsgi_proto_key (lit "UPSGI_APPID") key then some ({ req with appid := buf }, buf)
  else if upsgi_proto_key (lit "UPSGI_CHDIR") key then some ({ req with chdir := buf }, buf)
  else if upsgi_proto_key (lit "HTTP_ORIGIN") key then some ({ req with http_origin := buf }, buf)
  else some (req, buf)

/-- The `UPSGI_SETENV` branch: the first `=` of the value becomes a NUL byte
    and the two C strings around it are given to `setenv`, which refuses an
    empty name. -/
def upsgi_setenv (req : WsgiRequest) (buf : Bytes) : WsgiRequest × Bytes :=
  let name := buf.takeWhile (· ≠ 61)
  match buf.drop name.length with
  | [] => (req, buf)
  | _ :: value =>
      let cname := name.takeWhile (· ≠ 0)
      let cvalue := value.takeWhile (· ≠ 0)
      if cname = [] then (req, name ++ 0 :: value)
      else ({ req with env := (cname, cvalue) :: req.env }, name ++ 0 :: value)

def upsgi_proto_check_12 (cfg : VarsConfig) : Hook := fun req key buf =>
  if upsgi_proto_key (lit "QUERY_STRING") key then some ({ req with query_string := buf }, buf)
  else if upsgi_proto_key (lit "CONTENT_TYPE") key then some ({ req with content_type := buf }, buf)
  else if upsgi_proto_key (lit "HTTP_REFERER") key then some ({ req with referer := buf }, buf)
  else if upsgi_proto_key (lit "UPSGI_SCHEME") key then some ({ req with scheme := buf }, buf)
  else if cfg.dynamic_apps && upsgi_proto_key (lit "UPSGI_SCRIPT") key then
    some ({ req with script := buf, dynamic := true }, buf)
  else if cfg.dynamic_apps && upsgi_proto_key (lit "UPSGI_MODULE") key then
    some ({ req with module := buf, dynamic := true }, buf)
  else if upsgi_proto_key (lit "UPSGI_PYHOME") key then some ({ req with home := buf }, buf)
  else if upsgi_proto_key (lit "UPSGI_SETENV") key then some (upsgi_setenv req buf)
  else some (req, buf)

def upsgi_proto_check_13 : Hook := fun req key buf =>
  if upsgi_proto_key (lit "DOCUMENT_ROOT") key then some ({ req with document_root := buf }, buf)
  else some (req, buf)

/-- The `CONTENT_LENGTH` branch of `upsgi_proto_check_14`. -/
def upsgi_content_length (cfg : VarsConfig) (req : WsgiRequest) (buf : Bytes) :
    Option (WsgiRequest × Bytes) :=
  match get_content_length buf with
  | none => none
  | some parsed_content_length =>
      if req.body_is_chunked then none
      else if cfg.limit_post ≠ 0 ∧ cfg.limit_post < parsed_content_length then none
      else some ({ req with post_cl := parsed_content_length, has_content_length := true }, buf)

def upsgi_proto_check_14 (cfg : VarsConfig) : Hook := fun req key buf =>
  if upsgi_proto_key (lit "REQUEST_METHOD") key then some ({ req with method := buf }, buf)
  else if upsgi_proto_key (lit "CONTENT_LENGTH") key then upsgi_content_length cfg req buf
  else if upsgi_proto_key (lit "UPSGI_POSTFILE") key then
    some ({ req with post_file := if cfg.fopen buf then some buf else none }, buf)
  else if cfg.dynamic_apps && upsgi_proto_key (lit "UPSGI_CALLABLE") key then
    some ({ req with callable := buf, dynamic := true }, buf)
  else some (req, buf)

def upsgi_proto_check_15 : Hook := fun req key buf =>
  if upsgi_proto_key (lit "SERVER_PROTOCOL") key then some ({ req with protocol := buf }, buf)
  else if upsgi_proto_key (lit "HTTP_USER_AGENT") key then some ({ req with user_agent := buf }, buf)
  else some (req, buf)

def upsgi_proto_check_18 : Hook := fun req key buf =>
  if upsgi_proto_key (lit "HTTP_AUTHORIZATION") key then
    some ({ req with authorization := buf }, buf)
  else if upsgi_proto_key (lit "UPSGI_TOUCH_RELOAD") key then
    some ({ req with touch_reload := buf }, buf)
  else some (req, buf)

def upsgi_proto_check_20 (cfg : VarsConfig) : Hook := fun req key buf =>
  if cfg.log_x_forwarded_for && upsgi_proto_key (lit "HTTP_X_FORWARDED_FOR") key then
    some ({ req with remote_addr := buf }, buf)
  else
    let req :=
      if upsgi_proto_key (lit "HTTP_X_FORWARDED_SSL") key then { req with https := buf } else req
    if upsgi_proto_key (lit "HTTP_ACCEPT_ENCODING") key then
      some ({ req with encoding := buf }, buf)
    else some (req, buf)

/-- The `HTTP_TRANSFER_ENCODING` branch of `upsgi_proto_check_22`. -/
def upsgi_transfer_encoding (req : WsgiRequest) (buf : Bytes) : Option (WsgiRequest × Bytes) :=
  if upsgi_strnicmp buf (lit "chunked") = 0 then
    if req.has_content_length then none
    else some ({ req with body_is_chunked := true }, buf)
  else some (req, buf)

def upsgi_proto_check_22 : Hook := fun req key buf =>
  if upsgi_proto_key (lit "HTTP_IF_MODIFIED_SINCE") key then
    some ({ req with if_modified_since := buf }, buf)
  else if upsgi_proto_key (lit "HTTP_SEC_WEBSOCKET_KEY") key then
    some ({ req with http_sec_websocket_key := buf }, buf)
  else
    let req :=
      if upsgi_proto_key (lit "HTTP_X_FORWARDED_PROTO") key then { req with scheme := buf } else req
    if upsgi_proto_key (lit "HTTP_TRANSFER_ENCODING") key then upsgi_transfer_encoding req buf
    else some (req, buf)

def upsgi_proto_check_27 : Hook := fun req key buf =>
  if upsgi_proto_key (lit "HTTP_SEC_WEBSOCKET_PROTOCOL") key then
    some ({ req with http_sec_websocket_protocol := buf }, buf)
  else some (req, buf)

def upsgi_proto_hooks_setup (cfg : VarsConfig) : HookTable
  | 5 => some upsgi_proto_check_5
  | 9 => some upsgi_proto_check_9
  | 10 => some (upsgi_proto_check_10 cfg)
  | 11 => some upsgi_proto_check_11
  | 12 => some (upsgi_proto_check_12 cfg)
  | 13 => some upsgi_proto_check_13
  | 14 => some (upsgi_proto_check_14 cfg)
  | 15 => some upsgi_proto_check_15
  | 18 => some upsgi_proto_check_18
  | 20 => some (upsgi_proto_check_20 cfg)
  | 22 => some upsgi_proto_check_22
  | 27 => some upsgi_proto_check_27
  | _ => none

/-! ### The variable loop -/

/-- Store at index `i` of the variable table. -/
def setVec (hvec : List Bytes) (i : Nat) (x : Bytes) : List Bytes :=
  if i < hvec.length then hvec.set i x else hvec ++ [x]

/-- `var_cnt++` under the limit `vec_size - (4 + 1)`; `var_cnt` has sixteen bits. -/
def nextVar (cfg : VarsConfig) (req : WsgiRequest) : Option WsgiRequest :=
  if (req.var_cnt : Int) < cfg.vec_size - (4 + 1) then
    some { req with var_cnt := (req.var_cnt + 1) % 65536 }
  else none

/-- Run the hook registered for the key length (`UPSGI_PROTO_MIN_CHECK` is 4,
    `UPSGI_PROTO_MAX_CHECK` is 28). -/
def runHook (hooks : HookTable) (req : WsgiRequest) (e : Pair) : Option (WsgiRequest × Bytes) :=
  if 4 < e.1.length ∧ e.1.length < 28 then
    match hooks e.1.length with
    | some hook => hook req (e.1 ++ le16 e.2.length ++ e.2) e.2
    | none => some (req, e.2)
  else some (req, e.2)

/-- One variable: the key goes to the table, the hook runs, the value goes to
    the table. -/
def storeVar (cfg : VarsConfig) (hooks : HookTable) (req : WsgiRequest) (e : Pair) :
    Option WsgiRequest := do
  let req := { req with hvec := setVec req.hvec req.var_cnt e.1 }
  let (req, value) ← runHook hooks req e
  let req ← nextVar cfg req
  let req := { req with hvec := setVec req.hvec req.var_cnt value }
  nextVar cfg req

/-- What one round of the `while (ptrbuf < bufferend)` loop finds at the head of
    the remaining bytes. -/
inductive Cut where
  /-- The packet is malformed: the loop returns -1. -/
  | bad
  /-- The key would not end before the buffer does.  The source has no `else`
      branch here, so the loop goes on right after the two length bytes. -/
  | skip (rest : Bytes)
  /-- A variable and the bytes behind it. -/
  | var (e : Pair) (rest : Bytes)
  deriving DecidableEq

/-- The value part of a round, from the value length on. -/
def cutValue (key : Bytes) : Bytes → Cut
  | x :: y :: rest =>
      -- value can be null (even at the end)
      if fromLe16 x y ≤ rest.length then
        .var (key, rest.take (fromLe16 x y)) (rest.drop (fromLe16 x y))
      else .bad
  | _ => .bad

/-- One round on a non-empty remainder. -/
def cutVar : Bytes → Cut
  | a :: b :: c :: rest =>
      -- key cannot be null
      if fromLe16 a b = 0 then .bad
      else if fromLe16 a b < (c :: rest).length then
        cutValue ((c :: rest).take (fromLe16 a b)) ((c :: rest).drop (fromLe16 a b))
      else .skip (c :: rest)
  | _ => .bad

/-- The `while (ptrbuf < bufferend)` loop, with the treatment of one variable
    as a parameter.  `fuel` bounds the rounds; a round consumes at least two
    bytes, so the buffer length is enough. -/
def varLoop {σ : Type} (var : σ → Pair → Option σ) : Nat → σ → Bytes → Option σ
  | _, req, [] => some req
  | 0, _, _ :: _ => none
  | fuel + 1, req, b :: buf =>
      match cutVar (b :: buf) with
      | .bad => none
      | .skip rest => varLoop var fuel req rest
      | .var e rest =>
          match var req e with
          | some req => varLoop var fuel req rest
          | none => none

/-- The variable loop of `upsgi_parse_vars` on a packet. -/
def upsgi_parse_vars_loop (cfg : VarsConfig) (hooks : HookTable) (req : WsgiRequest)
    (buffer : Bytes) : Option WsgiRequest :=
  varLoop (storeVar cfg hooks) buffer.length req buffer

/-- Collect the variables. -/
def collectVar (es : List Pair) (e : Pair) : Option (List Pair) :=
  some (es ++ [e])

/-- How the loop cuts a packet into variables, whatever is done with them. -/
def packetVars (buffer : Bytes) : Option (List Pair) :=
  varLoop collectVar buffer.length [] buffer

/-- The variable table: the first `var_cnt` entries of `hvec`. -/
def varTable (req : WsgiRequest) : List Bytes :=
  req.hvec.take req.var_cnt

/-! ### One round -/

/-- At the head of a packet that starts with a readable frame the round finds
    exactly that frame. -/
theorem cutVar_frame (e : Pair) (rest : Bytes) (hfit : Fits e) (hkey : e.1 ≠ []) :
    cutVar (frame e ++ rest) = .var e rest := by
  obtain ⟨key, value⟩ := e
  obtain ⟨c, key', rfl⟩ := exists_cons_of_ne_nil hkey
  have hk : fromLe16 (UInt8.ofNat (c :: key').length) (UInt8.ofNat ((c :: key').length / 256)) =
      (c :: key').length := by
    rw [fromLe16_ofNat]
    exact Nat.mod_eq_of_lt hfit.1
  have hv : fromLe16 (UInt8.ofNat value.length) (UInt8.ofNat (value.length / 256)) =
      value.length := by
    rw [fromLe16_ofNat]
    exact Nat.mod_eq_of_lt hfit.2
  have hshape : frame (c :: key', value) ++ rest =
      UInt8.ofNat (c :: key').length :: UInt8.ofNat ((c :: key').length / 256) ::
        c :: (key' ++ UInt8.ofNat value.length :: UInt8.ofNat (value.length / 256) ::
          (value ++ rest)) := by
    simp [frame, le16]
  have htail : c :: (key' ++ UInt8.ofNat value.length :: UInt8.ofNat (value.length / 256) ::
      (value ++ rest)) = (c :: key') ++ UInt8.ofNat value.length ::
        UInt8.ofNat (value.length / 256) :: (value ++ rest) := rfl
  rw [hshape, cutVar, hk, if_neg (by simp), htail,
    if_pos (by simp only [length_append, length_cons]; omega),
    take_left, drop_left, cutValue, hv, if_pos (by simp), take_left, drop_left]

variable {buf rest : Bytes}

/-- What a variable that is found was cut from. -/
theorem cutVar_var_shape {e : Pair} (h : cutVar buf = .var e rest) :
    ∃ a b x y, buf = a :: b :: (e.1 ++ x :: y :: (e.2 ++ rest)) ∧
      e.1.length = fromLe16 a b ∧ e.2.length = fromLe16 x y ∧ e.1 ≠ [] := by
  unfold cutVar at h
  split at h
  · next a b c tail =>
    split at h
    · cases h
    · next hnz =>
      split at h
      · next hlt =>
        unfold cutValue at h
        split at h
        · next x y rest' hdrop =>
          split at h
          · next hv =>
            obtain ⟨rfl, rfl⟩ := h
            have hkey : ((c :: tail).take (fromLe16 a b)).length = fromLe16 a b :=
              length_take_of_le hlt.le
            refine ⟨a, b, x, y, ?_, hkey, length_take_of_le hv, ?_⟩
            · rw [take_append_drop, ← hdrop, take_append_drop]
            · intro hnil
              exact hnz (hkey.symm.trans (congrArg List.length hnil))
          · cases h
        · cases h
      · cases h
  · cases h

/-- A variable that is found has a non-empty key and readable lengths, and what
    is left is shorter. -/
theorem cutVar_var {e : Pair} (h : cutVar buf = .var e rest) :
    Fits e ∧ e.1 ≠ [] ∧ rest.length < buf.length := by
  obtain ⟨a, b, x, y, rfl, hkey, hval, hne⟩ := cutVar_var_shape h
  refine ⟨⟨hkey ▸ fromLe16_lt a b, hval ▸ fromLe16_lt x y⟩, hne, ?_⟩
  simp only [length_cons, length_append]
  omega

theorem cutVar_skip (h : cutVar buf = .skip rest) :
    rest.length < buf.length := by
  unfold cutVar at h
  split at h
  · split at h
    · cases h
    · split at h
      · unfold cutValue at h
        split at h
        · split at h <;> cases h
        · cases h
      · cases h
        simp
  · cases h

/-! ### The whole loop -/

section loop

variable {σ : Type} (var : σ → Pair → Option σ)

@[simp] theorem varLoop_nil (fuel : Nat) (s : σ) : varLoop var fuel s [] = some s := by
  unfold varLoop
  rfl

/-- On a readable packet the loop is a fold over its pairs. -/
theorem varLoop_packet : ∀ (es : List Pair) (fuel : Nat) (s : σ),
    (∀ e ∈ es, Fits e ∧ e.1 ≠ []) → (packet es).length ≤ fuel →
    varLoop var fuel s (packet es) = es.foldlM var s
  | [], fuel, s, _, _ => by simp
  | e :: es, fuel, s, hes, hf => by
      have he := hes e (by simp)
      have hcut := cutVar_frame e (packet es) he.1 he.2
      simp only [packet_cons, length_append, frame_length, frameSize] at hf
      obtain ⟨b, buf, hbuf⟩ : ∃ b buf, frame e ++ packet es = b :: buf :=
        ⟨_, _, rfl⟩
      obtain ⟨fuel, rfl⟩ : ∃ f, fuel = f + 1 := ⟨fuel - 1, by omega⟩
      rw [packet_cons, hbuf, varLoop, ← hbuf, hcut, foldlM_cons]
      cases hvar : var s e with
      | none => simp [hvar]
      | some s' =>
        simp only [hvar]
        exact varLoop_packet es fuel s' (fun e' h' => hes e' (by simp [h'])) (by omega)

theorem varLoop_collect_append : ∀ (fuel : Nat) (acc : List Pair) (buf : Bytes),
    varLoop collectVar fuel acc buf =
      (varLoop collectVar fuel [] buf).map (acc ++ ·)
  | _, acc, [] => by simp
  | 0, _, _ :: _ => by simp [varLoop]
  | fuel + 1, acc, b :: buf => by
      unfold varLoop
      cases hcut : cutVar (b :: buf) with
      | bad => rfl
      | skip rest => exact varLoop_collect_append fuel acc rest
      | var e rest =>
        simp only [collectVar]
        rw [varLoop_collect_append fuel (acc ++ [e]), varLoop_collect_append fuel ([] ++ [e])]
        cases varLoop collectVar fuel [] rest <;> simp

/-- Whatever is done with the variables, the loop cuts the buffer at the same
    places: it is the collecting loop followed by a fold. -/
theorem varLoop_eq_collect : ∀ (fuel : Nat) (s : σ) (buf : Bytes),
    varLoop var fuel s buf = (varLoop collectVar fuel [] buf).bind fun es => es.foldlM var s
  | _, s, [] => by simp
  | 0, _, _ :: _ => by simp [varLoop]
  | fuel + 1, s, b :: buf => by
      unfold varLoop
      cases hcut : cutVar (b :: buf) with
      | bad => rfl
      | skip rest => exact varLoop_eq_collect fuel s rest
      | var e rest =>
        simp only [collectVar]
        rw [varLoop_collect_append fuel ([] ++ [e])]
        cases hvar : var s e with
        | none => cases varLoop collectVar fuel [] rest <;> simp [hvar]
        | some s' =>
          simp only []
          rw [varLoop_eq_collect fuel s' rest]
          cases varLoop collectVar fuel [] rest <;> simp [hvar]

/-- Every variable the loop finds has a non-empty key and readable lengths. -/
theorem varLoop_collect_fits : ∀ (fuel : Nat) (buf : Bytes) (es : List Pair),
    varLoop collectVar fuel [] buf = some es → ∀ e ∈ es, Fits e ∧ e.1 ≠ []
  | _, [], es, h => by
      simp only [varLoop_nil, Option.some.injEq] at h
      subst h
      simp
  | 0, _ :: _, es, h => by simp [varLoop] at h
  | fuel + 1, b :: buf, es, h => by
      unfold varLoop at h
      cases hcut : cutVar (b :: buf) with
      | bad => simp [hcut] at h
      | skip rest =>
        simp only [hcut] at h
        exact varLoop_collect_fits fuel rest es h
      | var e rest =>
        simp only [hcut, collectVar] at h
        rw [varLoop_collect_append] at h
        obtain ⟨es', hes', rfl⟩ := Option.map_eq_some_iff.mp h
        have hfit := cutVar_var hcut
        intro e' he'
        simp only [nil_append, singleton_append, mem_cons] at he'
        rcases he' with rfl | he'
        · exact ⟨hfit.1, hfit.2.1⟩
        · exact varLoop_collect_fits fuel rest es' hes' e' he'

end loop

/-- The packet of readable pairs is cut into exactly these pairs. -/
theorem packetVars_packet (es : List Pair) (hes : ∀ e ∈ es, Fits e ∧ e.1 ≠ []) :
    packetVars (packet es) = some es := by
  unfold packetVars
  rw [varLoop_packet collectVar es _ [] hes le_rfl]
  suffices h : ∀ acc, es.foldlM collectVar acc = some (acc ++ es) by simpa using h []
  intro acc
  induction es generalizing acc with
  | nil => simp
  | cons e es ih =>
    show es.foldlM collectVar (acc ++ [e]) = _
    rw [ih (fun e' h' => hes e' (by simp [h']))]
    simp

theorem packetVars_fits {es : List Pair} (h : packetVars buf = some es) :
    ∀ e ∈ es, Fits e ∧ e.1 ≠ [] :=
  varLoop_collect_fits buf.length buf es h

/-- The variable loop is the treatment of the variables the packet is cut into. -/
theorem upsgi_parse_vars_loop_eq (cfg : VarsConfig) (hooks : HookTable) (req : WsgiRequest)
    (buf : Bytes) :
    upsgi_parse_vars_loop cfg hooks req buf =
      (packetVars buf).bind fun es => es.foldlM (storeVar cfg hooks) req :=
  varLoop_eq_collect (storeVar cfg hooks) buf.length req buf

/-! ### The variable table -/

/-- The hook table before `upsgi_proto_hooks_setup` fills it. -/
def noHooks : HookTable := fun _ => none

/-- The table entries of a list of pairs, in order. -/
def tableOf (es : List Pair) : List Bytes :=
  es.flatMap fun e => [e.1, e.2]

@[simp] theorem tableOf_nil : tableOf [] = [] := rfl

@[simp] theorem tableOf_cons (e : Pair) (es : List Pair) :
    tableOf (e :: es) = e.1 :: e.2 :: tableOf es := rfl

theorem tableOf_length (es : List Pair) : (tableOf es).length = 2 * es.length := by
  induction es with
  | nil => rfl
  | cons e es ih =>
    simp only [tableOf_cons, length_cons, ih]
    omega

@[simp] theorem runHook_noHooks (req : WsgiRequest) (e : Pair) :
    runHook noHooks req e = some (req, e.2) := by
  unfold runHook noHooks
  split <;> rfl

theorem setVec_length {hvec : List Bytes} {i : Nat} (x : Bytes) (h : hvec.length = i) :
    setVec hvec i x = hvec ++ [x] := by
  unfold setVec
  rw [if_neg (by omega)]

theorem mem_setVec {hvec : List Bytes} {i : Nat} {x y : Bytes} (h : y ∈ setVec hvec i x) :
    y ∈ hvec ∨ y = x := by
  unfold setVec at h
  split at h
  · rcases mem_or_eq_of_mem_set h with h | h
    · exact Or.inl h
    · exact Or.inr h
  · simpa using h

/-- While the table has room and `var_cnt` has not wrapped, a variable adds its
    key and its value at the end. -/
theorem nextVar_some {cfg : VarsConfig} {req req' : WsgiRequest} (h : nextVar cfg req = some req') :
    req' = { req with var_cnt := (req.var_cnt + 1) % 65536 } := by
  unfold nextVar at h
  split at h
  · cases h
    rfl
  · cases h

/-- A variable that is stored: what its hook leaves, with key and value in the table. -/
theorem storeVar_some {cfg : VarsConfig} {hooks : HookTable} {req req' : WsgiRequest} {e : Pair}
    (h : storeVar cfg hooks req e = some req') :
    ∃ req1 value,
      runHook hooks { req with hvec := setVec req.hvec req.var_cnt e.1 } e = some (req1, value) ∧
      req' = { req1 with
        hvec := setVec req1.hvec ((req1.var_cnt + 1) % 65536) value
        var_cnt := ((req1.var_cnt + 1) % 65536 + 1) % 65536 } := by
  unfold storeVar at h
  simp only [Option.bind_eq_bind, Option.bind_eq_some_iff] at h
  obtain ⟨⟨req1, value⟩, hhook, req2, hnext, hlast⟩ := h
  cases nextVar_some hnext
  exact ⟨req1, value, hhook, nextVar_some hlast⟩

theorem storeVar_noHooks (cfg : VarsConfig) (req : WsgiRequest) (e : Pair)
    (hlen : req.hvec.length = req.var_cnt) (hvec : (req.var_cnt : Int) + 2 ≤ cfg.vec_size - 5)
    (h16 : req.var_cnt + 2 < 65536) :
    storeVar cfg noHooks req e =
      some { req with hvec := req.hvec ++ [e.1, e.2], var_cnt := req.var_cnt + 2 } := by
  have h1 : (req.var_cnt + 1) % 65536 = req.var_cnt + 1 := Nat.mod_eq_of_lt (by omega)
  have h2 : (req.var_cnt + 1 + 1) % 65536 = req.var_cnt + 2 := Nat.mod_eq_of_lt (by omega)
  unfold storeVar
  simp only [runHook_noHooks, Option.bind_eq_bind, Option.bind_some, nextVar]
  rw [if_pos (by omega)]
  simp only [Option.bind_some, h1]
  rw [if_pos (by push_cast; omega), setVec_length e.1 hlen, setVec_length e.2 (by simp [hlen]), h2]
  simp

theorem foldlM_storeVar_noHooks (cfg : VarsConfig) : ∀ (es : List Pair) (req : WsgiRequest),
    req.hvec.length = req.var_cnt →
    (req.var_cnt : Int) + 2 * es.length ≤ cfg.vec_size - 5 →
    req.var_cnt + 2 * es.length < 65536 →
    es.foldlM (storeVar cfg noHooks) req =
      some { req with hvec := req.hvec ++ tableOf es, var_cnt := req.var_cnt + 2 * es.length }
  | [], req, _, _, _ => by simp
  | e :: es, req, hlen, hvec, h16 => by
      simp only [List.length_cons] at hvec h16
      push_cast at hvec
      rw [List.foldlM_cons, storeVar_noHooks cfg req e hlen (by omega) (by omega)]
      show es.foldlM _ _ = _
      rw [foldlM_storeVar_noHooks cfg es _ (by simp [hlen]) (by push_cast; omega)
        (by simp only []; omega)]
      simp only [List.append_assoc, tableOf_cons, List.length_cons, List.cons_append,
        List.nil_append, Option.some.injEq, WsgiRequest.mk.injEq, and_true, true_and]
      omega

/-- The table only ever holds keys and values of the packet, and fewer than
    `2 ^ 16` of them. -/
theorem mem_varTable_noHooks (cfg : VarsConfig) : ∀ (es : List Pair) (req req' : WsgiRequest),
    req.var_cnt < 65536 →
    es.foldlM (storeVar cfg noHooks) req = some req' →
    req'.var_cnt < 65536 ∧ ∀ x ∈ req'.hvec, x ∈ req.hvec ∨ x ∈ tableOf es
  | [], req, req', h16, h => by
      simp only [List.foldlM_nil, Option.pure_def, Option.some.injEq] at h
      subst h
      exact ⟨h16, fun x hx => Or.inl hx⟩
  | e :: es, req, req', h16, h => by
      obtain ⟨req1, h1, h2⟩ := Option.bind_eq_some_iff.mp h
      obtain ⟨_, _, hhook, rfl⟩ := storeVar_some h1
      rw [runHook_noHooks] at hhook
      cases hhook
      have ih := mem_varTable_noHooks cfg es _ req' (Nat.mod_lt _ (by omega)) h2
      refine ⟨ih.1, ?_⟩
      intro x hx
      rcases ih.2 x hx with hx | hx
      · rcases mem_setVec hx with hx | rfl
        · rcases mem_setVec hx with hx | rfl
          · exact Or.inl hx
          · exact Or.inr (by simp)
        · exact Or.inr (by simp)
      · exact Or.inr (by simp [hx])

end Upsgi
