import Upsgi.Core.Protocol
import Upsgi.Proto.HttpTable

/-! # The packet of an accepted block

    One lemma says what `http_parse` leaves behind on an accepted block:
    the request variables that found room, then one variable for each slot
    of the header table.  The rest of the module compares the packet with
    what the variable loop of `upsgi_parse_vars` reads out of it.
-/

namespace Upsgi

open Framing List

/-! ### What is appended -/

/-- The frame that was written for a variable. -/
def Written.frame (w : Written) : Pair := (w.name, w.stored)

/-- A request variable as `proto_base_add_upsgi_var` appends it. -/
def writtenVar (e : Pair) : Written := ⟨e.1, e.2, e.2.take (e.2.length % 65536)⟩

/-- A header slot as `http_add_upsgi_header` appends it. -/
def writtenSlot (slot : HeaderSlot) : Written := ⟨cgiName slot, slot.value, slot.value⟩

/-- The bytes a request variable takes, with lengths of sixteen bits. -/
def varSize (e : Pair) : Nat :=
  e.1.length % 65536 + e.2.length % 65536 + 4

/-- The request variables that find room below `buffer_size`, when `len` bytes
    are used: a variable without room is skipped and the next one is tried. -/
def keptVars (buffer_size : Nat) : Nat → List Pair → List Pair
  | _, [] => []
  | len, e :: es =>
      if len + varSize e < buffer_size then e :: keptVars buffer_size (len + varSize e) es
      else keptVars buffer_size len es

theorem keptVars_sublist (buffer_size : Nat) : ∀ (len : Nat) (es : List Pair),
    (keptVars buffer_size len es).Sublist es
  | _, [] => List.Sublist.slnil
  | len, e :: es => by
      unfold keptVars
      split
      · exact (keptVars_sublist buffer_size _ es).cons_cons e
      · exact (keptVars_sublist buffer_size _ es).cons e

/-- The packet holds exactly the written frames. -/
def Framed (req : HttpRequest) : Prop :=
  req.buffer = packet (req.written.map Written.frame)

variable {req : HttpRequest} {ptr block : Bytes} {vars : List Pair} {cfg : HttpConfig}

theorem proto_base_add_upsgi_var_room {bs : Nat} {e : Pair}
    (h : req.buffer.length + varSize e < bs) :
    proto_base_add_upsgi_var bs req e =
      { req with
        buffer := req.buffer ++ (le16 (e.1.length % 65536) ++ e.1.take (e.1.length % 65536) ++
          (le16 (e.2.length % 65536) ++ e.2.take (e.2.length % 65536)))
        written := req.written ++ [writtenVar e] } := by
  unfold varSize at h
  unfold proto_base_add_upsgi_var
  rw [if_neg (by omega)]
  rfl

theorem proto_base_add_upsgi_var_full {bs : Nat} {e : Pair}
    (h : ¬req.buffer.length + varSize e < bs) :
    proto_base_add_upsgi_var bs req e = req := by
  unfold varSize at h
  unfold proto_base_add_upsgi_var
  rw [if_pos (by omega)]

/-- The request variables: those that find room are appended, in order. -/
theorem foldl_add_var (bs : Nat) : ∀ (vars : List Pair) (req : HttpRequest),
    Framed req → (∀ e ∈ vars, e.1.length < 65536) →
    Framed (vars.foldl (proto_base_add_upsgi_var bs) req) ∧
      (vars.foldl (proto_base_add_upsgi_var bs) req).written =
        req.written ++ (keptVars bs req.buffer.length vars).map writtenVar ∧
      (vars.foldl (proto_base_add_upsgi_var bs) req).ignore_body = req.ignore_body
  | [], req, hreq, _ => by simp [hreq, keptVars]
  | e :: vars, req, hreq, hnames => by
      have hname : e.1.length % 65536 = e.1.length := Nat.mod_eq_of_lt (hnames e (by simp))
      have hrest : ∀ e ∈ vars, e.1.length < 65536 := fun x hx => hnames x (by simp [hx])
      rw [foldl_cons]
      unfold keptVars
      by_cases hroom : req.buffer.length + varSize e < bs
      · rw [proto_base_add_upsgi_var_room hroom, if_pos hroom]
        have hval : (e.2.take (e.2.length % 65536)).length = e.2.length % 65536 := by
          rw [length_take]
          have := Nat.mod_le e.2.length 65536
          omega
        have hframed : Framed
            { req with
              buffer := req.buffer ++ (le16 (e.1.length % 65536) ++ e.1.take (e.1.length % 65536) ++
                (le16 (e.2.length % 65536) ++ e.2.take (e.2.length % 65536)))
              written := req.written ++ [writtenVar e] } := by
          show _ = _
          rw [hreq, map_append, packet_append]
          simp [writtenVar, Written.frame, frame, hname, hval]
        have ih := foldl_add_var bs vars _ hframed hrest
        refine ⟨ih.1, ?_, ih.2.2⟩
        rw [ih.2.1]
        simp only [map_cons, append_assoc, singleton_append, append_cancel_left_eq,
          List.cons.injEq, true_and]
        congr 2
        simp only [length_append, le16_length, hval, length_take, varSize]
        omega
      · rw [proto_base_add_upsgi_var_full hroom, if_neg hroom]
        exact foldl_add_var bs vars req hreq hrest

theorem cgiName_length (slot : HeaderSlot) : (cgiName slot).length =
    if slot.has_prefix then slot.key.length + 5 else slot.key.length := by
  unfold cgiName http_header_normalize_name
  cases slot.has_prefix with
  | true =>
    have : (lit "HTTP_").length = 5 := by decide
    simp [this]
    omega
  | false => simp

/-- A header slot is appended as one frame, or there is no room for it. -/
theorem http_add_upsgi_header_eq (bs : Nat) (req : HttpRequest) (slot : HeaderSlot) :
    http_add_upsgi_header bs req slot =
      if bs ≤ req.buffer.length + frameSize (cgiName slot, slot.value) then none
      else some { req with
        buffer := req.buffer ++ frame (cgiName slot, slot.value)
        written := req.written ++ [writtenSlot slot] } := by
  have hsize : req.buffer.length + frameSize (cgiName slot, slot.value) =
      req.buffer.length + (cgiName slot).length + slot.value.length + 2 + 2 := by
    simp only [frameSize]
    omega
  unfold http_add_upsgi_header
  simp only [← cgiName_length]
  rw [hsize]
  rfl

/-- When the emission loop succeeds every slot was appended. -/
theorem emitHeaders_ok (bs : Nat) : ∀ (slots : List HeaderSlot) (cl te : Bool)
    (req req' : HttpRequest), Framed req → emitHeaders bs cl te slots req = .ok req' →
    Framed req' ∧ req'.written = req.written ++ slots.map writtenSlot ∧
      req'.ignore_body = req.ignore_body
  | [], cl, te, req, req', hreq, h => by
      simp only [emitHeaders, Except.ok.injEq] at h
      subst h
      simp [hreq]
  | slot :: slots, cl, te, req, req', hreq, h => by
      unfold emitHeaders at h
      split at h
      · cases h
      · split at h
        · cases h
        · split at h
          · cases h
          · next req1 hadd =>
            rw [http_add_upsgi_header_eq, Option.ite_none_left_eq_some, Option.some.injEq] at hadd
            have h1 := hadd.2.symm
            have hframed : Framed req1 := by
              rw [h1]
              show _ = _
              rw [hreq, map_append, packet_append]
              simp [writtenSlot, Written.frame]
            have ih := emitHeaders_ok bs slots _ _ req1 req' hframed h
            refine ⟨ih.1, ?_, ?_⟩
            · rw [ih.2.1, h1]
              simp
            · rw [ih.2.2, h1]

/-! ### Names of the request variables -/

/-- The names `http_parse` gives to variables that are not header fields. -/
def requestVarNames : List Bytes :=
  [lit "REQUEST_METHOD", lit "PATH_INFO", lit "REQUEST_URI", lit "QUERY_STRING",
   lit "SERVER_PROTOCOL", lit "SCRIPT_NAME", lit "SERVER_NAME", lit "SERVER_ADDR",
   lit "SERVER_PORT", lit "REMOTE_ADDR", lit "REMOTE_PORT", lit "HTTPS"]

theorem requestMethod_names (ptr : Bytes) :
    ∀ e ∈ (requestMethod ptr).1, e.1 = lit "REQUEST_METHOD" := by
  unfold requestMethod
  split <;> simp

theorem requestUri_names (cfg : HttpConfig) (ptr : Bytes) :
    ∀ e ∈ (requestUri cfg ptr).1,
      e.1 ∈ [lit "PATH_INFO", lit "REQUEST_URI", lit "QUERY_STRING"] := by
  unfold requestUri
  split <;> split <;> simp

theorem serverProtocol_names {rest : Bytes}
    (h : serverProtocol ptr = .ok (vars, rest)) : ∀ e ∈ vars, e.1 = lit "SERVER_PROTOCOL" := by
  unfold serverProtocol at h
  split at h
  · cases h
    simp
  · cases h
  · split at h
    · cases h
    · split at h
      · cases h
      · cases h
        simp

theorem serverVars_names (cfg : HttpConfig) (proxy : ProxyInfo) :
    ∀ e ∈ serverVars cfg proxy,
      e.1 ∈ [lit "SCRIPT_NAME", lit "SERVER_NAME", lit "SERVER_ADDR", lit "SERVER_PORT"] := by
  unfold serverVars
  cases cfg.manage_script_name <;> cases proxy.dst <;> cases proxy.dst_port <;> simp

theorem remoteVars_names {proxy : ProxyInfo} (h : remoteVars cfg proxy = .ok vars) :
    ∀ e ∈ vars, e.1 ∈ [lit "REMOTE_ADDR", lit "REMOTE_PORT"] := by
  unfold remoteVars at h
  split at h
  · cases h
    cases proxy.src_port <;> simp
  · split at h
    · cases h
      simp
    · cases h

theorem httpsVars_names (cfg : HttpConfig) : ∀ e ∈ httpsVars cfg, e.1 = lit "HTTPS" := by
  unfold httpsVars
  split <;> simp

section

variable {ib : Bool} (h : requestVars cfg block = .ok (vars, ptr, ib))
include h

/-- The stages of `requestVars` that gave a result. -/
theorem requestVars_ok :
    ∃ protocolVars remote,
      serverProtocol (requestUri cfg (requestMethod (requestStart cfg block).2).2.1).2 =
        .ok (protocolVars, ptr) ∧
      remoteVars cfg (requestStart cfg block).1 = .ok remote ∧
      ib = (requestMethod (requestStart cfg block).2).2.2 ∧
      vars = (requestMethod (requestStart cfg block).2).1 ++
        (requestUri cfg (requestMethod (requestStart cfg block).2).2.1).1 ++ protocolVars ++
        serverVars cfg (requestStart cfg block).1 ++ remote ++ httpsVars cfg := by
  unfold requestVars at h
  simp only [bind, Except.bind, pure, Except.pure] at h
  split at h
  · cases h
  · next p hp =>
    split at h
    · cases h
    · next remote hr =>
      cases h
      exact ⟨p.1, remote, hp, hr, rfl, rfl⟩

theorem requestVars_names : ∀ e ∈ vars, e.1 ∈ requestVarNames := by
  obtain ⟨protocolVars, remote, hp, hr, -, rfl⟩ := requestVars_ok h
  intro e he
  simp only [mem_append] at he
  rcases he with ((((he | he) | he) | he) | he) | he
  · rw [requestMethod_names _ e he]
    decide
  · exact (by decide : ∀ x ∈ [lit "PATH_INFO", lit "REQUEST_URI", lit "QUERY_STRING"],
      x ∈ requestVarNames) _ (requestUri_names _ _ e he)
  · rw [serverProtocol_names hp e he]
    decide
  · exact (by decide : ∀ x ∈ [lit "SCRIPT_NAME", lit "SERVER_NAME", lit "SERVER_ADDR",
      lit "SERVER_PORT"], x ∈ requestVarNames) _ (serverVars_names _ _ e he)
  · exact (by decide : ∀ x ∈ [lit "REMOTE_ADDR", lit "REMOTE_PORT"], x ∈ requestVarNames) _
      (remoteVars_names hr e he)
  · rw [httpsVars_names _ e he]
    decide

end

theorem requestVarNames_short : ∀ name ∈ requestVarNames, name.length < 65536 ∧ name ≠ [] := by
  decide

/-! ### Accepted blocks -/

theorem exists_ok {ε α : Type} {x : Except ε α} (h : x.isOk = true) : ∃ a, x = .ok a := by
  cases x with
  | error => cases h
  | ok a => exact ⟨a, rfl⟩

/-- The fields of the header lines of a block. -/
def receivedFields (cfg : HttpConfig) (block : Bytes) : List HeaderLine :=
  match requestVars cfg block with
  | .ok (_, ptr, _) => headerFields ptr.length ptr
  | .error _ => []

/-- The request variables of a block that find room in the packet. -/
def acceptedVars (cfg : HttpConfig) (block : Bytes) : List Pair :=
  match requestVars cfg block with
  | .ok (vars, _, _) => keptVars cfg.buffer_size 0 vars
  | .error _ => []

/-- What `http_parse` leaves behind on an accepted block. -/
theorem http_parse_ok (h : http_parse cfg block = .ok req) :
    Framed req ∧
      req.written = (acceptedVars cfg block).map writtenVar ++
        (headerTable (receivedFields cfg block)).map writtenSlot ∧
      TableInv (receivedFields cfg block) (headerTable (receivedFields cfg block)) := by
  unfold http_parse at h
  simp only [bind, Except.bind] at h
  split at h
  · cases h
  · next v hv =>
    obtain ⟨vars, ptr, ib⟩ := v
    split at h
    · cases h
    · next t ht =>
      have hnames : ∀ e ∈ vars, e.1.length < 65536 := fun e he =>
        (requestVarNames_short _ (requestVars_names hv e he)).1
      obtain ⟨hframed, hwritten, -⟩ :=
        foldl_add_var cfg.buffer_size vars { ignore_body := ib } rfl hnames
      obtain ⟨hframed', hwritten', -⟩ := emitHeaders_ok _ _ _ _ _ _ hframed h
      have hinv := headerLoop_tableInv ht
      have htable : t = headerTable (receivedFields cfg block) := by
        rw [hinv.eq_headerTable]
        simp only [receivedFields, hv]
      refine ⟨hframed', ?_, ?_⟩
      · rw [hwritten', hwritten, htable]
        simp [acceptedVars, hv]
      · rw [← htable]
        simpa only [receivedFields, hv] using hinv

theorem http_parse_requestVars (h : http_parse cfg block = .ok req) :
    ∃ vars ptr ib, requestVars cfg block = .ok (vars, ptr, ib) := by
  cases hv : requestVars cfg block with
  | ok v => exact ⟨v.1, v.2.1, v.2.2, rfl⟩
  | error =>
    simp only [http_parse, hv, bind, Except.bind] at h
    cases h

theorem acceptedVars_names :
    ∀ e ∈ acceptedVars cfg block, e.1 ∈ requestVarNames := by
  intro e he
  unfold acceptedVars at he
  split at he
  · next hv => exact requestVars_names hv e ((keptVars_sublist _ _ _).subset he)
  · simp at he

theorem cgiName_ne_nil {slot : HeaderSlot} (h : HeaderLine.Wf slot) : cgiName slot ≠ [] := by
  simp [cgiName, http_header_normalize_name, h.key_ne_nil]

/-- Every frame of the packet has a name. -/
theorem http_parse_names (h : http_parse cfg block = .ok req) : ∀ w ∈ req.written, w.name ≠ [] := by
  obtain ⟨-, hwritten, hinv⟩ := http_parse_ok h
  intro w hw
  rw [hwritten, mem_append, mem_map, mem_map] at hw
  rcases hw with ⟨e, he, rfl⟩ | ⟨slot, hslot, rfl⟩
  · exact (requestVarNames_short _ (acceptedVars_names e he)).2
  · exact cgiName_ne_nil (hinv.wf slot hslot)

/-! ### Lengths that fit the length fields -/

/-- Every request variable that finds room, and every field name and joined
    field value, has a length that sixteen bits can hold. -/
def LengthsFit (cfg : HttpConfig) (block : Bytes) : Prop :=
  (∀ e ∈ acceptedVars cfg block, e.2.length ≤ 65535) ∧
  (∀ slot ∈ headerTable (receivedFields cfg block),
    (cgiName slot).length ≤ 65535 ∧ slot.value.length ≤ 65535)

/-- The number of variables the packet gets. -/
def varCount (cfg : HttpConfig) (block : Bytes) : Nat :=
  (acceptedVars cfg block).length + (headerTable (receivedFields cfg block)).length

section

variable (h : http_parse cfg block = .ok req)
include h

theorem lengthsFit_iff :
    LengthsFit cfg block ↔ ∀ w ∈ req.written, Fits w.pair := by
  obtain ⟨-, hwritten, -⟩ := http_parse_ok h
  have hvars : (∀ e ∈ acceptedVars cfg block, e.2.length ≤ 65535) ↔
      ∀ e ∈ acceptedVars cfg block, Fits (writtenVar e).pair := by
    refine forall₂_congr fun e he => ?_
    have := (requestVarNames_short _ (acceptedVars_names e he)).1
    show e.2.length ≤ 65535 ↔ e.1.length < 65536 ∧ e.2.length < 65536
    omega
  have hslots : (∀ slot ∈ headerTable (receivedFields cfg block),
      (cgiName slot).length ≤ 65535 ∧ slot.value.length ≤ 65535) ↔
      ∀ slot ∈ headerTable (receivedFields cfg block), Fits (writtenSlot slot).pair := by
    refine forall₂_congr fun slot _ => ?_
    show _ ↔ (cgiName slot).length < 65536 ∧ slot.value.length < 65536
    omega
  unfold LengthsFit
  rw [hvars, hslots, hwritten]
  simp only [mem_append, or_imp, forall_and, forall_mem_map]

/-- Values that fit are stored in full. -/
theorem frames_eq_pairs (hfit : ∀ w ∈ req.written, Fits w.pair) :
    req.written.map Written.frame = req.written.map Written.pair := by
  obtain ⟨-, hwritten, -⟩ := http_parse_ok h
  refine map_congr_left fun w hw => ?_
  have hw' := hfit w hw
  rw [hwritten, mem_append, mem_map, mem_map] at hw
  rcases hw with ⟨e, -, rfl⟩ | ⟨slot, -, rfl⟩
  · have hmod : e.2.length % 65536 = e.2.length := Nat.mod_eq_of_lt hw'.2
    show (e.1, e.2.take (e.2.length % 65536)) = (e.1, e.2)
    rw [hmod, take_length]
  · rfl

/-- Only a header slot can spoil the packet: request variables are cut to
    lengths that fit. -/
theorem packetVars_of_slots_fit
    (hfit : ∀ slot ∈ headerTable (receivedFields cfg block), Fits (cgiName slot, slot.value)) :
    packetVars req.buffer = some (req.written.map Written.frame) := by
  obtain ⟨hframed, hwritten, -⟩ := http_parse_ok h
  rw [hframed]
  apply packetVars_packet
  intro e he
  obtain ⟨w, hw, rfl⟩ := mem_map.mp he
  refine ⟨?_, http_parse_names h w hw⟩
  rw [hwritten, mem_append, mem_map, mem_map] at hw
  rcases hw with ⟨v, hv, rfl⟩ | ⟨slot, hslot, rfl⟩
  · refine ⟨(requestVarNames_short _ (acceptedVars_names v hv)).1, ?_⟩
    show (v.2.take (v.2.length % 65536)).length < 65536
    rw [length_take]
    have := Nat.mod_lt v.2.length (by omega : 0 < 65536)
    omega
  · exact hfit slot hslot

/-- When all lengths fit, the packet is cut back into what was written. -/
theorem packetVars_of_fits (hfit : ∀ w ∈ req.written, Fits w.pair) :
    packetVars req.buffer = some (req.written.map Written.pair) := by
  rw [← frames_eq_pairs h hfit]
  apply packetVars_of_slots_fit h
  intro slot hslot
  have hmem : writtenSlot slot ∈ req.written := by
    rw [(http_parse_ok h).2.1]
    exact mem_append_right _ (mem_map_of_mem hslot)
  exact hfit _ hmem

theorem varCount_eq : req.written.length = varCount cfg block := by
  rw [(http_parse_ok h).2.1]
  simp [varCount]

end

/-- The packet says what `http_parse` wrote: it is cut into exactly the written
    pairs with their full values, and with room for all of them the variable
    table lists them in order. -/
def PacketFaithful (vcfg : VarsConfig) (req : HttpRequest) : Prop :=
  packetVars req.buffer = some (req.written.map Written.pair) ∧
  ∃ r, upsgi_parse_vars_loop vcfg noHooks {} req.buffer = some r ∧
    varTable r = tableOf (req.written.map Written.pair)

/-- The packet of an accepted block is faithful exactly when all lengths fit
    into sixteen bits, and so does the number of table entries. -/
theorem packetFaithful_iff {cfg : HttpConfig} {vcfg : VarsConfig} {block : Bytes}
    {req : HttpRequest} (h : http_parse cfg block = .ok req)
    (hvec : 2 * (req.written.length : Int) + 5 ≤ vcfg.vec_size) :
    PacketFaithful vcfg req ↔ LengthsFit cfg block ∧ 2 * varCount cfg block < 65536 := by
  rw [lengthsFit_iff h, ← varCount_eq h]
  constructor
  · rintro ⟨hcut, r, hloop, htable⟩
    refine ⟨?_, ?_⟩
    · intro w hw
      exact (packetVars_fits hcut _ (mem_map_of_mem hw)).1
    · -- the table has at most `var_cnt` entries, and `var_cnt` has sixteen bits
      rw [upsgi_parse_vars_loop_eq, hcut, Option.bind_some] at hloop
      have hcnt := (mem_varTable_noHooks vcfg _ _ _ (by decide) hloop).1
      have hlen := congrArg List.length htable
      rw [varTable, length_take, tableOf_length, length_map] at hlen
      omega
  · rintro ⟨hfit, hcount⟩
    have hcut := packetVars_of_fits h hfit
    have hfold := foldlM_storeVar_noHooks vcfg (req.written.map Written.pair) {} rfl
      (by simp only [length_map]; omega) (by simpa using hcount)
    have hloop := (upsgi_parse_vars_loop_eq vcfg noHooks {} req.buffer).trans
      (by rw [hcut, Option.bind_some, hfold])
    exact ⟨hcut, _, hloop, take_of_length_le (by simp [tableOf_length])⟩

/-! #### A merged field that does not fit -/

/-- A server with a buffer of a megabyte. -/
def bigCfg : HttpConfig where
  buffer_size := 1048576
  peer := .inet [127, 0, 0, 1]
  inet_ntop4 := fun _ => some (lit "127.0.0.1")
  inet_ntop6 := fun _ => none

/-- A table of a thousand entries, no limits. -/
def wideVars : VarsConfig where
  vec_size := 1000
  limit_post := 0
  honour_range := false
  dynamic_apps := false
  log_x_forwarded_for := false
  fopen := fun _ => false

/-- A request with an `Accept` field that is sent twice. -/
def twoAccepts (v : Bytes) : Bytes :=
  lit "GET / HTTP/1.1\r\n" ++ ((lit "Accept: " ++ v) ++ CR :: LF ::
    ((lit "Accept: " ++ v) ++ CR :: LF :: (CR :: LF :: [])))

/-- The request variables in front of the two fields. -/
def getRootVars : List Pair :=
  [(lit "REQUEST_METHOD", lit "GET"), (lit "REQUEST_URI", lit "/"), (lit "PATH_INFO", lit "/"),
   (lit "QUERY_STRING", []), (lit "SERVER_PROTOCOL", lit "HTTP/1.1"), (lit "SCRIPT_NAME", []),
   (lit "SERVER_NAME", []), (lit "SERVER_PORT", lit "80"), (lit "REMOTE_ADDR", lit "127.0.0.1")]

theorem requestVars_getRoot (rest : Bytes) :
    requestVars bigCfg (lit "GET / HTTP/1.1\r\n" ++ rest) = .ok (getRootVars, rest, false) := rfl

theorem http_header_to_cgi_accept (v : Bytes) (hv : v ≠ []) (hsp : v.head? ≠ some SP) :
    http_header_to_cgi (lit "Accept: " ++ v) = some ⟨lit "Accept", v, true⟩ := by
  obtain ⟨c, v, rfl⟩ := exists_cons_of_ne_nil hv
  have hc : c ≠ SP := by simpa using hsp
  have hdrop : (c :: v).dropWhile (· = SP) = c :: v := dropWhile_cons_of_neg (by simpa using hc)
  show (if lit "Accept" = [] ∨ (c :: v).dropWhile (· = SP) = [] then none else
    some (⟨lit "Accept", (c :: v).dropWhile (· = SP), true⟩ : HeaderLine)) = _
  rw [hdrop, if_neg (by simp [lit])]

/-- The request is accepted, and its two fields become one variable. -/
theorem http_parse_twoAccepts (v : Bytes) (hv : v ≠ []) (hsp : v.head? ≠ some SP) (hcr : CR ∉ v)
    (hlen : v.length ≤ 65000) :
    ∃ req, http_parse bigCfg (twoAccepts v) = .ok req ∧
      req.written = getRootVars.map writtenVar ++
        [⟨lit "HTTP_ACCEPT", v ++ lit ", " ++ v, v ++ lit ", " ++ v⟩] := by
  have hline : CR ∉ lit "Accept: " ++ v := by
    rw [mem_append]
    rintro (h | h)
    · nomatch h
    · exact hcr h
  have hlen' : (lit "Accept: " ++ v).length ≤ 0xffff := by
    have : (lit "Accept: ").length = 8 := by decide
    rw [length_append]
    omega
  have hcgi := http_header_to_cgi_accept v hv hsp
  have hmerge : tableAdd ⟨lit "Accept", v, true⟩ [⟨lit "Accept", v, true⟩] =
      some [⟨lit "Accept", v ++ lit ", " ++ v, true⟩] := by
    have hsame : sameName (lit "Accept") (lit "Accept") = true := by decide
    have hdup : http_header_reject_duplicate (lit "Accept") = false := by decide
    simp [tableAdd, hsame, hdup, mergeSlot, upsgi_concat3n]
  have hloop : ∀ fuel, headerLoop (fuel + 3) [] ((lit "Accept: " ++ v) ++ CR :: LF ::
      ((lit "Accept: " ++ v) ++ CR :: LF :: (CR :: LF :: []))) =
      .ok [⟨lit "Accept", v ++ lit ", " ++ v, true⟩] := by
    intro fuel
    rw [headerLoop_line hline hlen' (by simp [lit]; decide) hcgi rfl,
      headerLoop_line hline hlen' (by decide) hcgi hmerge]
    rfl
  have hreq : http_parse bigCfg (twoAccepts v) = emitHeaders bigCfg.buffer_size false false
      [⟨lit "Accept", v ++ lit ", " ++ v, true⟩]
      (getRootVars.foldl (proto_base_add_upsgi_var bigCfg.buffer_size) {}) := by
    unfold http_parse twoAccepts
    rw [requestVars_getRoot]
    simp only [bind, Except.bind]
    obtain ⟨fuel, hfuel⟩ : ∃ fuel, ((lit "Accept: " ++ v) ++ CR :: LF ::
        ((lit "Accept: " ++ v) ++ CR :: LF :: (CR :: LF :: []))).length = fuel + 3 :=
      ⟨_, rfl⟩
    rw [hfuel, hloop]
  have hwritten : (getRootVars.foldl (proto_base_add_upsgi_var bigCfg.buffer_size) {}).written =
      getRootVars.map writtenVar := by
    decide +kernel
  have hbase :
      (getRootVars.foldl (proto_base_add_upsgi_var bigCfg.buffer_size) {}).buffer.length < 1000 := by
    decide +kernel
  generalize getRootVars.foldl (proto_base_add_upsgi_var bigCfg.buffer_size) {} = req at *
  have hroom : ¬bigCfg.buffer_size ≤ req.buffer.length +
      frameSize (lit "HTTP_ACCEPT", v ++ lit ", " ++ v) := by
    have h1 : (lit ", ").length = 2 := by decide
    have h2 : (lit "HTTP_ACCEPT").length = 11 := by decide
    simp only [frameSize, length_append, h1, h2, bigCfg]
    omega
  have hcl : isContentLength ⟨lit "Accept", v ++ lit ", " ++ v, true⟩ = false := rfl
  have hte : isChunkedTransferEncoding ⟨lit "Accept", v ++ lit ", " ++ v, true⟩ = false := rfl
  have hname : cgiName ⟨lit "Accept", v ++ lit ", " ++ v, true⟩ = lit "HTTP_ACCEPT" := rfl
  rw [emitHeaders, hcl, hte, http_add_upsgi_header_eq, hname, if_neg hroom] at hreq
  exact ⟨_, hreq, by rw [writtenSlot, hname, hwritten]⟩

theorem twoAccepts_not_faithful (n : Nat) (hlo : 32767 ≤ n) (hhi : n ≤ 65000) :
    ∃ req, http_parse bigCfg (twoAccepts (List.replicate n 65)) = .ok req ∧
      2 * (req.written.length : Int) + 5 ≤ wideVars.vec_size ∧ ¬PacketFaithful wideVars req := by
  obtain ⟨req, hreq, hwritten⟩ := http_parse_twoAccepts (List.replicate n 65)
    (by simp; omega) (by cases n <;> simp [List.replicate]; decide)
    (fun h => absurd (eq_of_mem_replicate h) (by decide)) (by simpa using hhi)
  refine ⟨req, hreq, ?_, ?_⟩
  · rw [hwritten, length_append, length_map, length_singleton]
    decide
  · rintro ⟨hcut, -⟩
    have hmem : (lit "HTTP_ACCEPT", List.replicate n 65 ++ lit ", " ++ List.replicate n 65) ∈
        req.written.map Written.pair := by
      rw [hwritten]
      simp [Written.pair]
    have hfit := (packetVars_fits hcut _ hmem).1.2
    have hsep : (lit ", ").length = 2 := by decide
    simp only [length_append, length_replicate, hsep] at hfit
    omega

/-- Two `Accept` fields of 32767 bytes are accepted and joined to 65536 bytes,
    which the packet announces as none. -/
theorem packetFaithful_fails :
    ∃ req, http_parse bigCfg (twoAccepts (List.replicate 32767 65)) = .ok req ∧
      2 * (req.written.length : Int) + 5 ≤ wideVars.vec_size ∧ ¬PacketFaithful wideVars req :=
  twoAccepts_not_faithful 32767 (by omega) (by omega)

instance (cfg : HttpConfig) (block : Bytes) : Decidable (LengthsFit cfg block) :=
  inferInstanceAs (Decidable (_ ∧ _))

theorem packetFaithful_getRoot :
    ∃ req, http_parse bigCfg (lit "GET / HTTP/1.1\r\nHost: a\r\n\r\n") = .ok req ∧
      PacketFaithful wideVars req := by
  obtain ⟨req, hreq⟩ := exists_ok
    (by decide +kernel : (http_parse bigCfg (lit "GET / HTTP/1.1\r\nHost: a\r\n\r\n")).isOk = true)
  refine ⟨req, hreq, (packetFaithful_iff hreq ?_).mpr (by decide +kernel)⟩
  rw [varCount_eq hreq]
  decide +kernel

end Upsgi
