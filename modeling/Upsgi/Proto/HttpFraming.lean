import Upsgi.Core.BodyFraming
import Upsgi.Proto.HttpRequestLine

/-! # Two decisions about a chunked body

    `http_parse` looks for the token `chunked` in the value of a
    Transfer-Encoding field when it checks the block.  The variable loop
    decides again, from the packet, by comparing the whole value of
    `HTTP_TRANSFER_ENCODING` with `chunked`.  This module says when the two
    agree.
-/

namespace Upsgi

open Framing List

/-! ### Fields that fit -/

/-- An emitted slot is smaller than the packet buffer. -/
theorem emitHeaders_room (bs : Nat) : ∀ (slots : List HeaderSlot) (cl te : Bool)
    (req req' : HttpRequest), emitHeaders bs cl te slots req = .ok req' →
    ∀ slot ∈ slots, frameSize (cgiName slot, slot.value) < bs
  | [], _, _, _, _, _, slot, hslot => by simp at hslot
  | s :: slots, cl, te, req, req', h, slot, hslot => by
      unfold emitHeaders at h
      split at h
      · cases h
      · split at h
        · cases h
        · split at h
          · cases h
          · next req1 hadd =>
            rw [http_add_upsgi_header_eq, Option.ite_none_left_eq_some] at hadd
            rcases List.mem_cons.mp hslot with rfl | hslot
            · omega
            · exact emitHeaders_room bs slots _ _ req1 req' h slot hslot

variable {cfg : HttpConfig} {block : Bytes}

/-- With a buffer of at most 64 kB every accepted field fits the length
    fields. -/
theorem fieldsFit_of_buffer_size {req : HttpRequest} (h : http_parse cfg block = .ok req)
    (hbs : cfg.buffer_size ≤ 65536) :
    FieldsFit (receivedFields cfg block) := by
  intro f hf
  obtain ⟨vars, ptr, ib, hvars⟩ := http_parse_requestVars h
  simp only [http_parse, hvars, bind, Except.bind] at h
  simp only [receivedFields, hvars] at hf ⊢
  split at h
  · cases h
  · next t ht =>
    obtain ⟨s, hs, hname, hvalue⟩ := field_eq_slot (headerLoop_tableInv ht) hf
    have hroom := emitHeaders_room _ _ _ _ _ _ h s hs
    rw [hname, hvalue] at hroom
    simp only [frameSize] at hroom
    omega

/-! ### The decision of the variable loop -/

/-- A field that the variable loop takes for a chunked body: it becomes
    `HTTP_TRANSFER_ENCODING` and its whole value is `chunked`. -/
def ExactlyChunked (f : HeaderLine) : Prop :=
  MakesChunked (cgiName f, f.value)

instance (f : HeaderLine) : Decidable (ExactlyChunked f) :=
  inferInstanceAs (Decidable (MakesChunked _))

/-- Fields of that variable are never merged. -/
theorem reject_duplicate_of_transfer_encoding {f : HeaderLine}
    (h : cgiName f = lit "HTTP_TRANSFER_ENCODING") :
    http_header_reject_duplicate f.key = true := by
  have hnorm : http_header_normalize_name f.key ∈
      [lit "TRANSFER_ENCODING", lit "HTTP_TRANSFER_ENCODING"] := by
    unfold cgiName at h
    cases hp : f.has_prefix with
    | true =>
      rw [hp, if_pos rfl, show lit "HTTP_TRANSFER_ENCODING" = lit "HTTP_" ++ lit "TRANSFER_ENCODING"
        from rfl, append_cancel_left_eq] at h
      simp [h]
    | false =>
      rw [hp] at h
      simpa using Or.inr h
  unfold http_header_reject_duplicate http_header_allow_duplicate_merge http_header_name_eq
  generalize http_header_normalize_name f.key = name at hnorm
  revert name
  decide +kernel

/-- Among accepted fields that fit, the variable loop sees a chunked body
    exactly when one of them is exactly chunked. -/
theorem body_is_chunked_iff_field {vcfg : VarsConfig} {req : HttpRequest} {r : WsgiRequest}
    (h : http_parse cfg block = .ok req)
    (hloop : upsgi_parse_vars_loop vcfg (upsgi_proto_hooks_setup vcfg) {} req.buffer = some r)
    (hfit : FieldsFit (receivedFields cfg block)) :
    r.body_is_chunked = true ↔ ∃ f ∈ receivedFields cfg block, ExactlyChunked f := by
  obtain ⟨-, hwritten, hinv⟩ := http_parse_ok h
  rw [body_is_chunked_iff hloop, packetVars_of_fieldsFit h hfit]
  simp only [Option.some.injEq, exists_eq_left']
  constructor
  · rintro ⟨e, he, hmakes⟩
    rw [hwritten, map_append, map_map, map_map, mem_append, mem_map,
      mem_map] at he
    rcases he with ⟨v, hv, rfl⟩ | ⟨s, hs, rfl⟩
    · -- no request variable has this name
      have hname : v.1 = lit "HTTP_TRANSFER_ENCODING" := hmakes.1
      have := acceptedVars_names v hv
      rw [hname] at this
      nomatch this
    · exact ⟨s, (hinv.single s (reject_duplicate_of_transfer_encoding hmakes.1)).mp hs, hmakes⟩
  · rintro ⟨f, hf, hmakes⟩
    have hmem := (hinv.single f (reject_duplicate_of_transfer_encoding hmakes.1)).mpr hf
    refine ⟨(writtenSlot f).frame, ?_, hmakes⟩
    rw [hwritten, map_append]
    exact mem_append_right _ (mem_map_of_mem (mem_map_of_mem hmem))

/-! ### Agreement -/

/-- The two decisions agree: when `http_parse` takes a received field for a
    chunked body, so does the variable loop. -/
def FramingAgrees (cfg : HttpConfig) (block : Bytes) (r : WsgiRequest) : Prop :=
  (∃ f ∈ receivedFields cfg block, isChunkedTransferEncoding f = true) → r.body_is_chunked = true

/-- No field has a `chunked` token, or some field is exactly chunked. -/
def ChunkedSpelledOut (fs : List HeaderLine) : Prop :=
  (∀ f ∈ fs, isChunkedTransferEncoding f = false) ∨ ∃ f ∈ fs, ExactlyChunked f

instance (fs : List HeaderLine) : Decidable (ChunkedSpelledOut fs) :=
  inferInstanceAs (Decidable (_ ∨ _))

/-- On every accepted block whose packet the variable loop accepts: when all
    fields fit, and this is so with every buffer of at most 64 kB, the two
    decisions agree exactly when no field has the token or some field is exactly
    chunked; and with a larger buffer this condition, together with fields that
    fit, is still enough. -/
theorem framingAgrees_iff {cfg : HttpConfig} {vcfg : VarsConfig} {block : Bytes}
    {req : HttpRequest} {r : WsgiRequest} (h : http_parse cfg block = .ok req)
    (hloop : upsgi_parse_vars_loop vcfg (upsgi_proto_hooks_setup vcfg) {} req.buffer = some r) :
    (cfg.buffer_size ≤ 65536 ∨ FieldsFit (receivedFields cfg block) →
      (FramingAgrees cfg block r ↔ ChunkedSpelledOut (receivedFields cfg block))) ∧
    ((∀ f ∈ receivedFields cfg block, isChunkedTransferEncoding f = false) ∨
      (FieldsFit (receivedFields cfg block) ∧ ∃ f ∈ receivedFields cfg block, ExactlyChunked f) →
      FramingAgrees cfg block r) := by
  constructor
  · intro hcond
    have hfit : FieldsFit (receivedFields cfg block) := by
      rcases hcond with hbs | hfit
      · exact fieldsFit_of_buffer_size h hbs
      · exact hfit
    unfold FramingAgrees ChunkedSpelledOut
    rw [body_is_chunked_iff_field h hloop hfit]
    constructor
    · intro himp
      by_cases htoken : ∃ f ∈ receivedFields cfg block, isChunkedTransferEncoding f = true
      · exact Or.inr (himp htoken)
      · exact Or.inl (by simpa using htoken)
    · rintro (hnone | hexact) ⟨f, hf, htoken⟩
      · rw [hnone f hf] at htoken
        cases htoken
      · exact hexact
  · rintro (hnone | ⟨hfit, hexact⟩) ⟨f, hf, htoken⟩
    · rw [hnone f hf] at htoken
      cases htoken
    · exact (body_is_chunked_iff_field h hloop hfit).mpr hexact

theorem exists_request {vcfg : VarsConfig}
    (h : ((http_parse cfg block).toOption.bind fun req => upsgi_parse_vars_loop vcfg
      (upsgi_proto_hooks_setup vcfg) {} req.buffer).isSome = true) :
    ∃ req r, http_parse cfg block = .ok req ∧
      upsgi_parse_vars_loop vcfg (upsgi_proto_hooks_setup vcfg) {} req.buffer = some r := by
  cases hreq : http_parse cfg block with
  | error => simp [hreq, Except.toOption] at h
  | ok req =>
    rw [hreq] at h
    obtain ⟨r, hr⟩ := Option.isSome_iff_exists.mp h
    exact ⟨req, r, rfl, hr⟩

/-- A server with the default buffer of 4 kB. -/
def defaultCfg : HttpConfig := { bigCfg with buffer_size := 4096 }

/-- `gzip, chunked` is accepted with the token found, and the body is not taken
    for chunked. -/
theorem framingAgrees_fails :
    ∃ req r, http_parse defaultCfg
        (lit "POST / HTTP/1.1\r\nTransfer-Encoding: gzip, chunked\r\n\r\n") = .ok req ∧
      upsgi_parse_vars_loop wideVars (upsgi_proto_hooks_setup wideVars) {} req.buffer = some r ∧
      ¬FramingAgrees defaultCfg
        (lit "POST / HTTP/1.1\r\nTransfer-Encoding: gzip, chunked\r\n\r\n") r := by
  obtain ⟨req, r, hreq, hloop⟩ := exists_request (by decide +kernel :
    ((http_parse defaultCfg (lit
      "POST / HTTP/1.1\r\nTransfer-Encoding: gzip, chunked\r\n\r\n")).toOption.bind fun req =>
      upsgi_parse_vars_loop wideVars (upsgi_proto_hooks_setup wideVars) {} req.buffer).isSome = true)
  refine ⟨req, r, hreq, hloop, fun h => ?_⟩
  have hchunked := h (by decide +kernel)
  rw [body_is_chunked_iff_field hreq hloop (by decide +kernel)] at hchunked
  exact absurd hchunked (by decide +kernel)

theorem framingAgrees_chunked :
    ∃ req r, http_parse defaultCfg
        (lit "POST / HTTP/1.1\r\nTransfer-Encoding: Chunked\r\n\r\n") = .ok req ∧
      upsgi_parse_vars_loop wideVars (upsgi_proto_hooks_setup wideVars) {} req.buffer = some r ∧
      FramingAgrees defaultCfg
        (lit "POST / HTTP/1.1\r\nTransfer-Encoding: Chunked\r\n\r\n") r := by
  obtain ⟨req, r, hreq, hloop⟩ := exists_request (by decide +kernel :
    ((http_parse defaultCfg
      (lit "POST / HTTP/1.1\r\nTransfer-Encoding: Chunked\r\n\r\n")).toOption.bind fun req =>
      upsgi_parse_vars_loop wideVars (upsgi_proto_hooks_setup wideVars) {} req.buffer).isSome = true)
  exact ⟨req, r, hreq, hloop,
    ((framingAgrees_iff hreq hloop).1 (Or.inl (by decide))).mpr (by decide +kernel)⟩

end Upsgi
